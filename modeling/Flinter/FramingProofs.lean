/-! # Cutting a byte stream into messages

    A receiver learns the length of the message at the front of its buffer from
    the bytes it has (zero: not yet), waits until that many are there, hands
    the message on, and stops when whoever gets the message says so.  `cut` is
    that rule over one buffer.

    The result of this file is `cut_append`: for a length rule that does not
    take back an answer, cutting `a ++ b` is cutting `a` and then cutting what
    was left of it with `b` behind.  How the stream was split does not matter. -/

namespace Framing

universe u v

variable {α : Type u} {β : Type v}

/-- The length rule, and who is told of the messages: `stop seen m` is `none`
    to go on. -/
structure Receiver (α : Type u) (β : Type v) where
  length : List α → Int
  stop : List (List α) → List α → Option β

/-- A non-zero length is final: more bytes do not change it. -/
def PrefixConsistent (length : List α → Int) : Prop :=
  ∀ buf more, buf ≠ [] → length buf ≠ 0 → length (buf ++ more) = length buf

/-- What the front of a buffer is. -/
inductive Look (α : Type u) where
  | wait (known : Nat)
  | fail
  | message (m rest : List α)

/-- The length of the message at the front: `known` if it was learned before
    (it is zero if not), else what the rule says. -/
def asked (length : List α → Int) (known : Nat) (buf : List α) : Int :=
  if known = 0 then length buf else known

/-- Look at the front of a buffer for a message of that length. -/
def look (length : List α → Int) (known : Nat) (buf : List α) : Look α :=
  if buf.length = 0 then .wait known
  else if asked length known buf < 0 then .fail
  else if asked length known buf = 0 then .wait 0
  else if buf.length < (asked length known buf).toNat then
    .wait (asked length known buf).toNat
  else
    .message (buf.take (asked length known buf).toNat)
      (buf.drop (asked length known buf).toNat)

/-- How cutting a buffer ends. -/
inductive Outcome (β : Type v) where
  | more
  | failed
  | stopped (why : β)

/-- The messages seen, then the bytes left and the length known of them. -/
structure Cut (α : Type u) (β : Type v) where
  outcome : Outcome β
  seen : List (List α)
  known : Nat
  rest : List α

-- ── One look ─────────────────────────────────────────────────────────────────

/-- What a look comes to, and why. -/
inductive Looked (length : List α → Int) (known : Nat) (buf : List α) :
    Look α → Prop where
  | empty : buf.length = 0 → Looked length known buf (.wait known)
  | negative : buf.length ≠ 0 → asked length known buf < 0 →
      Looked length known buf .fail
  | undecided : buf.length ≠ 0 → asked length known buf = 0 →
      Looked length known buf (.wait 0)
  | short : 0 < asked length known buf → buf.length ≠ 0 →
      buf.length < (asked length known buf).toNat →
      Looked length known buf (.wait (asked length known buf).toNat)
  | whole : 0 < asked length known buf → buf.length ≠ 0 →
      (asked length known buf).toNat ≤ buf.length →
      Looked length known buf (.message (buf.take (asked length known buf).toNat)
        (buf.drop (asked length known buf).toNat))

theorem looked (length : List α → Int) (known : Nat) (buf : List α) :
    Looked length known buf (look length known buf) := by
  rw [look]
  split
  next hbuf => exact .empty hbuf
  next hbuf =>
  split
  next hneg => exact .negative hbuf hneg
  next hneg =>
  split
  next hzero => exact .undecided hbuf hzero
  next hzero =>
  have hpos : 0 < asked length known buf := by omega
  split
  next hlen => exact .short hpos hbuf hlen
  next hlen => exact .whole hpos hbuf (Nat.le_of_not_lt hlen)

theorem look_nil (length : List α → Int) (known : Nat) :
    look length known [] = .wait known := if_pos rfl

/-- A message is a non-empty front of the buffer. -/
theorem look_message {length : List α → Int} {known : Nat} {buf m rest : List α}
    (h : look length known buf = .message m rest) : m ≠ [] ∧ m ++ rest = buf := by
  have hlooked := looked length known buf
  rw [h] at hlooked
  cases hlooked with
  | whole hpos hbuf hlen =>
      refine ⟨fun hnil => ?_, List.take_append_drop _ _⟩
      have hlen' := congrArg List.length hnil
      rw [List.length_take, List.length_nil] at hlen'
      omega

theorem look_shorter {length : List α → Int} {known : Nat} {buf m rest : List α}
    (h : look length known buf = .message m rest) : rest.length < buf.length := by
  obtain ⟨hm, happ⟩ := look_message h
  rw [← happ, List.length_append]
  have hpos := List.length_pos_iff.mpr hm
  omega

/-- While the receiver waits for a known length, the bytes are too few. -/
theorem look_wait {length : List α → Int} {known known' : Nat} {buf : List α}
    (h : look length known buf = .wait known') (hk : known' ≠ 0) :
    buf.length < known' := by
  have hlooked := looked length known buf
  rw [h] at hlooked
  cases hlooked with
  | empty hbuf => omega
  | undecided hbuf hzero => exact absurd rfl hk
  | short hpos hbuf hlen => exact hlen

theorem asked_known {length : List α → Int} {known : Nat} {buf : List α}
    (hk : known ≠ 0) : asked length known buf = known := if_neg hk

/-- A known length is the length of the message. -/
theorem look_known_message (length : List α → Int) {known : Nat} {m : List α}
    (hk : known ≠ 0) (hm : m.length = known) (rest : List α) :
    look length known (m ++ rest) = .message m rest := by
  rw [look, asked_known hk, List.length_append, if_neg (by omega),
    if_neg (by omega), if_neg (by omega), Int.toNat_natCast, if_neg (by omega), ← hm,
    List.take_left, List.drop_left]

/-- Waiting is stable: the same bytes give the same answer. -/
theorem look_again {length : List α → Int} {known known' : Nat} {buf : List α}
    (h : look length known buf = .wait known') :
    look length known' buf = .wait known' := by
  have hlooked := looked length known buf
  rw [h] at hlooked
  cases hlooked with
  | empty hbuf => exact h
  | undecided hbuf hzero =>
      -- an undecided length was not known before
      by_cases hk : known = 0
      · rw [hk] at h
        exact h
      · rw [asked_known hk] at hzero
        exact absurd (Int.natCast_eq_zero.mp hzero) hk
  | short hpos hbuf hlen =>
      have hknown : asked length (asked length known buf).toNat buf =
          asked length known buf := by
        rw [asked_known (by omega), Int.toNat_of_nonneg (by omega)]
      have hneg : ¬asked length known buf < 0 := by omega
      rw [look, hknown, if_neg hbuf, if_neg hneg, if_neg (Int.ne_of_gt hpos), if_pos hlen]

section Append

variable {length : List α → Int} (hpc : PrefixConsistent length)

include hpc

/-- The length asked for does not change when bytes are added. -/
theorem asked_append {known : Nat} {buf : List α} (more : List α)
    (hbuf : buf.length ≠ 0) (hret : asked length known buf ≠ 0) :
    asked length known (buf ++ more) = asked length known buf := by
  rw [asked] at hret ⊢
  rw [asked]
  split
  next hk =>
    rw [if_pos hk] at hret
    exact hpc buf more (fun hb => hbuf (by rw [hb]; rfl)) hret
  · rfl

/-- Bytes added behind a whole message stay behind it. -/
theorem look_append_message {known : Nat} {buf m rest : List α}
    (h : look length known buf = .message m rest) (more : List α) :
    look length known (buf ++ more) = .message m (rest ++ more) := by
  have hlooked := looked length known buf
  rw [h] at hlooked
  cases hlooked with
  | whole hpos hbuf hlen =>
      have hneg : ¬asked length known buf < 0 := by omega
      have hzero : asked length known buf ≠ 0 := by omega
      rw [look, asked_append hpc more hbuf hzero, if_neg hneg, if_neg hzero,
        List.length_append, if_neg (by omega), if_neg (by omega),
        List.take_append_of_le_length hlen, List.drop_append_of_le_length hlen]

/-- A failure stays a failure. -/
theorem look_append_fail {known : Nat} {buf : List α}
    (h : look length known buf = .fail) (more : List α) :
    look length known (buf ++ more) = .fail := by
  have hlooked := looked length known buf
  rw [h] at hlooked
  cases hlooked with
  | negative hbuf hneg =>
      rw [look, asked_append hpc more hbuf (Int.ne_of_lt hneg), if_pos hneg,
        List.length_append, if_neg (by omega)]

/-- What was learned while waiting is what a look at more bytes would learn. -/
theorem look_append_wait {known known' : Nat} {buf : List α}
    (h : look length known buf = .wait known') (more : List α) :
    look length known (buf ++ more) = look length known' (buf ++ more) := by
  have hlooked := looked length known buf
  rw [h] at hlooked
  cases hlooked with
  | empty hbuf => rfl
  | undecided hbuf hzero =>
      by_cases hk : known = 0
      · rw [hk]
      · rw [asked_known hk] at hzero
        omega
  | short hpos hbuf hlen =>
      have hsame := asked_append hpc more hbuf (Int.ne_of_gt hpos)
      have hlearned : asked length (asked length known buf).toNat (buf ++ more)
          = asked length known (buf ++ more) := by
        rw [asked_known (by omega), hsame, Int.toNat_of_nonneg (by omega)]
      have hne : (buf ++ more).length ≠ 0 := by
        rw [List.length_append]
        omega
      rw [look, look, hlearned, if_neg hne, if_neg hne]

end Append

-- ── The whole buffer ─────────────────────────────────────────────────────────

/-- Cut a buffer into messages until it runs out or the receiver stops. -/
def cut (r : Receiver α β) (known : Nat) (seen : List (List α)) (buf : List α) :
    Cut α β :=
  match _h : look r.length known buf with
  | .wait known => ⟨.more, seen, known, buf⟩
  | .fail => ⟨.failed, seen, 0, buf⟩
  | .message m rest =>
    match r.stop seen m with
    | some why => ⟨.stopped why, seen ++ [m], 0, rest⟩
    | none => cut r 0 (seen ++ [m]) rest
termination_by buf.length
decreasing_by exact look_shorter _h

variable {r : Receiver α β}

theorem cut_wait {known known' : Nat} {seen : List (List α)} {buf : List α}
    (h : look r.length known buf = .wait known') :
    cut r known seen buf = ⟨.more, seen, known', buf⟩ := by
  rw [cut]
  split
  next heq => rw [h] at heq; obtain rfl := Look.wait.inj heq; rfl
  next heq => rw [h] at heq; cases heq
  next heq => rw [h] at heq; cases heq

theorem cut_fail {known : Nat} {seen : List (List α)} {buf : List α}
    (h : look r.length known buf = .fail) :
    cut r known seen buf = ⟨.failed, seen, 0, buf⟩ := by
  rw [cut]
  split
  next heq => rw [h] at heq; cases heq
  · rfl
  next heq => rw [h] at heq; cases heq

theorem cut_message {known : Nat} {seen : List (List α)} {buf m rest : List α}
    (h : look r.length known buf = .message m rest) :
    cut r known seen buf = match r.stop seen m with
      | some why => ⟨.stopped why, seen ++ [m], 0, rest⟩
      | none => cut r 0 (seen ++ [m]) rest := by
  rw [cut]
  split
  next heq => rw [h] at heq; cases heq
  next heq => rw [h] at heq; cases heq
  next heq =>
    rw [h] at heq
    obtain ⟨rfl, rfl⟩ := Look.message.inj heq
    rfl

theorem cut_stop {known : Nat} {seen : List (List α)} {buf m rest : List α}
    {why : β} (h : look r.length known buf = .message m rest)
    (hs : r.stop seen m = some why) :
    cut r known seen buf = ⟨.stopped why, seen ++ [m], 0, rest⟩ := by
  rw [cut_message h, hs]

theorem cut_go {known : Nat} {seen : List (List α)} {buf m rest : List α}
    (h : look r.length known buf = .message m rest) (hs : r.stop seen m = none) :
    cut r known seen buf = cut r 0 (seen ++ [m]) rest := by
  rw [cut_message h, hs]

/-- Induction along a cut: a message that does not stop the receiver, then the
    bytes behind it. -/
theorem cut_induction (r : Receiver α β)
    {P : Nat → List (List α) → List α → Prop}
    (wait : ∀ known seen buf known', look r.length known buf = .wait known' →
      P known seen buf)
    (fail : ∀ known seen buf, look r.length known buf = .fail → P known seen buf)
    (stop : ∀ known seen buf m rest why, look r.length known buf = .message m rest →
      r.stop seen m = some why → P known seen buf)
    (go : ∀ known seen buf m rest, look r.length known buf = .message m rest →
      r.stop seen m = none → P 0 (seen ++ [m]) rest → P known seen buf) :
    ∀ known seen buf, P known seen buf := by
  intro known seen buf
  induction hn : buf.length using Nat.strongRecOn generalizing known seen buf with
  | _ n ih =>
      cases hl : look r.length known buf with
      | wait known' => exact wait known seen buf known' hl
      | fail => exact fail known seen buf hl
      | message m rest =>
          cases hs : r.stop seen m with
          | some why => exact stop known seen buf m rest why hl hs
          | none =>
              have hlt : rest.length < n := hn ▸ look_shorter hl
              exact go known seen buf m rest hl hs (ih _ hlt 0 _ rest rfl)

/-- **NOTHING IS LOST OR DUPLICATED**: the messages and the rest are the
    buffer. -/
theorem cut_flatten (known : Nat) (seen : List (List α)) (buf : List α) :
    (cut r known seen buf).seen.flatten ++ (cut r known seen buf).rest
      = seen.flatten ++ buf := by
  induction known, seen, buf using cut_induction r with
  | wait known seen buf known' hl => rw [cut_wait hl]
  | fail known seen buf hl => rw [cut_fail hl]
  | stop known seen buf m rest why hl hs =>
      rw [cut_stop hl hs, ← (look_message hl).2]
      simp
  | go known seen buf m rest hl hs ih =>
      rw [cut_go hl hs, ih, ← (look_message hl).2]
      simp

/-- The rest is the end of the buffer. -/
theorem cut_rest (known : Nat) (seen : List (List α)) (buf : List α) :
    (cut r known seen buf).rest <:+ buf := by
  induction known, seen, buf using cut_induction r with
  | wait known seen buf known' hl => rewrite [cut_wait hl]; exact List.suffix_rfl
  | fail known seen buf hl => rewrite [cut_fail hl]; exact List.suffix_rfl
  | stop known seen buf m rest why hl hs =>
      rw [cut_stop hl hs]
      exact ⟨m, (look_message hl).2⟩
  | go known seen buf m rest hl hs ih =>
      rw [cut_go hl hs]
      exact ih.trans ⟨m, (look_message hl).2⟩

/-- The receiver went on after each of these messages. -/
def Unstopped (r : Receiver α β) (seen : List (List α)) : Prop :=
  ∀ pre m post, seen = pre ++ m :: post → r.stop pre m = none

theorem Unstopped.snoc {seen : List (List α)} {m : List α}
    (hu : Unstopped r seen) (hs : r.stop seen m = none) :
    Unstopped r (seen ++ [m]) := by
  intro pre m' post heq
  rcases List.eq_nil_or_concat post with rfl | ⟨post', x, rfl⟩
  · obtain ⟨rfl, hm⟩ := List.append_inj' heq rfl
    obtain rfl := List.singleton_inj.mp hm
    exact hs
  · rw [List.concat_eq_append, ← List.cons_append, ← List.append_assoc] at heq
    exact hu pre m' post' (List.append_inj' heq rfl).1

/-- A receiver is told of no message behind the one it stops at. -/
theorem cut_unstopped (known : Nat) (seen : List (List α)) (buf : List α) :
    Unstopped r seen →
      (∀ why, (cut r known seen buf).outcome = .stopped why →
        ∃ init m, (cut r known seen buf).seen = init ++ [m] ∧ Unstopped r init ∧
          r.stop init m = some why) ∧
      ((∀ why, (cut r known seen buf).outcome ≠ .stopped why) →
        Unstopped r (cut r known seen buf).seen) := by
  induction known, seen, buf using cut_induction r with
  | wait known seen buf known' hl =>
      intro hu
      rw [cut_wait hl]
      exact ⟨fun _ hm => (by cases hm), fun _ => hu⟩
  | fail known seen buf hl =>
      intro hu
      rw [cut_fail hl]
      exact ⟨fun _ hm => (by cases hm), fun _ => hu⟩
  | stop known seen buf m rest why hl hs =>
      intro hu
      rw [cut_stop hl hs]
      refine ⟨fun why' hm => ?_, fun hm => absurd rfl (hm why)⟩
      obtain rfl := Outcome.stopped.inj hm
      exact ⟨seen, m, rfl, hu, hs⟩
  | go known seen buf m rest hl hs ih =>
      intro hu
      rw [cut_go hl hs]
      exact ih (hu.snoc hs)

/-- With more to come, no whole message is left. -/
theorem cut_settled (known : Nat) (seen : List (List α)) (buf : List α) :
    (cut r known seen buf).outcome = .more →
      look r.length (cut r known seen buf).known (cut r known seen buf).rest
        = .wait (cut r known seen buf).known := by
  induction known, seen, buf using cut_induction r with
  | wait known seen buf known' hl =>
      rw [cut_wait hl]
      intro _
      exact look_again hl
  | fail known seen buf hl =>
      rw [cut_fail hl]
      intro hm
      cases hm
  | stop known seen buf m rest why hl hs =>
      rw [cut_stop hl hs]
      intro hm
      cases hm
  | go known seen buf m rest hl hs ih => rw [cut_go hl hs]; exact ih

/-- With more to come, a length is known of some bytes or of none. -/
theorem cut_known (known : Nat) (seen : List (List α)) (buf : List α) :
    (known = 0 ∨ buf ≠ []) → (cut r known seen buf).outcome = .more →
      (cut r known seen buf).known = 0 ∨ (cut r known seen buf).rest ≠ [] := by
  induction known, seen, buf using cut_induction r with
  | wait known seen buf known' hl =>
      intro hk _
      have hlooked := looked r.length known buf
      rw [cut_wait hl]
      rw [hl] at hlooked
      cases hlooked with
      | empty hbuf => exact hk
      | undecided hbuf hzero => exact Or.inl rfl
      | short hpos hbuf hlen => exact Or.inr (List.length_pos_iff.mp (Nat.pos_of_ne_zero hbuf))
  | fail known seen buf hl =>
      rw [cut_fail hl]
      intro _ hm
      cases hm
  | stop known seen buf m rest why hl hs =>
      rw [cut_stop hl hs]
      intro _ hm
      cases hm
  | go known seen buf m rest hl hs ih =>
      rw [cut_go hl hs]
      exact fun _ => ih (Or.inl rfl)

section Append

variable (hpc : PrefixConsistent r.length)

include hpc

/-- **CUTTING DOES NOT DEPEND ON WHERE THE STREAM IS SPLIT**, as long as the
    receiver goes on. -/
theorem cut_append (known : Nat) (seen : List (List α)) (a b : List α) :
    (cut r known seen a).outcome = .more →
      cut r known seen (a ++ b) = cut r (cut r known seen a).known
        (cut r known seen a).seen ((cut r known seen a).rest ++ b) := by
  induction known, seen, a using cut_induction r with
  | wait known seen a known' hl =>
      intro _
      rw [cut_wait hl]
      -- the same look decides both sides
      have hsame := look_append_wait hpc hl b
      cases hl' : look r.length known' (a ++ b) with
      | wait k => rw [cut_wait hl', cut_wait (hsame.trans hl')]
      | fail => rw [cut_fail hl', cut_fail (hsame.trans hl')]
      | message m rest => rw [cut_message hl', cut_message (hsame.trans hl')]
  | fail known seen a hl =>
      rw [cut_fail hl]
      intro hm
      cases hm
  | stop known seen a m rest why hl hs =>
      rw [cut_stop hl hs]
      intro hm
      cases hm
  | go known seen a m rest hl hs ih =>
      rw [cut_go hl hs, cut_go (look_append_message hpc hl b) hs]
      exact ih

/-- A receiver that stopped has stopped at the same message whatever comes
    behind. -/
theorem cut_append_end (known : Nat) (seen : List (List α)) (a b : List α) :
    (cut r known seen a).outcome ≠ .more →
      (cut r known seen (a ++ b)).outcome = (cut r known seen a).outcome ∧
      (cut r known seen (a ++ b)).seen = (cut r known seen a).seen := by
  induction known, seen, a using cut_induction r with
  | wait known seen a known' hl =>
      rw [cut_wait hl]
      intro hm
      exact absurd rfl hm
  | fail known seen a hl =>
      intro _
      rw [cut_fail hl, cut_fail (look_append_fail hpc hl b)]
      exact ⟨rfl, rfl⟩
  | stop known seen a m rest why hl hs =>
      intro _
      rw [cut_stop hl hs, cut_stop (look_append_message hpc hl b) hs]
      exact ⟨rfl, rfl⟩
  | go known seen a m rest hl hs ih =>
      rw [cut_go hl hs, cut_go (look_append_message hpc hl b) hs]
      exact ih

end Append

-- ── A buffer that arrives in chunks ──────────────────────────────────────────

/-- The next chunk goes behind what is left; a receiver that stopped takes
    nothing more. -/
def Cut.feed (r : Receiver α β) (c : Cut α β) (chunk : List α) : Cut α β :=
  match c.outcome with
  | .more => cut r c.known c.seen (c.rest ++ chunk)
  | _ => c

/-- Before the first chunk. -/
def Cut.empty : Cut α β := ⟨.more, [], 0, []⟩

theorem Cut.feed_more {c : Cut α β} (hc : c.outcome = .more) (chunk : List α) :
    c.feed r chunk = cut r c.known c.seen (c.rest ++ chunk) := by
  rw [Cut.feed, hc]

theorem Cut.feed_end {c : Cut α β} (hc : c.outcome ≠ .more) (chunks : List (List α)) :
    chunks.foldl (Cut.feed r) c = c := by
  induction chunks with
  | nil => rfl
  | cons chunk chunks ih =>
      have hfeed : c.feed r chunk = c := by
        rw [Cut.feed]
        split
        next hm => exact absurd hm hc
        · rfl
      rw [List.foldl_cons, hfeed]
      exact ih

theorem feed_unstopped (chunks : List (List α)) :
    ∀ c : Cut α β, Unstopped r c.seen → c.outcome = .more →
      (∀ why, (chunks.foldl (Cut.feed r) c).outcome = .stopped why →
        ∃ init m, (chunks.foldl (Cut.feed r) c).seen = init ++ [m] ∧
          Unstopped r init ∧ r.stop init m = some why) ∧
      ((∀ why, (chunks.foldl (Cut.feed r) c).outcome ≠ .stopped why) →
        Unstopped r (chunks.foldl (Cut.feed r) c).seen) := by
  induction chunks with
  | nil =>
      intro c hu hc
      refine ⟨fun why hm => ?_, fun _ => hu⟩
      rw [List.foldl_nil, hc] at hm
      cases hm
  | cons chunk chunks ih =>
      intro c hu hc
      have hcut := cut_unstopped (r := r) c.known c.seen (c.rest ++ chunk) hu
      rw [List.foldl_cons, Cut.feed_more hc]
      by_cases hm : (cut r c.known c.seen (c.rest ++ chunk)).outcome = .more
      · refine ih _ (hcut.2 fun why hs => ?_) hm
        rw [hm] at hs
        cases hs
      · rw [Cut.feed_end hm]
        exact hcut

/-- **CHUNKS ARE IMMATERIAL**: feeding a stream in any chunks ends as cutting
    the whole stream does, with the same messages, and while there is more to
    come with the same rest. -/
theorem feed_flatten (hpc : PrefixConsistent r.length) (chunks : List (List α)) :
    ∀ c : Cut α β, c.outcome = .more →
      look r.length c.known c.rest = .wait c.known →
      (chunks.foldl (Cut.feed r) c).outcome
          = (cut r c.known c.seen (c.rest ++ chunks.flatten)).outcome ∧
      (chunks.foldl (Cut.feed r) c).seen
          = (cut r c.known c.seen (c.rest ++ chunks.flatten)).seen ∧
      ((chunks.foldl (Cut.feed r) c).outcome = .more →
        chunks.foldl (Cut.feed r) c
          = cut r c.known c.seen (c.rest ++ chunks.flatten)) := by
  induction chunks with
  | nil =>
      intro c hc hset
      have hcut : cut r c.known c.seen (c.rest ++ [].flatten) = c := by
        rw [List.flatten_nil, List.append_nil, cut_wait hset, ← hc]
      rw [hcut]
      exact ⟨rfl, rfl, fun _ => rfl⟩
  | cons chunk chunks ih =>
      intro c hc hset
      rw [List.foldl_cons, Cut.feed_more hc, List.flatten_cons, ← List.append_assoc]
      by_cases hm : (cut r c.known c.seen (c.rest ++ chunk)).outcome = .more
      · rw [cut_append hpc _ _ _ _ hm]
        exact ih _ hm (cut_settled _ _ _ hm)
      · have hend := cut_append_end hpc c.known c.seen (c.rest ++ chunk)
          chunks.flatten hm
        rw [Cut.feed_end hm, hend.1, hend.2]
        exact ⟨rfl, rfl, fun h => absurd h hm⟩

end Framing
