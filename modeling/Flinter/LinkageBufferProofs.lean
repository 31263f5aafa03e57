import Flinter.LinkageFramingProofs
import Flinter.LinkageTimeoutProofs

/-! # The receive buffer of a linkage

    Between two calls of `OnReceived` the linkage keeps `_rbuffer`, the length
    `_rlength` it learned of it and the stamp `_receive_jam`.  While it goes on
    and is not being closed, the three agree (`receive_buffer_invariant`): the
    buffer is what came less what was delivered, a known length is more than
    the buffer has, and the stamp is set while bytes wait.

    The call that completes a message of known length subtracts twice and
    asserts twice.  All four rest on that agreement (`Granted`). -/

namespace FlinterLinkage

open World Runs Framing

variable {h : LinkageHandler}

-- ── What the handler's calls leave alone ─────────────────────────────────────

/-- `w'` has the reading stamp of `w`, and its clock. -/
structure SameJam (w w' : World) : Prop where
  receiveJam : w'.receiveJam = w.receiveJam
  now : w'.now = w.now

theorem SameJam.trans {w₁ w₂ w₃ : World} (h₁ : SameJam w₁ w₂) (h₂ : SameJam w₂ w₃) :
    SameJam w₁ w₃ :=
  ⟨h₂.receiveJam.trans h₁.receiveJam, h₂.now.trans h₁.now⟩

theorem onEventShutdown_jam (w : World) : SameJam w w.onEventShutdown.2.2 := by
  cases hc : w.closed with
  | true => rw [onEventShutdown_closed hc]; exact ⟨rfl, rfl⟩
  | false => rw [onEventShutdown_open hc]; exact ⟨rfl, rfl⟩

theorem request_jam (w : World) (call : Request) : SameJam w (w.request call) := by
  cases call with
  | send buffer =>
      have hs := send_cases w buffer
      show SameJam w (w.sendCall buffer)
      rw [sendCall]
      generalize (w.send buffer).1 = ret at hs ⊢
      generalize (w.send buffer).2 = w' at hs ⊢
      cases hs with
      | refused => exact ⟨rfl, rfl⟩
      | nothing => exact ⟨rfl, rfl⟩
      | queued => exact ⟨rfl, rfl⟩
      | full => exact ⟨rfl, rfl⟩
      | wrote => exact ⟨rfl, rfl⟩
      | partly => exact ⟨rfl, rfl⟩
      | jammed => exact ⟨rfl, rfl⟩
      | wanted => exact ⟨rfl, rfl⟩
      | lost => exact ⟨rfl, rfl⟩
  | disconnect finishWrite =>
      have ha : SameJam w (w.announce finishWrite) := by
        rw [announce_world]
        exact ⟨rfl, rfl⟩
      show SameJam w (w.disconnect finishWrite).2
      rw [disconnect]
      split
      · exact ha
      · rw [rearm_world]
        exact ha.trans ((onEventShutdown_jam _).trans ⟨rfl, rfl⟩)

theorem requests_jam (calls : List Request) :
    ∀ w : World, SameJam w (w.requests calls) := by
  induction calls with
  | nil => intro w; exact ⟨rfl, rfl⟩
  | cons call calls ih => intro w; exact (request_jam w call).trans (ih (w.request call))

theorem onMessage_jam (w : World) (m : Bytes) : SameJam w (onMessage h w m).2 :=
  (requests_jam _ w).trans ⟨rfl, rfl⟩

/-- Receiving takes no time. -/
theorem clock_kept (now : Int) : Kept fun w => w.now = now where
  request := fun w call hi => (request_jam w call).now.trans hi
  receive := fun _ _ _ _ _ hi => hi
  message := fun _ _ _ hi => hi

-- ── The stamp ────────────────────────────────────────────────────────────────

/-- **THE LOOP SETS THE STAMP** exactly if it leaves bytes behind. -/
theorem doReceivedLoop_jam :
    ∀ (fuel : Nat) (w : World) (ptr : Bytes) (consumed : Nat), w.now ≠ 0 →
      (ptr = [] → w.receiveJam = 0) → ptr.length ≤ fuel →
      0 < (doReceivedLoop h fuel w ptr consumed).1 →
      ((doReceivedLoop h fuel w ptr consumed).2.2.receiveJam ≠ 0 ↔
        (doReceivedLoop h fuel w ptr consumed).2.1 < consumed + ptr.length) := by
  intro fuel
  -- nothing is left, and the stamp is cleared
  have hdone : ∀ (w : World) (ptr : Bytes) (consumed : Nat), ptr = [] →
      (ptr = [] → w.receiveJam = 0) →
      (w.receiveJam ≠ 0 ↔ consumed < consumed + ptr.length) := by
    intro w ptr consumed hnil hjam
    rw [hjam hnil, hnil, List.length_nil, Nat.add_zero]
    exact ⟨fun h0 => absurd rfl h0, fun h0 => absurd h0 (Nat.lt_irrefl _)⟩
  induction fuel with
  | zero =>
      intro w ptr consumed _ hjam hfuel _
      exact hdone w ptr consumed (List.length_eq_zero_iff.mp (Nat.le_zero.mp hfuel)) hjam
  | succ fuel ih =>
      intro w ptr consumed hnow hjam hfuel
      rw [doReceivedLoop]
      extract_lets ret w₁ w₂ r w₃
      split
      next hnil => exact fun _ => hdone w ptr consumed hnil hjam
      next hsome =>
      have hpos : 0 < ptr.length := List.length_pos_iff.mpr hsome
      -- the loop waits for more
      have hwaits : consumed < consumed + ptr.length := by omega
      split
      · exact fun hret => absurd hret (by decide : ¬ (0 : Int) < -1)
      split
      · exact fun _ => ⟨fun _ => hwaits, fun _ => jam_set hnow⟩
      next hneg hzero =>
      split
      · exact fun _ => ⟨fun _ => hwaits, fun _ => jam_set hnow⟩
      next hwhole =>
      split
      · exact fun hret => absurd hret (by decide : ¬ (0 : Int) < -1)
      split
      · exact fun hret => absurd hret (Int.lt_irrefl 0)
      -- a message was delivered, and the stamp is clear behind it
      have hw₃ : SameJam w₂ w₃ := onMessage_jam w₂ _
      have hlen : w₃.rlength = ret.toNat := (onMessage_stream w₂ _).2.2.1
      have hle : w₃.rlength ≤ ptr.length := by
        rw [hlen]
        exact Nat.le_of_not_lt hwhole
      have hdrop : (ptr.drop w₃.rlength).length = ptr.length - w₃.rlength :=
        List.length_drop
      have hsum : consumed + w₃.rlength + (ptr.drop w₃.rlength).length
          = consumed + ptr.length := by omega
      rw [← hsum]
      refine ih _ _ _ ?_ (fun _ => hw₃.receiveJam) (by omega)
      show w₃.now ≠ 0
      rw [hw₃.now]
      exact hnow

theorem doReceived_jam {w : World} {ptr : Bytes} (hnow : w.now ≠ 0) (hsome : ptr ≠ [])
    (hret : 0 < (doReceived h w ptr).1) :
    (doReceived h w ptr).2.2.receiveJam ≠ 0 ↔ (doReceived h w ptr).2.1 < ptr.length := by
  have hloop := doReceivedLoop_jam (h := h) ptr.length w ptr 0 hnow
    (fun hnil => absurd hnil hsome) (Nat.le_refl _) hret
  rw [Nat.zero_add] at hloop
  exact hloop

/-- The stamp is set while bytes wait. -/
def Stamped (w : World) : Prop := w.receiveJam ≠ 0 ↔ w.rbuffer ≠ []

/-- A stamp that follows the bytes left of `ptr`. -/
theorem stamped_drop {w : World} {ptr : Bytes} {consumed : Nat}
    (hjam : w.receiveJam ≠ 0 ↔ consumed < ptr.length)
    (hb : w.rbuffer = ptr.drop consumed) : Stamped w := by
  rw [Stamped, hjam, hb, Ne, List.drop_eq_nil_iff, Nat.not_le]

theorem receiveDirect_stamped {w : World} {ptr : Bytes} (hnow : w.now ≠ 0)
    (hb : w.rbuffer = []) (hsome : ptr ≠ []) :
    0 < (receiveDirect h w ptr).1 → Stamped (receiveDirect h w ptr).2 := by
  have hkeep : (doReceived h w ptr).2.2.rbuffer = [] := by
    rw [doReceived, doReceivedLoop_rbuffer, hb]
  rw [receiveDirect]
  split
  next hneg => exact fun hret => absurd hret (Int.not_lt.mpr hneg)
  next hpos =>
  have hjam := doReceived_jam hnow hsome (Int.not_le.mp hpos)
  split
  · refine fun _ => stamped_drop hjam ?_
    show (doReceived h w ptr).2.2.rbuffer ++ _ = _
    rw [hkeep, List.nil_append]
  next hall =>
    refine fun _ => stamped_drop hjam ?_
    rw [Decidable.not_not.mp hall, List.drop_length, hkeep]

/-- **RECEIVING KEEPS THE STAMP** on all three paths. -/
theorem onReceived_stamped {w : World} {ptr : Bytes} (hnow : w.now ≠ 0)
    (hg : w.graceful = false) (hs : Stamped w) :
    0 < (onReceived h w (some ptr)).1 → Stamped (onReceived h w (some ptr)).2 := by
  rw [onReceived]
  extract_lets w₁ last w₂ r₂ w₃ w₄ ptr₂ w₅ r₅ w₆
  split
  · exact fun _ => hs
  next hlen =>
  have hsome : ptr ≠ [] := fun hnil => hlen (List.length_eq_zero_iff.mpr hnil)
  have hg₁ : ¬ w₁.graceful = true := Bool.eq_false_iff.mp hg
  rw [if_neg hg₁]
  split
  next hempty => exact receiveDirect_stamped hnow hempty hsome
  next hempty =>
  split
  next hknown =>
    split
    next hneg => exact fun hret => absurd hret (Int.not_lt.mpr hneg)
    next hpos =>
    split
    next hmore =>
      have hsame : w₃.now = w₁.now := (clock_kept w₁.now).doReceivedLoop _ w₂ _ 0 rfl
      have hnow₄ : w₄.now ≠ 0 := by
        show w₃.now ≠ 0
        rw [hsame]
        exact hnow
      exact receiveDirect_stamped hnow₄ rfl
        fun hnil => hmore (List.length_eq_zero_iff.mpr hnil)
    next hnone =>
      -- the chunk ends with the message
      intro _
      have hone : w₂.rbuffer.take w₂.rlength ≠ [] := by
        rw [Ne, List.take_eq_nil_iff]
        rintro (h0 | h0)
        · exact hknown.1 h0
        · exact hempty (List.append_eq_nil_iff.mp h0).1
      have hjam : w₃.receiveJam ≠ 0 ↔ r₂.2.1 < (w₂.rbuffer.take w₂.rlength).length :=
        doReceived_jam (w := w₂) hnow hone (Int.not_le.mp hpos)
      have hall : (w₂.rbuffer.take w₂.rlength).length ≤ r₂.2.1 := by
        have hzero : ptr.length - (r₂.2.1 - last) = 0 := by
          rw [← List.length_drop]
          exact Decidable.not_not.mp hnone
        have htake : (w₂.rbuffer.take w₂.rlength).length ≤ w₂.rlength :=
          List.length_take_le _ _
        have hreach : w₂.rlength ≤ last + ptr.length := hknown.2
        omega
      refine stamped_drop hjam ?_
      rw [List.drop_of_length_le hall]
  next hknown =>
    split
    next hneg => exact fun hret => absurd hret (Int.not_lt.mpr hneg)
    next hpos =>
      intro _
      have hall : w₅.rbuffer ≠ [] := fun h0 => hempty (List.append_eq_nil_iff.mp h0).1
      have hjam : w₆.receiveJam ≠ 0 ↔ r₅.2.1 < w₅.rbuffer.length :=
        doReceived_jam (w := w₅) hnow hall (Int.not_le.mp hpos)
      have hkeep : w₆.rbuffer = w₅.rbuffer := doReceivedLoop_rbuffer _ _ _ _
      refine stamped_drop hjam ?_
      show w₆.rbuffer.drop _ = _
      rw [hkeep]

-- ── What the three agree on ──────────────────────────────────────────────────

/-- The receiving side after the bytes in `received`. -/
structure Intake (received : Bytes) (w : World) : Prop where
  bytes : w.delivered.flatten ++ w.rbuffer = received
  known : w.rlength = 0 ∨ (1 ≤ w.rbuffer.length ∧ w.rbuffer.length < w.rlength)
  jam : w.receiveJam ≠ 0 ↔ w.rbuffer ≠ []

/-- A call that goes on, with the linkage not closing, found more to come. -/
theorem Framed.goes_on {c : Cut UInt8 Verdict} {ret : Int} {w : World}
    (hf : Framed h c ret w) (hret : 0 < ret) (hg : w.graceful = false) :
    c.outcome = .more := by
  by_cases hm : c.outcome = .more
  · exact hm
  by_cases hdis : c.outcome = .stopped .disconnected
  · rw [(hf.overran hdis).1] at hg
    cases hg
  · have hle := outcomeRet_end hm hdis
    rw [← (hf.ended hm hdis).1] at hle
    omega

/-- **ONE CALL** keeps the agreement, with the chunk behind what came before. -/
theorem onReceived_intake {w : World} {received ptr : Bytes} (hw : Settled h w)
    (hi : Intake received w) (hnow : w.now ≠ 0)
    (hret : 0 < (onReceived h w (some ptr)).1)
    (hg : (onReceived h w (some ptr)).2.graceful = false) :
    Settled h (onReceived h w (some ptr)).2 ∧
      Intake (received ++ ptr) (onReceived h w (some ptr)).2 := by
  obtain ⟨hf, hrest⟩ := onReceived_cut hw ptr
  have hjam : Stamped (onReceived h w (some ptr)).2 :=
    onReceived_stamped hnow hw.graceful hi.jam hret
  have hm := hf.goes_on hret hg
  obtain ⟨_, hd, hk, _⟩ := hf.more hm
  have hb := hrest hm
  -- the rest of the cut is settled, and no length is known of nothing
  have hset := cut_settled (r := receiver h) w.rlength w.delivered (w.rbuffer ++ ptr) hm
  have hknown := cut_known (r := receiver h) w.rlength w.delivered (w.rbuffer ++ ptr)
    (hi.known.imp id fun hlen =>
      List.append_ne_nil_of_left_ne_nil (List.length_pos_iff.mp hlen.1) ptr) hm
  have hflat := cut_flatten (r := receiver h) w.rlength w.delivered (w.rbuffer ++ ptr)
  rw [← hk, ← hb] at hset hknown
  rw [← hd, ← hb, ← List.append_assoc, hi.bytes] at hflat
  refine ⟨⟨hg, hset⟩, hflat, ?_, hjam⟩
  rcases hknown with h0 | hsome
  · exact Or.inl h0
  · by_cases h0 : (onReceived h w (some ptr)).2.rlength = 0
    · exact Or.inl h0
    · exact Or.inr ⟨List.length_pos_iff.mpr hsome, look_wait hset h0⟩

/-- What `OnReceived` takes for granted when a chunk completes a message of
    known length: its two assertions and its two differences. -/
def Granted (h : LinkageHandler) (w : World) (ptr : Bytes) : Prop :=
  w.rbuffer ≠ [] → w.rlength ≠ 0 → w.rlength ≤ w.rbuffer.length + ptr.length →
    let last := w.rbuffer.length
    let w' := { w.updateLastReceived with
      rbuffer := w.rbuffer ++ ptr.take (w.rlength - last) }
    let r := doReceived h w' (w'.rbuffer.take w'.rlength)
    last < w.rlength ∧ w.rlength - last ≤ ptr.length ∧
    w'.rbuffer.length = w.rlength ∧
    (0 < r.1 → last ≤ r.2.1 ∧ r.2.1 - last ≤ ptr.length)

/-- **NOTHING WRAPS**: the message that is completed is all of the buffer. -/
theorem Settled.granted {w : World} (hw : Settled h w) (ptr : Bytes) :
    Granted h w ptr := by
  intro hsome hk hreach last w' r
  have hlast : last < w.rlength := look_wait hw.waiting hk
  have hlast' : last = w.rbuffer.length := rfl
  have hlen : w'.rbuffer.length = w.rlength := by
    show (w.rbuffer ++ ptr.take (w.rlength - last)).length = w.rlength
    rw [List.length_append, List.length_take]
    omega
  refine ⟨hlast, by omega, hlen, fun hret => ?_⟩
  have htake : w'.rbuffer.take w'.rlength = w'.rbuffer :=
    List.take_of_length_le (Nat.le_of_eq hlen)
  have hl := fun rest => look_known_message h.getMessageLength hk hlen rest
  have hone := hl []
  rw [List.append_nil] at hone
  obtain ⟨hcount, -, -⟩ := receiveKnown_cut (h := h) (w := w') hw.graceful (hl []) hone
  have hr : r = doReceived h w' w'.rbuffer := by
    show doReceived h w' (w'.rbuffer.take w'.rlength) = _
    rw [htake]
  rw [← hr, hlen] at hcount
  omega

-- ── Runs ─────────────────────────────────────────────────────────────────────

/-- `w'` is `w` but for what is not the receiving side, and it may be closing. -/
structure Aside (w w' : World) : Prop where
  stream : ∃ d, SameStream w w' d
  jam : SameJam w w'

/-- What comes next: a chunk, a later time, or anything that leaves the
    receiving side alone. -/
inductive Arrival where
  | chunk (ptr : Bytes)
  | tick (now : Int)
  | other

/-- A linkage with the bytes it received.  The caller of `OnReceived` goes on
    after a positive result only, and the monotonic clock does not read zero. -/
inductive Receives (h : LinkageHandler) :
    World × Bytes → Arrival → World × Bytes → Prop where
  | chunk (w : World) (received ptr : Bytes) (hnow : w.now ≠ 0)
      (hret : 0 < (onReceived h w (some ptr)).1) :
      Receives h (w, received) (.chunk ptr)
        ((onReceived h w (some ptr)).2, received ++ ptr)
  | tick (w : World) (received : Bytes) (now : Int) :
      Receives h (w, received) (.tick now) ({ w with now := now }, received)
  | other (w w' : World) (received : Bytes) (haside : Aside w w') :
      Receives h (w, received) .other (w', received)

/-- The runs of the receiving side of a new linkage. -/
def receiving (h : LinkageHandler) : System (World × Bytes) Arrival where
  init := fun s => Unread s.1 ∧ s.1.receiveJam = 0 ∧ s.2 = []
  step := Receives h

/-- `_graceful` is never taken back. -/
theorem onReceived_graceful {w : World} {ptr : Bytes}
    (hret : 0 < (onReceived h w (some ptr)).1)
    (hg : (onReceived h w (some ptr)).2.graceful = false) : w.graceful = false := by
  cases hw : w.graceful with
  | false => rfl
  | true =>
      have hfeed := (feed_graceful (h := h) [ptr] w hw).1
      rw [feed, if_neg (Int.not_le.mpr hret), feed, hg] at hfeed
      exact hfeed.symm

theorem Aside.graceful {w w' : World} (ha : Aside w w') (hg : w'.graceful = false) :
    w.graceful = false := by
  obtain ⟨d, hs⟩ := ha.stream
  rw [hs.graceful] at hg
  exact (Bool.or_eq_false_iff.mp hg).1

theorem Aside.settled {w w' : World} (ha : Aside w w') (hg : w'.graceful = false)
    (hw : Settled h w) : Settled h w' := by
  obtain ⟨d, hs⟩ := ha.stream
  refine ⟨hg, ?_⟩
  rw [hs.rlength, hs.rbuffer]
  exact hw.waiting

theorem Aside.intake {w w' : World} {received : Bytes} (ha : Aside w w')
    (hi : Intake received w) : Intake received w' := by
  obtain ⟨d, hs⟩ := ha.stream
  constructor
  · rw [hs.delivered, hs.rbuffer]
    exact hi.bytes
  · rw [hs.rlength, hs.rbuffer]
    exact hi.known
  · rw [ha.jam.receiveJam, hs.rbuffer]
    exact hi.jam

/-- **THE RECEIVE BUFFER** in every run, while the linkage is not closing: what
    it holds, what is known of it and its stamp agree, and the next chunk,
    whatever it is, finds both assertions true and both differences in range. -/
theorem receive_buffer_invariant (h : LinkageHandler) (s : World × Bytes)
    (hr : Reachable (receiving h) s) (hg : s.1.graceful = false) :
    Intake s.2 s.1 ∧ ∀ ptr, Granted h s.1 ptr := by
  have hinv : s.1.graceful = false → Settled h s.1 ∧ Intake s.2 s.1 := by
    refine hr.invariant (I := fun s =>
      s.1.graceful = false → Settled h s.1 ∧ Intake s.2 s.1) ?_ ?_
    · rintro ⟨w, received⟩ ⟨hu, hjam, rfl⟩ _
      refine ⟨hu.settled, ?_, Or.inl hu.rlength, ?_⟩
      · show w.delivered.flatten ++ w.rbuffer = []
        rw [hu.delivered, hu.rbuffer]
        rfl
      · show w.receiveJam ≠ 0 ↔ w.rbuffer ≠ []
        rw [hjam, hu.rbuffer]
        exact ⟨fun h0 => absurd rfl h0, fun h0 => absurd rfl h0⟩
    · rintro s l s' _ ih hs hg'
      cases hs with
      | chunk w received ptr hnow hret =>
          obtain ⟨hw, hi⟩ := ih (onReceived_graceful hret hg')
          exact onReceived_intake hw hi hnow hret hg'
      | tick w received now =>
          obtain ⟨hw, hi⟩ := ih hg'
          exact ⟨⟨hg', hw.waiting⟩, hi.bytes, hi.known, hi.jam⟩
      | other w w' received ha =>
          obtain ⟨hw, hi⟩ := ih (ha.graceful hg')
          exact ⟨ha.settled hg' hw, ha.intake hi⟩
  obtain ⟨hw, hi⟩ := hinv hg
  exact ⟨hi, hw.granted⟩

/-- A handler of two-byte messages, each accepted. -/
def pairHandler : LinkageHandler where
  getMessageLength := fun _ => 2
  onMessage := fun _ _ => ⟨[], 1⟩
  onConnected := ⟨[], true⟩
  onError := []
  onDisconnected := []

/-- Three bytes in two chunks: one message, and a byte that waits for its
    second half. -/
theorem receive_buffer_invariant_pair :
    let w := (onReceived pairHandler
      (onReceived pairHandler (World.fresh 0 0 0 0 1) (some [1])).2 (some [2, 3])).2
    w.delivered = [[1, 2]] ∧ w.rbuffer = [3] ∧ w.rlength = 2 ∧
      Intake [1, 2, 3] w ∧ Granted pairHandler w [4, 5] := by
  intro w
  have hstart : (receiving pairHandler).init (World.fresh 0 0 0 0 1, []) :=
    ⟨⟨rfl, rfl, rfl, rfl⟩, rfl, rfl⟩
  have hr : Reachable (receiving pairHandler) (w, [1, 2, 3]) :=
    .next (.next (.start hstart) (.chunk _ _ [1] (by decide) (by decide)))
      (.chunk _ [1] [2, 3] (by decide) (by decide))
  obtain ⟨hi, hgranted⟩ := receive_buffer_invariant pairHandler (w, [1, 2, 3]) hr
    (by decide)
  exact ⟨by decide, by decide, by decide, hi, hgranted [4, 5]⟩

-- ── The runs of a linkage are such runs ──────────────────────────────────────

/-- Some bytes bring a new linkage here, if it is not closing. -/
def Fed (h : LinkageHandler) (w : World) : Prop :=
  w.graceful = false → ∃ received, Reachable (receiving h) (w, received)

theorem Fed.aside {w w' : World} (hf : Fed h w) (ha : Aside w w') : Fed h w' := by
  intro hg
  obtain ⟨received, hr⟩ := hf (ha.graceful hg)
  exact ⟨received, .next hr (.other w w' received ha)⟩

theorem Fed.onReceived {w : World} (hf : Fed h w) (hnow : w.now ≠ 0) {ptr : Bytes}
    (hret : 0 < (onReceived h w (some ptr)).1) :
    Fed h (onReceived h w (some ptr)).2 := by
  intro hg
  obtain ⟨received, hr⟩ := hf (onReceived_graceful hret hg)
  exact ⟨received ++ ptr, .next hr (.chunk w received ptr hnow hret)⟩

/-- Changes elsewhere, told by the fields and the trace. -/
theorem Aside.of_fields {w w' : World} (hb : w'.rbuffer = w.rbuffer)
    (hl : w'.rlength = w.rlength) (ht : w'.delivered = w.delivered)
    (hg : w'.graceful = w.graceful) (hj : SameJam w w') : Aside w w' :=
  ⟨⟨false, hb, hl, ht, hg.trans (Bool.or_false _).symm⟩, hj⟩

theorem Aside.trans {w₁ w₂ w₃ : World} (h₁ : Aside w₁ w₂) (h₂ : Aside w₂ w₃) :
    Aside w₁ w₃ := by
  obtain ⟨⟨d, hs⟩, hj⟩ := h₁
  obtain ⟨⟨d', hs'⟩, hj'⟩ := h₂
  exact ⟨⟨_, hs.trans hs'⟩, hj.trans hj'⟩

theorem conclude_aside (w : World) (action : Action) (status : Status) :
    Aside w (w.conclude action status).2.2 := by
  rw [conclude_world]
  exact .of_fields rfl rfl rfl rfl ⟨rfl, rfl⟩

theorem requests_aside (w : World) (calls : List Request) : Aside w (w.requests calls) :=
  ⟨⟨_, requests_stream calls w⟩, requests_jam calls w⟩

theorem rearm_aside (w : World) : Aside w w.rearm := by
  rw [rearm_world]
  exact .of_fields rfl rfl rfl rfl ⟨rfl, rfl⟩

theorem onEventWrite_aside (w : World) : Aside w (onEventWrite w).2.2 := by
  have hw := onEventWrite_cases w
  generalize (onEventWrite w).2.2 = w' at hw ⊢
  cases hw with
  | idle hempty => exact .of_fields rfl rfl rfl rfl ⟨rfl, rfl⟩
  | taken hne hok buffer hbuffer =>
      exact .of_fields rfl rfl (delivered_of_trace rfl rfl) rfl ⟨rfl, rfl⟩
  | failed hne hst buffer hbuffer =>
      refine .trans ?_ (conclude_aside _ _ _)
      exact .of_fields rfl rfl (delivered_of_trace rfl rfl) rfl ⟨rfl, rfl⟩

theorem doConnected_aside (w : World) : Aside w (doConnected h w).2 := by
  have he : Aside w (establish w) :=
    .of_fields rfl rfl (delivered_of_trace rfl rfl) rfl ⟨rfl, rfl⟩
  exact he.trans (requests_aside _ _)

theorem onEventHandshake_aside (w : World) (action : Action) :
    Aside w (onEventHandshake h w action).2.2 := by
  rw [onEventHandshake]
  split
  · have hnone : Aside w { w.answered with action := .none } :=
      .of_fields rfl rfl rfl rfl ⟨rfl, rfl⟩
    exact hnone.trans (doConnected_aside _)
  · have ha : Aside w w.answered := .of_fields rfl rfl rfl rfl ⟨rfl, rfl⟩
    exact ha.trans (conclude_aside _ _ _)

/-- A linkage that was fed, at a time that is not zero. -/
structure Served (h : LinkageHandler) (w : World) : Prop where
  clock : w.now ≠ 0
  fed : Fed h w

theorem Served.aside {w w' : World} (hi : Served h w) (ha : Aside w w') :
    Served h w' where
  clock := by rw [ha.jam.now]; exact hi.clock
  fed := hi.fed.aside ha

/-- A round that reads hands a chunk on, unless it hangs up or fails. -/
theorem Served.onEventRead {w : World} (hi : Served h w) :
    Served h (onEventRead h w).2.2 ∨ (onEventRead h w).2.1 = .shutdown ∨
      ((onEventRead h w).2.1 = .none ∧ (onEventRead h w).1 < 0) := by
  rw [FlinterLinkage.onEventRead]
  extract_lets w₂ r
  have hw₂ : Aside w w₂ :=
    .of_fields rfl rfl (delivered_of_trace rfl rfl) rfl ⟨rfl, rfl⟩
  split
  · have hnone : Aside w { w₂ with action := .none } :=
      hw₂.trans (.of_fields rfl rfl rfl rfl ⟨rfl, rfl⟩)
    have hw₃ := hi.aside hnone
    have hsame : r.2.now = w₂.now := (clock_kept w₂.now).onReceived _ _ rfl
    split
    · exact Or.inr (Or.inl rfl)
    split
    next hret =>
      refine Or.inl ⟨?_, hw₃.fed.onReceived hw₃.clock hret⟩
      show r.2.now ≠ 0
      rw [hsame]
      exact hi.clock
    · exact Or.inr (Or.inr ⟨rfl, (by decide : (-1 : Int) < 0)⟩)
  · exact Or.inl (hi.aside (hw₂.trans (conclude_aside _ _ _)))

theorem onEventShutdown_aside (w : World) : Aside w w.onEventShutdown.2.2 :=
  ⟨⟨true, onEventShutdown_stream w⟩, onEventShutdown_jam w⟩

/-- A linkage is closing after a shutdown. -/
theorem onEventShutdown_fed (w : World) : Fed h w.onEventShutdown.2.2 := by
  intro hg
  rw [(onEventShutdown_stream w).graceful, Bool.or_true] at hg
  cases hg

theorem Served.onEventOnce {w : World} (hi : Served h w) (action : Action) :
    Served h (onEventOnce h w action).2.2 ∨
      (onEventOnce h w action).2.1 = .shutdown ∨
      ((onEventOnce h w action).2.1 = .none ∧ (onEventOnce h w action).1 < 0) := by
  cases action with
  | none => exact Or.inl (hi.aside (conclude_aside w .none .bug))
  | read => exact hi.onEventRead
  | write => exact Or.inl (hi.aside (onEventWrite_aside w))
  | accept => exact Or.inl (hi.aside (onEventHandshake_aside w .accept))
  | connect => exact Or.inl (hi.aside (onEventHandshake_aside w .connect))
  | shutdown => exact Or.inl (hi.aside (onEventShutdown_aside w))

/-- **AN EVENT FEEDS THE LINKAGE** as long as it says go on. -/
theorem onEventLoop_fed :
    ∀ (fuel : Nat) (w : World) (action : Action), Served h w ∨ action = .shutdown →
      0 < (onEventLoop h fuel w action).1 → Fed h (onEventLoop h fuel w action).2 := by
  intro fuel
  induction fuel with
  | zero =>
      intro w action _ hret
      exact absurd hret (by decide : ¬ (0 : Int) < -1)
  | succ fuel ih =>
      intro w action hin
      rw [onEventLoop]
      by_cases hs : action = .shutdown
      · rw [hs, show onEventOnce h w .shutdown = w.onEventShutdown from rfl,
          if_pos (onEventShutdown_next w)]
        exact fun _ => onEventShutdown_fed w
      · have honce := (hin.resolve_right hs).onEventOnce action
        generalize onEventOnce h w action = r at honce ⊢
        split
        next hnone =>
          intro hret
          rcases honce with hi | hn | ⟨_, hneg⟩
          · exact hi.fed
          · rw [hnone] at hn
            cases hn
          · exact absurd hret (Int.not_lt.mpr (Int.le_of_lt hneg))
        next hsome =>
          rcases honce with hi | hn | ⟨hn, _⟩
          · exact ih _ _ (Or.inl hi)
          · exact ih _ _ (Or.inr hn)
          · exact absurd hn hsome

theorem Served.onEvent {w : World} (hi : Served h w) (idleAction : Action)
    (hret : 0 < (onEvent h w idleAction).1) : Fed h (onEvent h w idleAction).2 :=
  (onEventLoop_fed _ w _ (Or.inl hi) hret).aside (rearm_aside _)

theorem Served.workerEvent {w : World} (hi : Served h w) (idleAction : Action)
    (hheld : (workerEvent h w idleAction).client.isSome = true) :
    Fed h (workerEvent h w idleAction) := by
  rw [FlinterLinkage.workerEvent] at hheld ⊢
  split at hheld
  · rw [doRelease_released] at hheld
    cases hheld
  next hneg =>
  split at hheld
  · rw [doRelease_released] at hheld
    cases hheld
  next hzero =>
    rw [if_neg hneg, if_neg hzero]
    exact hi.onEvent idleAction (by omega)

/-- An operation after which the worker still holds the linkage. -/
theorem Served.perform {w : World} (hi : Served h w) (op : Op)
    (hheld : (perform h w op).client.isSome = true) : Fed h (perform h w op) := by
  cases op with
  | send buffer => exact hi.fed.aside (requests_aside w [.send buffer])
  | disconnect finishWrite => exact hi.fed.aside (requests_aside w [.disconnect finishWrite])
  | readable => exact hi.workerEvent .read hheld
  | writable => exact hi.workerEvent .write hheld
  | healthCheck reply =>
      have hheld' : (healthCheck h w reply).client.isSome = true := hheld
      show Fed h (healthCheck h w reply)
      rw [healthCheck] at hheld' ⊢
      split at hheld'
      · rw [doRelease_released] at hheld'
        cases hheld'
      next hclean =>
        rw [if_neg hclean]
        split at hheld'
        next hret =>
          rw [if_pos hret]
          exact hi.fed.aside (requests_aside w reply.calls)
        · rw [doRelease_released] at hheld'
          cases hheld'

/-- Attaching feeds a new linkage, at most with its first event. -/
theorem attach_fed {receiveTimeout connectTimeout sendTimeout idleTimeout : Int}
    {now : Int} {io : List Answer} {setup : Setup} {w : World} (hnow : 0 < now)
    (hw : attach h ((World.fresh receiveTimeout connectTimeout sendTimeout
      idleTimeout now).during io now) setup = (true, w)) : Fed h w := by
  have hfresh : ∀ w₀ : World, Unread w₀ → w₀.receiveJam = 0 → Fed h w₀ :=
    fun w₀ hu hjam _ => ⟨[], .start ⟨hu, hjam, rfl⟩⟩
  rw [attach, if_neg (by exact Bool.false_ne_true)] at hw
  split at hw
  · cases congrArg Prod.fst hw
  split at hw
  · extract_lets r at hw
    split at hw
    · obtain rfl := congrArg Prod.snd hw
      exact (hfresh _ ⟨rfl, rfl, rfl, rfl⟩ rfl).aside (doConnected_aside _)
    · cases congrArg Prod.fst hw
  extract_lets w₁ r at hw
  split at hw
  · obtain rfl := congrArg Prod.snd hw
    exact hfresh { w₁ with action := setup.nextAction } ⟨rfl, rfl, rfl, rfl⟩ rfl
  next hfirst =>
    split at hw
    · cases congrArg Prod.fst hw
    next hret =>
      obtain rfl := congrArg Prod.snd hw
      have hstart : Served h { w₁ with action := setup.action } :=
        ⟨(by omega : now ≠ 0), hfresh _ ⟨rfl, rfl, rfl, rfl⟩ rfl⟩
      exact hstart.onEvent setup.action (Int.not_le.mp hret)

/-- **A HELD LINKAGE WAS FED**: what the program does with a linkage is a run of
    its receiving side, so its buffer, its length and its stamp agree. -/
theorem held_intake {w : World} (hr : Reachable (clocked h) w)
    (hheld : w.client.isSome = true) (hg : w.graceful = false) :
    ∃ received, Intake received w ∧ ∀ ptr, Granted h w ptr := by
  have hfed : w.client.isSome = true → Fed h w := by
    refine hr.invariant (I := fun w => w.client.isSome = true → Fed h w) ?_ ?_
    · rintro w ⟨_, _, _, _, now, io, setup, hnow, hw⟩ _
      exact attach_fed hnow hw
    · rintro w s w' _ ih ⟨hnow, hheld, rfl⟩ hheld'
      have hduring : Fed h (w.during s.io s.now) := by
        intro hg
        obtain ⟨received, hr⟩ := ih hheld hg
        refine ⟨received, .next (.next hr (.tick w received s.now)) (.other _ _ _ ?_)⟩
        exact .of_fields rfl rfl rfl rfl ⟨rfl, rfl⟩
      exact Served.perform ⟨(by omega : s.now ≠ 0), hduring⟩ s.op hheld'
  obtain ⟨received, hreceived⟩ := hfed hheld hg
  exact ⟨received, receive_buffer_invariant h (w, received) hreceived hg⟩

end FlinterLinkage
