import Flinter.LinkageBufferProofs
import Flinter.LinkageWatchProofs
import Flinter.FramingWholeProofs

/-! # What a linkage delivers of the bytes it read

    The bytes a linkage read so far, cut by a receiver that never stops, are
    what it can have delivered.  Whatever its handler does, the messages it
    delivered are a front of those (`Behind`), also past a `Disconnect`; while
    it is held and not closing they are all of them, and its buffer is the rest
    (`Level`).

    The bytes of an event are the answers its reads took, in order.  `readBytes`
    finds them by the record: every call but a handshake is noted, and an event
    that shakes hands does not read. -/

namespace FlinterLinkage

open World Framing

variable {h : LinkageHandler}

-- ── The bytes of an event ────────────────────────────────────────────────────

/-- Was the io asked? -/
def Event.asks : Event → Bool
  | .read _ => true
  | .wrote _ _ _ => true
  | .shutdown _ => true
  | _ => false

/-- The bytes that the reads on a record took from the answers. -/
def readBytes : List Answer → List Event → Bytes
  | _, [] => []
  | io, .read .ok :: t =>
    (io.head?.getD .exhausted).bytes.take readBufferSize ++ readBytes io.tail t
  | io, e :: t => readBytes (if e.asks then io.tail else io) t

/-- How often the io was asked. -/
def askings (t : List Event) : Nat := t.countP Event.asks

theorem readBytes_read (io : List Answer) (t : List Event) :
    readBytes io (.read .ok :: t) =
      (io.head?.getD .exhausted).bytes.take readBufferSize ++ readBytes io.tail t := rfl

theorem readBytes_other (io : List Answer) {e : Event} (he : e ≠ .read .ok)
    (t : List Event) :
    readBytes io (e :: t) = readBytes (if e.asks then io.tail else io) t := by
  cases e with
  | read status =>
      cases status with
      | ok => exact absurd rfl he
      | _ => rfl
  | _ => rfl

/-- A record with no read took nothing. -/
theorem readBytes_mute {t : List Event} (ht : ∀ e ∈ t, e.read? = none) :
    ∀ io, readBytes io t = [] := by
  induction t with
  | nil => exact fun _ => rfl
  | cons e t ih =>
      intro io
      have he : e ≠ .read .ok := by
        rintro rfl
        cases ht _ List.mem_cons_self
      rw [readBytes_other io he]
      exact ih (fun e' he' => ht e' (List.mem_cons_of_mem e he')) _

/-- The reads of two records in turn. -/
theorem readBytes_append (t t' : List Event) :
    ∀ io, readBytes io (t ++ t') = readBytes io t ++ readBytes (io.drop (askings t)) t' := by
  induction t with
  | nil => exact fun _ => rfl
  | cons e t ih =>
      intro io
      by_cases he : e = .read .ok
      · subst he
        have hcount : askings (.read .ok :: t) = askings t + 1 := List.countP_cons_of_pos rfl
        rw [List.cons_append, readBytes_read, readBytes_read, ih, hcount,
          List.append_assoc, List.drop_tail]
      · rw [List.cons_append, readBytes_other io he, readBytes_other io he, ih]
        have hcount : (if e.asks then io.tail else io).drop (askings t)
            = io.drop (askings (e :: t)) := by
          cases hasks : e.asks with
          | true =>
              rw [if_pos rfl, askings, askings, List.countP_cons_of_pos hasks, List.drop_tail]
          | false =>
              rw [if_neg (by decide), askings, askings,
                List.countP_cons_of_neg (by rw [hasks]; decide)]
        rw [hcount]

-- ── What does not read ───────────────────────────────────────────────────────

/-- From `w` to `w'` the io was asked, but not to read. -/
def Mute (w w' : World) : Prop :=
  ∃ t, w'.trace = w.trace ++ t ∧ (∀ e ∈ t, e.read? = none) ∧
    w'.io = w.io.drop (askings t)

theorem Mute.refl (w : World) : Mute w w :=
  ⟨[], (List.append_nil _).symm, fun _ he => (by cases he), rfl⟩

theorem Mute.trans {w₁ w₂ w₃ : World} (h₁ : Mute w₁ w₂) (h₂ : Mute w₂ w₃) :
    Mute w₁ w₃ := by
  obtain ⟨t, ht, hmute, hio⟩ := h₁
  obtain ⟨t', ht', hmute', hio'⟩ := h₂
  refine ⟨t ++ t', by rw [ht', ht, List.append_assoc], fun e he => ?_, ?_⟩
  · exact (List.mem_append.mp he).elim (hmute e) (hmute' e)
  · rw [hio', hio, List.drop_drop, askings, askings, askings, List.countP_append]

/-- Neither a new entry nor an answer used. -/
theorem Mute.of_same {w w' : World} (htrace : w'.trace = w.trace) (hio : w'.io = w.io) :
    Mute w w' :=
  ⟨[], by rw [htrace, List.append_nil], fun _ he => (by cases he), hio⟩

/-- One entry that does not ask the io. -/
theorem Mute.of_note {w w' : World} {e : Event} (hread : e.read? = none)
    (hasks : e.asks = false) (htrace : w'.trace = w.trace ++ [e]) (hio : w'.io = w.io) :
    Mute w w' := by
  refine ⟨[e], htrace, fun _ he => List.mem_singleton.mp he ▸ hread, ?_⟩
  rw [hio, askings, List.countP_singleton, hasks]
  rfl

/-- One entry that asks the io, but not to read. -/
theorem Mute.of_call {w w' : World} {e : Event} (hread : e.read? = none)
    (hasks : e.asks = true) (htrace : w'.trace = w.trace ++ [e])
    (hio : w'.io = w.io.tail) : Mute w w' := by
  refine ⟨[e], htrace, fun _ he => List.mem_singleton.mp he ▸ hread, ?_⟩
  rw [hio, askings, List.countP_singleton, hasks, if_pos rfl, List.drop_one]

theorem send_mute (w : World) (buffer : Option Bytes) : Mute w (w.send buffer).2 := by
  have hs := send_cases w buffer
  generalize (w.send buffer).1 = ret at hs
  generalize (w.send buffer).2 = w' at hs ⊢
  cases hs with
  | refused => exact .refl w
  | nothing => exact .refl w
  | queued b => exact .of_same rfl rfl
  | full => exact .refl w
  | wrote b => exact .of_call (e := .wrote b _ _) rfl rfl rfl rfl
  | partly b => exact .of_call (e := .wrote b _ _) rfl rfl rfl rfl
  | jammed b => exact .of_call (e := .wrote b _ _) rfl rfl rfl rfl
  | wanted b => exact .of_call (e := .wrote b _ _) rfl rfl rfl rfl
  | lost b => exact .of_call (e := .wrote b _ _) rfl rfl rfl rfl

theorem rearm_mute (w : World) : Mute w w.rearm := by
  rw [rearm_world]
  exact .of_same rfl rfl

theorem conclude_mute (w : World) (action : Action) (status : Status) :
    Mute w (w.conclude action status).2.2 := by
  rw [conclude_world]
  exact .of_same rfl rfl

theorem onEventShutdown_mute (w : World) : Mute w w.onEventShutdown.2.2 := by
  cases hc : w.closed with
  | true =>
      rw [onEventShutdown_closed hc]
      exact .of_same rfl rfl
  | false =>
      rw [onEventShutdown_open hc]
      exact .of_call (e := .shutdown w.wbuffer) rfl rfl rfl rfl

theorem request_mute (w : World) (call : Request) : Mute w (w.request call) := by
  cases call with
  | send buffer =>
      exact (send_mute w buffer).trans
        (.of_note (e := .sent buffer (w.send buffer).1) rfl rfl rfl rfl)
  | disconnect finishWrite =>
      have ha : Mute w (w.announce finishWrite) := by
        rw [announce_world]
        exact .of_note (e := .disconnect finishWrite w.action w.wbuffer) rfl rfl rfl rfl
      show Mute w (w.disconnect finishWrite).2
      rw [World.disconnect]
      split
      · exact ha
      · exact (ha.trans (onEventShutdown_mute _)).trans (rearm_mute _)

/-- Receiving does not read: its handler only writes and shuts down. -/
theorem mute_kept (w₀ : World) : Kept (Mute w₀) where
  request := fun w call hi => hi.trans (request_mute w call)
  receive := fun _ _ _ _ _ hi => hi.trans (.of_same rfl rfl)
  message := fun w m ret hi =>
    hi.trans (.of_note (e := .message m ret w.wbuffer) rfl rfl rfl rfl)

theorem requests_mute (w : World) (calls : List Request) : Mute w (w.requests calls) :=
  (mute_kept w).requests calls w (.refl w)

theorem onEventWrite_mute (w : World) : Mute w (onEventWrite w).2.2 := by
  have hw := onEventWrite_cases w
  generalize (onEventWrite w).2.2 = w' at hw ⊢
  cases hw with
  | idle hempty => exact .of_same rfl rfl
  | taken hne hok buffer hbuffer => exact .of_call (e := .wrote buffer _ _) rfl rfl rfl rfl
  | failed hne hst buffer hbuffer =>
      refine .trans ?_ (conclude_mute _ _ _)
      exact .of_call (e := .wrote buffer _ _) rfl rfl rfl rfl

theorem doConnected_mute (w : World) : Mute w (doConnected h w).2 := by
  have he : Mute w (establish w) := .of_note (e := .connected) rfl rfl rfl rfl
  exact he.trans (requests_mute _ _)

/-- A handshake uses an answer that is not on the record, and reads nothing. -/
theorem onEventHandshake_quiet (w : World) (action : Action) :
    Mute w.answered (onEventHandshake h w action).2.2 := by
  rw [onEventHandshake]
  split
  · have hnone : Mute w.answered { w.answered with action := .none } := .of_same rfl rfl
    exact hnone.trans (doConnected_mute _)
  · exact conclude_mute _ _ _

-- ── The delivery of one chunk ────────────────────────────────────────────────

/-- The messages in some bytes, for a receiver that takes them all. -/
def arrived (h : LinkageHandler) (known : Nat) (seen : List Bytes) (buf : Bytes) :
    Cut UInt8 Verdict := cut (free h.getMessageLength) known seen buf

/-- The loop delivers a front of them, whatever the handler does. -/
theorem doReceivedLoop_behind (known : Nat) (seen : List Bytes) (ptr : Bytes) :
    ∀ (w : World) (fuel consumed : Nat), w.rlength = known → w.delivered = seen →
      ptr.length ≤ fuel →
      (doReceivedLoop h fuel w ptr consumed).2.2.delivered
        <+: (arrived h known seen ptr).seen := by
  induction known, seen, ptr using cut_induction (free (β := Verdict) h.getMessageLength) with
  | wait known seen ptr known' hl =>
      intro w fuel consumed hk hd hfuel
      subst hk hd
      obtain ⟨w', hs, heq⟩ := loop_wait consumed hfuel hl
      have hd' : w'.delivered = w.delivered := hs.delivered
      rw [heq, hd']
      exact cut_grows _ _ _
  | fail known seen ptr hl =>
      intro w fuel consumed hk hd hfuel
      subst hk hd
      rw [loop_fail consumed hfuel hl]
      exact cut_grows _ _ _
  | stop known seen ptr m rest why hl hstop => cases hstop
  | go known seen ptr m rest hl hstop ih =>
      intro w fuel consumed hk hd hfuel
      subst hk hd
      obtain ⟨w₂, fuel', hs, hfuel', heq⟩ := loop_message consumed hfuel hl
      have hd₃ := (hs.handled (h := h) m).2.1
      have hmore : w.delivered ++ [m] <+: (arrived h w.rlength w.delivered ptr).seen := by
        rw [arrived, cut_go hl hstop]
        exact cut_grows _ _ _
      rw [heq]
      split
      · exact hd₃ ▸ hmore
      split
      · exact hd₃ ▸ hmore
      · have hrec := ih { (onMessage h w₂ m).2 with rlength := 0 } fuel'
          (consumed + m.length) rfl hd₃ hfuel'
        rw [arrived] at hrec ⊢
        rw [cut_go hl hstop]
        exact hrec

theorem receiveDirect_behind (w : World) (ptr : Bytes) :
    (receiveDirect h w ptr).2.delivered
      <+: (arrived h w.rlength w.delivered ptr).seen := by
  have hloop := doReceivedLoop_behind (h := h) w.rlength w.delivered ptr w ptr.length 0 rfl
    rfl (Nat.le_refl _)
  rw [receiveDirect]
  split
  · exact hloop
  split
  · exact hloop
  · exact hloop

/-- The path that completes a message of known length. -/
theorem receiveKnown_behind {w : World} {m rest : Bytes}
    (hl : look h.getMessageLength w.rlength (m ++ rest) = .message m rest)
    (hone : look h.getMessageLength w.rlength m = .message m []) :
    (doReceived h w m).2.2.delivered
      <+: (arrived h w.rlength w.delivered (m ++ rest)).seen ∧
    (0 < (doReceived h w m).1 → (doReceived h w m).2.1 = m.length ∧
      (receiveDirect h { (doReceived h w m).2.2 with rbuffer := [] } rest).2.delivered
        <+: (arrived h w.rlength w.delivered (m ++ rest)).seen) := by
  obtain ⟨w₂, hs, heq⟩ := doReceived_one hone
  have hd₃ := (hs.handled (h := h) m).2.1
  have hcut : arrived h w.rlength w.delivered (m ++ rest)
      = arrived h 0 (w.delivered ++ [m]) rest := cut_go hl rfl
  have hmore : w.delivered ++ [m] <+: (arrived h w.rlength w.delivered (m ++ rest)).seen := by
    rw [hcut]
    exact cut_grows _ _ _
  rw [heq]
  split
  · exact ⟨hd₃ ▸ hmore, fun hpos => absurd hpos (by decide : ¬(0 : Int) < -1)⟩
  split
  · exact ⟨hd₃ ▸ hmore, fun hpos => absurd hpos (by decide : ¬(0 : Int) < 0)⟩
  · refine ⟨hd₃ ▸ hmore, fun _ => ⟨rfl, ?_⟩⟩
    rw [hcut, ← hd₃]
    exact receiveDirect_behind
      ({ (onMessage h w₂ m).2 with rlength := 0, rbuffer := [] } : World) rest

/-- **EACH PATH OF OnReceived** delivers a front of what the buffer and the
    chunk hold. -/
theorem onReceived_behind {w : World} (hw : Settled h w) (ptr : Bytes) :
    (onReceived h w (some ptr)).2.delivered
      <+: (arrived h w.rlength w.delivered (w.rbuffer ++ ptr)).seen := by
  rw [onReceived]
  extract_lets w₁ last w₂ r₂ w₃ w₄ ptr₂ w₅ r₅ w₆
  split
  · exact cut_grows _ _ _
  have hg₁ : w₁.graceful = false := hw.graceful
  rw [if_neg (Bool.eq_false_iff.mp hg₁)]
  split
  next hempty =>
    rw [show w.rbuffer = [] from hempty, List.nil_append]
    exact receiveDirect_behind w₁ ptr
  next hempty =>
  split
  next hknown =>
    -- the message whose length is known is completed by this chunk
    obtain ⟨hk, hreach⟩ := hknown
    have hlast : last < w.rlength := look_wait hw.waiting hk
    have hlen : w₂.rbuffer.length = w.rlength := by
      have hreach' : w.rlength ≤ w.rbuffer.length + ptr.length := hreach
      have hlast' : last = w.rbuffer.length := rfl
      show (w.rbuffer ++ ptr.take (w.rlength - last)).length = w.rlength
      rw [List.length_append, List.length_take]
      omega
    have htake : w₂.rbuffer.take w₂.rlength = w₂.rbuffer :=
      List.take_of_length_le (Nat.le_of_eq hlen)
    have hjoin : w.rbuffer ++ ptr = w₂.rbuffer ++ ptr.drop (w.rlength - last) := by
      show _ = (w.rbuffer ++ ptr.take (w.rlength - last)) ++ _
      rw [List.append_assoc, List.take_append_drop]
    have hl := fun rest => look_known_message h.getMessageLength hk hlen rest
    have hone := hl []
    rw [List.append_nil] at hone
    obtain ⟨hfirst, hrest⟩ := receiveKnown_behind (h := h) (w := w₂)
      (hl (ptr.drop (w.rlength - last))) hone
    have hr₂ : r₂ = doReceived h w₂ w₂.rbuffer := by
      show doReceived h w₂ (w₂.rbuffer.take w₂.rlength) = _
      rw [htake]
    rw [← hr₂] at hfirst hrest
    rw [hjoin]
    split
    · exact hfirst
    next hret =>
      obtain ⟨hcount, hdirect⟩ := hrest (Int.not_le.mp hret)
      have hptr₂ : ptr₂ = ptr.drop (w.rlength - last) := by
        show ptr.drop (r₂.2.1 - last) = _
        rw [hcount, hlen]
      split
      · rw [← hptr₂] at hdirect ⊢
        exact hdirect
      · exact hfirst
  next hknown =>
    -- the chunk goes behind what is buffered
    have hloop := doReceivedLoop_behind (h := h) w₅.rlength w₅.delivered w₅.rbuffer w₅
      w₅.rbuffer.length 0 rfl rfl (Nat.le_refl _)
    split
    · exact hloop
    · exact hloop

-- ── All the bytes so far ─────────────────────────────────────────────────────

/-- The linkage delivered a front of what it read. -/
def Behind (h : LinkageHandler) (received : Bytes) (w : World) : Prop :=
  w.delivered <+: (arrived h 0 [] received).seen

/-- It delivered all of it, unless it is closing, and kept the rest. -/
def Level (h : LinkageHandler) (received : Bytes) (w : World) : Prop :=
  w.graceful = false → w.received = arrived h 0 [] received

theorem Behind.aside {received : Bytes} {w w' : World} (hb : Behind h received w)
    (ha : Aside w w') : Behind h received w' := by
  obtain ⟨d, hs⟩ := ha.stream
  rw [Behind, hs.delivered]
  exact hb

theorem Level.aside {received : Bytes} {w w' : World} (hl : Level h received w)
    (ha : Aside w w') : Level h received w' := by
  intro hg
  obtain ⟨d, hs⟩ := ha.stream
  rw [World.received, hs.delivered, hs.rlength, hs.rbuffer]
  exact hl (ha.graceful hg)

section Consistent

variable (hpc : PrefixConsistent h.getMessageLength)

include hpc

/-- **ONE CHUNK** keeps both, the second as long as the call says go on. -/
theorem onReceived_arrived {received : Bytes} (ptr : Bytes) {w : World} (hb : Behind h received w)
    (hl : Level h received w) :
    Behind h (received ++ ptr) (onReceived h w (some ptr)).2 ∧
    (0 < (onReceived h w (some ptr)).1 →
      Level h (received ++ ptr) (onReceived h w (some ptr)).2) := by
  have hgrown : (arrived h 0 [] received).seen <+: (arrived h 0 [] (received ++ ptr)).seen :=
    cut_seen_append (r := free h.getMessageLength) hpc 0 [] received ptr
  cases hg : w.graceful with
  | true =>
      -- a closing linkage takes no chunk
      obtain ⟨hgr, hd⟩ := feed_graceful (h := h) [ptr] w hg
      have hfeed : (feed h w [ptr]).2 = (onReceived h w (some ptr)).2 := by
        rw [feed]
        split
        · rfl
        · rfl
      rw [hfeed] at hgr hd
      refine ⟨?_, fun _ hg' => ?_⟩
      · rw [Behind, hd]
        exact hb.trans hgrown
      · rw [hgr] at hg'
        cases hg'
  | false =>
      have hnow := hl hg
      have hmore : (arrived h 0 [] received).outcome = .more := by
        rw [← hnow]
        rfl
      have hset := cut_settled (r := free (β := Verdict) h.getMessageLength) 0 [] received hmore
      have hcut : arrived h 0 [] (received ++ ptr)
          = arrived h w.rlength w.delivered (w.rbuffer ++ ptr) := by
        have happ := cut_append (r := free (β := Verdict) h.getMessageLength) hpc 0 []
          received ptr hmore
        rw [show cut (free h.getMessageLength) 0 [] received = w.received from hnow.symm] at happ
        exact happ
      rw [show cut (free h.getMessageLength) 0 [] received = w.received from hnow.symm] at hset
      have hw : Settled h w := ⟨hg, hset⟩
      refine ⟨?_, fun hret hg' => ?_⟩
      · rw [Behind, hcut]
        exact onReceived_behind hw ptr
      · obtain ⟨hf, hrest⟩ := onReceived_cut hw ptr
        have hm := hf.goes_on hret hg'
        obtain ⟨_, hd, hk, _⟩ := hf.more hm
        have hfree := (cut_free (receiver h) w.rlength w.delivered (w.rbuffer ++ ptr)).2 hm
        rw [hcut, World.received, hd, hk, hrest hm, ← hm]
        exact hfree.symm

/-- What a round of the event loop read, and where that leaves the linkage. -/
def Turn (h : LinkageHandler) (received : Bytes) (w : World) (ret : Int) (next : Action)
    (w' : World) : Prop :=
  ∃ t, w'.trace = w.trace ++ t ∧ (next ≠ .none → w'.io = w.io.drop (askings t)) ∧
    Behind h (received ++ readBytes w.io t) w' ∧
    (next ≠ .shutdown → (next = .none → 0 < ret) →
      Level h (received ++ readBytes w.io t) w')

omit hpc in
/-- A round that does not read. -/
theorem Turn.of_mute {received : Bytes} {w w' : World} {ret : Int} {next : Action}
    (hb : Behind h received w) (hl : Level h received w) (hm : Mute w w')
    (ha : Aside w w') : Turn h received w ret next w' := by
  obtain ⟨t, ht, hmute, hio⟩ := hm
  refine ⟨t, ht, fun _ => hio, ?_, fun _ _ => ?_⟩
  · rw [readBytes_mute hmute, List.append_nil]
    exact hb.aside ha
  · rw [readBytes_mute hmute, List.append_nil]
    exact hl.aside ha

theorem onEventRead_turn {received : Bytes} {w : World} (hb : Behind h received w)
    (hl : Level h received w) :
    Turn h received w (onEventRead h w).1 (onEventRead h w).2.1 (onEventRead h w).2.2 := by
  rw [onEventRead]
  extract_lets w₂ r
  have hw₂ : Aside w w₂ := .of_fields rfl rfl (delivered_of_trace rfl rfl) rfl ⟨rfl, rfl⟩
  split
  next hok =>
    have hnone : Aside w { w₂ with action := .none } :=
      hw₂.trans (.of_fields rfl rfl rfl rfl ⟨rfl, rfl⟩)
    obtain ⟨hb', hl'⟩ := onReceived_arrived hpc (w.answer.bytes.take readBufferSize)
      (hb.aside hnone) (hl.aside hnone)
    obtain ⟨t, ht, hmute, hio⟩ := (mute_kept { w₂ with action := .none }).onReceived
      (h := h) _ (some (w.answer.bytes.take readBufferSize)) (.refl _)
    -- the read is the first entry, and nothing behind it reads
    have htrace : r.2.trace = w.trace ++ (.read .ok :: t) := by
      have hfirst : w₂.trace = w.trace ++ [.read .ok] := by
        show w.trace ++ [.read w.answer.status] = _
        rw [hok]
      rw [List.append_cons, ← hfirst]
      exact ht
    have hbytes : readBytes w.io (.read .ok :: t) = w.answer.bytes.take readBufferSize := by
      rw [readBytes_read, readBytes_mute hmute, List.append_nil]
      rfl
    have hcount : r.2.io = w.io.drop (askings (.read .ok :: t)) := by
      have hone : askings (.read .ok :: t) = askings t + 1 := List.countP_cons_of_pos rfl
      rw [hone, ← List.drop_tail]
      exact hio
    have hbehind : Behind h (received ++ readBytes w.io (.read .ok :: t)) r.2 := by
      rw [hbytes]
      exact hb'
    split
    · exact ⟨_, htrace, fun _ => hcount, hbehind, fun hn => absurd rfl hn⟩
    split
    next hpos =>
      refine ⟨_, htrace, fun _ => hcount, hbehind, fun _ _ => ?_⟩
      rw [hbytes]
      exact hl' hpos
    · exact ⟨_, htrace, fun _ => hcount, hbehind,
        fun _ hpos => absurd (hpos rfl) (by decide : ¬(0 : Int) < -1)⟩
  next hst =>
    have hc : Mute w₂ (w₂.conclude .read w.answer.status).2.2 := conclude_mute _ _ _
    have ha := hw₂.trans (conclude_aside w₂ .read w.answer.status)
    obtain ⟨t, ht, hmute, hio⟩ := hc
    have hbytes : readBytes w.io (.read w.answer.status :: t) = [] := by
      rw [readBytes_other w.io (fun heq => hst (Event.read.inj heq))]
      exact readBytes_mute hmute _
    refine ⟨.read w.answer.status :: t, ?_, fun _ => ?_, ?_, fun _ _ => ?_⟩
    · rw [List.append_cons]
      exact ht
    · have hone : askings (.read w.answer.status :: t) = askings t + 1 :=
        List.countP_cons_of_pos rfl
      rw [hone, ← List.drop_tail]
      exact hio
    · rw [hbytes, List.append_nil]
      exact hb.aside ha
    · rw [hbytes, List.append_nil]
      exact hl.aside ha

omit hpc in
theorem onEventHandshake_turn {received : Bytes} {w : World} (hb : Behind h received w)
    (hl : Level h received w) (action : Action) :
    Turn h received w (onEventHandshake h w action).1 (onEventHandshake h w action).2.1
      (onEventHandshake h w action).2.2 := by
  have hlast : (onEventHandshake h w action).2.1 = .none := by
    rw [onEventHandshake]
    split
    · rfl
    · rfl
  obtain ⟨t, ht, hmute, -⟩ := onEventHandshake_quiet (h := h) w action
  have ha := onEventHandshake_aside (h := h) w action
  refine ⟨t, ht, fun hn => absurd hlast hn, ?_, fun _ _ => ?_⟩
  · rw [readBytes_mute hmute, List.append_nil]
    exact hb.aside ha
  · rw [readBytes_mute hmute, List.append_nil]
    exact hl.aside ha

omit hpc in
theorem onEventShutdown_turn {received : Bytes} {w : World} (hb : Behind h received w) :
    Turn h received w w.onEventShutdown.1 w.onEventShutdown.2.1 w.onEventShutdown.2.2 := by
  obtain ⟨t, ht, hmute, hio⟩ := onEventShutdown_mute w
  refine ⟨t, ht, fun _ => hio, ?_, fun _ _ hg => ?_⟩
  · rw [readBytes_mute hmute, List.append_nil]
    exact hb.aside (onEventShutdown_aside w)
  · rw [(onEventShutdown_stream w).graceful, Bool.or_true] at hg
    cases hg

theorem onEventOnce_turn {received : Bytes} {w : World} (action : Action)
    (hb : Behind h received w) (hl : action ≠ .shutdown → Level h received w) :
    Turn h received w (onEventOnce h w action).1 (onEventOnce h w action).2.1
      (onEventOnce h w action).2.2 := by
  cases action with
  | none =>
      exact .of_mute hb (hl (by decide)) (conclude_mute w .none .bug)
        (conclude_aside w .none .bug)
  | read => exact onEventRead_turn hpc hb (hl (by decide))
  | write => exact .of_mute hb (hl (by decide)) (onEventWrite_mute w) (onEventWrite_aside w)
  | accept => exact onEventHandshake_turn hb (hl (by decide)) .accept
  | connect => exact onEventHandshake_turn hb (hl (by decide)) .connect
  | shutdown => exact onEventShutdown_turn hb

/-- What came of the bytes an event read. -/
def Taken (h : LinkageHandler) (received : Bytes) (w : World) (go : Prop) (w' : World) :
    Prop :=
  ∃ t, w'.trace = w.trace ++ t ∧ Behind h (received ++ readBytes w.io t) w' ∧
    (go → Level h (received ++ readBytes w.io t) w')

/-- **THE EVENT LOOP** delivers a front of what it reads, round by round. -/
theorem onEventLoop_taken :
    ∀ (fuel : Nat) (w : World) (action : Action) (received : Bytes), Behind h received w →
      (action ≠ .shutdown → Level h received w) →
      Taken h received w (0 < (onEventLoop h fuel w action).1)
        (onEventLoop h fuel w action).2 := by
  intro fuel
  induction fuel with
  | zero =>
      intro w action received hb _
      refine ⟨[], (List.append_nil _).symm, ?_, fun hpos =>
        absurd hpos (by decide : ¬(0 : Int) < -1)⟩
      rw [readBytes, List.append_nil]
      exact hb
  | succ fuel ih =>
      intro w action received hb hl
      obtain ⟨t, ht, hio, hb', hl'⟩ := onEventOnce_turn hpc action hb hl
      rw [onEventLoop]
      generalize onEventOnce h w action = r at ht hio hb' hl' ⊢
      obtain ⟨ret, next, w'⟩ := r
      dsimp only at ht hio hb' hl' ⊢
      split
      next hnone =>
        refine ⟨t, ht, hb', fun hpos => hl' ?_ fun _ => hpos⟩
        rw [hnone]
        decide
      next hsome =>
        obtain ⟨t', ht', hb'', hl''⟩ := ih w' next _ hb'
          fun hnext => hl' hnext fun hnone => absurd hnone hsome
        have hbytes : received ++ readBytes w.io t ++ readBytes w'.io t'
            = received ++ readBytes w.io (t ++ t') := by
          rw [readBytes_append, hio hsome, List.append_assoc]
        rw [hbytes] at hb'' hl''
        exact ⟨t ++ t', by rw [ht', ht, List.append_assoc], hb'', hl''⟩

omit hpc in
/-- What comes behind does not read. -/
theorem Taken.aside {received : Bytes} {w w₁ w₂ : World} {go go' : Prop}
    (ht : Taken h received w go w₁) (hm : Mute w₁ w₂) (ha : Aside w₁ w₂)
    (hgo : go' → go) : Taken h received w go' w₂ := by
  obtain ⟨t, htrace, hb, hl⟩ := ht
  obtain ⟨t', htrace', hmute, -⟩ := hm
  have hbytes : readBytes w.io (t ++ t') = readBytes w.io t := by
    rw [readBytes_append, readBytes_mute hmute, List.append_nil]
  refine ⟨t ++ t', by rw [htrace', htrace, List.append_assoc], ?_, fun h0 => ?_⟩
  · rw [hbytes]
    exact hb.aside ha
  · rw [hbytes]
    exact (hl (hgo h0)).aside ha

omit hpc in
theorem Taken.of_mute {received : Bytes} {w w' : World} {go : Prop}
    (hb : Behind h received w) (hl : Level h received w) (hm : Mute w w')
    (ha : Aside w w') : Taken h received w go w' := by
  obtain ⟨t, htrace, hmute, -⟩ := hm
  refine ⟨t, htrace, ?_, fun _ => ?_⟩
  · rw [readBytes_mute hmute, List.append_nil]
    exact hb.aside ha
  · rw [readBytes_mute hmute, List.append_nil]
    exact hl.aside ha

theorem onEvent_taken {received : Bytes} {w : World} (hb : Behind h received w)
    (hl : Level h received w) (idleAction : Action) :
    Taken h received w (0 < (onEvent h w idleAction).1) (onEvent h w idleAction).2 :=
  (onEventLoop_taken hpc _ w _ received hb fun _ => hl).aside (rearm_mute _)
    (rearm_aside _) id

omit hpc in
/-- A released linkage is not read any more. -/
theorem Taken.release {received : Bytes} {w w₁ : World} {go : Prop}
    (ht : Taken h received w go w₁) :
    Taken h received w ((doRelease h w₁).client.isSome = true) (doRelease h w₁) := by
  have hm : Mute w₁ { w₁ with client := none } := .of_same rfl rfl
  have ha : Aside w₁ { w₁ with client := none } := .of_fields rfl rfl rfl rfl ⟨rfl, rfl⟩
  obtain ⟨t, htrace, hb, hl⟩ := ht.aside (hm.trans (requests_mute _ h.onDisconnected))
    (ha.trans (requests_aside _ h.onDisconnected)) id
  refine ⟨t, htrace, hb, fun hheld => ?_⟩
  rw [doRelease_released] at hheld
  cases hheld

theorem workerEvent_taken {received : Bytes} {w : World} (hb : Behind h received w)
    (hl : Level h received w) (idleAction : Action) :
    Taken h received w ((workerEvent h w idleAction).client.isSome = true)
      (workerEvent h w idleAction) := by
  have he := onEvent_taken hpc hb hl idleAction
  rw [workerEvent]
  split
  · exact (he.aside (requests_mute _ _) (requests_aside _ _) id).release
  split
  · exact he.release
  next hneg hzero =>
    exact he.aside (.refl _) (.of_fields rfl rfl rfl rfl ⟨rfl, rfl⟩) fun _ => by omega

/-- **EVERY OPERATION** delivers a front of what was read so far, and all of
    it while the worker holds the linkage. -/
theorem perform_taken {received : Bytes} {w : World} (hb : Behind h received w)
    (hl : Level h received w) (op : Op) :
    Taken h received w ((perform h w op).client.isSome = true) (perform h w op) := by
  cases op with
  | send buffer =>
      exact .of_mute hb hl (requests_mute w [.send buffer]) (requests_aside w [.send buffer])
  | disconnect finishWrite =>
      exact .of_mute hb hl (requests_mute w [.disconnect finishWrite])
        (requests_aside w [.disconnect finishWrite])
  | readable => exact workerEvent_taken hpc hb hl .read
  | writable => exact workerEvent_taken hpc hb hl .write
  | healthCheck reply =>
      have hsame : Taken h received w True w :=
        .of_mute hb hl (.refl w) (.of_fields rfl rfl rfl rfl ⟨rfl, rfl⟩)
      show Taken h received w ((healthCheck h w reply).client.isSome = true)
        (healthCheck h w reply)
      rw [healthCheck]
      split
      · exact hsame.release
      have hcalls : Taken h received w True _ :=
        hsame.aside (requests_mute w reply.calls) (requests_aside w reply.calls) id
      split
      · exact hcalls.aside (.refl _) (.of_fields rfl rfl rfl rfl ⟨rfl, rfl⟩) fun _ => trivial
      · exact hcalls.release

omit hpc in
theorem behind_unread {w : World} (hw : Unread w) : Behind h [] w := by
  rw [Behind, hw.delivered]
  exact List.nil_prefix

omit hpc in
theorem level_unread {w : World} (hw : Unread w) : Level h [] w := by
  intro _
  have hl : look (free (β := Verdict) h.getMessageLength).length 0 [] = .wait 0 := look_nil _ _
  rw [hw.received, arrived, cut_wait hl]
  rfl

/-- Attaching reads at most in its first event. -/
theorem attach_taken {receiveTimeout connectTimeout sendTimeout idleTimeout : Int}
    {now : Int} {io : List Answer} {setup : Setup} {w : World}
    (hw : attach h ((World.fresh receiveTimeout connectTimeout sendTimeout
      idleTimeout now).during io now) setup = (true, w)) :
    Taken h [] ((World.fresh receiveTimeout connectTimeout sendTimeout
      idleTimeout now).during io now) True w := by
  have hopen : ∀ w₀ w₁ : World, Unread w₀ → Mute w₀ w₁ → Aside w₀ w₁ →
      Taken h [] w₀ True w₁ := fun w₀ w₁ hu => .of_mute (behind_unread hu) (level_unread hu)
  rw [attach, if_neg (by exact Bool.false_ne_true)] at hw
  split at hw
  · cases congrArg Prod.fst hw
  split at hw
  · extract_lets r at hw
    split at hw
    · obtain rfl := congrArg Prod.snd hw
      refine hopen _ _ ⟨rfl, rfl, rfl, rfl⟩ (Mute.trans ?_ (doConnected_mute _))
        (Aside.trans ?_ (doConnected_aside _))
      · exact .of_same rfl rfl
      · exact .of_fields rfl rfl rfl rfl ⟨rfl, rfl⟩
    · cases congrArg Prod.fst hw
  extract_lets w₁ r at hw
  split at hw
  · obtain rfl := congrArg Prod.snd hw
    exact hopen _ _ ⟨rfl, rfl, rfl, rfl⟩ (.of_same rfl rfl) (.of_fields rfl rfl rfl rfl ⟨rfl, rfl⟩)
  next hfirst =>
    split at hw
    · cases congrArg Prod.fst hw
    next hret =>
      obtain rfl := congrArg Prod.snd hw
      have hu : Unread { w₁ with action := setup.action } := ⟨rfl, rfl, rfl, rfl⟩
      obtain ⟨t, htrace, hb, hl⟩ := onEvent_taken hpc (behind_unread hu) (level_unread hu)
        setup.action
      exact ⟨t, htrace, hb, fun _ => hl (Int.not_le.mp hret)⟩

end Consistent

end FlinterLinkage
