import Flinter.LinkageSendProofs

/-! # What the io holds of a write

    An io that answers `kStatusWannaRead` or `kStatusWannaWrite` has built its
    record and holds the bytes: the next write must offer the same ones, which
    is the rule `SSL_write` imposes.  `Linkage` keeps them at the front of
    `_wbuffer` and their number in `_last_writing`, so the retry is the same
    write whatever was queued meanwhile (`incomplete_write_retried`).

    A `Send` that returns false has to leave nothing behind.  The limit of the
    queue is checked after the direct write, though, when the io may have taken
    a part of the bytes or hold them all (`refused_send_harmless_iff`). -/

namespace FlinterLinkage

open World Runs

variable {h : LinkageHandler}

-- ── The last write ───────────────────────────────────────────────────────────

/-- What a write was given, and its answer. -/
def Event.write? : Event → Option (Bytes × Status)
  | .wrote buffer status _ => some (buffer, status)
  | _ => none

/-- The last write of a trace. -/
def lastWrite (t : List Event) : Option (Bytes × Status) :=
  (t.filterMap Event.write?).getLast?

/-- A write that comes next after an incomplete one is given the same bytes. -/
def RetriesLast (pre : List Event) (e : Event) : Prop :=
  ∀ buffer status retlen, e = .wrote buffer status retlen →
    ∀ held answer, lastWrite pre = some (held, answer) →
      answer.incomplete = true → buffer = held

theorem lastWrite_snoc (t : List Event) (buffer : Bytes) (status : Status)
    (retlen : Nat) :
    lastWrite (t ++ [.wrote buffer status retlen]) = some (buffer, status) := by
  rw [lastWrite, List.filterMap_append]
  exact List.getLast?_concat

theorem lastWrite_other {t : List Event} {e : Event} (he : e.write? = none) :
    lastWrite (t ++ [e]) = lastWrite t := by
  rw [lastWrite, lastWrite, List.filterMap_append, List.filterMap_cons_none he,
    List.filterMap_nil, List.append_nil]

theorem retriesLast_other {t : List Event} {e : Event} (he : e.write? = none) :
    RetriesLast t e := by
  intro buffer status retlen heq
  rw [heq] at he
  cases he

/-- **THE RETRY INVARIANT**: what an incomplete write was given is the front of
    the queue, and `_last_writing` is its length. -/
structure Retrying (w : World) : Prop where
  identical : Throughout RetriesLast w.trace
  held : ∀ buffer status, lastWrite w.trace = some (buffer, status) →
    status.incomplete = true →
      buffer ≠ [] ∧ w.lastWriting = buffer.length ∧ buffer <+: w.wbuffer

/-- The queue only grew, and nothing was written. -/
theorem Retrying.keep {w w' : World} (hi : Retrying w)
    (hb : w.wbuffer <+: w'.wbuffer) (hl : w'.lastWriting = w.lastWriting)
    (htrace : w'.trace = w.trace ∨
      ∃ e, e.write? = none ∧ w'.trace = w.trace ++ [e]) : Retrying w' := by
  have hlast : lastWrite w'.trace = lastWrite w.trace := by
    rcases htrace with heq | ⟨e, he, heq⟩
    · rw [heq]
    · rw [heq, lastWrite_other he]
  constructor
  · rcases htrace with heq | ⟨e, he, heq⟩
    · rw [heq]
      exact hi.identical
    · rw [heq]
      exact throughout_snoc.mpr ⟨hi.identical, retriesLast_other he⟩
  · intro buffer status hw hinc
    rw [hlast] at hw
    obtain ⟨hne, hlen, hpre⟩ := hi.held buffer status hw hinc
    exact ⟨hne, hl.trans hlen, hpre.trans hb⟩

/-- One write more. -/
theorem Retrying.wrote {w w' : World} (hi : Retrying w) (buffer : Bytes)
    {status : Status} {retlen : Nat}
    (htrace : w'.trace = w.trace ++ [.wrote buffer status retlen])
    (hsame : RetriesLast w.trace (.wrote buffer status retlen))
    (hheld : status.incomplete = true →
      buffer ≠ [] ∧ w'.lastWriting = buffer.length ∧ buffer <+: w'.wbuffer) :
    Retrying w' := by
  constructor
  · rw [htrace]
    exact throughout_snoc.mpr ⟨hi.identical, hsame⟩
  · intro buffer' status' hw hinc
    rw [htrace, lastWrite_snoc] at hw
    obtain ⟨rfl, rfl⟩ := Prod.mk.inj (Option.some.inj hw)
    exact hheld hinc

/-- With nothing queued there is nothing to be retried. -/
theorem Retrying.nothing_held {w : World} (hi : Retrying w)
    (hempty : w.wbuffer = []) (e : Event) : RetriesLast w.trace e := by
  intro buffer status retlen _ held answer hlast hinc
  obtain ⟨hne, _, hpre⟩ := hi.held held answer hlast hinc
  rw [hempty] at hpre
  exact absurd (List.prefix_nil.mp hpre) hne

/-- The writing branch offers what is held. -/
theorem Retrying.offers {w : World} (hi : Retrying w) (status : Status)
    (retlen : Nat) :
    RetriesLast w.trace (.wrote (w.wbuffer.take w.picked) status retlen) := by
  intro buffer _ _ heq held answer hlast hinc
  obtain ⟨rfl, _, _⟩ := Event.wrote.inj heq
  obtain ⟨hne, hlen, hpre⟩ := hi.held held answer hlast hinc
  have hpos : w.lastWriting ≠ 0 := by
    have := List.length_pos_iff.mpr hne
    omega
  rw [picked, if_pos hpos, hlen]
  exact (List.prefix_iff_eq_take.mp hpre).symm

-- ── Effects ──────────────────────────────────────────────────────────────────

theorem Retrying.note {w : World} (hi : Retrying w) {e : Event}
    (he : e.write? = none) : Retrying (w.note e) :=
  hi.keep List.prefix_rfl rfl (Or.inr ⟨e, he, rfl⟩)

theorem Retrying.conclude {w : World} (hi : Retrying w) (action : Action)
    (status : Status) : Retrying (w.conclude action status).2.2 := by
  rw [conclude_world]
  exact hi.keep List.prefix_rfl rfl (Or.inl rfl)

theorem Retrying.rearm {w : World} (hi : Retrying w) : Retrying w.rearm := by
  rw [rearm_world]
  exact hi.keep List.prefix_rfl rfl (Or.inl rfl)

theorem Retrying.onEventShutdown {w : World} (hi : Retrying w) :
    Retrying w.onEventShutdown.2.2 := by
  cases hc : w.closed with
  | true =>
      rw [onEventShutdown_closed hc]
      exact hi.keep List.prefix_rfl rfl (Or.inl rfl)
  | false =>
      rw [onEventShutdown_open hc]
      exact hi.keep List.prefix_rfl rfl (Or.inr ⟨.shutdown w.wbuffer, rfl, rfl⟩)

/-- `Disconnect(true)` keeps the queue. -/
theorem Retrying.disconnect {w : World} (hi : Retrying w) :
    Retrying (w.disconnect true).2 := by
  have ha : Retrying (w.announce true) := by
    rw [announce_world]
    exact hi.keep List.prefix_rfl rfl (Or.inr ⟨_, rfl, rfl⟩)
  rw [World.disconnect]
  split
  · exact ha
  · exact ha.onEventShutdown.rearm

/-- A `Send` that returned true either queued behind what is held or found the
    queue empty. -/
theorem Retrying.send {w : World} (hi : Retrying w) (buffer : Option Bytes)
    (hret : (w.send buffer).1 = true) : Retrying (w.send buffer).2 := by
  have hs := send_cases w buffer
  generalize (w.send buffer).1 = ret at hs hret
  generalize (w.send buffer).2 = w' at hs ⊢
  cases hs with
  | refused => exact hi
  | nothing => exact hi
  | queued b => exact hi.keep (List.prefix_append w.wbuffer b) rfl (Or.inl rfl)
  | full => exact hi
  | wrote b hb ha hempty hg hok =>
      refine hi.wrote b rfl (hi.nothing_held hempty _) fun hinc => ?_
      rw [hok] at hinc
      cases hinc
  | partly b hb ha hempty hg hok =>
      refine hi.wrote b rfl (hi.nothing_held hempty _) fun hinc => ?_
      rw [hok] at hinc
      cases hinc
  | jammed b hb ha hempty hg hjam =>
      refine hi.wrote b rfl (hi.nothing_held hempty _) fun hinc => ?_
      rw [hjam] at hinc
      cases hinc
  | wanted b hb ha hempty hg hinc =>
      refine hi.wrote b rfl (hi.nothing_held hempty _) fun _ => ⟨hb, rfl, ?_⟩
      show b <+: w.wbuffer ++ b
      rw [hempty]
      exact List.prefix_rfl
  | lost => cases hret

/-- The writing branch retries what is held, and holds what it could not
    finish. -/
theorem Retrying.written {w : World} (hi : Retrying w) (hs : Stream w) :
    Retrying (onEventWrite w).2.2 := by
  have hw := onEventWrite_cases w
  generalize (onEventWrite w).2.2 = w' at hw ⊢
  cases hw with
  | idle => exact hi.keep List.prefix_rfl rfl (Or.inl rfl)
  | taken hne hok buffer hbuffer =>
      refine hi.wrote buffer rfl (hbuffer ▸ hi.offers _ _) fun hinc => ?_
      have hinc' : w.answer.status.incomplete = true := hinc
      rw [hok] at hinc'
      cases hinc'
  | failed hne hst buffer hbuffer =>
      have hlen : buffer.length = w.picked := by
        rw [hbuffer, List.length_take]
        exact Nat.min_eq_left (hs.picked_le hne)
      have hpos := picked_pos hne
      rw [conclude_world]
      refine hi.wrote buffer rfl (hbuffer ▸ hi.offers _ _) fun hinc =>
        ⟨?_, ?_, ?_⟩
      · exact List.length_pos_iff.mp (by omega)
      · show (if w.answer.status.incomplete = true then w.picked else 0) = _
        rw [if_pos (show w.answer.status.incomplete = true from hinc), hlen]
      · show buffer <+: w.wbuffer
        rw [hbuffer]
        exact List.take_prefix _ _

-- ── A trace only grows ───────────────────────────────────────────────────────

theorem send_trace (w : World) (buffer : Option Bytes) :
    (w.send buffer).2.trace = w.trace ∨ ∃ b status retlen, buffer = some b ∧
      (w.send buffer).2.trace = w.trace ++ [.wrote b status retlen] := by
  have hs := send_cases w buffer
  generalize (w.send buffer).1 = ret at hs
  generalize (w.send buffer).2 = w' at hs ⊢
  cases hs with
  | refused => exact Or.inl rfl
  | nothing => exact Or.inl rfl
  | queued => exact Or.inl rfl
  | full => exact Or.inl rfl
  | wrote b => exact Or.inr ⟨b, _, _, rfl, rfl⟩
  | partly b => exact Or.inr ⟨b, _, _, rfl, rfl⟩
  | jammed b => exact Or.inr ⟨b, _, _, rfl, rfl⟩
  | wanted b => exact Or.inr ⟨b, _, _, rfl, rfl⟩
  | lost b => exact Or.inr ⟨b, _, _, rfl, rfl⟩

theorem send_trace_grows (w : World) (buffer : Option Bytes) :
    w.trace <+: (w.send buffer).2.trace := by
  rcases send_trace w buffer with heq | ⟨b, status, retlen, _, heq⟩
  · exact ⟨[], (List.append_nil _).trans heq.symm⟩
  · rw [heq]
    exact List.prefix_append _ _

theorem onEventShutdown_trace_grows (w : World) :
    w.trace <+: w.onEventShutdown.2.2.trace := by
  cases hc : w.closed with
  | true =>
      rewrite [onEventShutdown_closed hc]
      exact List.prefix_rfl
  | false =>
      rw [onEventShutdown_open hc]
      exact List.prefix_append _ _

theorem disconnect_trace_grows (w : World) (finishWrite : Bool) :
    w.trace ++ [.disconnect finishWrite w.action w.wbuffer] <+:
      (w.disconnect finishWrite).2.trace := by
  have ha : w.trace ++ [.disconnect finishWrite w.action w.wbuffer]
      = (w.announce finishWrite).trace := by rw [announce_world]
  rw [ha, World.disconnect]
  split
  · exact List.prefix_rfl
  · rw [rearm_world]
    exact onEventShutdown_trace_grows _

theorem onEventWrite_trace_grows (w : World) :
    w.trace <+: (onEventWrite w).2.2.trace := by
  have hw := onEventWrite_cases w
  generalize (onEventWrite w).2.2 = w' at hw ⊢
  cases hw with
  | idle => exact List.prefix_rfl
  | taken => exact List.prefix_append _ _
  | failed =>
      rw [conclude_world]
      exact List.prefix_append _ _

theorem Effect.trace_grows {w w' : World} (he : Effect w w') :
    w.trace <+: w'.trace := by
  cases he with
  | send buffer => exact (send_trace_grows w buffer).trans (List.prefix_append _ _)
  | disconnect finishWrite =>
      exact (List.prefix_append _ _).trans (disconnect_trace_grows w finishWrite)
  | receive => exact List.prefix_rfl
  | deliver => exact List.prefix_append _ _
  | hangUp message =>
      have hnote : w.trace <+: (w.note (.message message 0 w.wbuffer)).trace :=
        List.prefix_append _ _
      exact hnote.trans (onEventShutdown_trace_grows _)
  | answered => exact List.prefix_rfl
  | readOk => exact List.prefix_append _ _
  | readRest =>
      rw [conclude_world]
      exact List.prefix_append _ _
  | write => exact onEventWrite_trace_grows w
  | establish => exact List.prefix_append _ _
  | handshake =>
      rewrite [conclude_world]
      exact List.prefix_rfl
  | shutdown => exact onEventShutdown_trace_grows w
  | rearm =>
      rewrite [rearm_world]
      exact List.prefix_rfl

-- ── Every run ────────────────────────────────────────────────────────────────

/-- The invariant of a run, as long as no `Send` was refused and the queue was
    not dropped. -/
def Faithful (w : World) : Prop :=
  Stream w ∧ ((∀ e ∈ w.trace, e.harmless = true) → Retrying w)

theorem Faithful.effect {w w' : World} (he : Effect w w') (hi : Faithful w) :
    Faithful w' := by
  refine ⟨hi.1.effect he, fun hharm => ?_⟩
  have hr := hi.2 fun e hmem => hharm e (he.trace_grows.subset hmem)
  cases he with
  | send buffer =>
      have hret := hharm (.sent buffer (w.send buffer).1)
        (List.mem_append_right _ (List.mem_singleton.mpr rfl))
      exact (hr.send buffer hret).note rfl
  | disconnect finishWrite =>
      cases finishWrite with
      | true => exact hr.disconnect
      | false =>
          have hbad := hharm (.disconnect false w.action w.wbuffer)
            ((disconnect_trace_grows w false).subset
              (List.mem_append_right _ (List.mem_singleton.mpr rfl)))
          cases hbad
  | receive => exact hr.keep List.prefix_rfl rfl (Or.inl rfl)
  | deliver message ret hret => exact hr.note rfl
  | hangUp message => exact (hr.note rfl).onEventShutdown
  | answered => exact hr.keep List.prefix_rfl rfl (Or.inl rfl)
  | readOk => exact hr.keep List.prefix_rfl rfl (Or.inr ⟨.read .ok, rfl, rfl⟩)
  | readRest status hstatus => exact (hr.note rfl).conclude .read status
  | write => exact hr.written hi.1
  | establish => exact hr.keep List.prefix_rfl rfl (Or.inr ⟨.connected, rfl, rfl⟩)
  | handshake status haction hstatus => exact hr.conclude w.action status
  | shutdown hwhy => exact hr.onEventShutdown
  | rearm => exact hr.rearm

theorem faithful_invariant : Invariant Faithful where
  opened := by
    intro w hw
    refine ⟨stream_invariant.opened w hw, fun _ => ?_⟩
    constructor
    · rw [hw.trace]
      exact throughout_nil
    · intro buffer status hlast
      rw [hw.trace] at hlast
      cases hlast
  effect := fun _ _ he hi => hi.effect he
  during := fun w io now hi => ⟨stream_invariant.during w io now hi.1,
    fun hharm => (hi.2 hharm).keep List.prefix_rfl rfl (Or.inl rfl)⟩
  released := fun w hi => ⟨stream_invariant.released w hi.1,
    fun hharm => (hi.2 hharm).keep List.prefix_rfl rfl (Or.inl rfl)⟩

/-- **AN INCOMPLETE WRITE IS RETRIED WITH IDENTICAL DATA**: in every run in
    which no `Send` returned false and no `Disconnect` dropped the queue, the
    write after one answered `kStatusWannaRead` or `kStatusWannaWrite` is given
    the same bytes. -/
theorem incomplete_write_retried (h : LinkageHandler) (w : World)
    (hr : Reachable (system h) w) (hharm : ∀ e ∈ w.trace, e.harmless = true) :
    Throughout RetriesLast w.trace :=
  ((faithful_invariant.reachable hr).2 hharm).identical

/-- Two bytes are held, a third is queued behind them, and the retry offers
    two. -/
theorem incomplete_write_retried_queued :
    let w := perform idleHandler ((perform idleHandler ((perform idleHandler
      ((openWorld idleHandler).during [⟨.wannaWrite, [], false, 0⟩] 1)
        (.send (some [1, 2]))).during [] 2)
        (.send (some [3]))).during [⟨.ok, [], false, 2⟩] 3) .writable
    w.trace = [.connected, .wrote [1, 2] .wannaWrite 0, .sent (some [1, 2]) true,
      .sent (some [3]) true, .wrote [1, 2] .ok 2] ∧
    Throughout RetriesLast w.trace := by
  intro w
  have hr : Reachable (system idleHandler) w :=
    .next (l := ⟨.writable, [⟨.ok, [], false, 2⟩], 3⟩)
      (.next (l := ⟨.send (some [3]), [], 2⟩)
        (.next (l := ⟨.send (some [1, 2]), [⟨.wannaWrite, [], false, 0⟩], 1⟩)
          openWorld_reachable ⟨rfl, rfl⟩) ⟨rfl, rfl⟩) ⟨rfl, rfl⟩
  exact ⟨by decide, incomplete_write_retried idleHandler w hr (by decide)⟩

-- ── A Send that returned false ───────────────────────────────────────────────

/-- How many bytes of a write the io has: those it took, or all of them while it
    wants the call again. -/
def Event.taken : Event → Nat
  | .wrote _ .ok retlen => retlen
  | .wrote buffer .wannaRead _ => buffer.length
  | .wrote buffer .wannaWrite _ => buffer.length
  | _ => 0

/-- The io failed under a write. -/
def Event.broken : Event → Bool
  | .wrote _ .bug _ => true
  | .wrote _ .error _ => true
  | .wrote _ .closed _ => true
  | _ => false

/-- What a `Send` adds to the trace. -/
def sendEvents (w : World) (buffer : Option Bytes) : List Event :=
  (w.send buffer).2.trace.drop w.trace.length

/-- What is asked of a `Send` that returns false over a working io: the io has
    nothing of the buffer and the queue is as it was. -/
def RefusedHarmless (w : World) (buffer : Option Bytes) : Prop :=
  (w.send buffer).1 = false →
    (∀ e ∈ sendEvents w buffer, e.broken = false) →
    (∀ e ∈ sendEvents w buffer, e.taken = 0) ∧
      (w.send buffer).2.wbuffer = w.wbuffer

/-- `Send` goes to the io at once. -/
def WritesAtOnce (w : World) (b : Bytes) : Prop :=
  b.length ≤ intMax ∧ b ≠ [] ∧ w.worker = true ∧ w.graceful = false ∧
    w.action = .none ∧ w.wbuffer = []

/-- The answer leaves the io with something of the buffer, and the rest is more
    than the queue can hold. -/
def Overruns (w : World) (b : Bytes) : Prop :=
  (w.answer.status = .ok ∧ 0 < w.retlen b ∧ kMaximumBytes < b.length - w.retlen b) ∨
    (w.answer.status.incomplete = true ∧ kMaximumBytes < b.length)

/-- A `Send` at once, up to what the io answers. -/
theorem send_at_once {w : World} {b : Bytes} (hd : WritesAtOnce w b) :
    w.send (some b) =
      match w.answer.status with
      | .jammed => (w.ioWrite b).queue b fun w =>
          (w.setWanna false true).updateLastSent false true
      | .wannaRead => (w.ioWrite b).queue b fun w => w.awaitWrite true false b.length
      | .wannaWrite => (w.ioWrite b).queue b fun w => w.awaitWrite false true b.length
      | .ok =>
        if w.retlen b < b.length then
          (w.ioWrite b).queue (b.drop (w.retlen b)) fun w =>
            (w.setWannaWrite true).updateLastSent true true
        else (true, (w.ioWrite b).updateLastSent true false)
      | _ => (false, w.ioWrite b) := by
  obtain ⟨hlong, hne, hworker, hg, ha, hempty⟩ := hd
  have hready : ¬ (intMax < b.length ∨ ¬w.worker = true ∨ w.graceful = true) := by
    rintro (h0 | h0 | h0)
    · omega
    · exact h0 hworker
    · rw [hg] at h0
      cases h0
  have hlen : b.length ≠ 0 := fun h0 => hne (List.length_eq_zero_iff.mp h0)
  have hfree : ¬ (w.action ≠ .none ∨ w.wbuffer ≠ []) := by
    rintro (h0 | h0)
    · exact h0 ha
    · exact h0 hempty
  rw [send, if_neg hready, if_neg hlen]
  refine (if_neg hfree).trans ?_
  cases hst : w.answer.status <;> rfl

/-- A `Send` at once adds its write to the trace. -/
theorem send_at_once_events {w : World} {b : Bytes} (hd : WritesAtOnce w b) :
    sendEvents w (some b) = [.wrote b w.answer.status (w.retlen b)] := by
  obtain ⟨hlong, hne, hworker, hg, ha, hempty⟩ := hd
  have hs := send_cases w (some b)
  rw [sendEvents]
  generalize (w.send (some b)).1 = ret at hs
  generalize (w.send (some b)).2 = w' at hs ⊢
  have hfree : ¬ (w.action ≠ .none ∨ w.wbuffer ≠ []) := by
    rintro (h0 | h0)
    · exact h0 ha
    · exact h0 hempty
  cases hs with
  | refused _ hwhy =>
      rcases hwhy with h0 | ⟨b', heq, h0⟩ | h0 | h0
      · cases h0
      · cases heq
        omega
      · rw [hworker] at h0
        cases h0
      · rw [hg] at h0
        cases h0
  | nothing => exact absurd rfl hne
  | queued _ _ _ hbusy => exact absurd hbusy hfree
  | full _ hbusy => exact absurd hbusy hfree
  | wrote => exact List.drop_left
  | partly => exact List.drop_left
  | jammed => exact List.drop_left
  | wanted => exact List.drop_left
  | lost => exact List.drop_left

/-- Nothing is refused for the limit that the queue could hold. -/
theorem queue_refuses {w : World} (hempty : w.wbuffer = []) (b : Bytes)
    (queued : World → World) :
    (w.queue b queued).1 = false ↔ kMaximumBytes < b.length := by
  have hroom : kMaximumBytes - w.wbuffer.length = kMaximumBytes := by
    rw [hempty]
    rfl
  rcases queue_cases w b queued with ⟨hfit, heq⟩ | ⟨hfull, heq⟩
  · rw [heq]
    rw [hroom] at hfit
    constructor
    · intro h0
      cases h0
    · intro h0
      omega
  · rw [heq]
    rw [hroom] at hfull
    exact ⟨fun _ => hfull, fun _ => rfl⟩

/-- **A DIRECT WRITE IS REFUSED OVER A WORKING IO** only for what is left to be
    queued. -/
theorem send_at_once_refused {w : World} {b : Bytes} (hd : WritesAtOnce w b)
    (hok : (Event.wrote b w.answer.status (w.retlen b)).broken = false) :
    (w.send (some b)).1 = false ↔
      kMaximumBytes < b.length -
        (if w.answer.status = .ok then w.retlen b else 0) := by
  have hempty : (w.ioWrite b).wbuffer = [] := hd.2.2.2.2.2
  rw [send_at_once hd]
  cases hst : w.answer.status with
  | bug =>
      rw [hst] at hok
      cases hok
  | error =>
      rw [hst] at hok
      cases hok
  | closed =>
      rw [hst] at hok
      cases hok
  | jammed => exact queue_refuses hempty b _
  | wannaRead => exact queue_refuses hempty b _
  | wannaWrite => exact queue_refuses hempty b _
  | ok =>
      dsimp only
      rw [if_pos rfl]
      split
      next hsome =>
        rw [queue_refuses hempty, List.length_drop]
      next hall =>
        constructor
        · intro h0
          cases h0
        · intro h0
          omega

/-- A `Send` that returned false leaves the queue alone. -/
theorem send_false_wbuffer {w : World} {buffer : Option Bytes}
    (hfalse : (w.send buffer).1 = false) :
    (w.send buffer).2.wbuffer = w.wbuffer := by
  have hs := send_cases w buffer
  generalize (w.send buffer).1 = ret at hs hfalse
  generalize (w.send buffer).2 = w' at hs ⊢
  cases hs with
  | refused => rfl
  | full => rfl
  | lost => rfl
  | _ => cases hfalse

/-- It did nothing at all, or it was a direct write. -/
theorem send_false_idle {w : World} {buffer : Option Bytes}
    (hfalse : (w.send buffer).1 = false) :
    (w.send buffer).2 = w ∨ ∃ b, buffer = some b ∧ WritesAtOnce w b := by
  cases buffer with
  | none => exact Or.inl rfl
  | some b =>
      by_cases hready : intMax < b.length ∨ ¬w.worker = true ∨ w.graceful = true
      · rw [send, if_pos hready]
        exact Or.inl rfl
      have hs := send_cases w (some b)
      generalize (w.send (some b)).1 = ret at hs hfalse
      generalize (w.send (some b)).2 = w' at hs ⊢
      cases hs with
      | refused => exact Or.inl rfl
      | full => exact Or.inl rfl
      | lost _ hb ha hempty hg =>
          refine Or.inr ⟨b, rfl, ?_, hb, ?_, hg, ha, hempty⟩
          · exact Nat.not_lt.mp fun h0 => hready (Or.inl h0)
          · exact Decidable.not_not.mp fun h0 => hready (Or.inr (Or.inl h0))
      | _ => cases hfalse

/-- **A REFUSED SEND IS HARMLESS** exactly when it is not a direct write that
    leaves the io with something of the buffer and the queue with more than it
    can hold. -/
theorem refused_send_harmless_iff (w : World) (buffer : Option Bytes) :
    RefusedHarmless w buffer ↔
      ∀ b, buffer = some b → WritesAtOnce w b → ¬ Overruns w b := by
  constructor
  · rintro hharmless b rfl hd hover
    have hevents := send_at_once_events hd
    have hbroken : (Event.wrote b w.answer.status (w.retlen b)).broken = false := by
      rcases hover with ⟨hok, _⟩ | ⟨hinc, _⟩
      · rw [hok]
        rfl
      · cases hst : w.answer.status <;> rw [hst] at hinc <;> first | rfl | cases hinc
    have hfalse : (w.send (some b)).1 = false := by
      rw [send_at_once_refused hd hbroken]
      rcases hover with ⟨hok, _, hlong⟩ | ⟨hinc, hlong⟩
      · rw [if_pos hok]
        exact hlong
      · rw [if_neg (by intro hok; rw [hok] at hinc; cases hinc)]
        exact hlong
    have htaken := (hharmless hfalse (by
      intro e he
      rw [hevents] at he
      rw [List.mem_singleton.mp he]
      exact hbroken)).1 _ (by rw [hevents]; exact List.mem_singleton.mpr rfl)
    rcases hover with ⟨hok, hpos, _⟩ | ⟨hinc, hlong⟩
    · rw [hok] at htaken
      have hzero : w.retlen b = 0 := htaken
      omega
    · have hzero : b.length = 0 := by
        cases hst : w.answer.status <;> rw [hst] at hinc htaken <;>
          first | exact htaken | cases hinc
      omega
  · intro hfits hfalse hworks
    refine ⟨?_, send_false_wbuffer hfalse⟩
    rcases send_false_idle hfalse with hidle | ⟨b, rfl, hd⟩
    · intro e he
      rw [sendEvents, hidle, List.drop_length] at he
      exact absurd he List.not_mem_nil
    have hevents := send_at_once_events hd
    have hbroken : (Event.wrote b w.answer.status (w.retlen b)).broken = false :=
      hworks _ (by rw [hevents]; exact List.mem_singleton.mpr rfl)
    have hlong := (send_at_once_refused hd hbroken).mp hfalse
    have hfit := hfits b rfl hd
    intro e he
    rw [hevents] at he
    rw [List.mem_singleton.mp he]
    -- one case for each answer of a working io
    cases hst : w.answer.status with
    | ok =>
        rw [if_pos hst] at hlong
        show w.retlen b = 0
        rcases Nat.eq_zero_or_pos (w.retlen b) with hzero | hpos
        · exact hzero
        · exact absurd (Or.inl ⟨hst, hpos, hlong⟩) hfit
    | wannaRead =>
        rw [if_neg (by rw [hst]; decide)] at hlong
        exact absurd (Or.inr ⟨by rw [hst]; rfl, hlong⟩) hfit
    | wannaWrite =>
        rw [if_neg (by rw [hst]; decide)] at hlong
        exact absurd (Or.inr ⟨by rw [hst]; rfl, hlong⟩) hfit
    | jammed => rfl
    | bug => rfl
    | error => rfl
    | closed => rfl

/-- Two bytes more than the queue can hold. -/
def oversized : Bytes := List.replicate (kMaximumBytes + 2) 0

theorem oversized_length : oversized.length = kMaximumBytes + 2 :=
  List.length_replicate

/-- A linkage whose io takes one byte of what it is given. -/
def takerWorld : World := (openWorld idleHandler).during [⟨.ok, [], false, 1⟩] 1

/-- The byte is on its way, and `Send` returns false. -/
theorem refused_send_sends :
    Reachable (system idleHandler) (openWorld idleHandler) ∧
    ¬ RefusedHarmless ((openWorld idleHandler).during [⟨.ok, [], false, 1⟩] 1)
      (some oversized) := by
  refine ⟨openWorld_reachable, fun hharmless => ?_⟩
  change RefusedHarmless takerWorld (some oversized) at hharmless
  have hlen := oversized_length
  generalize oversized = b at hlen hharmless
  have hst : takerWorld.answer.status = .ok := rfl
  have hret : takerWorld.retlen b = 1 := by
    show min 1 b.length = 1
    omega
  have hd : WritesAtOnce takerWorld b := by
    refine ⟨?_, ?_, rfl, rfl, rfl, rfl⟩
    · rw [hlen]
      decide
    · intro hnil
      rw [hnil] at hlen
      cases hlen
  have hevents := send_at_once_events hd
  have hfalse := (send_at_once_refused hd rfl).mpr (by
    rw [if_pos hst, hret, hlen]
    omega)
  have htaken := (hharmless hfalse (by
    intro e he
    rw [hevents] at he
    rw [List.mem_singleton.mp he]
    rfl)).1 _ (by rw [hevents]; exact List.mem_singleton.mpr rfl)
  rw [hret] at htaken
  cases htaken

end FlinterLinkage
