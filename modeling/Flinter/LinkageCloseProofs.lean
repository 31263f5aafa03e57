import Flinter.LinkageEffectProofs

/-! # When a linkage shuts its io down

    `Disconnect` and a zero answer of `OnMessage` end a connection.  Two things
    are asked of them: that what `Send` accepted is written first, and that the
    shutdown does come.  The code does neither in general.

    * `Disconnect(true)` with no action incomplete goes to `_io->Shutdown()` at
      once, whatever `_wbuffer` holds; so does a zero answer.  Only with an
      empty queue at that moment is it flushed first
      (`flushes_first_iff`).
    * With another action incomplete `Disconnect` only sets `_graceful`.  The
      branch that acts on it is a writable event with an empty queue, and
      `OnEvent` disarms the write watcher when the queue is empty
      (`disconnect_not_forgotten` is for runs where this does not happen). -/

namespace FlinterLinkage

open World Runs

variable {h : LinkageHandler}

-- ── What the trace says ──────────────────────────────────────────────────────

/-- `_io->Shutdown()` was invoked. -/
def Event.isShutdown : Event → Bool
  | .shutdown _ => true
  | _ => false

/-- `Disconnect` was called. -/
def Event.isDisconnect : Event → Bool
  | .disconnect _ _ _ => true
  | _ => false

/-- A write failed for good. -/
def Event.writeFailed : Event → Bool
  | .wrote _ .closed _ => true
  | .wrote _ .error _ => true
  | .wrote _ .bug _ => true
  | _ => false

/-- `Disconnect(true)`, or a zero answer of `OnMessage`. -/
def Event.finishing : Event → Bool
  | .disconnect finishWrite _ _ => finishWrite
  | .message _ ret _ => ret == 0
  | _ => false

/-- What was queued when such a call found no action incomplete. -/
def Event.closing? : Event → Option Bytes
  | .disconnect true .none pending => some pending
  | .message _ 0 pending => some pending
  | _ => none

def ShutDown (t : List Event) : Prop := ∃ e ∈ t, e.isShutdown = true

def Disconnected (t : List Event) : Prop := ∃ e ∈ t, e.isDisconnect = true

def WriteFailed (t : List Event) : Prop := ∃ e ∈ t, e.writeFailed = true

/-- After a call that is to finish the writing, the io is not shut down over a
    queue, unless a write has failed. -/
def FlushesFirst : List Event → Prop :=
  Throughout fun pre e => ∀ pending, e = .shutdown pending →
    (∃ e' ∈ pre, e'.finishing = true) → pending = [] ∨ WriteFailed pre

/-- Calls that are to finish the writing and find no action incomplete find
    nothing to write either, unless a write has failed. -/
def FinishesEmpty : List Event → Prop :=
  Throughout fun pre e => ∀ pending, e.closing? = some pending →
    pending = [] ∨ WriteFailed pre

/-- `Disconnect` is not called while a read, a write or a handshake is
    incomplete, but for linkages already shut down.  Not even a `Disconnect(false)`
    during a write is let through: in `OnMessage`, the next read can take that write
    for complete. -/
def NotDeferred : List Event → Prop :=
  Throughout fun pre e => ∀ finishWrite action pending,
    e = .disconnect finishWrite action pending →
      action = .none ∨ action = .shutdown ∨ ShutDown pre

theorem mem_snoc {p : Event → Bool} {t : List Event} {e : Event}
    (he : p e = true) : ∃ e' ∈ t ++ [e], p e' = true :=
  ⟨e, List.mem_append_right _ (List.mem_singleton.mpr rfl), he⟩

theorem mem_more {p : Event → Bool} {t : List Event} (es : List Event)
    (ht : ∃ e ∈ t, p e = true) : ∃ e ∈ t ++ es, p e = true := by
  obtain ⟨e, he, hp⟩ := ht
  exact ⟨e, List.mem_append_left _ he, hp⟩

theorem mem_fewer {p : Event → Bool} {t es : List Event}
    (hes : ∀ e ∈ es, p e = false) (ht : ∃ e ∈ t ++ es, p e = true) :
    ∃ e ∈ t, p e = true := by
  obtain ⟨e, he, hp⟩ := ht
  rcases List.mem_append.mp he with he | he
  · exact ⟨e, he, hp⟩
  · rw [hes e he] at hp
    cases hp

-- ── What a shutdown leaves behind ────────────────────────────────────────────

/-- The traces a shutdown leaves in the state. -/
structure Closing (w : World) : Prop where
  graceful : ShutDown w.trace → w.graceful = true
  action : w.action = .shutdown → ShutDown w.trace
  closed : w.closed = true → ShutDown w.trace

/-- **THE FLUSHING INVARIANT**, for runs that finish with an empty queue. -/
structure Flushing (w : World) : Prop extends Closing w where
  flushed : FinishesEmpty w.trace → Throughout (fun pre e => ∀ pending,
    e = .shutdown pending → pending = [] ∨ WriteFailed pre) w.trace
  empty : FinishesEmpty w.trace → ShutDown w.trace →
    w.wbuffer = [] ∨ WriteFailed w.trace

/-- **THE DISCONNECT INVARIANT**, for runs that defer no disconnect. -/
structure Telling (w : World) : Prop extends Closing w where
  told : NotDeferred w.trace → Disconnected w.trace → ShutDown w.trace

/-- Effects that do not shut down: what they may change. -/
structure Quiet (w w' : World) (es : List Event) : Prop where
  trace : w'.trace = w.trace ++ es
  still : ∀ e ∈ es, e.isShutdown = false
  graceful : w.graceful = true → w'.graceful = true
  action : w'.action = .shutdown → w.action = .shutdown
  closed : w'.closed = w.closed
  queue : (w.wbuffer = [] → w'.wbuffer = []) ∨ w.graceful = false

theorem Quiet.shutDown {w w' : World} {es : List Event} (hq : Quiet w w' es) :
    ShutDown w'.trace ↔ ShutDown w.trace := by
  rw [hq.trace]
  exact ⟨mem_fewer hq.still, mem_more es⟩

theorem Closing.quiet {w w' : World} {es : List Event} (hi : Closing w)
    (hq : Quiet w w' es) : Closing w' where
  graceful := fun hs => hq.graceful (hi.graceful (hq.shutDown.mp hs))
  action := fun ha => hq.shutDown.mpr (hi.action (hq.action ha))
  closed := fun hc => hq.shutDown.mpr (hi.closed (hq.closed ▸ hc))

theorem Flushing.quiet {w w' : World} {es : List Event} (hi : Flushing w)
    (hq : Quiet w w' es) : Flushing w' where
  toClosing := hi.toClosing.quiet hq
  flushed := by
    rw [hq.trace]
    intro hf
    refine throughout_append (fun pre e he pending heq => ?_) (hi.flushed hf.of_append)
    have hstill := hq.still e he
    rw [heq] at hstill
    cases hstill
  empty := by
    intro hf hs
    have hs' := hq.shutDown.mp hs
    rw [hq.trace] at hf ⊢
    rcases hi.empty hf.of_append hs' with hnil | hfail
    · rcases hq.queue with hb | hg
      · exact Or.inl (hb hnil)
      · rw [hi.graceful hs'] at hg
        cases hg
    · exact Or.inr (mem_more es hfail)

theorem Telling.quiet {w w' : World} {es : List Event} (hi : Telling w)
    (hq : Quiet w w' es) (hd : ∀ e ∈ es, e.isDisconnect = false) : Telling w' where
  toClosing := hi.toClosing.quiet hq
  told := by
    intro hn hdis
    rw [hq.trace] at hn hdis
    exact hq.shutDown.mpr (hi.told hn.of_append (mem_fewer hd hdis))

-- ── The shutdown itself ──────────────────────────────────────────────────────

theorem Closing.onEventShutdown {w : World} (hi : Closing w) :
    Closing w.onEventShutdown.2.2 ∧ ShutDown w.onEventShutdown.2.2.trace := by
  cases hc : w.closed with
  | true =>
      rw [onEventShutdown_closed hc]
      have hs := hi.closed hc
      exact ⟨⟨fun _ => rfl, fun _ => hs, fun _ => hs⟩, hs⟩
  | false =>
      rw [onEventShutdown_open hc]
      have hs : ShutDown (w.trace ++ [.shutdown w.wbuffer]) := mem_snoc rfl
      exact ⟨⟨fun _ => rfl, fun _ => hs, fun _ => hs⟩, hs⟩

/-- A shutdown over an empty queue keeps the invariant. -/
theorem Flushing.onEventShutdown {w : World} (hi : Flushing w)
    (hempty : FinishesEmpty w.trace → w.wbuffer = [] ∨ WriteFailed w.trace) :
    Flushing w.onEventShutdown.2.2 := by
  refine ⟨hi.toClosing.onEventShutdown.1, ?_, ?_⟩
  · cases hc : w.closed with
    | true =>
        rw [onEventShutdown_closed hc]
        exact hi.flushed
    | false =>
        rw [onEventShutdown_open hc]
        intro hf
        refine throughout_snoc.mpr ⟨hi.flushed hf.of_append, ?_⟩
        rintro pending heq
        obtain rfl := Event.shutdown.inj heq
        exact hempty hf.of_append
  · cases hc : w.closed with
    | true =>
        rw [onEventShutdown_closed hc]
        exact hi.empty
    | false =>
        rw [onEventShutdown_open hc]
        intro hf _
        rcases hempty hf.of_append with hnil | hfail
        · exact Or.inl hnil
        · exact Or.inr (mem_more _ hfail)

theorem Telling.onEventShutdown {w : World} (hi : Closing w) :
    Telling w.onEventShutdown.2.2 :=
  ⟨hi.onEventShutdown.1, fun _ _ => hi.onEventShutdown.2⟩

-- ── Effects that do not shut down ────────────────────────────────────────────

/-- An event that ends nothing. -/
def Event.plain : Event → Bool
  | .shutdown _ => false
  | .disconnect _ _ _ => false
  | .message _ ret _ => ret != 0
  | _ => true

theorem plain_still {e : Event} (he : e.plain = true) : e.isShutdown = false := by
  cases e with
  | shutdown => cases he
  | _ => rfl

theorem plain_not_disconnect {e : Event} (he : e.plain = true) :
    e.isDisconnect = false := by
  cases e with
  | disconnect => cases he
  | _ => rfl

theorem plain_not_closing {e : Event} (he : e.plain = true) : e.closing? = none := by
  cases e with
  | disconnect => cases he
  | message m ret p =>
      have hret : ret ≠ 0 := bne_iff_ne.mp he
      simp [Event.closing?, hret]
  | _ => rfl

/-- Effects that bring neither a shutdown nor a reason for one. -/
def Plain (w w' : World) : Prop :=
  ∃ es, Quiet w w' es ∧ ∀ e ∈ es, e.plain = true

/-- No event, and the queue as it was. -/
theorem Plain.silent {w w' : World} (htrace : w'.trace = w.trace)
    (hg : w'.graceful = w.graceful)
    (ha : w'.action = .shutdown → w.action = .shutdown)
    (hc : w'.closed = w.closed) (hb : w'.wbuffer = w.wbuffer) : Plain w w' := by
  refine ⟨[], ⟨?_, ?_, ?_, ha, hc, Or.inl ?_⟩, ?_⟩
  · rw [htrace, List.append_nil]
  · exact fun _ he => absurd he (List.not_mem_nil)
  · intro hgr; rw [hg]; exact hgr
  · intro hnil; rw [hb]; exact hnil
  · exact fun _ he => absurd he (List.not_mem_nil)

/-- One event. -/
theorem Plain.event {w w' : World} {e : Event} (htrace : w'.trace = w.trace ++ [e])
    (he : e.plain = true)
    (hg : w'.graceful = w.graceful)
    (ha : w'.action = .shutdown → w.action = .shutdown)
    (hc : w'.closed = w.closed)
    (hb : (w.wbuffer = [] → w'.wbuffer = []) ∨ w.graceful = false) :
    Plain w w' := by
  refine ⟨[e], ⟨htrace, ?_, ?_, ha, hc, hb⟩, ?_⟩
  · intro e₁ h₁; rw [List.mem_singleton.mp h₁]; exact plain_still he
  · intro hgr; rw [hg]; exact hgr
  · intro e₁ h₁; rw [List.mem_singleton.mp h₁]; exact he

theorem note_plain (w : World) {e : Event} (he : e.plain = true) :
    Plain w (w.note e) :=
  .event rfl he rfl id rfl (Or.inl id)

theorem Plain.trans {w₁ w₂ w₃ : World} (h₁ : Plain w₁ w₂) (h₂ : Plain w₂ w₃)
    (hg : w₂.graceful = w₁.graceful) : Plain w₁ w₃ := by
  obtain ⟨es, hq, hd⟩ := h₁
  obtain ⟨es', hq', hd'⟩ := h₂
  have hmem : ∀ e ∈ es ++ es', e.plain = true := by
    intro e he
    rcases List.mem_append.mp he with he | he
    · exact hd e he
    · exact hd' e he
  refine ⟨es ++ es', ⟨?_, fun e he => plain_still (hmem e he), ?_, ?_, ?_, ?_⟩, hmem⟩
  · rw [hq'.trace, hq.trace, List.append_assoc]
  · exact fun hgr => hq'.graceful (hq.graceful hgr)
  · exact fun ha => hq.action (hq'.action ha)
  · rw [hq'.closed, hq.closed]
  · rcases hq.queue with hb | hgr
    · rcases hq'.queue with hb' | hgr'
      · exact Or.inl fun hnil => hb' (hb hnil)
      · exact Or.inr (hg ▸ hgr')
    · exact Or.inr hgr

theorem conclude_plain (w : World) {action : Action} (ha : action ≠ .shutdown)
    (status : Status) : Plain w (w.conclude action status).2.2 := by
  rw [conclude_world]
  refine .silent rfl rfl ?_ rfl rfl
  show (if status.incomplete then action else .none) = .shutdown → _
  split
  · exact fun h0 => absurd h0 ha
  · exact fun h0 => (by cases h0)

theorem rearm_plain (w : World) : Plain w w.rearm := by
  rw [rearm_world]
  exact .silent rfl rfl id rfl rfl

theorem send_plain (w : World) (buffer : Option Bytes) :
    Plain w (w.send buffer).2 := by
  have hs := send_cases w buffer
  generalize (w.send buffer).1 = ret at hs
  generalize (w.send buffer).2 = w' at hs ⊢
  cases hs with
  | refused => exact .silent rfl rfl id rfl rfl
  | nothing => exact .silent rfl rfl id rfl rfl
  | queued b hb hg =>
      exact ⟨[], ⟨(List.append_nil _).symm, fun _ he => absurd he List.not_mem_nil,
        id, id, rfl, Or.inr hg⟩, fun _ he => absurd he List.not_mem_nil⟩
  | full => exact .silent rfl rfl id rfl rfl
  | wrote b hb ha hempty hg => exact .event rfl rfl rfl id rfl (Or.inr hg)
  | partly b hb ha hempty hg => exact .event rfl rfl rfl id rfl (Or.inr hg)
  | jammed b hb ha hempty hg => exact .event rfl rfl rfl id rfl (Or.inr hg)
  | wanted b hb ha hempty hg =>
      exact .event rfl rfl rfl (fun h0 => (by cases h0)) rfl (Or.inr hg)
  | lost b hb ha hempty hg => exact .event rfl rfl rfl id rfl (Or.inr hg)

theorem send_graceful (w : World) (buffer : Option Bytes) :
    (w.send buffer).2.graceful = w.graceful := by
  have hs := send_cases w buffer
  generalize (w.send buffer).1 = ret at hs
  generalize (w.send buffer).2 = w' at hs ⊢
  cases hs <;> rfl

theorem onEventWrite_plain (w : World) : Plain w (onEventWrite w).2.2 := by
  have hw := onEventWrite_cases w
  generalize (onEventWrite w).2.2 = w' at hw ⊢
  cases hw with
  | idle hempty => exact .silent rfl rfl (fun h0 => (by cases h0)) rfl rfl
  | taken hne hok buffer hbuffer =>
      exact .event rfl rfl rfl (fun h0 => (by cases h0)) rfl
        (Or.inl fun hnil => absurd hnil hne)
  | failed hne hst buffer hbuffer =>
      refine Plain.trans (.event (e := .wrote buffer w.answer.status
        (w.retlen buffer)) ?_ rfl ?_ ?_ ?_ ?_)
        (conclude_plain _ (show Action.write ≠ .shutdown by decide) _) ?_
      · rfl
      · rfl
      · exact id
      · rfl
      · exact Or.inl fun hnil => absurd hnil hne
      · rfl

/-- **EVERY EFFECT** is plain, a `Disconnect`, the end of a message answered
    with zero, or a shutdown with its reason. -/
theorem Effect.plain_or {w w' : World} (he : Effect w w') :
    Plain w w' ∨
    (∃ finishWrite, w' = (w.disconnect finishWrite).2) ∨
    (∃ message,
      w' = (w.note (.message message 0 w.wbuffer)).onEventShutdown.2.2) ∨
    ((w.action = .shutdown ∨ (w.graceful = true ∧ w.wbuffer = [])) ∧
      w' = w.onEventShutdown.2.2) := by
  cases he with
  | send buffer =>
      refine Or.inl ((send_plain w buffer).trans ?_ (send_graceful w buffer))
      exact .event rfl rfl rfl id rfl (Or.inl id)
  | disconnect finishWrite => exact Or.inr (Or.inl ⟨finishWrite, rfl⟩)
  | receive => exact Or.inl (.silent rfl rfl id rfl rfl)
  | deliver message ret hret => exact Or.inl (note_plain w (bne_iff_ne.mpr hret))
  | hangUp message => exact Or.inr (Or.inr (Or.inl ⟨message, rfl⟩))
  | answered => exact Or.inl (.silent rfl rfl id rfl rfl)
  | readOk =>
      exact Or.inl (.event (e := .read .ok) rfl rfl rfl
        (fun h0 => (by cases h0)) rfl (Or.inl id))
  | readRest status hstatus =>
      refine Or.inl ((note_plain w ?_).trans (conclude_plain _ ?_ status) rfl)
      · rfl
      · exact (show Action.read ≠ .shutdown by decide)
  | write => exact Or.inl (onEventWrite_plain w)
  | establish =>
      exact Or.inl (.event (e := .connected) rfl rfl rfl (fun h0 => (by cases h0))
        rfl (Or.inl id))
  | handshake status haction hstatus =>
      refine Or.inl (conclude_plain w ?_ status)
      rcases haction with ha | ha <;> rw [ha] <;> decide
  | shutdown hwhy => exact Or.inr (Or.inr (Or.inr ⟨hwhy, rfl⟩))
  | rearm => exact Or.inl (rearm_plain w)

theorem Flushing.plain {w w' : World} (hi : Flushing w) (hp : Plain w w') :
    Flushing w' := by
  obtain ⟨es, hq, _⟩ := hp
  exact hi.quiet hq

theorem Telling.plain {w w' : World} (hi : Telling w) (hp : Plain w w') :
    Telling w' := by
  obtain ⟨es, hq, hd⟩ := hp
  exact hi.quiet hq fun e he => plain_not_disconnect (hd e he)

-- ── A graceful disconnect flushes first ──────────────────────────────────────

theorem announce_quiet (w : World) (finishWrite : Bool) :
    Quiet w (w.announce finishWrite)
      [.disconnect finishWrite w.action w.wbuffer] := by
  rw [announce_world]
  refine ⟨rfl, ?_, fun _ => rfl, id, rfl, Or.inl fun hnil => ?_⟩
  · intro e he
    rw [List.mem_singleton.mp he]
    rfl
  · show (if finishWrite then w.wbuffer else []) = []
    rw [hnil]
    split <;> rfl

theorem hangUp_quiet (w : World) (message : Bytes) :
    Quiet w (w.note (.message message 0 w.wbuffer))
      [.message message 0 w.wbuffer] := by
  refine ⟨rfl, ?_, id, id, rfl, Or.inl id⟩
  intro e he
  rw [List.mem_singleton.mp he]
  rfl

theorem Flushing.disconnect {w : World} (hi : Flushing w) (finishWrite : Bool) :
    Flushing (w.disconnect finishWrite).2 := by
  have hi' := hi.quiet (announce_quiet w finishWrite)
  rw [World.disconnect]
  split
  · exact hi'
  next haction =>
    refine (hi'.onEventShutdown fun hf => ?_).plain (rearm_plain _)
    rw [announce_world] at haction hf ⊢
    have hnone : w.action = .none := Decidable.not_not.mp haction
    cases finishWrite with
    | false => exact Or.inl rfl
    | true =>
        have hlast := (throughout_snoc.mp hf).2 w.wbuffer
          (by rw [hnone]; rfl)
        rcases hlast with hnil | hfail
        · exact Or.inl hnil
        · exact Or.inr (mem_more _ hfail)

theorem Flushing.hangUp {w : World} (hi : Flushing w) (message : Bytes) :
    Flushing (w.note (.message message 0 w.wbuffer)).onEventShutdown.2.2 := by
  refine (hi.quiet (hangUp_quiet w message)).onEventShutdown fun hf => ?_
  rcases (throughout_snoc.mp hf).2 w.wbuffer rfl with hnil | hfail
  · exact Or.inl hnil
  · exact Or.inr (mem_more _ hfail)

theorem Flushing.effect {w w' : World} (he : Effect w w') (hi : Flushing w) :
    Flushing w' := by
  rcases he.plain_or with hp | ⟨finishWrite, rfl⟩ | ⟨message, rfl⟩ | ⟨hwhy, rfl⟩
  · exact hi.plain hp
  · exact hi.disconnect finishWrite
  · exact hi.hangUp message
  · refine hi.onEventShutdown fun hf => ?_
    rcases hwhy with ha | ⟨_, hnil⟩
    · -- a shutdown goes on: the queue was flushed when it began
      exact hi.empty hf (hi.action ha)
    · exact Or.inl hnil

/-- The condition is exact: a call that finds a queue shuts down over it, or
    an earlier one did. -/
structure Exact (w : World) : Prop extends Flushing w where
  exact : FlushesFirst w.trace → FinishesEmpty w.trace

theorem Exact.plain {w w' : World} (hi : Exact w) (hp : Plain w w') : Exact w' := by
  refine ⟨hi.toFlushing.plain hp, ?_⟩
  obtain ⟨es, hq, hes⟩ := hp
  rw [hq.trace]
  intro hf
  refine throughout_append (fun pre e he pending hc => ?_) (hi.exact hf.of_append)
  rw [plain_not_closing (hes e he)] at hc
  cases hc

/-- The event that ends the linkage, and the shutdown it leads to. -/
theorem Exact.finish {w w₁ : World} {e : Event} (hi : Exact w)
    (htrace : w₁.trace = w.trace ++ [e]) (hc : w₁.closed = w.closed)
    (he : ∀ p, e.closing? = some p →
      e.finishing = true ∧ p = w₁.wbuffer ∧ p = w.wbuffer)
    (hfail : e.writeFailed = false) :
    FlushesFirst w₁.onEventShutdown.2.2.trace →
      FinishesEmpty w₁.onEventShutdown.2.2.trace := by
  have hkey : FlushesFirst w.trace →
      (∀ p, e.closing? = some p → p = [] ∨ WriteFailed w.trace) →
      FinishesEmpty (w.trace ++ [e]) := fun hf hlast =>
    throughout_snoc.mpr ⟨hi.exact hf, hlast⟩
  cases hclosed : w₁.closed with
  | true =>
      -- no shutdown now: the one before was over an empty queue
      rw [onEventShutdown_closed hclosed]
      intro hf
      rw [htrace] at hf ⊢
      have hf' := hf.of_append
      refine hkey hf' fun p hp => ?_
      rw [(he p hp).2.2]
      exact hi.empty (hi.exact hf') (hi.closed (hc ▸ hclosed))
  | false =>
      rw [onEventShutdown_open hclosed]
      intro hf
      obtain ⟨hf', hlast⟩ := throughout_snoc.mp hf
      rw [htrace] at hf' hlast ⊢
      refine throughout_snoc.mpr ⟨hkey hf'.of_append fun p hp => ?_, ?_⟩
      · obtain ⟨hfin, hp₁, _⟩ := he p hp
        rw [hp₁]
        rcases hlast w₁.wbuffer rfl (mem_snoc hfin) with hnil | hf₁
        · exact Or.inl hnil
        · refine Or.inr (mem_fewer (fun e' he' => ?_) hf₁)
          rw [List.mem_singleton.mp he']
          exact hfail
      · intro p hp
        cases hp

theorem Exact.disconnect {w : World} (hi : Exact w) (finishWrite : Bool) :
    Exact (w.disconnect finishWrite).2 := by
  refine ⟨hi.toFlushing.disconnect finishWrite, ?_⟩
  have htrace : (w.announce finishWrite).trace
      = w.trace ++ [.disconnect finishWrite w.action w.wbuffer] := by
    rw [announce_world]
  rw [World.disconnect]
  split
  next haction =>
    -- deferred: not a call that shuts down
    rw [htrace]
    intro hf
    refine throughout_snoc.mpr ⟨hi.exact hf.of_append, fun p hp => ?_⟩
    have hnone : w.action ≠ .none := by rw [announce_world] at haction; exact haction
    cases ha : w.action with
    | none => exact absurd ha hnone
    | _ => rw [ha] at hp; cases finishWrite <;> cases hp
  next haction =>
    rw [rearm_world]
    refine hi.finish htrace (by rw [announce_world]) (fun p hp => ?_) rfl
    have hnone : w.action = .none := by
      rw [announce_world] at haction
      exact Decidable.not_not.mp haction
    rw [hnone] at hp
    cases finishWrite with
    | false => cases hp
    | true =>
        obtain rfl := Option.some.inj hp
        exact ⟨rfl, rfl, rfl⟩

theorem Exact.effect {w w' : World} (he : Effect w w') (hi : Exact w) : Exact w' := by
  rcases he.plain_or with hp | ⟨finishWrite, rfl⟩ | ⟨message, rfl⟩ | ⟨hwhy, rfl⟩
  · exact hi.plain hp
  · exact hi.disconnect finishWrite
  · refine ⟨hi.toFlushing.hangUp message, hi.finish rfl rfl (fun p hp => ?_) rfl⟩
    obtain rfl := Option.some.inj hp
    exact ⟨rfl, rfl, rfl⟩
  · refine ⟨hi.toFlushing.effect he, ?_⟩
    cases hc : w.closed with
    | true => rw [onEventShutdown_closed hc]; exact hi.exact
    | false =>
        rw [onEventShutdown_open hc]
        intro hf
        refine throughout_snoc.mpr ⟨hi.exact hf.of_append, fun p hp => ?_⟩
        cases hp

theorem not_shutDown_nil : ¬ ShutDown [] := by
  rintro ⟨e, he, _⟩
  exact List.not_mem_nil he

theorem Opened.closing {w : World} (hw : Opened w) : Closing w := by
  have hs : ¬ ShutDown w.trace := by rw [hw.trace]; exact not_shutDown_nil
  refine ⟨fun h0 => absurd h0 hs, fun ha => ?_, fun hc => ?_⟩
  · rcases hw.action with h0 | h0 | h0 <;> rw [h0] at ha <;> cases ha
  · rw [hw.closed] at hc
    cases hc

theorem exact_invariant : Invariant Exact where
  opened := by
    intro w hw
    refine ⟨⟨hw.closing, fun _ => ?_, fun _ _ => Or.inl hw.wbuffer⟩, fun _ => ?_⟩
    · rw [hw.trace]; exact throughout_nil
    · rw [hw.trace]; exact throughout_nil
  effect := fun _ _ he hi => hi.effect he
  during := fun _ _ _ hi => hi.plain (.silent rfl rfl id rfl rfl)
  released := fun _ hi => hi.plain (.silent rfl rfl id rfl rfl)

/-- **A GRACEFUL DISCONNECT FLUSHES FIRST** exactly in the runs whose calls to
    `Disconnect(true)` with no action incomplete, and whose zero answers, find
    nothing queued, unless a write has failed. -/
theorem flushes_first_iff (h : LinkageHandler) (w : World)
    (hr : Reachable (system h) w) :
    FlushesFirst w.trace ↔ FinishesEmpty w.trace := by
  have hi := exact_invariant.reachable hr
  constructor
  · exact hi.exact
  · intro hf pre e post heq pending he _
    exact hi.flushed hf pre e post heq pending he

/-- `Disconnect(true)` on an idle linkage. -/
theorem flushes_first_idle :
    FlushesFirst (perform idleHandler
      ((openWorld idleHandler).during [⟨.ok, [], false, 0⟩] 0)
      (.disconnect true)).trace := by
  refine (flushes_first_iff idleHandler _ (.next (l := ⟨.disconnect true,
    [⟨.ok, [], false, 0⟩], 0⟩) openWorld_reachable ⟨rfl, rfl⟩)).mpr ?_
  have hnil : FinishesEmpty ([] : List Event) := throughout_nil
  refine throughout_snoc.mpr ⟨throughout_snoc.mpr ⟨throughout_snoc.mpr
    ⟨hnil, ?_⟩, ?_⟩, ?_⟩
  · intro p hp
    cases hp
  · intro p hp
    obtain rfl := Option.some.inj hp
    exact Or.inl rfl
  · intro p hp
    cases hp

/-- Three bytes the io was jammed for, then `Disconnect(true)`. -/
def hastyWorld : World :=
  let w := perform idleHandler
    ((openWorld idleHandler).during [⟨.jammed, [], false, 0⟩] 0)
    (.send (some [1, 2, 3]))
  perform idleHandler (w.during [⟨.ok, [], false, 0⟩] 0) (.disconnect true)

theorem hastyWorld_reachable : Reachable (system idleHandler) hastyWorld :=
  .next (l := ⟨.disconnect true, [⟨.ok, [], false, 0⟩], 0⟩)
    (.next (l := ⟨.send (some [1, 2, 3]), [⟨.jammed, [], false, 0⟩], 0⟩)
      openWorld_reachable ⟨rfl, rfl⟩) ⟨rfl, rfl⟩

/-- The io is shut down over the three bytes. -/
theorem shuts_down_over_queue :
    Reachable (system idleHandler) hastyWorld ∧
    hastyWorld.trace = [.connected, .wrote [1, 2, 3] .jammed 0,
      .sent (some [1, 2, 3]) true, .disconnect true .none [1, 2, 3],
      .shutdown [1, 2, 3]] ∧
    ¬ FlushesFirst hastyWorld.trace := by
  have htrace : hastyWorld.trace = [.connected, .wrote [1, 2, 3] .jammed 0,
      .sent (some [1, 2, 3]) true, .disconnect true .none [1, 2, 3],
      .shutdown [1, 2, 3]] := by decide
  refine ⟨hastyWorld_reachable, htrace, fun hf => ?_⟩
  rw [htrace] at hf
  have hlast := hf [.connected, .wrote [1, 2, 3] .jammed 0,
    .sent (some [1, 2, 3]) true, .disconnect true .none [1, 2, 3]]
    (.shutdown [1, 2, 3]) [] rfl [1, 2, 3] rfl
    ⟨.disconnect true .none [1, 2, 3], by decide, rfl⟩
  rcases hlast with hnil | ⟨e, he, hfail⟩
  · cases hnil
  · revert e
    decide

-- ── A disconnect is not forgotten ────────────────────────────────────────────

theorem Telling.disconnect {w : World} (hi : Telling w) (finishWrite : Bool) :
    Telling (w.disconnect finishWrite).2 := by
  have hc := hi.toClosing.quiet (announce_quiet w finishWrite)
  rw [World.disconnect]
  split
  next haction =>
    refine ⟨hc, fun hn _ => ?_⟩
    -- deferred: then a shutdown is under way
    rw [announce_world] at haction hn ⊢
    rcases (throughout_snoc.mp hn).2 _ _ _ rfl with ha | ha | hs
    · exact absurd ha haction
    · exact mem_more _ (hi.action ha)
    · exact mem_more _ hs
  next haction => exact (Telling.onEventShutdown hc).plain (rearm_plain _)

theorem Telling.effect {w w' : World} (he : Effect w w') (hi : Telling w) :
    Telling w' := by
  rcases he.plain_or with hp | ⟨finishWrite, rfl⟩ | ⟨message, rfl⟩ | ⟨_, rfl⟩
  · exact hi.plain hp
  · exact hi.disconnect finishWrite
  · exact .onEventShutdown (hi.toClosing.quiet (hangUp_quiet w message))
  · exact .onEventShutdown hi.toClosing

theorem telling_invariant : Invariant Telling where
  opened := by
    intro w hw
    refine ⟨hw.closing, fun _ hd => ?_⟩
    rw [hw.trace] at hd
    obtain ⟨e, he, _⟩ := hd
    exact absurd he List.not_mem_nil
  effect := fun _ _ he hi => hi.effect he
  during := fun _ _ _ hi => hi.plain (.silent rfl rfl id rfl rfl)
  released := fun _ hi => hi.plain (.silent rfl rfl id rfl rfl)

/-- A disconnect was asked for, nothing is left to wait for, and yet the io was
    never shut down. -/
def Forgotten (w : World) : Prop :=
  Disconnected w.trace ∧ w.action = .none ∧ w.wbuffer = [] ∧ ¬ ShutDown w.trace

/-- **A DISCONNECT IS NOT FORGOTTEN** in any run where none is called while a
    read, a write or a handshake is incomplete. -/
theorem disconnect_not_forgotten (h : LinkageHandler) (w : World)
    (hr : Reachable (system h) w) (hn : NotDeferred w.trace) : ¬ Forgotten w := by
  rintro ⟨hd, _, _, hs⟩
  exact hs ((telling_invariant.reachable hr).told hn hd)

/-- `Disconnect(true)` on an idle linkage reaches the io. -/
theorem disconnect_not_forgotten_idle :
    ¬ Forgotten (perform idleHandler
      ((openWorld idleHandler).during [⟨.ok, [], false, 0⟩] 0) (.disconnect true)) := by
  refine disconnect_not_forgotten idleHandler _ (.next (l := ⟨.disconnect true,
    [⟨.ok, [], false, 0⟩], 0⟩) openWorld_reachable ⟨rfl, rfl⟩) ?_
  have hnil : NotDeferred ([] : List Event) := throughout_nil
  refine throughout_snoc.mpr ⟨throughout_snoc.mpr ⟨throughout_snoc.mpr
    ⟨hnil, ?_⟩, ?_⟩, ?_⟩
  · intro finishWrite action pending he
    cases he
  · intro finishWrite action pending he
    obtain ⟨_, rfl, _⟩ := Event.disconnect.inj he
    exact Or.inl rfl
  · intro finishWrite action pending he
    cases he

/-- A `Send` that the io wants to be resumed, a `Disconnect(true)` that waits
    for it, and the writable event that ends the write. -/
def forgetfulWorld : World :=
  let w := perform idleHandler
    ((openWorld idleHandler).during [⟨.wannaWrite, [], false, 0⟩] 0)
    (.send (some [1, 2, 3]))
  let w := perform idleHandler (w.during [] 0) (.disconnect true)
  perform idleHandler (w.during [⟨.ok, [], false, 3⟩] 0) .writable

theorem forgetfulWorld_reachable : Reachable (system idleHandler) forgetfulWorld :=
  .next (l := ⟨.writable, [⟨.ok, [], false, 3⟩], 0⟩)
    (.next (l := ⟨.disconnect true, [], 0⟩)
      (.next (l := ⟨.send (some [1, 2, 3]), [⟨.wannaWrite, [], false, 0⟩], 0⟩)
        openWorld_reachable ⟨rfl, rfl⟩) ⟨rfl, rfl⟩) ⟨rfl, rfl⟩

/-- All is written, the write watcher is off, and no shutdown was invoked. -/
theorem forgets_disconnect :
    Reachable (system idleHandler) forgetfulWorld ∧ Forgotten forgetfulWorld ∧
    forgetfulWorld.client = some ⟨true, false, true⟩ := by
  refine ⟨forgetfulWorld_reachable, ⟨?_, by decide, by decide, ?_⟩, by decide⟩
  · exact ⟨.disconnect true .write [1, 2, 3], by decide, rfl⟩
  · rintro ⟨e, he, hs⟩
    revert e
    decide

/-- A handler that answers each byte with three and hangs up at once. -/
def brusqueHandler : LinkageHandler where
  getMessageLength := fun _ => 1
  onMessage := fun _ _ => ⟨[.send (some [1, 2, 3]), .disconnect false], 1⟩
  onConnected := ⟨[], true⟩
  onError := []
  onDisconnected := []

/-- One readable event: the io wants to write the answer later, and has more to
    read. -/
def brusqueWorld : World :=
  perform brusqueHandler ((openWorld brusqueHandler).during
    [⟨.ok, [9], true, 0⟩, ⟨.wannaWrite, [], false, 0⟩, ⟨.ok, [8], false, 0⟩] 0) .readable

/-- A `Disconnect(false)` during an incomplete write is no exception: here the next
    read takes the write for complete. -/
example : Forgotten brusqueWorld := by
  refine ⟨⟨.disconnect false .write [1, 2, 3], by decide, rfl⟩, by decide, by decide, ?_⟩
  rintro ⟨e, he, hs⟩
  revert e
  decide

end FlinterLinkage
