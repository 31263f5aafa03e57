import Flinter.LinkageEffectProofs

/-! # A would-block answer

    `FileDescriptorIo` answers `kStatusJammed` when the descriptor would block.
    `Send` queues the bytes and starts the write watcher; `AfterEvent` lets the
    status fall to its default and returns -1, so an event whose own read or
    write would block costs the connection (`jam_never_survives`). -/

namespace FlinterLinkage

open World Runs

variable {h : LinkageHandler}

-- ── Where the answer comes from ──────────────────────────────────────────────

/-- What `read(2)` or `write(2)` says: a result, or `errno`. -/
inductive SysResult (α : Type) where
  | done (a : α)
  | again
  | pipe
  | failed

/-- `FileDescriptorIo::Write`. -/
def FileDescriptorIo.write (fd : Int) (ret : SysResult Nat) : Answer :=
  if fd < 0 then ⟨.bug, [], false, 0⟩
  else
    match ret with
    | .done retlen => ⟨.ok, [], false, retlen⟩
    | .again => ⟨.jammed, [], false, 0⟩
    | .pipe => ⟨.closed, [], false, 0⟩
    | .failed => ⟨.error, [], false, 0⟩

/-- `FileDescriptorIo::Read`.  It leaves `more` as it was. -/
def FileDescriptorIo.read (fd : Int) (ret : SysResult Bytes) : Answer :=
  if fd < 0 then ⟨.bug, [], false, 0⟩
  else
    match ret with
    | .done [] => ⟨.closed, [], false, 0⟩
    | .done bytes => ⟨.ok, bytes, false, 0⟩
    | .again => ⟨.jammed, [], false, 0⟩
    | _ => ⟨.error, [], false, 0⟩

/-- A read or a write of the event's own rounds is answered `kStatusJammed`.
    The rounds before it read. -/
inductive Jams (h : LinkageHandler) : World → Action → Prop where
  | read (w : World) (hjam : w.answer.status = .jammed) : Jams h w .read
  | write (w : World) (hne : w.wbuffer ≠ []) (hjam : w.answer.status = .jammed) :
      Jams h w .write
  | next (w : World) (action : Action) (hnext : (onEventOnce h w action).2.1 = .read)
      (hlater : Jams h (onEventOnce h w action).2.2 .read) : Jams h w action

/-- What is asked of such an event: the worker keeps the linkage, the buffers
    are as they were, and a watcher lets the call be tried again. -/
def SurvivesJam (h : LinkageHandler) (w : World) (idleAction : Action) : Prop :=
  0 < (onEvent h w idleAction).1 ∧
  (onEvent h w idleAction).2.rbuffer = w.rbuffer ∧
  (onEvent h w idleAction).2.wbuffer = w.wbuffer ∧
  ∃ c, (onEvent h w idleAction).2.client = some c ∧
    (if idleAction = .read then c.runningR else c.runningW) = true

-- ── Where it goes ────────────────────────────────────────────────────────────

theorem onEventRead_jam {w : World} (hjam : w.answer.status = .jammed) :
    (onEventRead h w).1 = -1 ∧ (onEventRead h w).2.1 = .none := by
  rw [onEventRead, if_neg (by rw [hjam]; decide), hjam]
  exact ⟨rfl, rfl⟩

theorem onEventWrite_jam {w : World} (hne : w.wbuffer ≠ [])
    (hjam : w.answer.status = .jammed) :
    (onEventWrite w).1 = -1 ∧ (onEventWrite w).2.1 = .none := by
  have hpos := picked_pos hne
  rw [onEventWrite]
  extract_lets buffer status retlen w₂ w₃ w₄ w₅
  have hst : status = .jammed := by
    simp only [status, pickSendingBuffer_world hne]
    exact hjam
  rw [if_pos (by rw [pickSendingBuffer_world hne]; omega),
    if_neg (by rw [hst]; decide), hst]
  exact ⟨rfl, rfl⟩

/-- **A JAM ENDS THE LOOP WITH -1**, by induction on the rounds before it. -/
theorem onEventLoop_jam {w : World} {action : Action} (hj : Jams h w action) :
    ∀ fuel, Entered w action → w.io.length + 2 ≤ fuel →
      (onEventLoop h fuel w action).1 = -1 := by
  induction hj with
  | read w hjam =>
      intro fuel _ hfuel
      obtain ⟨fuel', rfl⟩ : ∃ f, fuel = f + 1 := ⟨fuel - 1, by omega⟩
      obtain ⟨hret, hnone⟩ := onEventRead_jam (h := h) hjam
      rw [onEventLoop]
      exact (congrArg Prod.fst (if_pos hnone)).trans hret
  | write w hne hjam =>
      intro fuel _ hfuel
      obtain ⟨fuel', rfl⟩ : ∃ f, fuel = f + 1 := ⟨fuel - 1, by omega⟩
      obtain ⟨hret, hnone⟩ := onEventWrite_jam hne hjam
      rw [onEventLoop]
      exact (congrArg Prod.fst (if_pos hnone)).trans hret
  | next w action hnext hlater ih =>
      intro fuel hentered hfuel
      obtain ⟨fuel', rfl⟩ : ∃ f, fuel = f + 1 := ⟨fuel - 1, by omega⟩
      -- the round used an answer up
      have hshort : (onEventOnce h w action).2.2.io.length < w.io.length := by
        rcases (onEventOnce_round w action hentered).named with hn | hn | ⟨_, hlt⟩
        · rw [hnext] at hn; cases hn
        · rw [hnext] at hn; cases hn
        · exact hlt
      rw [onEventLoop, if_neg (by rw [hnext]; decide), hnext]
      exact ih fuel' (Or.inl rfl) (by omega)

-- ── The worker drops the linkage ─────────────────────────────────────────────

theorem request_released {w : World} (hc : w.client = none) (call : Request) :
    (w.request call).client = none := by
  cases call with
  | send buffer =>
      have hs := send_cases w buffer
      show (w.send buffer).2.client = none
      generalize (w.send buffer).1 = ret at hs
      generalize (w.send buffer).2 = w' at hs ⊢
      cases hs with
      | refused => exact hc
      | nothing => exact hc
      | queued => exact hc
      | full => exact hc
      | wrote => exact hc
      | partly => exact Option.map_eq_none_iff.mpr hc
      | jammed => exact Option.map_eq_none_iff.mpr hc
      | wanted => exact Option.map_eq_none_iff.mpr hc
      | lost => exact hc
  | disconnect finishWrite =>
      have ha : (w.announce finishWrite).client = none := by
        rw [announce_world]; exact hc
      show (w.disconnect finishWrite).2.client = none
      rw [disconnect]
      split
      · exact ha
      · rw [rearm_world]
        have hs : (w.announce finishWrite).onEventShutdown.2.2.client = none := by
          cases hcl : (w.announce finishWrite).closed with
          | true =>
              rw [onEventShutdown_closed hcl]
              exact Option.map_eq_none_iff.mpr ha
          | false =>
              rw [onEventShutdown_open hcl]
              exact Option.map_eq_none_iff.mpr ha
        show (if _ then _ else _) = none
        rw [hs]
        split <;> rfl

/-- The worker never takes a released linkage back. -/
theorem doRelease_released (w : World) : (doRelease h w).client = none := by
  have hall : ∀ (calls : List Request) (w : World), w.client = none →
      (w.requests calls).client = none := by
    intro calls
    induction calls with
    | nil => intro w hc; exact hc
    | cons call calls ih => intro w hc; exact ih _ (request_released hc call)
  exact hall h.onDisconnected _ rfl

/-- **A WOULD-BLOCK ANSWER ALWAYS BREAKS THE CONNECTION** when a read or a write
    of an event gets it: the event returns -1 and the worker releases the
    linkage. -/
theorem jam_never_survives (h : LinkageHandler) (w : World) (idleAction : Action)
    (hidle : Idle w idleAction)
    (hj : Jams h w (if w.action = .none then idleAction else w.action)) :
    ¬ SurvivesJam h w idleAction ∧ (onEvent h w idleAction).1 = -1 ∧
    (workerEvent h w idleAction).client = none := by
  have hret : (onEvent h w idleAction).1 = -1 :=
    onEventLoop_jam hj (w.io.length + 2) hidle.entered (Nat.le_refl _)
  refine ⟨fun hs => ?_, hret, ?_⟩
  · have hpos := hs.1
    omega
  · rw [workerEvent, if_pos (by omega)]
    exact doRelease_released _

/-- A readable event that finds nothing to read. -/
theorem jam_never_survives_read :
    ¬ SurvivesJam idleHandler
      ((openWorld idleHandler).during [FileDescriptorIo.read 3 .again] 0) .read :=
  (jam_never_survives idleHandler _ .read (Or.inl rfl) (.read _ (by decide))).1

/-- An attached linkage loses its connection to a stale readiness notice, and
    so it does when its queue would block. -/
theorem jam_breaks_connection :
    Reachable (system idleHandler) (openWorld idleHandler) ∧
    ¬ SurvivesJam idleHandler
      ((openWorld idleHandler).during [FileDescriptorIo.read 3 .again] 0) .read ∧
    (perform idleHandler
      ((openWorld idleHandler).during [FileDescriptorIo.read 3 .again] 0)
      .readable).client = none ∧
    (perform idleHandler ((perform idleHandler
      ((openWorld idleHandler).during [FileDescriptorIo.write 3 .again] 0)
        (.send (some [1]))).during [FileDescriptorIo.write 3 .again] 0)
      .writable).client = none := by
  refine ⟨openWorld_reachable, fun hs => ?_, by decide, by decide⟩
  exact absurd hs.1 (by decide)

end FlinterLinkage
