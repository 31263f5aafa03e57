import Flinter.RunProofs

/-! # LinkageWorker: commands

    `SendCommand` appends to `_commands`, from any thread and from the commands
    themselves; `OnCommand` swaps the list out, runs what is in it, and deletes
    it.  Each of its iterations is a step, and a null pointer asks the worker to
    quit.

    The argument is that `_commands` behind what `OnCommand` has yet to walk is
    what was sent and not run, and that what was run and not deleted is what
    `OnCommand` has walked.  Both early exits break it: after a command that
    returns false the rest of the batch is deleted and not run, and after a null
    pointer the commands before it are not deleted. -/

namespace FlinterWorkerCommand

open Runs

variable {Command : Type}

/-- How far `OnCommand` is: not called; in its first loop, with the commands it
    ran and what it has yet to walk; or in its second loop. -/
inductive Phase (Command : Type) where
  | idle
  | running (done : List Command) (p : List (Option Command))
  | deleting (p : List (Option Command))
deriving DecidableEq, Repr

/-- `LinkageWorker`, and what was sent, run and deleted. -/
structure LinkageWorker (Command : Type) where
  commands : List (Option Command)
  quit : Bool
  phase : Phase Command
  sent : List (Option Command)
  ran : List Command
  deleted : List Command
deriving DecidableEq, Repr

/-- The constructor. -/
def LinkageWorker.new : LinkageWorker Command := ⟨[], false, .idle, [], [], []⟩

/-- What happens next; `ret` is what `Run` returns, if a command is run. -/
inductive Act (Command : Type) where
  | sendCommand (command : Option Command)
  | onCommand
  | walk (ret : Bool)
  | delete
deriving DecidableEq, Repr

def sendCommand (command : Option Command) (s : LinkageWorker Command) :
    LinkageWorker Command :=
  { s with commands := s.commands ++ [command], sent := s.sent ++ [command] }

/-- `Shutdown`. -/
def shutdown (s : LinkageWorker Command) : LinkageWorker Command :=
  sendCommand none s

/-- `OnCommand` swaps `_commands` out; the loop has not quit. -/
def onCommand (s : LinkageWorker Command) : Option (LinkageWorker Command) :=
  match s.phase, s.quit with
  | .idle, false =>
      some { s with commands := [], phase := .running [] s.commands }
  | _, _ => none

/-- An iteration of its first loop.  With a null pointer it returns. -/
def walk (ret : Bool) (s : LinkageWorker Command) :
    Option (LinkageWorker Command) :=
  match s.phase with
  | .running done [] => some { s with phase := .deleting (done.map some) }
  | .running _ (none :: _) => some { s with quit := true, phase := .idle }
  | .running done (some command :: p) =>
      some { s with
        ran := s.ran ++ [command]
        phase :=
          if ret then .running (done ++ [command]) p
          else .deleting ((done ++ [command]).map some ++ p) }
  | _ => none

/-- An iteration of its second loop. -/
def delete (s : LinkageWorker Command) : Option (LinkageWorker Command) :=
  match s.phase with
  | .deleting [] => some { s with phase := .idle }
  | .deleting (command :: p) =>
      some { s with deleted := s.deleted ++ command.toList, phase := .deleting p }
  | _ => none

def next (s : LinkageWorker Command) : Act Command →
    Option (LinkageWorker Command)
  | .sendCommand command => some (sendCommand command s)
  | .onCommand => onCommand s
  | .walk ret => walk ret s
  | .delete => delete s

/-- A worker that is sent commands. -/
def worker (Command : Type) : System (LinkageWorker Command) (Act Command) where
  init := fun s => s = .new
  step := fun s act s' => next s act = some s'

-- ── What is promised ─────────────────────────────────────────────────────────

/-- What was sent and is to be run: what `OnCommand` has yet to walk, and what
    came since it swapped. -/
def LinkageWorker.pending (s : LinkageWorker Command) : List (Option Command) :=
  match s.phase with
  | .running _ p => p ++ s.commands
  | _ => s.commands

/-- Each command is run once, in the order in which they were sent, and deleted
    once after that; a worker that quits has run all that was sent before a
    null pointer. -/
structure Meets (s : LinkageWorker Command) : Prop where
  order : s.quit = false → s.sent = s.ran.map some ++ s.pending
  stopped : s.quit = true → ∃ rest, s.sent = s.ran.map some ++ none :: rest
  deleted : s.deleted <+: s.ran
  all : s.phase = .idle → s.deleted = s.ran

/-- A command returns false only as the last of its batch, and a null pointer is
    the first of its. -/
def Orderly (s : LinkageWorker Command) : Act Command → Prop
  | .walk ret =>
      match s.phase with
      | .running _ (some _ :: p) => ret = true ∨ p = []
      | .running done (none :: _) => done = []
      | _ => True
  | _ => True

/-- Between the iterations: what is run and not deleted is what `OnCommand` has
    walked, or has yet to delete. -/
structure Good (s : LinkageWorker Command) : Prop extends Meets s where
  quit : s.quit = true → s.phase = .idle
  running : ∀ done p, s.phase = .running done p → s.ran = s.deleted ++ done
  deleting : ∀ p, s.phase = .deleting p →
    ∃ commands, p = commands.map some ∧ s.ran = s.deleted ++ commands

variable {s s' : LinkageWorker Command} {act : Act Command} {ret : Bool}
variable {done : List Command} {p : List (Option Command)} {command : Command}

theorem pending_idle (h : s.phase = .idle) : s.pending = s.commands := by
  rw [LinkageWorker.pending]
  rw [h]

theorem pending_running (h : s.phase = .running done p) :
    s.pending = p ++ s.commands := by
  rw [LinkageWorker.pending]
  rw [h]

theorem pending_deleting (h : s.phase = .deleting p) : s.pending = s.commands := by
  rw [LinkageWorker.pending]
  rw [h]

theorem orderly_stop (h : s.phase = .running done (none :: p)) :
    Orderly s (.walk ret) ↔ done = [] := by
  rw [Orderly]
  rw [h]

theorem orderly_run (h : s.phase = .running done (some command :: p)) :
    Orderly s (.walk ret) ↔ ret = true ∨ p = [] := by
  rw [Orderly]
  rw [h]

/-- What an iteration of the first loop can do. -/
theorem walk_eq_some (h : walk ret s = some s') :
    (∃ done, s.phase = .running done [] ∧
      s' = { s with phase := .deleting (done.map some) }) ∨
    (∃ done p, s.phase = .running done (none :: p) ∧
      s' = { s with quit := true, phase := .idle }) ∨
    (∃ done command p, s.phase = .running done (some command :: p) ∧
      s' = { s with
        ran := s.ran ++ [command]
        phase :=
          if ret then .running (done ++ [command]) p
          else .deleting ((done ++ [command]).map some ++ p) }) := by
  rw [walk] at h
  split at h
  · rename_i done hphase
    exact .inl ⟨done, hphase, (Option.some.inj h).symm⟩
  · rename_i done p hphase
    exact .inr (.inl ⟨done, p, hphase, (Option.some.inj h).symm⟩)
  · rename_i done command p hphase
    exact .inr (.inr ⟨done, command, p, hphase, (Option.some.inj h).symm⟩)
  · exact absurd h (by simp)

-- ── What each step keeps ─────────────────────────────────────────────────────

theorem Good.new : Good (.new : LinkageWorker Command) where
  order := fun _ => rfl
  stopped := fun h => absurd h (by simp [LinkageWorker.new])
  deleted := List.prefix_rfl
  all := fun _ => rfl
  quit := fun _ => rfl
  running := fun _ _ h => absurd h (by simp [LinkageWorker.new])
  deleting := fun _ h => absurd h (by simp [LinkageWorker.new])

/-- In `OnCommand` the worker has not quit. -/
theorem Good.not_quit (h : Good s) (hphase : s.phase ≠ .idle) : s.quit = false :=
  Bool.eq_false_iff.mpr fun hquit => hphase (h.quit hquit)

theorem pending_sendCommand (command : Option Command) :
    (sendCommand command s).pending = s.pending ++ [command] := by
  unfold LinkageWorker.pending sendCommand
  cases s.phase with
  | idle => rfl
  | running done p => exact (List.append_assoc _ _ _).symm
  | deleting p => rfl

theorem Good.sendCommand (h : Good s) (command : Option Command) :
    Good (sendCommand command s) where
  order := by
    intro hq
    show s.sent ++ [command] = _
    rw [pending_sendCommand, h.order hq, List.append_assoc]
    rfl
  stopped := by
    intro hq
    obtain ⟨rest, hrest⟩ := h.stopped hq
    refine ⟨rest ++ [command], ?_⟩
    show s.sent ++ [command] = _
    rw [hrest, List.append_assoc]
    rfl
  deleted := h.deleted
  all := h.all
  quit := h.quit
  running := h.running
  deleting := h.deleting

theorem Good.onCommand (h : Good s) (hs : onCommand s = some s') : Good s' := by
  rw [FlinterWorkerCommand.onCommand] at hs
  split at hs
  · rename_i hphase hq
    obtain rfl := Option.some.inj hs
    have hnot : ¬s.quit = true := by simp [hq]
    refine ⟨⟨?_, fun hquit => absurd hquit hnot, h.deleted,
      fun hp => absurd hp (by simp)⟩, fun hquit => absurd hquit hnot, ?_,
      fun _ hp => absurd hp (by simp)⟩
    · intro _
      rw [pending_running rfl]
      show s.sent = s.ran.map some ++ (s.commands ++ [])
      rw [List.append_nil, h.order hq, pending_idle hphase]
    · intro done p hp
      obtain ⟨rfl, rfl⟩ := Phase.running.inj hp
      show s.ran = s.deleted ++ []
      rw [List.append_nil, h.all hphase]
  · exact absurd hs (by simp)

theorem Good.walk (h : Good s) (ho : Orderly s (.walk ret))
    (hs : walk ret s = some s') : Good s' := by
  rcases walk_eq_some hs with ⟨done, hphase, rfl⟩ | ⟨done, p, hphase, rfl⟩ |
    ⟨done, command, p, hphase, rfl⟩
  · -- the first loop is through
    have hq := h.not_quit (by simp [hphase])
    have hnot : ¬s.quit = true := by simp [hq]
    refine ⟨⟨?_, fun hquit => absurd hquit hnot, h.deleted,
      fun hp => absurd hp (by simp)⟩, fun hquit => absurd hquit hnot,
      fun _ _ hp => absurd hp (by simp), ?_⟩
    · intro _
      rw [pending_deleting rfl]
      show s.sent = s.ran.map some ++ s.commands
      rw [h.order hq, pending_running hphase, List.nil_append]
    · intro p hp
      obtain rfl := Phase.deleting.inj hp
      exact ⟨done, rfl, h.running _ _ hphase⟩
  · -- a null pointer, and nothing of the batch was run
    obtain rfl := (orderly_stop hphase).mp ho
    have hq := h.not_quit (by simp [hphase])
    refine ⟨⟨fun hfalse => absurd hfalse (by simp), ?_, h.deleted, ?_⟩,
      fun _ => rfl, fun _ _ hp => absurd hp (by simp),
      fun _ hp => absurd hp (by simp)⟩
    · intro _
      refine ⟨p ++ s.commands, ?_⟩
      show s.sent = s.ran.map some ++ none :: (p ++ s.commands)
      rw [h.order hq, pending_running hphase, List.cons_append]
    · intro _
      show s.deleted = s.ran
      rw [h.running _ _ hphase, List.append_nil]
  · -- a command is run
    have hq := h.not_quit (by simp [hphase])
    have hnot : ¬s.quit = true := by simp [hq]
    have hran := h.running _ _ hphase
    have hdeleted : s.deleted <+: s.ran ++ [command] :=
      h.deleted.trans (List.prefix_append _ _)
    have hsent : s.sent = (s.ran ++ [command]).map some ++ (p ++ s.commands) := by
      rw [h.order hq, pending_running hphase, List.map_append, List.append_assoc]
      rfl
    cases ret with
    | true =>
        refine ⟨⟨?_, fun hquit => absurd hquit hnot, hdeleted,
          fun hp => absurd hp (by simp)⟩, fun hquit => absurd hquit hnot, ?_,
          fun _ hp => absurd hp (by simp)⟩
        · intro _
          rw [pending_running rfl]
          exact hsent
        · intro done' p' hp
          obtain ⟨rfl, rfl⟩ := Phase.running.inj hp
          show s.ran ++ [command] = s.deleted ++ (done ++ [command])
          rw [hran, List.append_assoc]
    | false =>
        -- it was the last of its batch
        obtain rfl : p = [] := by simpa using (orderly_run hphase).mp ho
        refine ⟨⟨?_, fun hquit => absurd hquit hnot, hdeleted,
          fun hp => absurd hp (by simp)⟩, fun hquit => absurd hquit hnot,
          fun _ _ hp => absurd hp (by simp), ?_⟩
        · intro _
          rw [pending_deleting rfl]
          exact hsent
        · intro p' hp
          obtain rfl := Phase.deleting.inj hp
          refine ⟨done ++ [command], List.append_nil _, ?_⟩
          show s.ran ++ [command] = s.deleted ++ (done ++ [command])
          rw [hran, List.append_assoc]

theorem Good.delete (h : Good s) (hs : delete s = some s') : Good s' := by
  rw [FlinterWorkerCommand.delete] at hs
  split at hs
  · rename_i hphase
    obtain rfl := Option.some.inj hs
    obtain ⟨commands, hnil, hran⟩ := h.deleting _ hphase
    obtain rfl := List.map_eq_nil_iff.mp hnil.symm
    rw [List.append_nil] at hran
    refine ⟨⟨?_, h.stopped, h.deleted, fun _ => hran.symm⟩, fun _ => rfl,
      fun _ _ hp => absurd hp (by simp), fun _ hp => absurd hp (by simp)⟩
    intro hq
    rw [pending_idle rfl, ← pending_deleting hphase]
    exact h.order hq
  · rename_i c p hphase
    obtain rfl := Option.some.inj hs
    obtain ⟨commands, hcons, hran⟩ := h.deleting _ hphase
    have hnot : ¬s.quit = true := by simp [h.not_quit (by simp [hphase])]
    cases commands with
    | nil => exact absurd hcons (by simp)
    | cons command commands =>
        obtain ⟨rfl, rfl⟩ := List.cons.inj hcons
        have hran' : s.ran = s.deleted ++ [command] ++ commands := by
          rw [hran, List.append_assoc, List.singleton_append]
        refine ⟨⟨?_, fun hquit => absurd hquit hnot, ⟨commands, hran'.symm⟩,
          fun hp => absurd hp (by simp)⟩, fun hquit => absurd hquit hnot,
          fun _ _ hp => absurd hp (by simp), ?_⟩
        · intro hq
          rw [pending_deleting rfl, ← pending_deleting hphase]
          exact h.order hq
        · intro p hp
          obtain rfl := Phase.deleting.inj hp
          exact ⟨commands, rfl, hran'⟩
  · exact absurd hs (by simp)

theorem Good.next (h : Good s) (ho : Orderly s act) (hs : next s act = some s') :
    Good s' := by
  cases act with
  | sendCommand command =>
      obtain rfl := Option.some.inj hs
      exact h.sendCommand command
  | onCommand => exact h.onCommand hs
  | walk ret => exact h.walk ho hs
  | delete => exact h.delete hs

theorem Good.reachable (h : Reachable ((worker Command).restrict Orderly) s) :
    Good s := by
  refine h.invariant ?_ ?_
  · rintro _ rfl
    exact .new
  · rintro s act s' - hgood ⟨ho, hs⟩
    exact hgood.next ho hs

-- ── The early exits ──────────────────────────────────────────────────────────

/-- A step that is not orderly breaks the promise: a command that is run before a
    null pointer is not deleted, and what is behind a command that returns false
    is not run. -/
theorem Good.orderly_of_meets (h : Good s)
    (hs : FlinterWorkerCommand.next s act = some s') (hmeets : Meets s') :
    Orderly s act := by
  cases act with
  | sendCommand command => trivial
  | onCommand => trivial
  | delete => trivial
  | walk ret =>
      rcases walk_eq_some hs with ⟨done, hphase, rfl⟩ | ⟨done, p, hphase, rfl⟩ |
        ⟨done, command, p, hphase, rfl⟩
      · rw [Orderly]
        rw [hphase]
        trivial
      · rw [orderly_stop hphase]
        have hall : s.deleted = s.ran := hmeets.all rfl
        rw [h.running _ _ hphase] at hall
        exact List.self_eq_append_right.mp hall
      · rw [orderly_run hphase]
        cases ret with
        | true => exact .inl rfl
        | false =>
            right
            have hq := h.not_quit (by simp [hphase])
            have horder : s.sent = (s.ran ++ [command]).map some ++ s.commands := by
              have horder := hmeets.order hq
              rwa [pending_deleting rfl] at horder
            rw [h.order hq, pending_running hphase, List.map_append,
              List.append_assoc, List.append_cancel_left_eq] at horder
            simpa using horder

/-- **COMMANDS ONCE, IN ORDER**: in every run in which a command returns false only as
    the last of its batch and a null pointer is the first of its, each command
    sent before a null pointer is run once, in order, and deleted once after it
    ran, and no null pointer is dropped; and the next step keeps this if and only
    if it is such a step. -/
theorem commands_once (h : Reachable ((worker Command).restrict Orderly) s) :
    Meets s ∧ (none ∈ s.sent → s.quit = true ∨ none ∈ s.pending) ∧
    ∀ act s', next s act = some s' → (Meets s' ↔ Orderly s act) := by
  have hgood := Good.reachable h
  refine ⟨hgood.toMeets, ?_, ?_⟩
  · intro hmem
    cases hq : s.quit with
    | true => exact .inl rfl
    | false =>
        right
        rw [hgood.order hq] at hmem
        simpa using hmem
  · intro act s' hs
    exact ⟨hgood.orderly_of_meets hs, fun ho => (hgood.next ho hs).toMeets⟩

/-- A run that goes on. -/
theorem orderly_next (h : Reachable ((worker Command).restrict Orderly) s)
    (act : Act Command) (ho : Orderly s act) (hs : next s act = some s') :
    Reachable ((worker Command).restrict Orderly) s' :=
  .next h ⟨ho, hs⟩

theorem worker_next (h : Reachable (worker Command) s) (act : Act Command)
    (hs : next s act = some s') : Reachable (worker Command) s' :=
  .next h hs

/-- Two commands in one batch, of which the second returns false, and a null
    pointer in the next. -/
theorem commands_once_quit : ∃ s : LinkageWorker Nat,
    s.sent = [some 1, some 2, none] ∧ s.quit = true ∧ s.ran = [1, 2] ∧
    s.deleted = [1, 2] ∧ Meets s := by
  have hstart : Reachable ((worker Nat).restrict Orderly) .new := .start rfl
  have hsent := orderly_next (orderly_next hstart
    (.sendCommand (some 1)) trivial rfl) (.sendCommand (some 2)) trivial rfl
  have hran := orderly_next (orderly_next (orderly_next hsent
    .onCommand trivial rfl) (.walk true) (.inl rfl) rfl)
    (.walk false) (.inr rfl) rfl
  have hdeleted := orderly_next (orderly_next (orderly_next hran
    .delete trivial rfl) .delete trivial rfl) .delete trivial rfl
  have hquit := orderly_next (orderly_next (orderly_next hdeleted
    (.sendCommand none) trivial rfl) .onCommand trivial rfl)
    (.walk true) rfl rfl
  exact ⟨_, rfl, rfl, rfl, rfl, (commands_once hquit).1⟩

/-- Two in one batch.  A command before a null pointer is not deleted; a null
    pointer behind a command that returns false is dropped; and a command behind
    one is deleted and not run. -/
theorem commands_lost :
    (∃ s : LinkageWorker Nat, Reachable (worker Nat) s ∧
      s.sent = [some 1, none] ∧ s.quit = true ∧ s.ran = [1] ∧ s.deleted = [] ∧
      ¬Meets s) ∧
    (∃ s : LinkageWorker Nat, Reachable (worker Nat) s ∧
      s.sent = [some 1, none] ∧ s.phase = .idle ∧ s.quit = false ∧
      s.pending = [] ∧ ¬Meets s) ∧
    ∃ s : LinkageWorker Nat, Reachable (worker Nat) s ∧
      s.sent = [some 1, some 2] ∧ s.phase = .idle ∧ s.ran = [1] ∧
      s.deleted = [1, 2] ∧ ¬Meets s := by
  have hstart : Reachable (worker Nat) .new := .start rfl
  have hone := worker_next hstart (.sendCommand (some 1)) rfl
  have hnull := worker_next (worker_next hone (.sendCommand none) rfl)
    .onCommand rfl
  have htwo := worker_next (worker_next hone (.sendCommand (some 2)) rfl)
    .onCommand rfl
  refine ⟨?_, ?_, ?_⟩
  · have hquit := worker_next (worker_next hnull (.walk true) rfl)
      (.walk true) rfl
    refine ⟨_, hquit, rfl, rfl, rfl, rfl, ?_⟩
    intro hmeets
    exact absurd (hmeets.all rfl) (by decide)
  · have hend := worker_next (worker_next (worker_next (worker_next hnull
      (.walk false) rfl) .delete rfl) .delete rfl) .delete rfl
    refine ⟨_, hend, rfl, rfl, rfl, rfl, ?_⟩
    intro hmeets
    exact absurd (hmeets.order rfl) (by decide)
  · have hend := worker_next (worker_next (worker_next (worker_next htwo
      (.walk false) rfl) .delete rfl) .delete rfl) .delete rfl
    refine ⟨_, hend, rfl, rfl, rfl, rfl, ?_⟩
    intro hmeets
    exact absurd (hmeets.order rfl) (by decide)

end FlinterWorkerCommand
