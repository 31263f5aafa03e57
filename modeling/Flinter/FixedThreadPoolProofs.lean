import Flinter.TallyProofs
import Flinter.ThreadPlaceProofs

/-! # FixedThreadPool: one queue for all threads

    The threads are made by `Initialize`.  Each takes the first job, or waits if
    there is none.  `Shutdown` purges the jobs that no thread has taken, cancels
    those that have one if it does not wait for them, and joins all; meanwhile
    a thread that asks for a job ends, and no job is appended.

    What happens from one lock to the next unlock or wait is one step.
    `WakeOne` wakes one at least of those that wait, and a thread may wake for
    no reason. -/

namespace FlinterFixedThreadPool

open Runs Tallies Desks FlinterThread

/-- `FixedThreadPool`, the threads that `Shutdown` joins, and where the threads
    are, numbered as they were spawned. -/
structure FixedThreadPool where
  initializing : Bool
  threads : List Nat
  actives : Finset Nat
  pendingJobs : List ThreadJob
  joining : List Nat
  spawned : Nat
  place : Nat → Place

namespace FixedThreadPool

/-- The constructor. -/
def new : FixedThreadPool where
  initializing := false
  threads := []
  actives := ∅
  pendingJobs := []
  joining := []
  spawned := 0
  place := fun _ => .absent

def setPlace (s : FixedThreadPool) (t : Nat) (p : Place) : FixedThreadPool :=
  { s with place := Function.update s.place t p }

/-- Those in `_job_available.Wait`. -/
def waiters (s : FixedThreadPool) : Finset Nat :=
  (Finset.range s.spawned).filter fun t => (s.place t).waits = 1

/-- `who` wake up. -/
def wakeUp (s : FixedThreadPool) (who : Finset Nat) : FixedThreadPool :=
  { s with place := rouse Place.wake who s.place }

-- ── Threads ──────────────────────────────────────────────────────────────────

/-- `TryRequestJob`, and the rest of `RequestJob` or the `Wait` behind it. -/
def tryRequestJob (s : FixedThreadPool) (t : Nat) : FixedThreadPool :=
  if s.initializing then s.setPlace t .gone
  else
    match s.pendingJobs with
    | job :: rest =>
      { s with
        pendingJobs := rest
        actives := insert t s.actives }.setPlace t (.running job false)
    | [] => s.setPlace t .waiting

/-- `RequestJob` of a new thread, or of one that is done with its job. -/
def requestJob (s : FixedThreadPool) (t : Nat) : Option FixedThreadPool :=
  match s.place t with
  | .starting | .running _ _ =>
      some ({ s with actives := s.actives.erase t }.tryRequestJob t)
  | _ => none

/-- A thread that was woken has the mutex again. -/
def resume (s : FixedThreadPool) (t : Nat) : Option FixedThreadPool :=
  match s.place t with
  | .woken => some (s.tryRequestJob t)
  | _ => none

/-- A thread wakes for no reason. -/
def stir (s : FixedThreadPool) (t : Nat) : Option FixedThreadPool :=
  match s.place t with
  | .waiting => some (s.setPlace t .woken)
  | _ => none

/-- A terminated thread ends in its job. -/
def cancel (s : FixedThreadPool) (t : Nat) : Option FixedThreadPool :=
  match s.place t with
  | .running _ true => some (s.setPlace t .gone)
  | _ => none

-- ── The pool ─────────────────────────────────────────────────────────────────

/-- `Spawn`. -/
def spawn (s : FixedThreadPool) (size : Nat) : FixedThreadPool :=
  { s with
    threads := List.range' s.spawned size
    spawned := s.spawned + size
    place := spawnPlaces s.spawned size s.place }

/-- `Initialize` that succeeds. -/
def initializeSize (s : FixedThreadPool) (size : Nat) : Option FixedThreadPool :=
  if size = 0 ∨ s.initializing = true ∨ s.threads ≠ [] then none
  else some (s.spawn size)

/-- `AppendJob` that succeeds. -/
def appendJob (s : FixedThreadPool) (job : ThreadJob) (who : Finset Nat) :
    Option FixedThreadPool :=
  if s.initializing then none
  else if Wakes s.waiters 1 who then
    some ({ s with pendingJobs := s.pendingJobs ++ [job] }.wakeUp who)
  else none

/-- The threads that `Shutdown` terminates. -/
def doomed (s : FixedThreadPool) (waitForJobsDone : Bool) : Finset Nat :=
  if waitForJobsDone then ∅ else s.actives

/-- `Shutdown` up to its joins, if there are threads. -/
def shutdown (s : FixedThreadPool) (waitForJobsDone : Bool) :
    Option FixedThreadPool :=
  if s.initializing = true ∨ s.threads = [] then none
  else
    some ({ s with
      pendingJobs := []
      actives := ∅
      threads := []
      joining := s.threads
      initializing := true
      place := fun t =>
        if t ∈ s.doomed waitForJobsDone then (s.place t).terminate
        else s.place t }.wakeUp s.waiters)

/-- `Shutdown` has joined its threads. -/
def joined (s : FixedThreadPool) : Option FixedThreadPool :=
  if s.initializing = true ∧ ∀ t ∈ s.joining, (s.place t).live = false then
    some { s with joining := [], initializing := false }
  else none

end FixedThreadPool

/-- What happens next. -/
inductive Act where
  | initializeSize (size : Nat)
  | appendJob (job : ThreadJob) (who : Finset Nat)
  | requestJob (t : Nat)
  | resume (t : Nat)
  | stir (t : Nat)
  | cancel (t : Nat)
  | shutdown (waitForJobsDone : Bool)
  | joined

/-- One step, if it can be taken. -/
def next (s : FixedThreadPool) : Act → Option FixedThreadPool
  | .initializeSize size => s.initializeSize size
  | .appendJob job who => s.appendJob job who
  | .requestJob t => s.requestJob t
  | .resume t => s.resume t
  | .stir t => s.stir t
  | .cancel t => s.cancel t
  | .shutdown waitForJobsDone => s.shutdown waitForJobsDone
  | .joined => s.joined

/-- What it does with jobs. -/
def effect (s : FixedThreadPool) : Act → Effect Unit
  | .appendJob job _ => .append () job
  | .requestJob t | .resume t =>
      match s.initializing, s.pendingJobs with
      | false, job :: _ => .take t () job
      | _, _ => .request t
  | .cancel t => .cancel t
  | .shutdown waitForJobsDone =>
      .shutdown (s.pendingJobs.map fun job => ((), job))
        (s.doomed waitForJobsDone)
  | .initializeSize _ | .stir _ | .joined => .nothing

/-- The pool from its constructor on. -/
def pool : AbstractThreadPool Unit FixedThreadPool Act where
  start := fun s => s = .new
  next := next
  effect := effect
  pending := fun s _ => s.pendingJobs
  busy := fun s t => (s.place t).busy = true
  terminated := fun s t => (s.place t).terminated = true

-- ── Steps ────────────────────────────────────────────────────────────────────

variable {s s' : FixedThreadPool} {t : Nat} {p q : Place} {who : Finset Nat}
variable {a : Act}

/-- What a thread does that asks for a job. -/
inductive Moves (s : FixedThreadPool) (t : Nat) : FixedThreadPool → Prop where
  | exits (actives : Finset Nat) (hinit : s.initializing = true) :
      Moves s t ({ s with actives := actives }.setPlace t .gone)
  | takes {job : ThreadJob} {rest : List ThreadJob} (actives : Finset Nat)
      (hinit : s.initializing = false) (hpending : s.pendingJobs = job :: rest) :
      Moves s t ({ s with
        actives := actives
        pendingJobs := rest }.setPlace t (.running job false))
  | waits (actives : Finset Nat) (hinit : s.initializing = false)
      (hpending : s.pendingJobs = []) :
      Moves s t ({ s with actives := actives }.setPlace t .waiting)

theorem moves_tryRequestJob (s : FixedThreadPool) (t : Nat) (actives : Finset Nat) :
    Moves s t ({ s with actives := actives }.tryRequestJob t) := by
  rw [FixedThreadPool.tryRequestJob]
  by_cases hinit : s.initializing = true
  · rw [if_pos hinit]
    exact .exits actives hinit
  · rw [if_neg hinit]
    have hopen := Bool.eq_false_iff.mpr hinit
    split
    next job rest hpending => exact .takes _ hopen hpending
    next hpending => exact .waits _ hopen hpending

/-- The thread is live and does not wait. -/
theorem requestJob_moves (hs : s.requestJob t = some s') :
    (s.place t).live = true ∧ (s.place t).waits = 0 ∧ Moves s t s' := by
  rw [FixedThreadPool.requestJob] at hs
  split at hs
  next hp =>
    obtain rfl := Option.some.inj hs
    rw [hp]
    exact ⟨rfl, rfl, moves_tryRequestJob s t _⟩
  next hp =>
    obtain rfl := Option.some.inj hs
    rw [hp]
    exact ⟨rfl, rfl, moves_tryRequestJob s t _⟩
  next => cases hs

theorem resume_moves (hs : s.resume t = some s') :
    (s.place t).live = true ∧ (s.place t).waits = 0 ∧ Moves s t s' := by
  rw [FixedThreadPool.resume] at hs
  split at hs
  next hp =>
    obtain rfl := Option.some.inj hs
    rw [hp]
    exact ⟨rfl, rfl, moves_tryRequestJob s t s.actives⟩
  next => cases hs

theorem stir_cases (hs : s.stir t = some s') :
    s.place t = .waiting ∧ s' = s.setPlace t .woken := by
  rw [FixedThreadPool.stir] at hs
  split at hs
  next hp => exact ⟨hp, (Option.some.inj hs).symm⟩
  next => cases hs

theorem cancel_cases (hs : s.cancel t = some s') :
    (∃ job, s.place t = .running job true) ∧ s' = s.setPlace t .gone := by
  rw [FixedThreadPool.cancel] at hs
  split at hs
  next job hp => exact ⟨⟨job, hp⟩, (Option.some.inj hs).symm⟩
  next => cases hs

/-- Where a thread is when `Shutdown` begins to join. -/
theorem shutdown_place {w : Bool} (hs : s.shutdown w = some s') (u : Nat) :
    Place.Halted (u ∈ s.doomed w) (s.place u) (s'.place u) := by
  rw [FixedThreadPool.shutdown] at hs
  obtain ⟨-, ⟨⟩⟩ := Option.ite_none_left_eq_some.mp hs
  have hinner : Place.Halted (u ∈ s.doomed w) (s.place u)
      (if u ∈ s.doomed w then (s.place u).terminate else s.place u) := by
    split
    next hdoomed => exact .terminate hdoomed _
    next => exact .refl _
  refine hinner.trans ?_
  show Place.Halted _ _ (if u ∈ s.waiters then Place.wake _ else _)
  by_cases hin : u ∈ s.waiters
  · rw [if_pos hin]
    exact .wake _
  · rw [if_neg hin]
    exact .refl _

theorem shutdown_eq {w : Bool} (hs : s.shutdown w = some s') :
    s.initializing = false ∧ s'.initializing = true ∧ s'.pendingJobs = [] ∧
      s'.threads = [] ∧ s'.joining = s.threads ∧ s'.spawned = s.spawned := by
  rw [FixedThreadPool.shutdown] at hs
  obtain ⟨hcond, ⟨⟩⟩ := Option.ite_none_left_eq_some.mp hs
  exact ⟨Bool.eq_false_iff.mpr fun h => hcond (.inl h), rfl, rfl, rfl, rfl, rfl⟩

-- ── Threads ──────────────────────────────────────────────────────────────────

/-- The weights of the places of all threads. -/
def FixedThreadPool.tally (s : FixedThreadPool) (w : Place → Nat) : Nat :=
  total w s.spawned s.place

/-- What holds between two steps: no job is pending while `Shutdown` joins, and
    if a thread waits for a job, as many as there are jobs are about to look for
    one. -/
structure Sound (s : FixedThreadPool) : Prop where
  roster : Roster s.initializing s.threads s.joining s.spawned s.place
  closed : s.initializing = true → s.pendingJobs = []
  covered : 0 < s.tally Place.waits → s.pendingJobs.length ≤ s.tally Place.looks

theorem sound_new : Sound .new :=
  ⟨.start, nofun, nofun⟩

/-- Without jobs. -/
theorem covered_of_nil {w : Nat} (h : s.pendingJobs = []) :
    s.pendingJobs.length ≤ w := by
  rw [h]
  exact Nat.zero_le w

theorem Sound.moves (h : Sound s) (hlive : (s.place t).live = true)
    (hwaits : (s.place t).waits = 0) (hm : Moves s t s') : Sound s' := by
  have ht := h.roster.lt hlive
  cases hm with
  | exits actives hinit =>
      exact ⟨h.roster.moved hlive (.inr hinit) rfl, fun _ => h.closed hinit,
        fun _ => covered_of_nil (h.closed hinit)⟩
  | @takes job rest actives hinit hpending =>
      have hwaits' : total Place.waits s.spawned
          (Function.update s.place t (.running job false)) + _ = _ + 0 :=
        total_update ht
      have hlooks' : total Place.looks s.spawned
          (Function.update s.place t (.running job false)) + _ = _ + 0 :=
        total_update ht
      have hlooks : (s.place t).looks ≤ 1 := by
        cases s.place t <;> simp [Place.looks]
      have hcovered := h.covered
      rw [hpending, List.length_cons] at hcovered
      have hcovered : 0 < total Place.waits s.spawned s.place →
        rest.length + 1 ≤ total Place.looks s.spawned s.place := hcovered
      refine ⟨h.roster.moved hlive (.inl rfl) rfl, fun hinit' => ?_, fun hpos => ?_⟩
      · have hinit' : s.initializing = true := hinit'
        rw [hinit] at hinit'
        cases hinit'
      · have hpos : 0 < total Place.waits s.spawned
          (Function.update s.place t (.running job false)) := hpos
        show rest.length ≤ total Place.looks s.spawned
          (Function.update s.place t (.running job false))
        omega
  | waits actives hinit hpending =>
      exact ⟨h.roster.moved hlive (.inl rfl) rfl, fun _ => hpending,
        fun _ => covered_of_nil hpending⟩

theorem Sound.stir (h : Sound s) (hs : s.stir t = some s') : Sound s' := by
  obtain ⟨hp, rfl⟩ := stir_cases hs
  have hlive : (s.place t).live = true := by rw [hp]; rfl
  have ht := h.roster.lt hlive
  have hwaits' : total Place.waits s.spawned (Function.update s.place t .woken) +
      (s.place t).waits = _ + 0 := total_update ht
  have hlooks' : total Place.looks s.spawned (Function.update s.place t .woken) +
      (s.place t).looks = _ + 1 := total_update ht
  have hcovered : 0 < total Place.waits s.spawned s.place →
    s.pendingJobs.length ≤ total Place.looks s.spawned s.place := h.covered
  rw [hp] at hwaits' hlooks'
  have hwaits' : _ + 1 = _ + 0 := hwaits'
  have hlooks' : _ + 0 = _ + 1 := hlooks'
  refine ⟨h.roster.moved hlive (.inl rfl) rfl, h.closed, fun _ => ?_⟩
  show s.pendingJobs.length ≤
    total Place.looks s.spawned (Function.update s.place t .woken)
  omega

theorem Sound.cancel (h : Sound s) (hs : s.cancel t = some s') : Sound s' := by
  obtain ⟨⟨job, hp⟩, rfl⟩ := cancel_cases hs
  have hlive : (s.place t).live = true := by rw [hp]; rfl
  have hinit := h.roster.of_terminated (t := t) (by rw [hp]; rfl)
  exact ⟨h.roster.moved hlive (.inr hinit) rfl, h.closed,
    fun _ => covered_of_nil (h.closed hinit)⟩

theorem initializeSize_eq {size : Nat} (hs : s.initializeSize size = some s') :
    0 < size ∧ s.initializing = false ∧ s.threads = [] ∧ s' = s.spawn size := by
  rw [FixedThreadPool.initializeSize] at hs
  obtain ⟨hcond, hs⟩ := Option.ite_none_left_eq_some.mp hs
  refine ⟨Nat.pos_of_ne_zero fun hzero => hcond (.inl hzero),
    Bool.eq_false_iff.mpr fun hinit => hcond (.inr (.inl hinit)), ?_,
    (Option.some.inj hs).symm⟩
  by_contra hne
  exact hcond (.inr (.inr hne))

theorem Sound.initializeSize {size : Nat} (h : Sound s)
    (hs : s.initializeSize size = some s') : Sound s' := by
  obtain ⟨-, hopen, hnone, rfl⟩ := initializeSize_eq hs
  have hroster := h.roster
  rw [hopen, hnone] at hroster
  refine ⟨?_, h.closed, fun hpos => ?_⟩
  · show Roster s.initializing _ s.joining _ _
    rw [hopen]
    exact hroster.spawn size
  · obtain ⟨u, -, hwaits⟩ := exists_of_total_pos hpos
    have hwaits : 0 < (spawnPlaces s.spawned size s.place u).waits := hwaits
    rcases hroster.spawnPlaces_cases size u with ⟨-, -, heq⟩ | ⟨-, heq⟩
    · rw [heq] at hwaits
      cases hwaits
    · rw [heq] at hwaits
      have hlive := Place.live_of_waits hwaits
      rw [hroster.dead u] at hlive
      cases hlive

theorem FixedThreadPool.mem_waiters :
    t ∈ s.waiters ↔ t < s.spawned ∧ (s.place t).waits = 1 := by
  rw [waiters, Finset.mem_filter, Finset.mem_range]

theorem FixedThreadPool.card_waiters : s.waiters.card = s.tally Place.waits := by
  refine card_eq_total (fun _ => mem_waiters) fun p => ?_
  cases p <;> simp only [Place.waits, Nat.zero_le, Nat.le_refl]

theorem wakeUp_place (s : FixedThreadPool) (who : Finset Nat) (t : Nat) :
    Place.Halted False (s.place t) ((s.wakeUp who).place t) := by
  show Place.Halted _ _ (if t ∈ who then _ else _)
  split
  · exact .wake _
  · exact .refl _

theorem appendJob_eq {job : ThreadJob} (hs : s.appendJob job who = some s') :
    s.initializing = false ∧ Wakes s.waiters 1 who ∧
      s' = { s with pendingJobs := s.pendingJobs ++ [job] }.wakeUp who := by
  rw [FixedThreadPool.appendJob] at hs
  obtain ⟨hinit, hs⟩ := Option.ite_none_left_eq_some.mp hs
  obtain ⟨hwho, hs⟩ := Option.ite_none_right_eq_some.mp hs
  exact ⟨Bool.eq_false_iff.mpr hinit, hwho, (Option.some.inj hs).symm⟩

/-- One thread is woken for the job, if one waits. -/
theorem Sound.appendJob {job : ThreadJob} (h : Sound s)
    (hs : s.appendJob job who = some s') : Sound s' := by
  obtain ⟨hopen, ⟨hsub, hmin⟩, rfl⟩ := appendJob_eq hs
  have hlt : ∀ t ∈ who, t < s.spawned := fun t ht =>
    (FixedThreadPool.mem_waiters.mp (hsub ht)).1
  have hp : ∀ t ∈ who, s.place t = .waiting := fun t ht =>
    Place.waits_eq_one (FixedThreadPool.mem_waiters.mp (hsub ht)).2
  have hlooks : total Place.looks s.spawned s.place + who.card ≤
      total Place.looks s.spawned (rouse Place.wake who s.place) :=
    le_total_rouse hlt fun t ht => by rw [hp t ht]; exact Nat.le_refl _
  have hwaits : total Place.waits s.spawned (rouse Place.wake who s.place) +
      who.card = total Place.waits s.spawned s.place :=
    total_rouse_lose hlt fun t ht => by rw [hp t ht]; rfl
  have hcovered : 0 < total Place.waits s.spawned s.place →
    s.pendingJobs.length ≤ total Place.looks s.spawned s.place := h.covered
  have hcard : s.waiters.card = total Place.waits s.spawned s.place :=
    FixedThreadPool.card_waiters
  refine ⟨h.roster.woken (wakeUp_place s who), fun hinit => ?_, fun hpos => ?_⟩
  · have hinit : s.initializing = true := hinit
    rw [hopen] at hinit
    cases hinit
  · have hpos : 0 < total Place.waits s.spawned (rouse Place.wake who s.place) := hpos
    show (s.pendingJobs ++ [job]).length ≤
      total Place.looks s.spawned (rouse Place.wake who s.place)
    rw [List.length_append, List.length_singleton]
    omega

theorem Sound.shutdown {w : Bool} (h : Sound s) (hs : s.shutdown w = some s') :
    Sound s' := by
  obtain ⟨hopen, hinit, hpending, hthreads, hjoining, hspawned⟩ := shutdown_eq hs
  have hroster := h.roster
  rw [hopen] at hroster
  refine ⟨?_, fun _ => hpending, fun _ => covered_of_nil hpending⟩
  rw [hinit, hthreads, hjoining, hspawned]
  exact hroster.shut (shutdown_place hs)

theorem Sound.joined (h : Sound s) (hs : s.joined = some s') :
    Sound s' ∧ (∀ t, (s'.place t).live = false) ∧ s'.pendingJobs = [] := by
  rw [FixedThreadPool.joined] at hs
  obtain ⟨⟨hinit, hall⟩, ⟨⟩⟩ := Option.ite_none_right_eq_some.mp hs
  have hpending := h.closed hinit
  have hroster := h.roster
  rw [hinit] at hroster
  obtain ⟨hroster', hdead⟩ := hroster.joined hall
  refine ⟨⟨?_, nofun, fun _ => covered_of_nil hpending⟩, hdead, hpending⟩
  show Roster false s.threads [] s.spawned s.place
  rw [h.roster.closed hinit]
  exact hroster'

theorem Sound.next (h : Sound s) (hs : next s a = some s') : Sound s' := by
  cases a with
  | initializeSize size => exact h.initializeSize hs
  | appendJob job who => exact h.appendJob hs
  | requestJob t =>
      obtain ⟨hlive, hwaits, hm⟩ := requestJob_moves hs
      exact h.moves hlive hwaits hm
  | resume t =>
      obtain ⟨hlive, hwaits, hm⟩ := resume_moves hs
      exact h.moves hlive hwaits hm
  | stir t => exact h.stir hs
  | cancel t => exact h.cancel hs
  | shutdown w => exact h.shutdown hs
  | joined => exact (h.joined hs).1

theorem reachable_sound (h : Reachable pool.system s) : Sound s := by
  refine h.invariant (I := Sound) ?_ fun s a s' _ hi hs => hi.next hs
  rintro _ rfl
  exact sound_new

-- ── What the pool does with jobs ─────────────────────────────────────────────

theorem placed : pool.Placed FixedThreadPool.place :=
  ⟨fun _ _ => .rfl, fun _ _ => .rfl⟩

theorem pending_update {u : FixedThreadPool} {jobs : List ThreadJob}
    (h : u.pendingJobs = jobs) :
    pool.pending u = Function.update (pool.pending s) () jobs := by
  funext q
  rw [Function.update_self]
  exact h

theorem Moves.does (h : Moves s t s') :
    pool.Does s (match s.initializing, s.pendingJobs with
      | false, job :: _ => .take t () job
      | _, _ => .request t) s' := by
  cases h with
  | exits actives hinit =>
      rw [hinit]
      exact does_of_move placed rfl rfl (.inr (.inr rfl)) nofun rfl nofun
  | @takes job rest actives hinit hpending =>
      have heffect : (match s.initializing, s.pendingJobs with
          | false, job :: _ => .take t () job
          | _, _ => .request t) = (.take t () job : Effect Unit) := by
        rw [hinit, hpending]
      rw [heffect]
      refine does_of_move placed rfl ⟨rest, hpending, pending_update rfl⟩
        (.inl rfl) ?_ rfl nofun
      rintro v q job' heq
      cases heq
      exact ⟨rfl, rfl⟩
  | waits actives hinit hpending =>
      have heffect : (match s.initializing, s.pendingJobs with
          | false, job :: _ => .take t () job
          | _, _ => .request t) = (.request t : Effect Unit) := by
        rw [hinit, hpending]
      rw [heffect]
      exact does_of_move placed rfl rfl (.inr (.inr rfl)) nofun rfl nofun

/-- **THE POOL IS LAWFUL**: its steps do what `effect` says. -/
theorem lawful : pool.Lawful := by
  refine ⟨?_, fun s a s' hr hs => ?_⟩
  · rintro _ rfl
    exact ⟨fun _ => rfl, fun _ => nofun⟩
  · cases a with
    | initializeSize size =>
        obtain ⟨-, -, -, rfl⟩ := initializeSize_eq hs
        exact does_of_spawn placed (reachable_sound hr).roster rfl rfl
    | appendJob job who =>
        obtain ⟨-, -, rfl⟩ := appendJob_eq hs
        refine does_of_halt placed (pending_update rfl) (fun v => ?_) nofun nofun
        exact (wakeUp_place s who v).weaken nofun
    | requestJob t => exact (requestJob_moves hs).2.2.does
    | resume t => exact (resume_moves hs).2.2.does
    | stir t =>
        obtain ⟨hp, rfl⟩ := stir_cases hs
        exact does_of_move placed rfl rfl (.inr (.inl (by rw [hp]; rfl))) nofun rfl nofun
    | cancel t =>
        obtain ⟨⟨job, hp⟩, rfl⟩ := cancel_cases hs
        refine does_of_move placed rfl rfl (.inr (.inr rfl)) nofun rfl ?_
        rintro v heq
        cases heq
        rw [hp]
        rfl
    | shutdown w =>
        obtain ⟨-, -, hpending, -⟩ := shutdown_eq hs
        refine does_of_halt placed ⟨fun q => ?_, funext fun _ => hpending⟩
          (shutdown_place hs) nofun nofun
        show s.pendingJobs = _
        rw [List.filter_eq_self.mpr (by simp), List.map_map]
        exact (List.map_id _).symm
    | joined =>
        have hs : s.joined = some s' := hs
        rw [FixedThreadPool.joined] at hs
        obtain ⟨-, ⟨⟩⟩ := Option.ite_none_right_eq_some.mp hs
        exact does_of_halt placed rfl (fun v => .refl _) nofun nofun

/-- Nothing is left when `Shutdown` has joined its threads. -/
theorem joined_done (h : Reachable pool.system s)
    (hs : next s .joined = some s') :
    (∀ q, pool.pending s' q = []) ∧ ∀ t, ¬pool.busy s' t := by
  obtain ⟨-, hdead, hpending⟩ := (reachable_sound h).joined hs
  refine ⟨fun _ => hpending, fun t hbusy => ?_⟩
  have hbusy : (s'.place t).busy = true := hbusy
  rw [Place.not_busy_of_dead (hdead t)] at hbusy
  cases hbusy

-- ── Jobs are taken ───────────────────────────────────────────────────────────

/-- What a thread does of its own. -/
def own : Act → Prop
  | .requestJob _ | .resume _ => True
  | _ => False

theorem tryRequestJob_takes {job : ThreadJob} {rest : List ThreadJob}
    (hopen : s.initializing = false) (hpending : s.pendingJobs = job :: rest) :
    s.tryRequestJob t = { s with
      pendingJobs := rest
      actives := insert t s.actives }.setPlace t (.running job false) := by
  rw [FixedThreadPool.tryRequestJob, if_neg (by rw [hopen]; exact nofun), hpending]

/-- A thread that does not wait takes the first job when it asks for one. -/
theorem can_take {job : ThreadJob} {rest : List ThreadJob}
    (hopen : s.initializing = false) (hpending : s.pendingJobs = job :: rest)
    (hlive : (s.place t).live = true) (hne : s.place t ≠ .waiting) :
    ∃ a s', own a ∧ next s a = some s' ∧ effect s a = .take t () job ∧
      s'.pendingJobs = rest ∧ s'.threads = s.threads := by
  have hasked : (match s.initializing, s.pendingJobs with
      | false, job :: _ => .take t () job
      | _, _ => .request t) = (.take t () job : Effect Unit) := by
    rw [hopen, hpending]
  have hrequest : s.requestJob t = some ({ s with
      actives := s.actives.erase t }.tryRequestJob t) →
      ∃ a s', own a ∧ next s a = some s' ∧ effect s a = .take t () job ∧
        s'.pendingJobs = rest ∧ s'.threads = s.threads := by
    intro hs
    rw [tryRequestJob_takes (s := { s with actives := s.actives.erase t }) hopen
      hpending] at hs
    exact ⟨.requestJob t, _, trivial, hs, hasked, rfl, rfl⟩
  match hp : s.place t with
  | .starting => exact hrequest (by rw [FixedThreadPool.requestJob, hp])
  | .running _ _ => exact hrequest (by rw [FixedThreadPool.requestJob, hp])
  | .woken =>
      have hs : s.resume t = some (s.tryRequestJob t) := by
        rw [FixedThreadPool.resume, hp]
      rw [tryRequestJob_takes hopen hpending] at hs
      exact ⟨.resume t, _, trivial, hs, hasked, rfl, rfl⟩
  | .waiting => exact absurd hp hne
  | .absent | .gone =>
      rw [hp] at hlive
      cases hlive

/-- Not all threads wait while a job is pending. -/
theorem Sound.not_all_wait (h : Sound s) (hthreads : s.threads ≠ [])
    (hpending : s.pendingJobs ≠ []) : ∃ t ∈ s.threads, s.place t ≠ .waiting := by
  by_contra hnone
  have hwaits : ∀ t ∈ s.threads, s.place t = .waiting := by
    intro t ht
    by_contra hne
    exact hnone ⟨t, ht, hne⟩
  have hopen : s.initializing = false := by
    by_contra hinit
    exact hthreads (h.roster.closed (Bool.not_eq_false _ ▸ hinit))
  have hlooks : ¬0 < s.tally Place.looks := by
    intro hpos
    obtain ⟨u, -, hu⟩ := exists_of_total_pos hpos
    have hlive : (s.place u).live = true := by
      cases hp : s.place u <;> first | rfl | (rw [hp] at hu; cases hu)
    have hin := h.roster.live u hlive
    rw [(h.roster.opened hopen).1] at hin
    rw [hwaits u (hin.resolve_right List.not_mem_nil)] at hu
    cases hu
  obtain ⟨t, ht⟩ := List.exists_mem_of_ne_nil _ hthreads
  have hlt := h.roster.lt (h.roster.here t ht)
  have hle : (s.place t).waits ≤ s.tally Place.waits := le_total hlt
  rw [hwaits t ht] at hle
  have hcovered := h.covered hle
  have hlength := List.length_pos_iff.mpr hpending
  omega

/-- **EACH JOB IS TAKEN** in turn, if there are threads. -/
theorem serves {job : ThreadJob} (h : Sound s) (hthreads : s.threads ≠ [])
    (hin : job ∈ s.pendingJobs) : pool.Serves own () job s := by
  refine serves_of_comes (I := fun s => Sound s ∧ s.threads ≠ []) ?_
    ⟨h, hthreads⟩ hin
  rintro s job rest ⟨h, hthreads⟩ hpending
  have hpending : s.pendingJobs = job :: rest := hpending
  obtain ⟨t, ht, hne⟩ := h.not_all_wait hthreads (by rw [hpending]; exact nofun)
  have hopen : s.initializing = false := by
    by_contra hinit
    exact hthreads (h.roster.closed (Bool.not_eq_false _ ▸ hinit))
  obtain ⟨a, s', ha, hs, he, hrest, hkept⟩ :=
    can_take hopen hpending (h.roster.here t ht) hne
  exact .takes ha hs he ⟨h.next hs, by rw [hkept]; exact hthreads⟩ hrest

-- ── A thread that is terminated ──────────────────────────────────────────────

namespace Cut

/-- A job that is to be released. -/
def task : ThreadJob := ⟨0, 0, true⟩

/-- A pool of one thread, which takes the job and is terminated. -/
def acts : List (FlinterThread.Act Act) :=
  [.pool (.initializeSize 1), .pool (.appendJob task ∅), .pool (.requestJob 0),
    .pool (.shutdown false), .pool (.cancel 0)]

def fresh : Daemons Unit FixedThreadPool :=
  ⟨.new, fun _ => .free, [], ∅, []⟩

/-- Before `Shutdown` has joined the thread. -/
def left : Daemons Unit FixedThreadPool :=
  (acts.foldlM pool.daemonNext fresh).get (by decide)

/-- And behind. -/
def done : Daemons Unit FixedThreadPool :=
  (pool.daemonNext left (.pool .joined)).get (by decide)

theorem reachable_left : Reachable pool.daemons left := by
  have hfresh : Reachable pool.daemons fresh := .start ⟨rfl, rfl, rfl, rfl, rfl⟩
  exact hfresh.follow (fun _ _ _ _ hs => hs) (Option.some_get _).symm

theorem next_left :
    pool.daemonNext left (.pool .joined) = some done :=
  (Option.some_get _).symm

end Cut

/-- **A JOB IS TAKEN AND NOT RUN**: its thread is terminated in the log line before
    it, and nobody purges the job or releases it. -/
theorem job_lost : ¬∀ d d', Reachable pool.daemons d →
    pool.daemonNext d (.pool .joined) = some d' →
    ∀ job ∈ entered () d'.log,
      times .start job d'.log + times .withdraw job d'.log = 1 ∧
        d'.deletions job = job.releases := by
  intro hclaim
  have hjob := hclaim _ _ Cut.reachable_left Cut.next_left Cut.task (by decide)
  revert hjob
  decide

end FlinterFixedThreadPool
