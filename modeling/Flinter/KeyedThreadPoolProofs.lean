import Flinter.ThreadPlaceProofs

/-! # KeyedThreadPool: one queue for each thread

    `AppendJobWithKey` puts a job into the queue of the thread that the key falls
    to, which is the only one to take it.  Each queue has a condition variable
    of its own, in whose `Wait` that thread alone can be, so `WakeOne` wakes it
    if it waits.  `Shutdown` purges all queues and wakes all threads.

    What happens from one lock to the next unlock or wait is one step, and a
    thread may wake for no reason. -/

namespace FlinterKeyedThreadPool

open Runs Desks FlinterThread

/-- `KeyedThreadPool`, with a `Context` for each thread by the thread's number,
    the threads that `Shutdown` joins, and where the threads are, numbered as
    they were spawned. -/
structure KeyedThreadPool where
  initializing : Bool
  threads : List Nat
  actives : Finset Nat
  pendingJobs : Nat → List ThreadJob
  joining : List Nat
  spawned : Nat
  place : Nat → Place

namespace KeyedThreadPool

/-- The constructor. -/
def new : KeyedThreadPool where
  initializing := false
  threads := []
  actives := ∅
  pendingJobs := fun _ => []
  joining := []
  spawned := 0
  place := fun _ => .absent

def setPlace (s : KeyedThreadPool) (t : Nat) (p : Place) : KeyedThreadPool :=
  { s with place := Function.update s.place t p }

-- ── Threads ──────────────────────────────────────────────────────────────────

/-- `TryRequestJob`, and the rest of `RequestJob` or the `Wait` behind it. -/
def tryRequestJob (s : KeyedThreadPool) (t : Nat) : KeyedThreadPool :=
  if s.initializing then s.setPlace t .gone
  else
    match s.pendingJobs t with
    | job :: rest =>
      { s with
        pendingJobs := Function.update s.pendingJobs t rest
        actives := insert t s.actives }.setPlace t (.running job false)
    | [] => s.setPlace t .waiting

/-- `RequestJob` of a new thread, or of one that is done with its job. -/
def requestJob (s : KeyedThreadPool) (t : Nat) : Option KeyedThreadPool :=
  match s.place t with
  | .starting | .running _ _ =>
      some ({ s with actives := s.actives.erase t }.tryRequestJob t)
  | _ => none

/-- A thread that was woken has the mutex again. -/
def resume (s : KeyedThreadPool) (t : Nat) : Option KeyedThreadPool :=
  match s.place t with
  | .woken => some (s.tryRequestJob t)
  | _ => none

/-- A thread wakes for no reason. -/
def stir (s : KeyedThreadPool) (t : Nat) : Option KeyedThreadPool :=
  match s.place t with
  | .waiting => some (s.setPlace t .woken)
  | _ => none

/-- A terminated thread ends in its job. -/
def cancel (s : KeyedThreadPool) (t : Nat) : Option KeyedThreadPool :=
  match s.place t with
  | .running _ true => some (s.setPlace t .gone)
  | _ => none

-- ── The pool ─────────────────────────────────────────────────────────────────

/-- `Spawn`. -/
def spawn (s : KeyedThreadPool) (size : Nat) : KeyedThreadPool :=
  { s with
    threads := List.range' s.spawned size
    spawned := s.spawned + size
    place := spawnPlaces s.spawned size s.place }

/-- `Initialize` that succeeds. -/
def initializeSize (s : KeyedThreadPool) (size : Nat) : Option KeyedThreadPool :=
  if size = 0 ∨ s.initializing = true ∨ s.threads ≠ [] then none
  else some (s.spawn size)

/-- `_threads[key % size]`; without threads the remainder is not defined. -/
def context (s : KeyedThreadPool) (key : Nat) : Option Nat :=
  if s.threads.length = 0 then none else s.threads[key % s.threads.length]?

/-- `AppendJobWithKey` once it has the context. -/
def push (s : KeyedThreadPool) (t : Nat) (job : ThreadJob) : KeyedThreadPool :=
  { s with
    pendingJobs := Function.update s.pendingJobs t (s.pendingJobs t ++ [job])
  }.setPlace t (s.place t).wake

/-- `AppendJobWithKey` that succeeds.  It is refused in `Shutdown`, and is not
    defined without threads. -/
def appendJobWithKey (s : KeyedThreadPool) (key : Nat) (job : ThreadJob) :
    Option KeyedThreadPool :=
  if s.initializing then none
  else
    match s.context key with
    | some t => some (s.push t job)
    | none => none

/-- The threads that `Shutdown` terminates. -/
def doomed (s : KeyedThreadPool) (waitForJobsDone : Bool) : Finset Nat :=
  if waitForJobsDone then ∅ else s.actives

/-- `Shutdown` up to its joins, if there are threads. -/
def shutdown (s : KeyedThreadPool) (waitForJobsDone : Bool) :
    Option KeyedThreadPool :=
  if s.initializing = true ∨ s.threads = [] then none
  else
    some { s with
      pendingJobs := fun t => if t ∈ s.threads then [] else s.pendingJobs t
      actives := ∅
      threads := []
      joining := s.threads
      initializing := true
      place := fun t =>
        let p := if t ∈ s.threads then (s.place t).wake else s.place t
        if t ∈ s.doomed waitForJobsDone then p.terminate else p }

/-- `Shutdown` has joined its threads. -/
def joined (s : KeyedThreadPool) : Option KeyedThreadPool :=
  if s.initializing = true ∧ ∀ t ∈ s.joining, (s.place t).live = false then
    some { s with joining := [], initializing := false }
  else none

end KeyedThreadPool

/-- What happens next; `AppendJob` is `AppendJobWithKey` with key 0. -/
inductive Act where
  | initializeSize (size : Nat)
  | appendJobWithKey (key : Nat) (job : ThreadJob)
  | requestJob (t : Nat)
  | resume (t : Nat)
  | stir (t : Nat)
  | cancel (t : Nat)
  | shutdown (waitForJobsDone : Bool)
  | joined

/-- One step, if it can be taken. -/
def next (s : KeyedThreadPool) : Act → Option KeyedThreadPool
  | .initializeSize size => s.initializeSize size
  | .appendJobWithKey key job => s.appendJobWithKey key job
  | .requestJob t => s.requestJob t
  | .resume t => s.resume t
  | .stir t => s.stir t
  | .cancel t => s.cancel t
  | .shutdown waitForJobsDone => s.shutdown waitForJobsDone
  | .joined => s.joined

/-- What it does with jobs. -/
def effect (s : KeyedThreadPool) : Act → Effect Nat
  | .appendJobWithKey key job =>
      match s.context key with
      | some t => .append t job
      | none => .nothing
  | .requestJob t | .resume t =>
      match s.initializing, s.pendingJobs t with
      | false, job :: _ => .take t t job
      | _, _ => .request t
  | .cancel t => .cancel t
  | .shutdown waitForJobsDone =>
      .shutdown (s.threads.flatMap fun t => (s.pendingJobs t).map fun job => (t, job))
        (s.doomed waitForJobsDone)
  | .initializeSize _ | .stir _ | .joined => .nothing

/-- The pool from its constructor on. -/
def pool : AbstractThreadPool Nat KeyedThreadPool Act where
  start := fun s => s = .new
  next := next
  effect := effect
  pending := KeyedThreadPool.pendingJobs
  busy := fun s t => (s.place t).busy = true
  terminated := fun s t => (s.place t).terminated = true

-- ── Steps ────────────────────────────────────────────────────────────────────

variable {s s' : KeyedThreadPool} {t key : Nat} {job : ThreadJob} {a : Act}

/-- What a thread does that asks for a job. -/
inductive Moves (s : KeyedThreadPool) (t : Nat) : KeyedThreadPool → Prop where
  | exits (actives : Finset Nat) (hinit : s.initializing = true) :
      Moves s t ({ s with actives := actives }.setPlace t .gone)
  | takes {job : ThreadJob} {rest : List ThreadJob} (actives : Finset Nat)
      (hinit : s.initializing = false) (hpending : s.pendingJobs t = job :: rest) :
      Moves s t ({ s with
        actives := actives
        pendingJobs := Function.update s.pendingJobs t rest
      }.setPlace t (.running job false))
  | waits (actives : Finset Nat) (hinit : s.initializing = false)
      (hpending : s.pendingJobs t = []) :
      Moves s t ({ s with actives := actives }.setPlace t .waiting)

theorem moves_tryRequestJob (s : KeyedThreadPool) (t : Nat) (actives : Finset Nat) :
    Moves s t ({ s with actives := actives }.tryRequestJob t) := by
  rw [KeyedThreadPool.tryRequestJob]
  by_cases hinit : s.initializing = true
  · rw [if_pos hinit]
    exact .exits actives hinit
  · rw [if_neg hinit]
    have hopen := Bool.eq_false_iff.mpr hinit
    split
    next job rest hpending => exact .takes _ hopen hpending
    next hpending => exact .waits _ hopen hpending

theorem requestJob_moves (hs : s.requestJob t = some s') :
    (s.place t).live = true ∧ Moves s t s' := by
  rw [KeyedThreadPool.requestJob] at hs
  split at hs
  next hp =>
    obtain rfl := Option.some.inj hs
    rw [hp]
    exact ⟨rfl, moves_tryRequestJob s t _⟩
  next hp =>
    obtain rfl := Option.some.inj hs
    rw [hp]
    exact ⟨rfl, moves_tryRequestJob s t _⟩
  next => cases hs

theorem resume_moves (hs : s.resume t = some s') :
    (s.place t).live = true ∧ Moves s t s' := by
  rw [KeyedThreadPool.resume] at hs
  split at hs
  next hp =>
    obtain rfl := Option.some.inj hs
    rw [hp]
    exact ⟨rfl, moves_tryRequestJob s t s.actives⟩
  next => cases hs

theorem stir_cases (hs : s.stir t = some s') :
    s.place t = .waiting ∧ s' = s.setPlace t .woken := by
  rw [KeyedThreadPool.stir] at hs
  split at hs
  next hp => exact ⟨hp, (Option.some.inj hs).symm⟩
  next => cases hs

theorem cancel_cases (hs : s.cancel t = some s') :
    (∃ job, s.place t = .running job true) ∧ s' = s.setPlace t .gone := by
  rw [KeyedThreadPool.cancel] at hs
  split at hs
  next job hp => exact ⟨⟨job, hp⟩, (Option.some.inj hs).symm⟩
  next => cases hs

theorem initializeSize_eq {size : Nat} (hs : s.initializeSize size = some s') :
    0 < size ∧ s.initializing = false ∧ s.threads = [] ∧ s' = s.spawn size := by
  rw [KeyedThreadPool.initializeSize] at hs
  obtain ⟨hcond, hs⟩ := Option.ite_none_left_eq_some.mp hs
  refine ⟨Nat.pos_of_ne_zero fun hzero => hcond (.inl hzero),
    Bool.eq_false_iff.mpr fun hinit => hcond (.inr (.inl hinit)), ?_,
    (Option.some.inj hs).symm⟩
  by_contra hne
  exact hcond (.inr (.inr hne))

theorem appendJobWithKey_eq (hs : s.appendJobWithKey key job = some s') :
    s.initializing = false ∧ ∃ t, s.context key = some t ∧ s' = s.push t job := by
  rw [KeyedThreadPool.appendJobWithKey] at hs
  obtain ⟨hinit, hs⟩ := Option.ite_none_left_eq_some.mp hs
  refine ⟨Bool.eq_false_iff.mpr hinit, ?_⟩
  split at hs
  next t ht => exact ⟨t, ht, (Option.some.inj hs).symm⟩
  next => cases hs

/-- The context is one of those in `_threads`. -/
theorem context_mem (h : s.context key = some t) : t ∈ s.threads := by
  rw [KeyedThreadPool.context] at h
  obtain ⟨-, h⟩ := Option.ite_none_left_eq_some.mp h
  exact List.mem_of_getElem? h

/-- There is one if there are threads. -/
theorem context_isSome (key : Nat) : (s.context key).isSome ↔ s.threads ≠ [] := by
  rw [KeyedThreadPool.context]
  split
  next hzero =>
    exact ⟨nofun, fun hne => absurd (List.length_eq_zero_iff.mp hzero) hne⟩
  next hne =>
    have hlt := Nat.mod_lt key (Nat.pos_of_ne_zero hne)
    rw [List.getElem?_eq_getElem hlt]
    exact ⟨fun _ heq => hne (List.length_eq_zero_iff.mpr heq), fun _ => rfl⟩

/-- Where a thread is when `Shutdown` begins to join. -/
theorem shutdown_place {w : Bool} (hs : s.shutdown w = some s') (u : Nat) :
    Place.Halted (u ∈ s.doomed w) (s.place u) (s'.place u) := by
  rw [KeyedThreadPool.shutdown] at hs
  obtain ⟨-, ⟨⟩⟩ := Option.ite_none_left_eq_some.mp hs
  have hwake : Place.Halted (u ∈ s.doomed w) (s.place u)
      (if u ∈ s.threads then (s.place u).wake else s.place u) := by
    split
    · exact .wake _
    · exact .refl _
  refine hwake.trans ?_
  show Place.Halted _ _ (if u ∈ s.doomed w then Place.terminate _ else _)
  by_cases hin : u ∈ s.doomed w
  · rw [if_pos hin]
    exact .terminate hin _
  · rw [if_neg hin]
    exact .refl _

theorem shutdown_eq {w : Bool} (hs : s.shutdown w = some s') :
    s.initializing = false ∧ s'.initializing = true ∧ s'.threads = [] ∧
      s'.joining = s.threads ∧ s'.spawned = s.spawned ∧
      s'.pendingJobs = fun t => if t ∈ s.threads then [] else s.pendingJobs t := by
  rw [KeyedThreadPool.shutdown] at hs
  obtain ⟨hcond, ⟨⟩⟩ := Option.ite_none_left_eq_some.mp hs
  exact ⟨Bool.eq_false_iff.mpr fun h => hcond (.inl h), rfl, rfl, rfl, rfl, rfl⟩

theorem joined_eq (hs : s.joined = some s') :
    s.initializing = true ∧ (∀ t ∈ s.joining, (s.place t).live = false) ∧
      s' = { s with joining := [], initializing := false } := by
  rw [KeyedThreadPool.joined] at hs
  obtain ⟨⟨hinit, hall⟩, hs⟩ := Option.ite_none_right_eq_some.mp hs
  exact ⟨hinit, hall, (Option.some.inj hs).symm⟩

-- ── Queues and their threads ─────────────────────────────────────────────────

/-- What holds between two steps: each queue is that of a thread, and a thread
    waits only if its queue is empty. -/
structure Sound (s : KeyedThreadPool) : Prop where
  roster : Roster s.initializing s.threads s.joining s.spawned s.place
  nodup : s.threads.Nodup
  owned : ∀ t, t ∉ s.threads → s.pendingJobs t = []
  quiet : ∀ t, s.place t = .waiting → s.pendingJobs t = []

theorem sound_new : Sound .new :=
  ⟨.start, List.nodup_nil, fun _ _ => rfl, nofun⟩

/-- A thread moves, and the queues are as before. -/
theorem Sound.moved {p : Place} {actives : Finset Nat} (h : Sound s)
    (hlive : (s.place t).live = true) (hp : p.live = true ∨ s.initializing = true)
    (hterminated : p.terminated = false)
    (hquiet : p = .waiting → s.pendingJobs t = []) :
    Sound ({ s with actives := actives }.setPlace t p) := by
  refine ⟨h.roster.moved hlive hp hterminated, h.nodup, h.owned, fun u hu => ?_⟩
  have hu : Function.update s.place t p u = .waiting := hu
  by_cases heq : u = t
  · rw [heq, Function.update_self] at hu
    rw [heq]
    exact hquiet hu
  · rw [Function.update_of_ne heq] at hu
    exact h.quiet u hu

/-- A queue changes that is a thread's, which then does not wait. -/
theorem Sound.queued {p : Place} {actives : Finset Nat} {jobs : List ThreadJob}
    (h : Sound s) (hplace : Roster s.initializing s.threads s.joining s.spawned
      (Function.update s.place t p)) (ht : t ∈ s.threads) (hp : p ≠ .waiting) :
    Sound ({ s with
      actives := actives
      pendingJobs := Function.update s.pendingJobs t jobs }.setPlace t p) := by
  refine ⟨hplace, h.nodup, fun u hu => ?_, fun u hu => ?_⟩
  · have hne : u ≠ t := by
      rintro rfl
      exact hu ht
    show Function.update s.pendingJobs t jobs u = []
    rw [Function.update_of_ne hne]
    exact h.owned u hu
  · have hu : Function.update s.place t p u = .waiting := hu
    show Function.update s.pendingJobs t jobs u = []
    by_cases heq : u = t
    · rw [heq, Function.update_self] at hu
      exact absurd hu hp
    · rw [Function.update_of_ne heq] at hu ⊢
      exact h.quiet u hu

theorem Sound.mem_threads {rest : List ThreadJob} (h : Sound s)
    (hpending : s.pendingJobs t = job :: rest) : t ∈ s.threads := by
  by_contra hnot
  rw [h.owned t hnot] at hpending
  cases hpending

theorem Sound.moves (h : Sound s) (hlive : (s.place t).live = true)
    (hm : Moves s t s') : Sound s' := by
  cases hm with
  | exits actives hinit => exact h.moved hlive (.inr hinit) rfl nofun
  | takes actives hinit hpending =>
      exact h.queued (h.roster.moved hlive (.inl rfl) rfl) (h.mem_threads hpending)
        nofun
  | waits actives hinit hpending =>
      exact h.moved hlive (.inl rfl) rfl fun _ => hpending

theorem Sound.initializeSize {size : Nat} (h : Sound s)
    (hs : s.initializeSize size = some s') : Sound s' := by
  obtain ⟨-, hopen, hnone, rfl⟩ := initializeSize_eq hs
  have hroster := h.roster
  rw [hopen, hnone] at hroster
  have hempty : ∀ t, s.pendingJobs t = [] := by
    intro t
    refine h.owned t ?_
    rw [hnone]
    exact List.not_mem_nil
  refine ⟨?_, List.nodup_range', fun t _ => hempty t, fun t _ => hempty t⟩
  show Roster s.initializing _ s.joining _ _
  rw [hopen]
  exact hroster.spawn size

theorem wake_halted (s : KeyedThreadPool) (t v : Nat) :
    Place.Halted False (s.place v)
      (Function.update s.place t (s.place t).wake v) := by
  by_cases heq : v = t
  · rw [heq, Function.update_self]
    exact .wake _
  · rw [Function.update_of_ne heq]
    exact .refl _

theorem Sound.push (h : Sound s) (ht : t ∈ s.threads) : Sound (s.push t job) := by
  refine h.queued (h.roster.woken (wake_halted s t)) ht ?_
  cases s.place t <;> exact nofun

theorem Sound.shutdown {w : Bool} (h : Sound s) (hs : s.shutdown w = some s') :
    Sound s' ∧ ∀ t, s'.pendingJobs t = [] := by
  obtain ⟨hopen, hinit, hthreads, hjoining, hspawned, hpending⟩ := shutdown_eq hs
  have hroster := h.roster
  rw [hopen] at hroster
  have hempty : ∀ t, s'.pendingJobs t = [] := by
    intro t
    rw [hpending]
    by_cases ht : t ∈ s.threads
    · exact if_pos ht
    · exact (if_neg ht).trans (h.owned t ht)
  refine ⟨⟨?_, ?_, fun t _ => hempty t, fun t _ => hempty t⟩, hempty⟩
  · rw [hinit, hthreads, hjoining, hspawned]
    exact hroster.shut (shutdown_place hs)
  · rw [hthreads]
    exact List.nodup_nil

theorem Sound.joined (h : Sound s) (hs : s.joined = some s') :
    Sound s' ∧ (∀ t, (s'.place t).live = false) ∧ ∀ t, s'.pendingJobs t = [] := by
  obtain ⟨hinit, hall, rfl⟩ := joined_eq hs
  have hnone := h.roster.closed hinit
  have hempty : ∀ t, s.pendingJobs t = [] := by
    intro t
    refine h.owned t ?_
    rw [hnone]
    exact List.not_mem_nil
  have hroster := h.roster
  rw [hinit] at hroster
  obtain ⟨hroster', hdead⟩ := hroster.joined hall
  refine ⟨⟨?_, h.nodup, h.owned, h.quiet⟩, hdead, hempty⟩
  show Roster false s.threads [] s.spawned s.place
  rw [hnone]
  exact hroster'

theorem Sound.next (h : Sound s) (hs : next s a = some s') : Sound s' := by
  cases a with
  | initializeSize size => exact h.initializeSize hs
  | appendJobWithKey key job =>
      obtain ⟨-, t, ht, rfl⟩ := appendJobWithKey_eq hs
      exact h.push (context_mem ht)
  | requestJob t =>
      obtain ⟨hlive, hm⟩ := requestJob_moves hs
      exact h.moves hlive hm
  | resume t =>
      obtain ⟨hlive, hm⟩ := resume_moves hs
      exact h.moves hlive hm
  | stir t =>
      obtain ⟨hp, rfl⟩ := stir_cases hs
      exact h.moved (p := .woken) (by rw [hp]; rfl) (.inl rfl) rfl nofun
  | cancel t =>
      obtain ⟨⟨job, hp⟩, rfl⟩ := cancel_cases hs
      have hinit := h.roster.of_terminated (t := t) (by rw [hp]; rfl)
      exact h.moved (p := .gone) (by rw [hp]; rfl) (.inr hinit) rfl nofun
  | shutdown w => exact (h.shutdown hs).1
  | joined => exact (h.joined hs).1

theorem reachable_sound (h : Reachable pool.system s) : Sound s := by
  refine h.invariant (I := Sound) ?_ fun s a s' _ hi hs => hi.next hs
  rintro _ rfl
  exact sound_new

-- ── What the pool does with jobs ─────────────────────────────────────────────

theorem placed : pool.Placed KeyedThreadPool.place :=
  ⟨fun _ _ => .rfl, fun _ _ => .rfl⟩

theorem Moves.does (h : Moves s t s') :
    pool.Does s (match s.initializing, s.pendingJobs t with
      | false, job :: _ => .take t t job
      | _, _ => .request t) s' := by
  cases h with
  | exits actives hinit =>
      rw [hinit]
      exact does_of_move placed rfl rfl (.inr (.inr rfl)) nofun rfl nofun
  | @takes job rest actives hinit hpending =>
      have heffect : (match s.initializing, s.pendingJobs t with
          | false, job :: _ => .take t t job
          | _, _ => .request t) = (.take t t job : Effect Nat) := by
        rw [hinit, hpending]
      rw [heffect]
      refine does_of_move placed rfl ⟨rest, hpending, rfl⟩ (.inl rfl) ?_ rfl nofun
      rintro v q job' heq
      cases heq
      exact ⟨rfl, rfl⟩
  | waits actives hinit hpending =>
      have heffect : (match s.initializing, s.pendingJobs t with
          | false, job :: _ => .take t t job
          | _, _ => .request t) = (.request t : Effect Nat) := by
        rw [hinit, hpending]
      rw [heffect]
      exact does_of_move placed rfl rfl (.inr (.inr rfl)) nofun rfl nofun

/-- Of all that `Shutdown` purges, what is in one queue. -/
theorem purged_eq (queue : Nat → List ThreadJob) {threads : List Nat}
    (hnodup : threads.Nodup) (q : Nat) :
    ((threads.flatMap fun t => (queue t).map fun job => (t, job)).filter
      fun x => x.1 = q).map Prod.snd = if q ∈ threads then queue q else [] := by
  induction threads with
  | nil => rfl
  | cons t threads ih =>
      obtain ⟨hnot, hnodup⟩ := List.nodup_cons.mp hnodup
      rw [List.flatMap_cons, List.filter_append, List.map_append, ih hnodup]
      by_cases heq : t = q
      · subst heq
        rw [if_neg hnot, if_pos List.mem_cons_self, List.append_nil,
          List.filter_eq_self.mpr (by simp), List.map_map]
        exact List.map_id _
      · have hmem : q ∈ t :: threads ↔ q ∈ threads := by
          rw [List.mem_cons]
          exact ⟨fun h => h.resolve_left (Ne.symm heq), .inr⟩
        rw [List.filter_eq_nil_iff.mpr (by simp [heq]), List.map_nil, List.nil_append]
        exact (if_congr hmem rfl rfl).symm

/-- **THE POOL IS LAWFUL**: its steps do what `effect` says. -/
theorem lawful : pool.Lawful := by
  refine ⟨?_, fun s a s' hr hs => ?_⟩
  · rintro _ rfl
    exact ⟨fun _ => rfl, fun _ => nofun⟩
  · have hsound := reachable_sound hr
    cases a with
    | initializeSize size =>
        obtain ⟨-, -, -, rfl⟩ := initializeSize_eq hs
        exact does_of_spawn placed hsound.roster rfl rfl
    | appendJobWithKey key job =>
        obtain ⟨-, t, ht, rfl⟩ := appendJobWithKey_eq hs
        have heffect : pool.effect s (.appendJobWithKey key job) = .append t job := by
          show (match s.context key with
            | some t => Effect.append t job
            | none => .nothing) = _
          rw [ht]
        rw [heffect]
        exact does_of_halt placed rfl (fun v => (wake_halted s t v).weaken nofun)
          nofun nofun
    | requestJob t => exact (requestJob_moves hs).2.does
    | resume t => exact (resume_moves hs).2.does
    | stir t =>
        obtain ⟨hp, rfl⟩ := stir_cases hs
        exact does_of_move placed rfl rfl (.inr (.inl (by rw [hp]; rfl))) nofun rfl nofun
    | cancel t =>
        obtain ⟨⟨job, hp⟩, rfl⟩ := cancel_cases hs
        refine does_of_move placed rfl rfl (.inr (.inr rfl)) nofun rfl ?_
        rintro v heq
        cases heq
        rw [hp]
        rfl
    | shutdown w =>
        obtain ⟨-, hempty⟩ := hsound.shutdown hs
        refine does_of_halt placed ⟨fun q => ?_, funext hempty⟩ (shutdown_place hs)
          nofun nofun
        rw [purged_eq s.pendingJobs hsound.nodup]
        split
        next => rfl
        next hnot => exact hsound.owned q hnot
    | joined =>
        obtain ⟨-, -, rfl⟩ := joined_eq hs
        exact does_of_halt placed rfl (fun v => .refl _) nofun nofun

/-- Nothing is left when `Shutdown` has joined its threads. -/
theorem joined_done (h : Reachable pool.system s)
    (hs : next s .joined = some s') :
    (∀ q, pool.pending s' q = []) ∧ ∀ t, ¬pool.busy s' t := by
  obtain ⟨-, hdead, hempty⟩ := (reachable_sound h).joined hs
  refine ⟨hempty, fun t hbusy => ?_⟩
  have hbusy : (s'.place t).busy = true := hbusy
  rw [Place.not_busy_of_dead (hdead t)] at hbusy
  cases hbusy

-- ── Jobs are taken ───────────────────────────────────────────────────────────

/-- What a thread does of its own. -/
def own : Act → Prop
  | .requestJob _ | .resume _ => True
  | _ => False

theorem tryRequestJob_takes {rest : List ThreadJob}
    (hopen : s.initializing = false) (hpending : s.pendingJobs t = job :: rest) :
    s.tryRequestJob t = { s with
      pendingJobs := Function.update s.pendingJobs t rest
      actives := insert t s.actives }.setPlace t (.running job false) := by
  rw [KeyedThreadPool.tryRequestJob, if_neg (by rw [hopen]; exact nofun), hpending]

/-- A thread that does not wait takes the first of its jobs when it asks for
    one. -/
theorem can_take {rest : List ThreadJob} (hopen : s.initializing = false)
    (hpending : s.pendingJobs t = job :: rest) (hlive : (s.place t).live = true)
    (hne : s.place t ≠ .waiting) :
    ∃ a s', own a ∧ next s a = some s' ∧ effect s a = .take t t job ∧
      s'.pendingJobs t = rest := by
  have hasked : (match s.initializing, s.pendingJobs t with
      | false, job :: _ => .take t t job
      | _, _ => .request t) = (.take t t job : Effect Nat) := by
    rw [hopen, hpending]
  have hrequest : s.requestJob t = some ({ s with
      actives := s.actives.erase t }.tryRequestJob t) →
      ∃ a s', own a ∧ next s a = some s' ∧ effect s a = .take t t job ∧
        s'.pendingJobs t = rest := by
    intro hs
    rw [tryRequestJob_takes (s := { s with actives := s.actives.erase t }) hopen
      hpending] at hs
    exact ⟨.requestJob t, _, trivial, hs, hasked, Function.update_self ..⟩
  match hp : s.place t with
  | .starting => exact hrequest (by rw [KeyedThreadPool.requestJob, hp])
  | .running _ _ => exact hrequest (by rw [KeyedThreadPool.requestJob, hp])
  | .woken =>
      have hs : s.resume t = some (s.tryRequestJob t) := by
        rw [KeyedThreadPool.resume, hp]
      rw [tryRequestJob_takes hopen hpending] at hs
      exact ⟨.resume t, _, trivial, hs, hasked, Function.update_self ..⟩
  | .waiting => exact absurd hp hne
  | .absent | .gone =>
      rw [hp] at hlive
      cases hlive

/-- **EACH JOB IS TAKEN** in turn; there is a thread for it. -/
theorem serves (h : Sound s) (hin : job ∈ s.pendingJobs t) :
    pool.Serves own t job s := by
  refine serves_of_comes (I := Sound) (fun s job rest h hpending => ?_) h hin
  have hpending : s.pendingJobs t = job :: rest := hpending
  have ht := h.mem_threads hpending
  have hopen : s.initializing = false := by
    by_contra hinit
    rw [h.roster.closed (Bool.not_eq_false _ ▸ hinit)] at ht
    cases ht
  have hne : s.place t ≠ .waiting := by
    intro hwaits
    rw [h.quiet t hwaits] at hpending
    cases hpending
  obtain ⟨a, s', ha, hs, he, hrest⟩ :=
    can_take hopen hpending (h.roster.here t ht) hne
  exact .takes ha hs he (h.next hs) hrest

-- ── Jobs and their keys ──────────────────────────────────────────────────────

/-- The jobs that were appended since `Initialize`, with their keys. -/
def noteKey (_ : Daemons Nat KeyedThreadPool) (a : FlinterThread.Act Act)
    (keys : List (Nat × ThreadJob)) : List (Nat × ThreadJob) :=
  match a with
  | .pool (.appendJobWithKey key job) => keys ++ [(key, job)]
  | .pool (.initializeSize _) => []
  | _ => keys

/-- The jobs among them whose keys fall to a thread. -/
def sentTo (worker : Nat → Nat) (keys : List (Nat × ThreadJob)) (t : Nat) :
    List ThreadJob :=
  (keys.filter fun x => worker x.1 = t).map Prod.snd

/-- What holds of the threads, the log and the keys: a key falls to one thread,
    whose queue has got the jobs that were appended with such keys. -/
structure Homes (worker : Nat → Nat) (d : Daemons Nat KeyedThreadPool)
    (keys : List (Nat × ThreadJob)) : Prop where
  context : d.pool.threads ≠ [] → ∀ key, d.pool.context key = some (worker key)
  sent : ∀ key, entered (worker key) d.log = sentTo worker keys (worker key)
  made : ∀ t job, .enter t job ∈ d.log → t < d.pool.spawned
  own : ∀ t q job, .take t q job ∈ d.log → q = t

/-- Unless it makes threads, a step keeps them or begins to join them. -/
theorem next_threads (hs : next s a = some s')
    (hne : ∀ size, a ≠ .initializeSize size) :
    s'.spawned = s.spawned ∧ (s'.threads = s.threads ∨ s'.threads = []) := by
  have hmoves : ∀ {u : Nat}, Moves s u s' →
      s'.spawned = s.spawned ∧ (s'.threads = s.threads ∨ s'.threads = []) := by
    intro u hm
    cases hm <;> exact ⟨rfl, .inl rfl⟩
  cases a with
  | initializeSize size => exact absurd rfl (hne size)
  | appendJobWithKey key job =>
      obtain ⟨-, u, -, rfl⟩ := appendJobWithKey_eq hs
      exact ⟨rfl, .inl rfl⟩
  | requestJob t => exact hmoves (requestJob_moves hs).2
  | resume t => exact hmoves (resume_moves hs).2
  | stir t =>
      obtain ⟨-, rfl⟩ := stir_cases hs
      exact ⟨rfl, .inl rfl⟩
  | cancel t =>
      obtain ⟨-, rfl⟩ := cancel_cases hs
      exact ⟨rfl, .inl rfl⟩
  | shutdown w =>
      obtain ⟨-, -, hthreads, -, hspawned, -⟩ := shutdown_eq hs
      exact ⟨hspawned, .inr hthreads⟩
  | joined =>
      obtain ⟨-, -, rfl⟩ := joined_eq hs
      exact ⟨rfl, .inl rfl⟩

/-- The effect of a thread that asks for a job. -/
theorem asks_cases {e : Effect Nat}
    (he : (match s.initializing, s.pendingJobs t with
      | false, job :: _ => .take t t job
      | _, _ => .request t) = e) :
    (∃ job, e = .take t t job) ∨ e = .request t := by
  split at he
  · exact .inl ⟨_, he.symm⟩
  · exact .inr he.symm

/-- A thread takes from its own queue. -/
theorem effect_take {u q : Nat} (he : effect s a = .take u q job) : q = u := by
  cases a with
  | requestJob t =>
      rcases asks_cases he with ⟨job', heq⟩ | heq
      · cases heq
        rfl
      · cases heq
  | resume t =>
      rcases asks_cases he with ⟨job', heq⟩ | heq
      · cases heq
        rfl
      · cases heq
  | appendJobWithKey key job' =>
      rw [effect] at he
      split at he <;> cases he
  | _ => cases he

/-- Only `AppendJobWithKey` puts jobs into queues. -/
theorem effect_enters (hne : ∀ key job, a ≠ .appendJobWithKey key job) (q : Nat) :
    (effect s a).enters q = [] := by
  cases a with
  | requestJob t =>
      rcases asks_cases (e := effect s (.requestJob t)) rfl with ⟨job', heq⟩ | heq
      all_goals rw [heq]; rfl
  | resume t =>
      rcases asks_cases (e := effect s (.resume t)) rfl with ⟨job', heq⟩ | heq
      all_goals rw [heq]; rfl
  | appendJobWithKey key job' => exact absurd rfl (hne key job')
  | _ => rfl

theorem context_congr (h : s'.threads = s.threads) :
    s'.context key = s.context key := by
  rw [KeyedThreadPool.context, KeyedThreadPool.context, h]

section Keys

variable {d d' : Daemons Nat KeyedThreadPool} {keys : List (Nat × ThreadJob)}
variable {worker : Nat → Nat}

/-- A step in which no job is appended and no thread made. -/
theorem Homes.quiet (h : Homes worker d keys) {es : List (Event Nat Nat ThreadJob)}
    (hlog : d'.log = d.log ++ es) (henter : ∀ q, entered q es = [])
    (htake : ∀ t q job, .take t q job ∈ es → q = t)
    (hspawned : d'.pool.spawned = d.pool.spawned)
    (hthreads : d'.pool.threads = d.pool.threads ∨ d'.pool.threads = []) :
    Homes worker d' keys := by
  refine ⟨fun hne key => ?_, fun key => ?_, fun t job hin => ?_, fun t q job hin => ?_⟩
  · have heq := hthreads.resolve_right hne
    rw [context_congr heq]
    exact h.context (heq ▸ hne) key
  · rw [hlog, entered_append, henter, List.append_nil]
    exact h.sent key
  · rw [← mem_entered, hlog, entered_append, henter, List.append_nil, mem_entered] at hin
    rw [hspawned]
    exact h.made t job hin
  · rw [hlog, List.mem_append] at hin
    exact hin.elim (h.own t q job) (htake t q job)

/-- A job is appended with a key. -/
theorem Homes.append (h : Homes worker d keys) (hmem : t < d.pool.spawned)
    (hcontext : d.pool.context key = some t)
    (hpool : d'.pool = d.pool.push t job) (hlog : d'.log = d.log ++ [.enter t job]) :
    Homes worker d' (keys ++ [(key, job)]) := by
  have hworker : worker key = t := by
    have hne : d.pool.threads ≠ [] := (context_isSome key).mp (by rw [hcontext]; rfl)
    rw [h.context hne key] at hcontext
    exact Option.some.inj hcontext
  have hthreads : d'.pool.threads = d.pool.threads := by rw [hpool]; rfl
  refine ⟨fun hne key' => ?_, fun key' => ?_, fun u job' hin => ?_,
    fun u q job' hin => ?_⟩
  · rw [context_congr hthreads]
    exact h.context (hthreads ▸ hne) key'
  · rw [hlog, entered_append, h.sent key', sentTo, sentTo, List.filter_append,
      List.map_append]
    refine congrArg _ ?_
    by_cases heq : t = worker key' <;> simp [entered, hworker, heq]
  · rw [hpool]
    show u < d.pool.spawned
    rw [hlog] at hin
    rcases List.mem_append.mp hin with hin | hin
    · exact h.made u job' hin
    · cases List.mem_singleton.mp hin
      exact hmem
  · rw [hlog] at hin
    rcases List.mem_append.mp hin with hin | hin
    · exact h.own u q job' hin
    · cases List.mem_singleton.mp hin

/-- Threads are made, for which no job has been appended yet. -/
theorem Homes.spawn {size : Nat} (h : Homes worker d keys) (hsize : 0 < size)
    (hpool : d'.pool = d.pool.spawn size) (hlog : d'.log = d.log) :
    Homes (fun key => d.pool.spawned + key % size) d' [] := by
  have hthreads : d'.pool.threads = List.range' d.pool.spawned size := by
    rw [hpool]
    rfl
  refine ⟨fun _ key => ?_, fun key => ?_, fun u job' hin => ?_, ?_⟩
  · have hlt := Nat.mod_lt key hsize
    rw [KeyedThreadPool.context, hthreads, List.length_range',
      if_neg (Nat.ne_of_gt hsize), List.getElem?_range' hlt, Nat.one_mul]
  · rw [hlog]
    refine List.eq_nil_iff_forall_not_mem.mpr fun job hin => ?_
    exact absurd (h.made _ job (mem_entered.mp hin)) (Nat.not_lt.mpr (Nat.le_add_right ..))
  · rw [hpool]
    rw [hlog] at hin
    exact Nat.lt_of_lt_of_le (h.made u job' hin) (Nat.le_add_right ..)
  · rw [hlog]
    exact h.own

/-- **EACH KEY HAS ITS THREAD**. -/
theorem homes (h : Reachable (pool.daemons.record [] noteKey) (d, keys)) :
    ∃ worker, Homes worker d keys := by
  refine h.invariant (I := fun p => ∃ worker, Homes worker p.1 p.2) ?_ ?_
  · rintro ⟨d, keys⟩ ⟨⟨hpool, -, -, -, hlog⟩, hkeys⟩
    have hlog : d.log = [] := hlog
    have hkeys : keys = [] := hkeys
    have hpool : d.pool = .new := hpool
    refine ⟨id, fun hne => absurd ?_ hne, fun key => ?_, fun t job hin => ?_,
      fun t q job hin => ?_⟩
    · rw [hpool]
      rfl
    · rw [hlog, hkeys]
      rfl
    · rw [hlog] at hin
      cases hin
    · rw [hlog] at hin
      cases hin
  · rintro ⟨d, keys⟩ a ⟨d', keys'⟩ hr ⟨worker, ih⟩ ⟨hs, hkeys⟩
    have hs : pool.daemonNext d a = some d' := hs
    have hkeys : keys' = noteKey d a keys := hkeys
    subst hkeys
    have hsound := reachable_sound (AbstractThreadPool.keeps lawful hr.of_record).pool
    cases a with
    | run t =>
        obtain ⟨job, hpool, hlog⟩ := Daemons.run_log hs
        refine ⟨worker, ih.quiet hlog (fun _ => rfl) ?_ (by rw [hpool])
          (.inl (by rw [hpool]))⟩
        intro u q job' hin
        cases List.mem_singleton.mp hin
    | release t =>
        obtain ⟨job, hpool, hlog⟩ := Daemons.release_log hs
        refine ⟨worker, ih.quiet hlog (fun _ => rfl) ?_ (by rw [hpool])
          (.inl (by rw [hpool]))⟩
        intro u q job' hin
        cases List.mem_singleton.mp hin
    | pool a =>
        obtain ⟨hnext, hfollow⟩ := AbstractThreadPool.daemonNext_pool hs
        obtain ⟨-, es, hlog, henter, htake⟩ := Daemons.follow_log hfollow
        have hquiet : (∀ key job, a ≠ .appendJobWithKey key job) →
            (∀ size, a ≠ .initializeSize size) → Homes worker d' keys := by
          intro happend hsize
          have hstill := next_threads hnext hsize
          exact ih.quiet hlog
            (fun q => (henter q).trans (effect_enters happend q))
            (fun t q job hin => effect_take (htake t q job hin)) hstill.1 hstill.2
        cases a with
        | appendJobWithKey key job =>
            obtain ⟨-, t, ht, hpool⟩ := appendJobWithKey_eq hnext
            have hin := context_mem ht
            have heffect : pool.effect d.pool (.appendJobWithKey key job) =
                .append t job := by
              show (match d.pool.context key with
                | some t => Effect.append t job
                | none => .nothing) = _
              rw [ht]
            rw [heffect] at hfollow
            obtain ⟨-, hd⟩ := Option.ite_none_right_eq_some.mp hfollow
            refine ⟨worker, ih.append (hsound.roster.lt (hsound.roster.here t hin)) ht
              hpool ?_⟩
            rw [← Option.some.inj hd]
        | initializeSize size =>
            obtain ⟨hsize, -, -, hpool⟩ := initializeSize_eq hnext
            exact ⟨_, ih.spawn hsize hpool
              (congrArg Daemons.log (Option.some.inj hfollow)).symm⟩
        | requestJob t => exact ⟨worker, hquiet nofun nofun⟩
        | resume t => exact ⟨worker, hquiet nofun nofun⟩
        | stir t => exact ⟨worker, hquiet nofun nofun⟩
        | cancel t => exact ⟨worker, hquiet nofun nofun⟩
        | shutdown w => exact ⟨worker, hquiet nofun nofun⟩
        | joined => exact ⟨worker, hquiet nofun nofun⟩

/-- What is kept of the jobs that were appended since `Initialize`, and settled
    when `Shutdown` has joined the threads. -/
structure Ordered (d : Daemons Nat KeyedThreadPool)
    (keys : List (Nat × ThreadJob)) : Prop where
  oneThread : ∃ worker : Nat → Nat, ∀ key,
    (∀ job, (key, job) ∈ keys → .enter (worker key) job ∈ d.log ∧
      ∀ t, .start t job ∈ d.log → t = worker key) ∧
    (started (worker key) d.log).Sublist (sentTo worker keys (worker key))
  oneAtATime : Throughout Alone d.log
  once : ∀ job, times .start job d.log ≤ 1 ∧
    times .take job d.log + times .withdraw job d.log ≤ 1
  settled : ∀ d', pool.daemonNext d (.pool .joined) = some d' →
    ∀ key job, (key, job) ∈ keys → Fate d' job
  awake : ∀ t, d.pool.place t = .waiting → d.pool.pendingJobs t = []

/-- **JOBS OF ONE KEY KEEP THEIR ORDER**: one thread runs them, one at a time, in
    the order in which they were appended, each at most once; a job that is not
    run is purged once, unless its thread was terminated before it ran the job.
    A thread waits only if there is no job for it. -/
theorem keyed_order (h : Reachable (pool.daemons.record [] noteKey) (d, keys)) :
    Ordered d keys := by
  have hd : Reachable pool.daemons d := h.of_record
  have hkeeps := AbstractThreadPool.keeps lawful hd
  obtain ⟨worker, hhomes⟩ := homes h
  have hsent : ∀ key job, (key, job) ∈ keys → .enter (worker key) job ∈ d.log := by
    intro key job hin
    refine mem_entered.mp ?_
    rw [hhomes.sent]
    exact List.mem_map.mpr
      ⟨(key, job), List.mem_filter.mpr ⟨hin, decide_eq_true rfl⟩, rfl⟩
  refine ⟨⟨worker, fun key => ⟨fun job hin => ⟨hsent key job hin, fun t hstart => ?_⟩, ?_⟩⟩,
    one_at_a_time hkeeps.desk, fun job => ?_, fun d' hs key job hin => ?_,
    (reachable_sound hkeeps.pool).quiet⟩
  · -- A thread takes from its own queue, and the job has entered but one.
    have htaken : job ∈ taken t d.log := by
      refine ((List.sublist_append_left _ _).trans
        (started_sublist hkeeps.desk t)).subset ?_
      exact mem_started.mpr hstart
    obtain ⟨q, htake⟩ := mem_taken.mp htaken
    obtain rfl := hhomes.own t q job htake
    exact enter_unique hkeeps.desk (entered_of_take hkeeps.desk htake) (hsent key job hin)
  · rw [← hhomes.sent]
    exact started_sublist_entered id hkeeps.desk hhomes.own (worker key)
  · obtain ⟨henter, htake, hstart, -, -⟩ := at_most_once hkeeps.desk job
    have hlog : (pool.desk d).log = d.log := rfl
    rw [hlog] at henter htake hstart
    omega
  · obtain ⟨hnext, hfollow⟩ := AbstractThreadPool.daemonNext_pool hs
    obtain ⟨hpending, hbusy⟩ := joined_done hkeeps.pool hnext
    refine fate lawful (.next hd hs) hpending hbusy (q := worker key) ?_
    obtain ⟨-, es, hlog, -⟩ := Daemons.follow_log hfollow
    rw [hlog]
    exact List.mem_append_left _ (hsent key job hin)

end Keys

namespace Cut

/-- A job that is to be released. -/
def task : ThreadJob := ⟨0, 0, true⟩

/-- A pool of one thread, which takes the job and is terminated. -/
def acts : List (FlinterThread.Act Act) :=
  [.pool (.initializeSize 1), .pool (.appendJobWithKey 7 task),
    .pool (.requestJob 0), .pool (.shutdown false), .pool (.cancel 0)]

/-- One step of the pool, with the record of the keys. -/
def recordNext (p : Daemons Nat KeyedThreadPool × List (Nat × ThreadJob))
    (a : FlinterThread.Act Act) :
    Option (Daemons Nat KeyedThreadPool × List (Nat × ThreadJob)) :=
  match pool.daemonNext p.1 a with
  | some d => some (d, noteKey p.1 a p.2)
  | none => none

def fresh : Daemons Nat KeyedThreadPool × List (Nat × ThreadJob) :=
  (⟨.new, fun _ => .free, [], ∅, []⟩, [])

/-- Before `Shutdown` has joined the thread. -/
def left : Daemons Nat KeyedThreadPool × List (Nat × ThreadJob) :=
  (acts.foldlM recordNext fresh).get (by decide)

/-- And behind. -/
def done : Daemons Nat KeyedThreadPool :=
  (pool.daemonNext left.1 (.pool .joined)).get (by decide)

theorem step_of_recordNext (a : FlinterThread.Act Act)
    (p p' : Daemons Nat KeyedThreadPool × List (Nat × ThreadJob))
    (hs : recordNext p a = some p') :
    (pool.daemons.record [] noteKey).step p a p' := by
  rw [recordNext] at hs
  split at hs
  next d hd =>
    obtain rfl := Option.some.inj hs
    exact ⟨hd, rfl⟩
  next => cases hs

theorem reachable_left :
    Reachable (pool.daemons.record [] noteKey) (left.1, left.2) := by
  have hfresh : Reachable (pool.daemons.record [] noteKey) fresh :=
    .start ⟨⟨rfl, rfl, rfl, rfl, rfl⟩, rfl⟩
  have hleft : Reachable (pool.daemons.record [] noteKey) left :=
    hfresh.follow (fun a _ p p' hs => step_of_recordNext a p p' hs)
      (Option.some_get _).symm
  exact hleft

theorem next_left : pool.daemonNext left.1 (.pool .joined) = some done :=
  (Option.some_get _).symm

end Cut

/-- Of a job whose thread was terminated before it ran it. -/
theorem keyed_order_one : Ordered Cut.left.1 Cut.left.2 :=
  keyed_order Cut.reachable_left

/-- **A JOB IS NEITHER RUN NOR PURGED**: its thread is terminated in the log line
    before it. -/
theorem keyed_job_lost : ¬∀ d keys d',
    Reachable (pool.daemons.record [] noteKey) (d, keys) →
    pool.daemonNext d (.pool .joined) = some d' →
    ∀ key job, (key, job) ∈ keys →
      times .start job d'.log = 1 ∨ times .withdraw job d'.log = 1 := by
  intro hclaim
  have hjob := hclaim _ _ _ Cut.reachable_left Cut.next_left 7 Cut.task (by decide)
  revert hjob
  decide

end FlinterKeyedThreadPool
