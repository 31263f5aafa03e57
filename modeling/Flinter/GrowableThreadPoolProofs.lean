import Flinter.RunProofs
import Flinter.TallyProofs
import Mathlib.Order.Interval.Finset.Nat

/-! # GrowableThreadPool: threads, jobs and exits

    `AppendJob` spawns `_size` threads where the idle ones would not do for the
    jobs that are pending.  A thread that is done with a job finds out in
    `MaybeShrink` whether too many are idle; then it adds `_size` to `_exits`,
    and joins as many of those that exit.  It counts as idle itself all the
    while.  Who takes the mutex next takes an exit, or a job if there is none.

    `Thread::Thread` throws if `pthread_create` fails.  That leaves `AppendJob`,
    with the job in the queue and the threads that `Spawn` has made by then.

    What happens from one lock to the next unlock or wait is one step.  The two
    condition variables are those of POSIX: `WakeOne` wakes one at least of those
    that wait, and a thread may wake for no reason. -/

namespace FlinterGrowableThreadPool

open Runs Tallies

variable {Job : Type}

/-- Where an `internal::Thread` is: not made yet, about to call `RequestJob` for
    the first time, running a job, in `_job_available.Wait` or woken from it, in
    `MaybeShrink` (`blocked` in `_thread_exited.Wait`), or at its end.  It is
    `terminated` from `Terminate` on. -/
inductive Place (Job : Type) where
  | absent
  | starting
  | running (job : Job) (terminated : Bool)
  | waiting
  | woken
  | reaping (reaped exits : Nat) (blocked : Bool)
  | gone
deriving DecidableEq, Repr

namespace Place

/-- A wake-up; it does nothing to a thread that does not wait. -/
def wake : Place Job → Place Job
  | .waiting => .woken
  | .reaping reaped exits _ => .reaping reaped exits false
  | p => p

/-- Between its creation and its end. -/
def live : Place Job → Nat
  | .absent => 0
  | .gone => 0
  | _ => 1

def runs : Place Job → Nat
  | .running _ _ => 1
  | _ => 0

/-- It is inside `RequestJob`, or will be. -/
def idle : Place Job → Nat
  | .starting => 1
  | .waiting => 1
  | .woken => 1
  | .reaping _ _ _ => 1
  | _ => 0

def waits : Place Job → Nat
  | .waiting => 1
  | _ => 0

/-- A reaping thread in its `Wait`. -/
def stalls : Place Job → Nat
  | .reaping _ _ true => 1
  | _ => 0

/-- About to look for a job or an exit. -/
def looks : Place Job → Nat
  | .starting => 1
  | .woken => 1
  | _ => 0

/-- How many threads it has yet to join. -/
def owed : Place Job → Nat
  | .reaping reaped exits _ => exits - reaped
  | _ => 0

/-- The same, if it is not blocked. -/
def tended : Place Job → Nat
  | .reaping reaped exits false => exits - reaped
  | _ => 0

/-- A reaping thread is not done, and none is terminated. -/
def proper : Place Job → Prop
  | .reaping reaped exits _ => reaped < exits
  | .running _ terminated => terminated = false
  | _ => True

/-- The weights that are tallied. -/
theorem live_eq (p : Place Job) : p.live = p.idle + p.runs := by
  cases p <;> rfl

theorem live_wake (p : Place Job) : p.wake.live = p.live := by
  cases p <;> rfl

theorem runs_wake (p : Place Job) : p.wake.runs = p.runs := by
  cases p <;> rfl

theorem idle_wake (p : Place Job) : p.wake.idle = p.idle := by
  cases p <;> rfl

theorem owed_wake (p : Place Job) : p.wake.owed = p.owed := by
  cases p <;> rfl

theorem proper_wake {p : Place Job} : p.wake.proper ↔ p.proper := by
  cases p <;> rfl

theorem of_idle {p : Place Job} (h : p.idle = 1) : p.live = 1 ∧ p.runs = 0 := by
  cases p <;> first | exact ⟨rfl, rfl⟩ | cases h

theorem waits_eq_one {p : Place Job} (h : p.waits = 1) : p = .waiting := by
  cases p <;> first | rfl | cases h

theorem stalls_eq_one {p : Place Job} (h : p.stalls = 1) :
    ∃ reaped exits, p = .reaping reaped exits true := by
  match p, h with
  | .reaping reaped exits true, _ => exact ⟨reaped, exits, rfl⟩

end Place

/-- `GrowableThreadPool`, the threads that `Shutdown` joins, and where the
    threads are, numbered as they were spawned.  `exits` counts what was added to
    `_exits` and is yet to be taken; `_exits` is that as a `size_t`. -/
structure GrowableThreadPool (Job : Type) where
  exits : Nat
  size : Nat
  initializing : Bool
  threads : Finset Nat
  actives : Finset Nat
  pendingJobs : List Job
  exited : List Nat
  joining : Finset Nat
  spawned : Nat
  place : Nat → Place Job

/-- What a `size_t` has of a number. -/
def sizeT (n : Nat) : Nat := n % 2 ^ 64

/-- Subtraction of `size_t`. -/
def sizeSub (a b : Nat) : Nat := if b ≤ a then a - b else a + 2 ^ 64 - b

namespace GrowableThreadPool

/-- The constructor. -/
def new : GrowableThreadPool Job where
  exits := 0
  size := 0
  initializing := false
  threads := ∅
  actives := ∅
  pendingJobs := []
  exited := []
  joining := ∅
  spawned := 0
  place := fun _ => .absent

/-- `Initialize`. -/
def initializeSize (s : GrowableThreadPool Job) (size : Nat) :
    Option (GrowableThreadPool Job) :=
  if size = 0 ∨ s.initializing = true ∨ s.threads ≠ ∅ then none
  else some { s with size := size }

def setPlace (s : GrowableThreadPool Job) (t : Nat) (p : Place Job) :
    GrowableThreadPool Job :=
  { s with place := Function.update s.place t p }

/-- Those in `_job_available.Wait`. -/
def jobWaiters (s : GrowableThreadPool Job) : Finset Nat :=
  (Finset.range s.spawned).filter fun t => (s.place t).waits = 1

/-- Those in `_thread_exited.Wait`. -/
def exitWaiters (s : GrowableThreadPool Job) : Finset Nat :=
  (Finset.range s.spawned).filter fun t => (s.place t).stalls = 1

/-- `who` wake up. -/
def wakeUp (s : GrowableThreadPool Job) (who : Finset Nat) :
    GrowableThreadPool Job :=
  { s with place := rouse Place.wake who s.place }

-- ── Threads ──────────────────────────────────────────────────────────────────

/-- `TryRequestJob`, and the rest of `RequestJob` or the `Wait` behind it.  A
    thread that was terminated ends there. -/
def tryRequestJob (s : GrowableThreadPool Job) (t : Nat) (terminated : Bool)
    (who : Finset Nat) : Option (GrowableThreadPool Job) :=
  if 0 < sizeT s.exits then
    let s := { s with exits := s.exits - 1 }.setPlace t .gone
    if s.initializing then some s
    else if Wakes s.exitWaiters 1 who then
      some ({ s with
        exited := s.exited ++ [t]
        threads := s.threads.erase t }.wakeUp who)
    else none
  else
    match s.pendingJobs with
    | job :: rest =>
      some ({ s with
        pendingJobs := rest
        actives := insert t s.actives }.setPlace t (.running job false))
    | [] => some (s.setPlace t (if terminated then .gone else .waiting))

/-- The loop of `MaybeShrink` that joins threads, until it is done or waits. -/
def reap (s : GrowableThreadPool Job) (t reaped exits : Nat)
    (who : Finset Nat) : Option (GrowableThreadPool Job) :=
  let joined := min (exits - reaped) s.exited.length
  let s := { s with exited := s.exited.drop joined }
  if reaped + joined = exits then (s.setPlace t .woken).tryRequestJob t false who
  else some (s.setPlace t (.reaping (reaped + joined) exits true))

def idles (s : GrowableThreadPool Job) : Nat :=
  sizeSub (sizeSub (sizeSub s.threads.card s.actives.card) s.pendingJobs.length)
    (sizeT s.exits)

def threshold (s : GrowableThreadPool Job) : Nat :=
  s.size + (s.size / 2 + s.size % 2)

/-- How many threads are to exit. -/
def shrinkBy (s : GrowableThreadPool Job) : Nat :=
  let exits := s.idles / s.size * s.size
  if s.idles % s.size = 0 then sizeSub exits s.size else exits

/-- `MaybeShrink`, where it shrinks, up to its loop. -/
def shrink (s : GrowableThreadPool Job) (t : Nat) (jobs : Finset Nat) :
    GrowableThreadPool Job :=
  ({ s with exits := s.exits + s.shrinkBy }.wakeUp jobs).setPlace t
    (.reaping 0 s.shrinkBy false)

/-- `MaybeShrink` and what `RequestJob` does behind it. -/
def maybeShrink (s : GrowableThreadPool Job) (t : Nat) (terminated : Bool)
    (jobs who : Finset Nat) : Option (GrowableThreadPool Job) :=
  if s.initializing = true ∨ s.idles < s.threshold then
    s.tryRequestJob t terminated who
  else if Wakes s.jobWaiters s.size jobs then
    (s.shrink t jobs).reap t 0 s.shrinkBy who
  else none

/-- `RequestJob` up to `MaybeShrink`. -/
def enter (s : GrowableThreadPool Job) (t : Nat) : GrowableThreadPool Job :=
  { s with actives := s.actives.erase t }.setPlace t .woken

/-- `RequestJob` of a new thread, or of one that is done with its job; `jobs` and
    `who` are those that its wake-ups wake. -/
def requestJob (s : GrowableThreadPool Job) (t : Nat) (jobs who : Finset Nat) :
    Option (GrowableThreadPool Job) :=
  match s.place t with
  | .starting => (s.enter t).maybeShrink t false jobs who
  | .running _ terminated => (s.enter t).maybeShrink t terminated jobs who
  | _ => none

/-- A thread that was woken has the mutex again. -/
def resume (s : GrowableThreadPool Job) (t : Nat) (who : Finset Nat) :
    Option (GrowableThreadPool Job) :=
  match s.place t with
  | .woken => s.tryRequestJob t false who
  | .reaping reaped exits false => s.reap t reaped exits who
  | _ => none

/-- A thread wakes for no reason. -/
def stir (s : GrowableThreadPool Job) (t : Nat) : Option (GrowableThreadPool Job) :=
  if (s.place t).waits = 1 ∨ (s.place t).stalls = 1 then some (s.wakeUp {t})
  else none

/-- A terminated thread ends in its job. -/
def cancel (s : GrowableThreadPool Job) (t : Nat) :
    Option (GrowableThreadPool Job) :=
  match s.place t with
  | .running _ true => some (s.setPlace t .gone)
  | _ => none

-- ── The pool ─────────────────────────────────────────────────────────────────

/-- The loop of `Spawn` has made `size` threads. -/
def spawn (s : GrowableThreadPool Job) (size : Nat) : GrowableThreadPool Job :=
  { s with
    threads := s.threads ∪ Finset.Ico s.spawned (s.spawned + size)
    spawned := s.spawned + size
    place := fun t =>
      if s.spawned ≤ t ∧ t < s.spawned + size then .starting else s.place t }

/-- `AppendJob` has put the job, and done nothing else. -/
def push (s : GrowableThreadPool Job) (job : Job) : GrowableThreadPool Job :=
  { s with pendingJobs := s.pendingJobs ++ [job] }

/-- Too few threads are idle for the jobs. -/
def short (s : GrowableThreadPool Job) : Prop :=
  sizeSub (sizeSub s.threads.card s.actives.card) (sizeT s.exits) <
    s.pendingJobs.length

instance (s : GrowableThreadPool Job) : Decidable s.short :=
  inferInstanceAs (Decidable (_ < _))

/-- `AppendJob` that succeeds.  The size of a set is a `size_t`. -/
def appendJob (s : GrowableThreadPool Job) (job : Job) (who : Finset Nat) :
    Option (GrowableThreadPool Job) :=
  if s.initializing then none
  else
    let s := s.push job
    let s := if s.short then s.spawn s.size else s
    if s.threads.card < 2 ^ 64 ∧ Wakes s.jobWaiters 1 who then some (s.wakeUp who)
    else none

/-- `AppendJob` that throws: `pthread_create` fails when `Spawn` has made `made`
    threads.  Nobody is woken, and the job is left in `_pending_jobs`. -/
def appendJobThrows (s : GrowableThreadPool Job) (job : Job) (made : Nat) :
    Option (GrowableThreadPool Job) :=
  if s.initializing then none
  else
    let s := s.push job
    if s.short ∧ made < s.size ∧ (s.spawn made).threads.card < 2 ^ 64 then
      some (s.spawn made)
    else none

/-- `Thread::Terminate` of a thread that runs a job. -/
def terminate : Place Job → Place Job
  | .running job _ => .running job true
  | p => p

/-- `Shutdown` up to its joins. -/
def shutdown (s : GrowableThreadPool Job) (waitForJobsDone : Bool) :
    Option (GrowableThreadPool Job) :=
  if s.initializing = true ∨ s.threads = ∅ then none
  else
    let exits := s.threads.card
    some ({ s with
      pendingJobs := []
      exits := if waitForJobsDone then exits else sizeSub exits s.actives.card
      actives := ∅
      threads := ∅
      joining := s.threads
      initializing := true
      place := fun t =>
        if !waitForJobsDone && decide (t ∈ s.actives) then terminate (s.place t)
        else s.place t }.wakeUp s.jobWaiters)

/-- `Shutdown` has joined its threads. -/
def joined (s : GrowableThreadPool Job) : Option (GrowableThreadPool Job) :=
  if s.initializing = true ∧ ∀ t ∈ s.joining, (s.place t).live = 0 then
    some { s with joining := ∅, initializing := false }
  else none

end GrowableThreadPool

/-- What happens next. -/
inductive Act (Job : Type) where
  | initializeSize (size : Nat)
  | appendJob (job : Job) (who : Finset Nat)
  | appendJobThrows (job : Job) (made : Nat)
  | requestJob (t : Nat) (jobs who : Finset Nat)
  | resume (t : Nat) (who : Finset Nat)
  | stir (t : Nat)
  | cancel (t : Nat)
  | shutdown (waitForJobsDone : Bool)
  | joined

/-- One step, if it can be taken. -/
def next (s : GrowableThreadPool Job) : Act Job → Option (GrowableThreadPool Job)
  | .initializeSize size => s.initializeSize size
  | .appendJob job who => s.appendJob job who
  | .appendJobThrows job made => s.appendJobThrows job made
  | .requestJob t jobs who => s.requestJob t jobs who
  | .resume t who => s.resume t who
  | .stir t => s.stir t
  | .cancel t => s.cancel t
  | .shutdown waitForJobsDone => s.shutdown waitForJobsDone
  | .joined => s.joined

/-- A pool from its first `Initialize` on. -/
def pool (Job : Type) : System (GrowableThreadPool Job) (Act Job) where
  init := fun s => ∃ size, GrowableThreadPool.new.initializeSize size = some s
  step := fun s a s' => next s a = some s'

/-- Before `Shutdown`. -/
def Early (_ : GrowableThreadPool Job) : Act Job → Prop
  | .shutdown _ => False
  | _ => True

/-- Before `Shutdown`, as long as `AppendJob` throws no exception. -/
def Open (_ : GrowableThreadPool Job) : Act Job → Prop
  | .shutdown _ => False
  | .appendJobThrows _ _ => False
  | _ => True

instance (s : GrowableThreadPool Job) : DecidablePred (Open s)
  | .shutdown _ | .appendJobThrows _ _ => .isFalse id
  | .initializeSize _ | .appendJob _ _ | .requestJob _ _ _ | .resume _ _
  | .stir _ | .cancel _ | .joined => .isTrue trivial

-- ── Tallies ──────────────────────────────────────────────────────────────────

variable {s s' : GrowableThreadPool Job} {t reaped exits : Nat}
variable {p q : Place Job} {place : Nat → Place Job} {who jobs : Finset Nat}
variable {w : Place Job → Nat}

/-- The weights of the places of all threads. -/
def GrowableThreadPool.tally (s : GrowableThreadPool Job)
    (w : Place Job → Nat) : Nat :=
  total w s.spawned s.place

/-- What a move does to the tallies that the balance is about. -/
structure Shift (s s' : GrowableThreadPool Job) (p q : Place Job) : Prop where
  idle : s'.tally Place.idle + p.idle = s.tally Place.idle + q.idle
  looks : s'.tally Place.looks + p.looks = s.tally Place.looks + q.looks
  waits : s'.tally Place.waits + p.waits = s.tally Place.waits + q.waits
  owed : s'.tally Place.owed + p.owed = s.tally Place.owed + q.owed
  tended : s'.tally Place.tended + p.tended = s.tally Place.tended + q.tended

theorem tally_move {u : GrowableThreadPool Job} (ht : t < s.spawned)
    (hspawned : u.spawned = s.spawned)
    (hplace : u.place = Function.update s.place t q) (w : Place Job → Nat) :
    u.tally w + w (s.place t) = s.tally w + w q := by
  rw [GrowableThreadPool.tally, hspawned, hplace]
  exact total_update ht

theorem shift {u : GrowableThreadPool Job} (ht : t < s.spawned)
    (hp : s.place t = p) (hspawned : u.spawned = s.spawned)
    (hplace : u.place = Function.update s.place t q) : Shift s u p q := by
  have hmove := tally_move ht hspawned hplace
  rw [hp] at hmove
  exact ⟨hmove _, hmove _, hmove _, hmove _, hmove _⟩

theorem GrowableThreadPool.mem_jobWaiters :
    t ∈ s.jobWaiters ↔ t < s.spawned ∧ (s.place t).waits = 1 := by
  rw [jobWaiters, Finset.mem_filter, Finset.mem_range]

theorem GrowableThreadPool.mem_exitWaiters :
    t ∈ s.exitWaiters ↔ t < s.spawned ∧ (s.place t).stalls = 1 := by
  rw [exitWaiters, Finset.mem_filter, Finset.mem_range]

theorem GrowableThreadPool.card_jobWaiters :
    s.jobWaiters.card = s.tally Place.waits := by
  refine card_eq_total (fun _ => mem_jobWaiters) fun p => ?_
  cases p <;> simp only [Place.waits, Nat.zero_le, Nat.le_refl]

theorem tally_idle_wakeUp (s : GrowableThreadPool Job) (who : Finset Nat) :
    (s.wakeUp who).tally Place.idle = s.tally Place.idle :=
  total_rouse fun _ _ => Place.idle_wake _

theorem tally_owed_wakeUp (s : GrowableThreadPool Job) (who : Finset Nat) :
    (s.wakeUp who).tally Place.owed = s.tally Place.owed :=
  total_rouse fun _ _ => Place.owed_wake _

/-- Those that wait for jobs are woken. -/
theorem tally_wakeUp_jobs (hwho : who ⊆ s.jobWaiters) :
    s.tally Place.looks + who.card ≤ (s.wakeUp who).tally Place.looks ∧
      (s.wakeUp who).tally Place.waits + who.card = s.tally Place.waits ∧
      (s.wakeUp who).tally Place.tended = s.tally Place.tended := by
  have hlt : ∀ t ∈ who, t < s.spawned := fun t ht =>
    (GrowableThreadPool.mem_jobWaiters.mp (hwho ht)).1
  have hplace : ∀ t ∈ who, s.place t = .waiting := fun t ht =>
    Place.waits_eq_one (GrowableThreadPool.mem_jobWaiters.mp (hwho ht)).2
  refine ⟨le_total_rouse hlt fun t ht => ?_, total_rouse_lose hlt fun t ht => ?_,
    total_rouse fun t ht => ?_⟩
  · rw [hplace t ht]; exact Nat.le_refl _
  · rw [hplace t ht]; rfl
  · rw [hplace t ht]; rfl

/-- Those that wait for exits are woken. -/
theorem tally_wakeUp_exits (hwho : who ⊆ s.exitWaiters)
    (hproper : ∀ t, (s.place t).proper) :
    (s.wakeUp who).tally Place.looks = s.tally Place.looks ∧
      (s.wakeUp who).tally Place.waits = s.tally Place.waits ∧
      s.tally Place.tended + who.card ≤ (s.wakeUp who).tally Place.tended := by
  have hlt : ∀ t ∈ who, t < s.spawned := fun t ht =>
    (GrowableThreadPool.mem_exitWaiters.mp (hwho ht)).1
  have hplace : ∀ t ∈ who, ∃ reaped exits,
      s.place t = .reaping reaped exits true ∧ reaped < exits := by
    intro t ht
    obtain ⟨reaped, exits, hp⟩ := Place.stalls_eq_one
      (GrowableThreadPool.mem_exitWaiters.mp (hwho ht)).2
    refine ⟨reaped, exits, hp, ?_⟩
    have h := hproper t
    rw [hp] at h
    exact h
  refine ⟨total_rouse fun t ht => ?_, total_rouse fun t ht => ?_,
    le_total_rouse hlt fun t ht => ?_⟩
  · obtain ⟨reaped, exits, hp, -⟩ := hplace t ht
    rw [hp]; rfl
  · obtain ⟨reaped, exits, hp, -⟩ := hplace t ht
    rw [hp]; rfl
  · obtain ⟨reaped, exits, hp, hlt⟩ := hplace t ht
    rw [hp]
    show 0 + 1 ≤ exits - reaped
    omega

-- ── Threads and their places ─────────────────────────────────────────────────

/-- The sets are those of the places, and nothing is shut down. -/
structure Sound (s : GrowableThreadPool Job) : Prop where
  size_pos : 0 < s.size
  is_open : s.initializing = false
  fresh : ∀ t, s.spawned ≤ t → s.place t = .absent
  threads : ∀ t, t ∈ s.threads ↔ (s.place t).live = 1
  actives : ∀ t, t ∈ s.actives ↔ (s.place t).runs = 1
  proper : ∀ t, (s.place t).proper
  room : s.threads.card < 2 ^ 64

/-- A thread that is somewhere has been spawned. -/
theorem Sound.lt (h : Sound s) (hp : s.place t ≠ .absent) : t < s.spawned := by
  by_contra hge
  exact hp (h.fresh t (Nat.le_of_not_lt hge))

/-- A thread that reaps is not done. -/
theorem Sound.reaping_lt {blocked : Bool} (h : Sound s)
    (hp : s.place t = .reaping reaped exits blocked) : reaped < exits := by
  have hproper := h.proper t
  rw [hp] at hproper
  exact hproper

/-- Before `Shutdown` no thread is terminated. -/
theorem Sound.not_terminated {job : Job} {terminated : Bool} (h : Sound s)
    (hp : s.place t = .running job terminated) : terminated = false := by
  have hproper := h.proper t
  rw [hp] at hproper
  exact hproper

/-- A thread moves, and the sets follow. -/
theorem Sound.moved (h : Sound s) (ht : t < s.spawned) (hp : p.proper)
    {threads' actives' : Finset Nat} (hsub : threads' ⊆ s.threads)
    (hthreads : ∀ u, u ∈ threads' ↔ if u = t then p.live = 1 else u ∈ s.threads)
    (hactives : ∀ u, u ∈ actives' ↔ if u = t then p.runs = 1 else u ∈ s.actives)
    {exits : Nat} {pending : List Job} {exited : List Nat} :
    Sound { s with
      exits := exits
      threads := threads'
      actives := actives'
      pendingJobs := pending
      exited := exited
      place := Function.update s.place t p } := by
  refine ⟨h.size_pos, h.is_open, ?_, ?_, ?_, ?_,
    Nat.lt_of_le_of_lt (Finset.card_le_card hsub) h.room⟩
  · intro u hu
    have hne : u ≠ t := fun heq => by subst heq; exact absurd ht (Nat.not_lt.mpr hu)
    show Function.update s.place t p u = .absent
    rw [Function.update_of_ne hne]
    exact h.fresh u hu
  · intro u
    rw [hthreads]
    show _ ↔ (Function.update s.place t p u).live = 1
    split
    next heq => rw [heq, Function.update_self]
    next hne => rw [Function.update_of_ne hne]; exact h.threads u
  · intro u
    rw [hactives]
    show _ ↔ (Function.update s.place t p u).runs = 1
    split
    next heq => rw [heq, Function.update_self]
    next hne => rw [Function.update_of_ne hne]; exact h.actives u
  · intro u
    show (Function.update s.place t p u).proper
    by_cases heq : u = t
    · rw [heq, Function.update_self]; exact hp
    · rw [Function.update_of_ne heq]; exact h.proper u

/-- A thread that is idle moves and is idle still. -/
theorem Sound.stays (h : Sound s) (hp : (s.place t).idle = 1) (hq : q.idle = 1)
    (hproper : q.proper) {exits : Nat} {pending : List Job} {exited : List Nat} :
    Sound { s with
      exits := exits
      pendingJobs := pending
      exited := exited
      place := Function.update s.place t q } := by
  have ht : t < s.spawned := h.lt fun heq => by rw [heq] at hp; cases hp
  obtain ⟨hlive, hruns⟩ := Place.of_idle hp
  obtain ⟨hlive', hruns'⟩ := Place.of_idle hq
  refine h.moved ht hproper (Finset.Subset.refl _) (fun u => ?_) fun u => ?_
  · split
    next heq =>
      rw [heq, h.threads]
      exact ⟨fun _ => hlive', fun _ => hlive⟩
    next => exact Iff.rfl
  · split
    next heq =>
      rw [heq, h.actives, hruns, hruns']
    next => exact Iff.rfl

theorem wakeUp_place (s : GrowableThreadPool Job) (who : Finset Nat) (u : Nat) :
    (s.wakeUp who).place u = (s.place u).wake ∨
      (s.wakeUp who).place u = s.place u := by
  show (if u ∈ who then _ else _) = _ ∨ (if u ∈ who then _ else _) = _
  by_cases hu : u ∈ who
  · exact .inl (if_pos hu)
  · exact .inr (if_neg hu)

/-- The threads that wake stay in their sets. -/
theorem Sound.wakeUp (h : Sound s) : Sound (s.wakeUp who) := by
  have hcases := wakeUp_place s who
  refine ⟨h.size_pos, h.is_open, ?_, ?_, ?_, ?_, h.room⟩
  · intro u hu
    rcases hcases u with heq | heq
    · rw [heq, h.fresh u hu]; rfl
    · rw [heq, h.fresh u hu]
  · intro u
    rcases hcases u with heq | heq
    · rw [heq, Place.live_wake]; exact h.threads u
    · rw [heq]; exact h.threads u
  · intro u
    rcases hcases u with heq | heq
    · rw [heq, Place.runs_wake]; exact h.actives u
    · rw [heq]; exact h.actives u
  · intro u
    rcases hcases u with heq | heq
    · rw [heq, Place.proper_wake]; exact h.proper u
    · rw [heq]; exact h.proper u

theorem Sound.card_actives (h : Sound s) :
    s.actives.card = s.tally Place.runs := by
  refine card_eq_total (fun t => ?_) fun p => ?_
  · rw [h.actives]
    refine ⟨fun ht => ⟨h.lt fun hp => ?_, ht⟩, fun ht => ht.2⟩
    rw [hp] at ht
    cases ht
  · cases p <;> simp only [Place.runs, Nat.zero_le, Nat.le_refl]

/-- `_threads` has those that are inside `RequestJob`, and `_actives`. -/
theorem Sound.card_threads (h : Sound s) :
    s.threads.card = s.tally Place.idle + s.actives.card := by
  have hthreads : s.threads.card = s.tally Place.live := by
    refine card_eq_total (fun t => ?_) fun p => ?_
    · rw [h.threads]
      refine ⟨fun ht => ⟨h.lt fun hp => ?_, ht⟩, fun ht => ht.2⟩
      rw [hp] at ht
      cases ht
    · cases p <;> simp only [Place.live, Nat.zero_le, Nat.le_refl]
  rw [hthreads, h.card_actives, GrowableThreadPool.tally, GrowableThreadPool.tally,
    GrowableThreadPool.tally, ← total_add]
  exact total_congr fun t _ => Place.live_eq _

end FlinterGrowableThreadPool
