import Flinter.RunProofs
import Mathlib.Data.List.Nodup
import Mathlib.Data.List.TakeWhile

/-! # EasyServer: Initialize that fails

    `Initialize` makes the workers one after another, and hands them to the pool
    at its end.  The pool deletes what it was handed, and nothing else deletes a
    worker.  Where a step fails `DoShutdown` is called, which asks the workers
    to quit, waits for the pool, and forgets the workers.

    So the worker of the step that failed, which the pool never had, is lost
    whatever the step was.  Before the queues of the job workers are made
    `DoShutdown` does not get that far, if there is to be a job worker: it
    appends a null job for each to the queue it does not have.

    What fails is up to `Outcome`, and how many jobs the threads of the pool
    have taken by the time it is shut down. -/

namespace FlinterEasyServerInit

open Runs

/-- `EasyServer::kMaximumWorkers` and `kMaximumSlots`. -/
def kMaximumWorkers : Nat := 16384
def kMaximumSlots : Nat := 128

/-- What `explode_lists` makes of a specification, if it is one: a list of CPUs
    for each thread. -/
abbrev Affinities := Option (List (List Nat))

/-- A job of the user, or a null pointer. -/
abbrev Job := Option Nat

-- ── The pool ─────────────────────────────────────────────────────────────────

/-- `FixedThreadPool`: its threads, and what it was handed, by address. -/
structure FixedThreadPool where
  threads : Nat
  jobs : List Nat
deriving DecidableEq, Repr

namespace FixedThreadPool

/-- `FixedThreadPool::Initialize`. -/
def initializeSize (pool : FixedThreadPool) (size : Nat) : Option FixedThreadPool :=
  if size = 0 ∨ pool.threads ≠ 0 then none else some { pool with threads := size }

/-- `FixedThreadPool::AppendJob` of one after another, until one fails. -/
def appendJobs (pool : FixedThreadPool) (appends : Nat → Bool)
    (jobs : List Nat) : FixedThreadPool :=
  { pool with jobs := pool.jobs ++ jobs.takeWhile appends }

/-- `FixedThreadPool::Shutdown` with the first jobs taken by threads: the others
    are purged, these are deleted when they end.  None if one does not end. -/
def shutdown (pool : FixedThreadPool) (taken : Nat) (ends : Nat → Bool) :
    Option (FixedThreadPool × List Nat) :=
  if pool.threads = 0 then some (pool, [])
  else if (pool.jobs.take taken).all ends then
    some (⟨0, []⟩, pool.jobs.drop taken ++ pool.jobs.take taken)
  else none

end FixedThreadPool

-- ── The server ───────────────────────────────────────────────────────────────

/-- `EasyServer`: the workers are addresses, `made` counts those that were made
    so far, `destroyed` are those deleted. -/
structure EasyServer where
  pool : FixedThreadPool
  listeners : Nat
  timers : List Nat
  jobs : List Job
  hashjobs : List (List Job)
  workers : Nat
  slots : Nat
  ioWorkers : List Nat
  jobWorkers : List Nat
  ioContext : Nat
  made : Nat
  destroyed : List Nat
deriving DecidableEq, Repr

/-- What a call that may not return comes to. -/
inductive Result where
  | crashed
  | stuck
  | returned (ok : Bool) (s : EasyServer)
deriving DecidableEq, Repr

/-- How the steps of an `Initialize` turn out: `Attach` of a listener to a
    worker, `RegisterTimer`, `AppendJob` of a worker; and what the threads have
    `taken` if it fails. -/
structure Outcome where
  attaches : Nat → Nat → Bool
  registers : Nat → Bool
  appends : Nat → Bool
  taken : Nat

namespace EasyServer

/-- `EasyServer::EasyServer`. -/
def fresh : EasyServer where
  pool := ⟨0, []⟩
  listeners := 0
  timers := []
  jobs := []
  hashjobs := []
  workers := 0
  slots := 0
  ioWorkers := []
  jobWorkers := []
  ioContext := 0
  made := 0
  destroyed := []

/-- `EasyServer::Listen` that succeeds. -/
def listen (s : EasyServer) : Option EasyServer :=
  if s.ioWorkers = [] then some { s with listeners := s.listeners + 1 } else none

/-- `EasyServer::RegisterTimer` before `Initialize`. -/
def registerTimer (s : EasyServer) (timer : Nat) : Option EasyServer :=
  if s.ioWorkers = [] then some { s with timers := s.timers ++ [timer] } else none

/-- `EasyServer::DoAppendJob`.  None if the assertion fails, or the division by
    zero behind it. -/
def doAppendJob (s : EasyServer) (job : Job) (hash : Int) : Option EasyServer :=
  if hash < 0 then some { s with jobs := s.jobs ++ [job] }
  else if s.hashjobs = [] then none
  else
    let i := hash.toNat % s.hashjobs.length
    some { s with hashjobs := s.hashjobs.modify i (· ++ [job]) }

/-- `EasyServer::QueueOrExecuteJob` of a job that is queued. -/
def queueJob (s : EasyServer) (job : Nat) (hash : Int) : Option EasyServer :=
  if s.workers ≠ 0 then s.doAppendJob (some job) hash else none

/-- `EasyServer::DoDumpJobs`. -/
def doDumpJobs (s : EasyServer) : EasyServer :=
  { s with jobs := [], hashjobs := s.hashjobs.map fun _ => [] }

/-- A worker ends: an I/O worker that was asked to quit, and a job worker with a
    null pointer in its queue. -/
def ends (s : EasyServer) (worker : Nat) : Bool :=
  s.ioWorkers.contains worker ||
    (s.jobWorkers.zip s.hashjobs).any fun p => p.1 == worker && p.2.contains none

/-- The end of `EasyServer::DoShutdown`. -/
def clear (s : EasyServer) : EasyServer :=
  { s.doDumpJobs with
    listeners := 0, timers := [], hashjobs := [], workers := 0, slots := 0,
    ioWorkers := [], jobWorkers := [], ioContext := 0 }

/-- `EasyServer::DoShutdown`. -/
def doShutdown (s : EasyServer) (taken : Nat) (ok : Bool) : Result :=
  match (List.range s.workers).foldlM (fun s i => s.doAppendJob none i)
      s.doDumpJobs with
  | none => .crashed
  | some s =>
    -- All I/O workers are asked to quit here.
    match s.pool.shutdown taken s.ends with
    | none => .stuck
    | some (pool, deleted) =>
      .returned ok { s.clear with pool := pool, destroyed := s.destroyed ++ deleted }

/-- `EasyServer::AttachListeners`. -/
def attachListeners (s : EasyServer) (o : Outcome) (worker : Nat) : Bool :=
  (List.range s.listeners).all (o.attaches worker)

/-- The loop of `Initialize` that makes the I/O workers. -/
def makeIoWorkers (o : Outcome) : List (List Nat) → EasyServer → EasyServer × Bool
  | [], s => (s, true)
  | _ :: as, s =>
    let worker := s.made
    let s := { s with ioWorkers := s.ioWorkers ++ [worker], made := s.made + 1 }
    if s.attachListeners o worker then makeIoWorkers o as s else (s, false)

/-- What lies between the timers and the pool. -/
def makeJobWorkers (s : EasyServer) (as aw : List (List Nat)) : EasyServer :=
  { s with
    ioContext := s.ioContext + as.length
    jobWorkers := s.jobWorkers ++ (List.range aw.length).map (s.made + ·)
    made := s.made + aw.length
    -- `resize`.
    hashjobs := (s.hashjobs ++
      List.replicate (aw.length - s.hashjobs.length) []).take aw.length }

/-- The two loops that hand the workers to the pool. -/
def appendWorkers (s : EasyServer) (o : Outcome) : EasyServer × Bool :=
  let s := { s with pool := s.pool.appendJobs o.appends s.ioWorkers }
  if ¬s.ioWorkers.all o.appends then (s, false)
  else
    ({ s with pool := s.pool.appendJobs o.appends s.jobWorkers },
      s.jobWorkers.all o.appends)

/-- The parameters of `Initialize`, if they are right. -/
def parameters (slots workers : Affinities) :
    Option (List (List Nat) × List (List Nat)) :=
  match slots, workers with
  | some as, some aw =>
    if as = [] ∨ as.length > kMaximumSlots ∨ aw.length > kMaximumWorkers then none
    else some (as, aw)
  | _, _ => none

/-- The loop of `Initialize` that registers the timers. -/
def registerTimers (s : EasyServer) (o : Outcome) : EasyServer × Bool :=
  let timers := s.timers.dropWhile o.registers
  ({ s with timers := timers }, timers.isEmpty)

/-- `EasyServer::Initialize` behind `_pool->Initialize`, up to where it fails. -/
def prepare (s : EasyServer) (as aw : List (List Nat)) (o : Outcome) :
    EasyServer × Bool :=
  match makeIoWorkers o as
      { s with workers := aw.length, slots := as.length } with
  | (s, false) => (s, false)
  | (s, true) =>
    match s.registerTimers o with
    | (s, false) => (s, false)
    | (s, true) => (s.makeJobWorkers as aw).appendWorkers o

/-- Wherever it fails, `DoShutdown` is called. -/
def initializeWorkers (s : EasyServer) (as aw : List (List Nat)) (o : Outcome) :
    Result :=
  let r := s.prepare as aw o
  if r.2 then .returned true r.1 else r.1.doShutdown o.taken false

/-- `EasyServer::Initialize`; `workers` is `some []` where there are to be none. -/
def initializeAs (s : EasyServer) (slots workers : Affinities) (o : Outcome) :
    Result :=
  match parameters slots workers with
  | none => .returned false s
  | some (as, aw) =>
    match s.pool.initializeSize (as.length + aw.length) with
    | none => .returned false s
    | some pool => { s with pool := pool }.initializeWorkers as aw o

end EasyServer

/-- What can happen next. -/
inductive Action where
  | listen
  | registerTimer (timer : Nat)
  | initializeAs (slots workers : Affinities) (o : Outcome)
  | queueJob (job : Nat) (hash : Int)
  | shutdown (taken : Nat)

/-- The state behind a call that returns. -/
def Result.state : Result → Option EasyServer
  | .returned _ s => some s
  | _ => none

/-- One step, if it is taken and returns. -/
def next (s : EasyServer) : Action → Option EasyServer
  | .listen => s.listen
  | .registerTimer timer => s.registerTimer timer
  | .initializeAs slots workers o => (s.initializeAs slots workers o).state
  | .queueJob job hash => s.queueJob job hash
  | .shutdown taken => (s.doShutdown taken true).state

/-- The runs of a server from its construction. -/
def server : System EasyServer Action where
  init := fun s => s = .fresh
  step := fun s a s' => next s a = some s'

-- ── What is promised ─────────────────────────────────────────────────────────

/-- Initialisation returns false, with every worker that it made deleted once,
    no thread left, and a server that can be initialised. -/
def Clean (s : EasyServer) (r : Result) : Prop :=
  ∃ s', r = .returned false s' ∧
    (∀ worker, s.made ≤ worker → worker < s'.made →
      s'.destroyed.count worker = 1) ∧
    s'.pool.threads = 0 ∧
    ∀ slots workers, (EasyServer.parameters slots workers).isSome = true →
      ∃ o s'', s'.initializeAs slots workers o = .returned true s''

-- ── What a step has done ─────────────────────────────────────────────────────

variable {s s' : EasyServer} {o : Outcome} {as aw : List (List Nat)}
variable {slots workers : Affinities} {taken : Nat} {ok : Bool}

/-- Jobs are appended to the queues and to nothing else. -/
theorem clear_doAppendJob {job : Job} {hash : Int}
    (h : s.doAppendJob job hash = some s') :
    s'.clear = s.clear ∧ s'.pool = s.pool ∧ s'.destroyed = s.destroyed := by
  rw [EasyServer.doAppendJob] at h
  split at h
  · obtain rfl := Option.some.inj h
    exact ⟨rfl, rfl, rfl⟩
  split at h
  · cases h
  · obtain rfl := Option.some.inj h
    exact ⟨rfl, rfl, rfl⟩

theorem clear_doAppendJobs {hashes : List Nat}
    (h : hashes.foldlM (fun s (i : Nat) => s.doAppendJob none i) s = some s') :
    s'.clear = s.clear ∧ s'.pool = s.pool ∧ s'.destroyed = s.destroyed := by
  induction hashes generalizing s with
  | nil =>
      obtain rfl := Option.some.inj h
      exact ⟨rfl, rfl, rfl⟩
  | cons i hashes ih =>
      rw [List.foldlM_cons, Option.bind_eq_bind] at h
      obtain ⟨s₁, h₁, h⟩ := Option.bind_eq_some_iff.mp h
      obtain ⟨hclear₁, hpool₁, hdestroyed₁⟩ := clear_doAppendJob h₁
      obtain ⟨hclear, hpool, hdestroyed⟩ := ih h
      exact ⟨hclear.trans hclear₁, hpool.trans hpool₁,
        hdestroyed.trans hdestroyed₁⟩

/-- What the pool deletes is what it was handed. -/
theorem pool_shutdown {pool pool' : FixedThreadPool} {ends : Nat → Bool}
    {deleted : List Nat} (h : pool.shutdown taken ends = some (pool', deleted)) :
    (∀ worker ∈ deleted, worker ∈ pool.jobs) ∧
      (pool.threads = 0 ∧ pool' = pool ∨ pool' = ⟨0, []⟩) := by
  rw [FixedThreadPool.shutdown] at h
  split at h
  next hzero =>
    cases h
    exact ⟨fun worker hw => (by cases hw), .inl ⟨hzero, rfl⟩⟩
  · obtain ⟨-, ⟨⟩⟩ := Option.ite_none_right_eq_some.mp h
    refine ⟨fun worker hw => ?_, .inr rfl⟩
    rcases List.mem_append.mp hw with hw | hw
    · exact List.mem_of_mem_drop hw
    · exact List.mem_of_mem_take hw

/-- **WHAT DOSHUTDOWN LEAVES**: the workers that the pool had are deleted, and
    none else is. -/
theorem doShutdown_returned {ok' : Bool}
    (h : s.doShutdown taken ok = .returned ok' s') :
    ok' = ok ∧ ∃ pool deleted,
      s' = { s.clear with pool := pool, destroyed := s.destroyed ++ deleted } ∧
      (∀ worker ∈ deleted, worker ∈ s.pool.jobs) ∧
      (s.pool.threads = 0 ∧ pool = s.pool ∨ pool = ⟨0, []⟩) := by
  rw [EasyServer.doShutdown] at h
  split at h
  · cases h
  next s₁ h₁ =>
    obtain ⟨hclear, hpool, hdestroyed⟩ := clear_doAppendJobs h₁
    split at h
    · cases h
    next pool deleted hshutdown =>
      obtain ⟨rfl, rfl⟩ := Result.returned.inj h
      obtain ⟨hdeleted, hcases⟩ := pool_shutdown hshutdown
      refine ⟨rfl, pool, deleted, ?_, ?_, ?_⟩
      · rw [hclear, hdestroyed]
        rfl
      · rw [hpool] at hdeleted
        exact hdeleted
      · rw [hpool] at hcases
        exact hcases

/-- A server that has made `n` I/O workers. -/
def EasyServer.withIoWorkers (s : EasyServer) (n : Nat) : EasyServer :=
  { s with
    ioWorkers := s.ioWorkers ++ (List.range' s.made n)
    made := s.made + n }

theorem withIoWorkers_add (s : EasyServer) (m n : Nat) :
    (s.withIoWorkers m).withIoWorkers n = s.withIoWorkers (m + n) := by
  simp only [EasyServer.withIoWorkers, List.append_assoc, Nat.add_assoc,
    List.range'_append_1]

/-- The first loop makes a worker before it can fail. -/
theorem makeIoWorkers_eq (o : Outcome) (as : List (List Nat)) (s : EasyServer) :
    ∃ n, (EasyServer.makeIoWorkers o as s).1 = s.withIoWorkers n ∧
      (as ≠ [] → 0 < n) := by
  induction as generalizing s with
  | nil =>
      refine ⟨0, ?_, fun h => absurd rfl h⟩
      simp [EasyServer.makeIoWorkers, EasyServer.withIoWorkers]
  | cons a as ih =>
      rw [EasyServer.makeIoWorkers]
      split
      · obtain ⟨n, heq, -⟩ := ih (s.withIoWorkers 1)
        refine ⟨1 + n, heq.trans (withIoWorkers_add s 1 n), fun _ => ?_⟩
        omega
      · exact ⟨1, rfl, fun _ => Nat.one_pos⟩

-- ── Where it fails ───────────────────────────────────────────────────────────

/-- Between two calls: what was deleted, and what the pool has, was made; a
    server without threads is as it was constructed. -/
structure Good (s : EasyServer) : Prop where
  destroyed : ∀ worker ∈ s.destroyed, worker < s.made
  held : ∀ worker ∈ s.pool.jobs, worker < s.made
  idle : s.pool.threads = 0 → s.pool.jobs = [] ∧ s.hashjobs = [] ∧
    s.ioWorkers = [] ∧ s.jobWorkers = []

/-- `DoShutdown` of a server with threads. -/
theorem good_doShutdown {ok' : Bool} (hthreads : s.pool.threads ≠ 0)
    (hdestroyed : ∀ worker ∈ s.destroyed, worker < s.made)
    (hheld : ∀ worker ∈ s.pool.jobs, worker < s.made)
    (h : s.doShutdown taken ok = .returned ok' s') :
    Good s' ∧ s'.pool.threads = 0 := by
  obtain ⟨-, pool, deleted, rfl, hdeleted, hcases⟩ := doShutdown_returned h
  obtain rfl : pool = ⟨0, []⟩ := hcases.resolve_left fun hz => hthreads hz.1
  refine ⟨⟨fun worker hw => ?_, fun worker hw => (by cases hw), fun _ =>
    ⟨rfl, rfl, rfl, rfl⟩⟩, rfl⟩
  rcases List.mem_append.mp hw with hw | hw
  · exact hdestroyed worker hw
  · exact hheld worker (hdeleted worker hw)

/-- The pool takes those that do not fail. -/
theorem mem_appendJobs {pool : FixedThreadPool} {appends : Nat → Bool}
    {jobs : List Nat} {worker : Nat}
    (h : worker ∈ (pool.appendJobs appends jobs).jobs) :
    worker ∈ pool.jobs ∨ worker ∈ jobs ∧ appends worker = true := by
  rcases List.mem_append.mp h with h | h
  · exact .inl h
  · exact .inr ⟨(List.takeWhile_prefix _).subset h, List.mem_takeWhile_imp h⟩

/-- What the pool has behind the last two loops, and what it has not. -/
theorem appendWorkers_cases (s : EasyServer) (o : Outcome) :
    ∃ pool, (s.appendWorkers o).1 = { s with pool := pool } ∧
      pool.threads = s.pool.threads ∧
      (∀ worker ∈ pool.jobs, worker ∈ s.pool.jobs ∨
        worker ∈ s.ioWorkers ++ s.jobWorkers ∧ o.appends worker = true) ∧
      ((s.appendWorkers o).2 = false →
        ∃ worker ∈ s.ioWorkers ++ s.jobWorkers, o.appends worker = false) := by
  rw [EasyServer.appendWorkers]
  split
  next hfails =>
    refine ⟨_, rfl, rfl, fun worker hw => ?_, fun _ => ?_⟩
    · refine (mem_appendJobs hw).imp_right fun hw => ?_
      exact ⟨List.mem_append_left _ hw.1, hw.2⟩
    · obtain ⟨worker, hw, happends⟩ :=
        List.all_eq_false.mp (Bool.not_eq_true _ ▸ hfails)
      exact ⟨worker, List.mem_append_left _ hw, Bool.eq_false_iff.mpr happends⟩
  next hok =>
    refine ⟨_, rfl, rfl, fun worker hw => ?_, fun hfails => ?_⟩
    · rcases mem_appendJobs hw with hw | hw
      · refine (mem_appendJobs hw).imp_right fun hw => ?_
        exact ⟨List.mem_append_left _ hw.1, hw.2⟩
      · exact .inr ⟨List.mem_append_right _ hw.1, hw.2⟩
    · obtain ⟨worker, hw, happends⟩ := List.all_eq_false.mp hfails
      exact ⟨worker, List.mem_append_right _ hw, Bool.eq_false_iff.mpr happends⟩

/-- The workers of a server that had none. -/
theorem mem_workers (as aw : List (List Nat)) (n : Nat) (hio : s.ioWorkers = [])
    (hjob : s.jobWorkers = [])
    {worker : Nat} (h : worker ∈ (s.withIoWorkers n).ioWorkers ++
      ((s.withIoWorkers n).makeJobWorkers as aw).jobWorkers) :
    s.made ≤ worker ∧ worker < s.made + n + aw.length := by
  rcases List.mem_append.mp h with h | h
  · rw [EasyServer.withIoWorkers, hio] at h
    have hrange := List.mem_range'_1.mp h
    omega
  · rw [EasyServer.makeJobWorkers, show (s.withIoWorkers n).jobWorkers = [] from hjob]
      at h
    obtain ⟨i, hi, rfl⟩ := List.mem_map.mp h
    have hlt := List.mem_range.mp hi
    have hmade : (s.withIoWorkers n).made = s.made + n := rfl
    omega

/-- **WHERE INITIALIZE ENDS**: with all workers handed to the pool, or with one
    that the pool does not have. -/
theorem prepare_cases (hio : s.ioWorkers = []) (hjob : s.jobWorkers = [])
    (hpool : s.pool.jobs = []) (hthreads : s.pool.threads ≠ 0) (has : as ≠ [])
    {r : EasyServer} (h : s.prepare as aw o = (r, ok)) :
    r.pool.threads ≠ 0 ∧ r.destroyed = s.destroyed ∧ s.made ≤ r.made ∧
    (∀ worker ∈ r.pool.jobs, worker < r.made) ∧
    (ok = false → ∃ worker, s.made ≤ worker ∧ worker < r.made ∧
      worker ∉ r.pool.jobs) := by
  have hempty : ∀ worker, worker ∉ s.pool.jobs := by
    intro worker hw
    rw [hpool] at hw
    cases hw
  obtain ⟨n, heq, hpos⟩ :=
    makeIoWorkers_eq o as { s with workers := aw.length, slots := as.length }
  have hn : 0 < n := hpos has
  rw [EasyServer.prepare] at h
  split at h
  next s₁ h₁ =>
    obtain ⟨rfl, rfl⟩ := Prod.mk.inj h
    rw [h₁] at heq
    obtain rfl := heq
    exact ⟨hthreads, rfl, Nat.le_add_right s.made n,
      fun worker hw => absurd hw (hempty worker), fun _ =>
      ⟨s.made, Nat.le_refl s.made, Nat.lt_add_of_pos_right hn, hempty s.made⟩⟩
  next s₁ h₁ =>
  rw [h₁] at heq
  obtain rfl := heq
  split at h
  next s₂ h₂ =>
    obtain ⟨rfl, -⟩ := Prod.mk.inj h₂
    obtain ⟨rfl, rfl⟩ := Prod.mk.inj h
    exact ⟨hthreads, rfl, Nat.le_add_right s.made n,
      fun worker hw => absurd hw (hempty worker), fun _ =>
      ⟨s.made, Nat.le_refl s.made, Nat.lt_add_of_pos_right hn, hempty s.made⟩⟩
  next s₂ h₂ =>
    obtain ⟨rfl, -⟩ := Prod.mk.inj h₂
    obtain ⟨pool, hr, hrun, hheld, hfails⟩ := appendWorkers_cases _ o
    rw [h] at hr hfails
    obtain rfl := hr
    have hworkers : ∀ worker ∈ pool.jobs,
        worker < s.made + n + aw.length ∧ o.appends worker = true := by
      intro worker hw
      rcases hheld worker hw with hw | ⟨hw, happends⟩
      · exact absurd hw (hempty worker)
      · exact ⟨(mem_workers as aw n hio hjob hw).2, happends⟩
    refine ⟨?_, rfl, ?_, fun worker hw => (hworkers worker hw).1, fun hbad => ?_⟩
    · show pool.threads ≠ 0
      rw [hrun]
      exact hthreads
    · exact Nat.le_trans (Nat.le_add_right s.made n) (Nat.le_add_right _ _)
    · obtain ⟨worker, hw, happends⟩ := hfails hbad
      obtain ⟨hge, hlt⟩ := mem_workers as aw n hio hjob hw
      refine ⟨worker, hge, hlt, fun hin => ?_⟩
      rw [(hworkers worker hin).2] at happends
      cases happends

theorem parameters_ne_nil
    (h : EasyServer.parameters slots workers = some (as, aw)) : as ≠ [] := by
  cases slots with
  | none => cases h
  | some as' =>
      cases workers with
      | none => cases h
      | some aw' =>
          dsimp only [EasyServer.parameters] at h
          split at h
          · cases h
          next hok =>
            obtain ⟨rfl, -⟩ := Prod.mk.inj (Option.some.inj h)
            exact fun hnil => hok (.inl hnil)

/-- `Initialize` of a server without threads. -/
theorem initialize_cases (h : Good s) (hidle : s.pool.threads = 0)
    (hvalid : EasyServer.parameters slots workers = some (as, aw))
    (o : Outcome) : ∃ r, r.pool.threads ≠ 0 ∧ r.destroyed = s.destroyed ∧
      s.made ≤ r.made ∧ (∀ worker ∈ r.pool.jobs, worker < r.made) ∧
      (s.initializeAs slots workers o = .returned true r ∨
        s.initializeAs slots workers o = r.doShutdown o.taken false ∧
          ∃ worker, s.made ≤ worker ∧ worker < r.made ∧
            worker ∉ r.pool.jobs) := by
  obtain ⟨hjobs, -, hio, hjob⟩ := h.idle hidle
  have has : as ≠ [] := parameters_ne_nil hvalid
  have hsize : as.length + aw.length ≠ 0 := by
    have hpos := List.length_pos_iff.mpr has
    omega
  have hinit : s.pool.initializeSize (as.length + aw.length) =
      some { s.pool with threads := as.length + aw.length } := by
    rw [FixedThreadPool.initializeSize, if_neg]
    rintro (hz | hz)
    · exact hsize hz
    · exact hz hidle
  rw [EasyServer.initializeAs, hvalid]
  dsimp only
  rw [hinit]
  dsimp only
  rw [EasyServer.initializeWorkers]
  rcases hprepare : EasyServer.prepare _ as aw o with ⟨r, ok⟩
  obtain ⟨hthreads, hdestroyed, hmade, hheld, hlost⟩ := prepare_cases
    (s := { s with pool := { s.pool with threads := as.length + aw.length } })
    hio hjob hjobs hsize has hprepare
  refine ⟨r, hthreads, hdestroyed, hmade, hheld, ?_⟩
  cases ok with
  | true => exact .inl rfl
  | false => exact .inr ⟨rfl, hlost rfl⟩

/-- A pool with threads is not initialised again. -/
theorem initialize_refused (hthreads : s.pool.threads ≠ 0) (o : Outcome) :
    s.initializeAs slots workers o = .returned false s := by
  rw [EasyServer.initializeAs]
  split
  · rfl
  · rw [FixedThreadPool.initializeSize, if_pos (.inr hthreads)]

-- ── The runs ─────────────────────────────────────────────────────────────────

theorem Good.initializeAs (h : Good s) {r : Bool}
    (hr : s.initializeAs slots workers o = .returned r s') : Good s' := by
  by_cases hidle : s.pool.threads = 0
  · rcases hvalid : EasyServer.parameters slots workers with _ | ⟨as, aw⟩
    · rw [EasyServer.initializeAs, hvalid] at hr
      obtain ⟨-, rfl⟩ := Result.returned.inj hr
      exact h
    · obtain ⟨r, hthreads, hdestroyed, hmade, hheld, heq | ⟨heq, -⟩⟩ :=
        initialize_cases h hidle hvalid o
      · rw [heq] at hr
        obtain ⟨-, rfl⟩ := Result.returned.inj hr
        refine ⟨fun worker hw => ?_, hheld, fun hz => absurd hz hthreads⟩
        rw [hdestroyed] at hw
        exact Nat.lt_of_lt_of_le (h.destroyed worker hw) hmade
      · rw [heq] at hr
        refine (good_doShutdown hthreads (fun worker hw => ?_) hheld hr).1
        rw [hdestroyed] at hw
        exact Nat.lt_of_lt_of_le (h.destroyed worker hw) hmade
  · rw [initialize_refused hidle] at hr
    obtain ⟨-, rfl⟩ := Result.returned.inj hr
    exact h

theorem Good.doAppendJob (h : Good s) {job : Job} {hash : Int}
    (hs : s.doAppendJob job hash = some s') : Good s' := by
  rw [EasyServer.doAppendJob] at hs
  split at hs
  · obtain rfl := Option.some.inj hs
    exact ⟨h.destroyed, h.held, h.idle⟩
  split at hs
  · cases hs
  next hqueues =>
    obtain rfl := Option.some.inj hs
    exact ⟨h.destroyed, h.held, fun hz => absurd (h.idle hz).2.1 hqueues⟩

/-- `Shutdown`, of a server with threads or without. -/
theorem Good.doShutdown (h : Good s) {r : Bool}
    (hr : s.doShutdown taken ok = .returned r s') : Good s' := by
  by_cases hidle : s.pool.threads = 0
  · obtain ⟨-, pool, deleted, rfl, hdeleted, hcases⟩ := doShutdown_returned hr
    obtain ⟨hjobs, -⟩ := h.idle hidle
    rw [hjobs] at hdeleted
    have hpool : pool.jobs = [] := by
      rcases hcases with ⟨-, rfl⟩ | rfl
      · exact hjobs
      · rfl
    refine ⟨fun worker hw => ?_, fun worker hw => ?_, fun _ =>
      ⟨hpool, rfl, rfl, rfl⟩⟩
    · rcases List.mem_append.mp hw with hw | hw
      · exact h.destroyed worker hw
      · cases hdeleted worker hw
    · rw [show pool.jobs = [] from hpool] at hw
      cases hw
  · exact (good_doShutdown hidle h.destroyed h.held hr).1

/-- **THE STEP LEMMA**. -/
theorem Good.next (h : Good s) {a : Action} (hs : next s a = some s') :
    Good s' := by
  cases a with
  | listen =>
      obtain ⟨-, ⟨⟩⟩ := Option.ite_none_right_eq_some.mp hs
      exact ⟨h.destroyed, h.held, h.idle⟩
  | registerTimer timer =>
      obtain ⟨-, ⟨⟩⟩ := Option.ite_none_right_eq_some.mp hs
      exact ⟨h.destroyed, h.held, h.idle⟩
  | initializeAs slots workers o =>
      rcases hr : s.initializeAs slots workers o with _ | _ | ⟨ok, r⟩
      all_goals rw [FlinterEasyServerInit.next, hr] at hs
      all_goals cases hs
      exact h.initializeAs hr
  | queueJob job hash =>
      obtain ⟨-, hs⟩ := Option.ite_none_right_eq_some.mp hs
      exact h.doAppendJob hs
  | shutdown taken =>
      rcases hr : s.doShutdown taken true with _ | _ | ⟨ok, r⟩
      all_goals rw [FlinterEasyServerInit.next, hr] at hs
      all_goals cases hs
      exact h.doShutdown hr

/-- **THE RUN LEMMA**. -/
theorem good_of_reachable (h : Reachable server s) : Good s := by
  refine h.invariant ?_ ?_
  · rintro s rfl
    exact ⟨fun worker hw => (by cases hw), fun worker hw => (by cases hw),
      fun _ => ⟨rfl, rfl, rfl, rfl⟩⟩
  · rintro s a s' - hgood hs
    exact hgood.next hs

/-- **THE MISSING QUEUES**: a null job for a job worker that has none. -/
theorem doShutdown_crashes (hworkers : s.workers ≠ 0) (hqueues : s.hashjobs = []) :
    s.doShutdown taken ok = .crashed := by
  obtain ⟨n, hn⟩ := Nat.exists_eq_succ_of_ne_zero hworkers
  have hnone : s.doDumpJobs.doAppendJob none 0 = none := by
    rw [EasyServer.doAppendJob, if_neg (by decide), if_pos]
    rw [EasyServer.doDumpJobs, hqueues]
    rfl
  rw [EasyServer.doShutdown, hn, List.range_succ_eq_map, List.foldlM_cons]
  rw [show s.doDumpJobs.doAppendJob none ((0 : Nat) : Int) = none from hnone]
  rfl

/-- A listener or a timer fails: the queues are yet to be made. -/
theorem prepare_early (hfails : (EasyServer.makeIoWorkers o as
      { s with workers := aw.length, slots := as.length }).2 = false ∨
      (s.registerTimers o).2 = false) :
    ∃ r, s.prepare as aw o = (r, false) ∧ r.workers = aw.length ∧
      r.hashjobs = s.hashjobs := by
  obtain ⟨n, heq, -⟩ :=
    makeIoWorkers_eq o as { s with workers := aw.length, slots := as.length }
  rw [EasyServer.prepare]
  split
  next s₁ h₁ =>
    rw [h₁] at heq
    obtain rfl := heq
    exact ⟨_, rfl, rfl, rfl⟩
  next s₁ h₁ =>
    rw [h₁] at heq hfails
    obtain rfl := heq
    have htimers := hfails.resolve_left nofun
    split
    next s₂ h₂ =>
      obtain ⟨rfl, -⟩ := Prod.mk.inj h₂
      exact ⟨_, rfl, rfl, rfl⟩
    next s₂ h₂ =>
      obtain ⟨-, htrue⟩ := Prod.mk.inj h₂
      exact absurd (htimers.symm.trans htrue) nofun

/-- Such a step ends in the assertion, if there is to be a job worker. -/
theorem initialize_crashes (h : Good s) (hidle : s.pool.threads = 0)
    (hvalid : EasyServer.parameters slots workers = some (as, aw)) (haw : aw ≠ [])
    (hfails : (EasyServer.makeIoWorkers o as { s with
        pool := { s.pool with threads := as.length + aw.length }
        workers := aw.length
        slots := as.length }).2 = false ∨
      (s.registerTimers o).2 = false) :
    s.initializeAs slots workers o = .crashed := by
  have hcount : aw.length ≠ 0 := by
    rw [Ne, List.length_eq_zero_iff]
    exact haw
  obtain ⟨r, hprepare, hworkers, hqueues⟩ := prepare_early
    (s := { s with pool := { s.pool with threads := as.length + aw.length } })
    hfails
  rw [EasyServer.initializeAs, hvalid]
  dsimp only
  rw [FixedThreadPool.initializeSize, if_neg (by omega)]
  dsimp only
  rw [EasyServer.initializeWorkers, hprepare]
  refine doShutdown_crashes ?_ ?_
  · rw [hworkers]
    exact hcount
  · rw [hqueues]
    exact (h.idle hidle).2.1

/-- Nothing fails. -/
def Outcome.fine : Outcome := ⟨fun _ _ => true, fun _ => true, fun _ => true, 0⟩

theorem makeIoWorkers_fine (as : List (List Nat)) (s : EasyServer) :
    (EasyServer.makeIoWorkers .fine as s).2 = true := by
  induction as generalizing s with
  | nil => rfl
  | cons a as ih =>
      rw [EasyServer.makeIoWorkers]
      split
      · exact ih _
      next hfails => exact absurd (List.all_eq_true.mpr fun _ _ => rfl) hfails

theorem prepare_fine (s : EasyServer) (as aw : List (List Nat)) :
    (s.prepare as aw .fine).2 = true := by
  have hall : ∀ workers : List Nat, workers.all (fun _ => true) = true :=
    fun workers => List.all_eq_true.mpr fun _ _ => rfl
  have hmade := makeIoWorkers_fine as
    { s with workers := aw.length, slots := as.length }
  rw [EasyServer.prepare]
  split
  next s₁ h₁ =>
    rw [h₁] at hmade
    cases hmade
  next s₁ h₁ =>
    have hregistered : (s₁.registerTimers .fine).2 = true :=
      List.isEmpty_iff.mpr (List.dropWhile_eq_nil_iff.mpr fun _ _ => rfl)
    split
    next s₂ h₂ =>
      rw [h₂] at hregistered
      cases hregistered
    next s₂ h₂ =>
      rw [EasyServer.appendWorkers]
      split
      next hfails => exact absurd (hall _) hfails
      · exact hall _

/-- Nothing but a failing step keeps a server without threads from being
    initialised. -/
theorem restarts (hidle : s.pool.threads = 0)
    (hvalid : (EasyServer.parameters slots workers).isSome = true) :
    ∃ o s', s.initializeAs slots workers o = .returned true s' := by
  obtain ⟨⟨as, aw⟩, hparameters⟩ := Option.isSome_iff_exists.mp hvalid
  refine ⟨.fine, ?_⟩
  have has : as.length ≠ 0 := by
    rw [Ne, List.length_eq_zero_iff]
    exact parameters_ne_nil hparameters
  rw [EasyServer.initializeAs, hparameters]
  dsimp only
  rw [FixedThreadPool.initializeSize, if_neg (by omega)]
  dsimp only
  rw [EasyServer.initializeWorkers, if_pos (prepare_fine _ as aw)]
  exact ⟨_, rfl⟩

/-- **A FAILED INITIALIZE**: of a server without threads it is clean only if the
    parameters were wrong.  Whatever fails behind them, a worker is lost. -/
theorem failed_initialize_clean_iff (h : Reachable server s)
    (hidle : s.pool.threads = 0)
    (hfailed : ∀ s', s.initializeAs slots workers o ≠ .returned true s') :
    Clean s (s.initializeAs slots workers o) ↔
      EasyServer.parameters slots workers = none := by
  have hgood := good_of_reachable h
  constructor
  · rintro ⟨s', hreturned, hdestroyed, -⟩
    rcases hvalid : EasyServer.parameters slots workers with _ | ⟨as, aw⟩
    · rfl
    exfalso
    obtain ⟨r, -, hkept, -, -, heq | ⟨heq, worker, hge, hlt, hlost⟩⟩ :=
      initialize_cases hgood hidle hvalid o
    · exact hfailed r heq
    rw [heq] at hreturned
    obtain ⟨-, pool, deleted, rfl, hdeleted, -⟩ := doShutdown_returned hreturned
    have hcount : (r.destroyed ++ deleted).count worker = 1 :=
      hdestroyed worker hge hlt
    have hnot : worker ∉ r.destroyed ++ deleted := by
      intro hw
      rcases List.mem_append.mp hw with hw | hw
      · rw [hkept] at hw
        exact absurd (hgood.destroyed worker hw) (Nat.not_lt.mpr hge)
      · exact hlost (hdeleted worker hw)
    rw [List.count_eq_zero.mpr hnot] at hcount
    cases hcount
  · intro hvalid
    refine ⟨s, ?_, fun worker hge hlt => ?_, hidle, fun slots workers hv => ?_⟩
    · rw [EasyServer.initializeAs, hvalid]
    · exact absurd hlt (Nat.not_lt.mpr hge)
    · exact restarts hidle hv

/-- A job worker that the pool does not take. -/
def Outcome.full : Outcome := { Outcome.fine with appends := fun w => w = 0 }

/-- One I/O worker, which the pool deletes, and one job worker. -/
theorem initialize_full : EasyServer.fresh.initializeAs (some [[]]) (some [[]])
    .full = .returned false { EasyServer.fresh with made := 2, destroyed := [0] } := by
  decide

theorem full_fails (s' : EasyServer) : EasyServer.fresh.initializeAs
    (some [[]]) (some [[]]) .full ≠ .returned true s' := by
  rw [initialize_full]
  exact nofun

theorem failed_initialize_full : ¬Clean .fresh
    (EasyServer.fresh.initializeAs (some [[]]) (some [[]]) .full) := by
  intro hclean
  have hvalid :=
    (failed_initialize_clean_iff (.start rfl) rfl full_fails).mp hclean
  revert hvalid
  decide

/-- **A WORKER IS LOST**: the second one is never deleted. -/
theorem loses_a_worker : ¬∀ s, Reachable server s → s.pool.threads = 0 →
    ∀ slots workers o, (EasyServer.parameters slots workers).isSome = true →
      (∀ s', s.initializeAs slots workers o ≠ .returned true s') →
      Clean s (s.initializeAs slots workers o) := by
  intro hclaim
  obtain ⟨s', hreturned, hdestroyed, -⟩ :=
    hclaim .fresh (.start rfl) rfl (some [[]]) (some [[]]) .full rfl full_fails
  rw [initialize_full] at hreturned
  obtain ⟨-, rfl⟩ := Result.returned.inj hreturned
  have hcount := hdestroyed 1 (by decide) (by decide)
  revert hcount
  decide

end FlinterEasyServerInit
