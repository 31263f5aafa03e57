import Flinter.MonitorProofs
import Mathlib.Data.List.Nodup

/-! # EasyServer: jobs and job workers

    `DoAppendJob` puts a job into the queue of the worker that its hash chooses,
    or into the global queue if the hash is negative; `GetJob` takes from the
    worker's own queue first.  `_gmutex` and `_incoming` are a monitor whose
    threads are the workers.

    The record numbers what is appended.  Each queue gives out what it was
    given, in order, which is one argument for all of them: what was taken from
    a queue and what is in it is what was appended to it. -/

namespace FlinterEasyServerJob

open Runs Monitors

variable {n : Nat} {J α β : Type}

-- ── The queues ───────────────────────────────────────────────────────────────

/-- `_jobs` and `_hashjobs`, one for each of the `n` workers. -/
structure Queues (n : Nat) (α : Type) where
  jobs : List α
  hashjobs : Fin n → List α

/-- `DoAppendJob`: what it does to the queues, and the wake-up. -/
def doAppendJob (q : Queues n α) (job : α) (hash : Int) : Queues n α × Wake :=
  if hash < 0 then
    (⟨q.jobs ++ [job], q.hashjobs⟩, .one)
  else
    let i := hash.toNat % n
    (⟨q.jobs, fun id =>
      if id.val = i then q.hashjobs id ++ [job] else q.hashjobs id⟩, .all)

/-- `GetJob`: the job, and the queues without it; none if it has to wait. -/
def getJob (id : Fin n) (q : Queues n α) : Option (α × Queues n α) :=
  match q.hashjobs id, q.jobs with
  | job :: rest, _ => some (job, ⟨q.jobs, Function.update q.hashjobs id rest⟩)
  | [], job :: rest => some (job, ⟨rest, q.hashjobs⟩)
  | [], [] => none

/-- `DoDumpJobs`. -/
def doDumpJobs (_ : Queues n α) : Queues n α := ⟨[], fun _ => []⟩

-- ── The workers ──────────────────────────────────────────────────────────────

/-- `JobWorker::Run`: about to call `GetJob` or in it, running a job, or out of
    its loop. -/
inductive Hand (J : Type) where
  | idle
  | running (job : J)
  | quit
deriving DecidableEq, Repr

/-- The loop goes on with a job, and ends with a null pointer. -/
def hold : Option J → Hand J
  | some job => .running job
  | none => .quit

/-- The queues of `Runnable *`, and what the workers do. -/
structure Jobs (n : Nat) (J : Type) where
  queues : Queues n (Option J)
  hand : Fin n → Hand J

/-- What is done apart from `GetJob`: a job is appended by `OnMessage` or
    `QueueOrExecuteJob`, a worker is done with its job and deletes it, or the
    server is shut down. -/
inductive Call (n : Nat) (J : Type) where
  | appendJob (job : J) (hash : Int)
  | finish (id : Fin n)
  | shutdown

/-- `DoShutdown` while it has `_gmutex` locked: a null pointer for each worker. -/
def doShutdown (q : Queues n (Option J)) : Queues n (Option J) :=
  (List.finRange n).foldl (fun q id => (doAppendJob q none (id.val : Int)).1)
    (doDumpJobs q)

def take (id : Fin n) (d : Jobs n J) : Jobs n J :=
  match getJob id d.queues with
  | some (job, q) => ⟨q, Function.update d.hand id (hold job)⟩
  | none => d

/-- A job is appended only with workers, the others run it at once. -/
def admits : Call n J → Jobs n J → Prop
  | .appendJob _ _, _ => 0 < n
  | .finish id, d => ∃ job, d.hand id = .running job
  | .shutdown, _ => True

def update : Call n J → Jobs n J → Jobs n J
  | .appendJob job hash, d =>
    { d with queues := (doAppendJob d.queues (some job) hash).1 }
  | .finish id, d => { d with hand := Function.update d.hand id .idle }
  | .shutdown, d => { d with queues := doShutdown d.queues }

def wakes : Call n J → Jobs n J → Wake
  | .appendJob job hash, d => (doAppendJob d.queues (some job) hash).2
  | .finish _, _ => .none
  | .shutdown, _ => .all

/-- Worker `id` may take a job. -/
def Ready (id : Fin n) (d : Jobs n J) : Prop :=
  d.queues.jobs ≠ [] ∨ d.queues.hashjobs id ≠ []

/-- The job workers of a server. -/
def jobWorkers (n : Nat) (J : Type) : Monitor (Fin n) (Jobs n J) (Call n J) where
  start := fun d => d = ⟨⟨[], fun _ => []⟩, fun _ => .idle⟩
  enters := fun id d => d.hand id = .idle
  ready := Ready
  take := take
  admits := admits
  update := update
  wakes := wakes

abbrev server (n : Nat) (J : Type) :
    System (State (Fin n) (Jobs n J)) (Label (Fin n) (Call n J)) :=
  machine (jobWorkers n J)

-- ── The record ───────────────────────────────────────────────────────────────

/-- What was appended: its number, the job and the hash. -/
structure Entry (J : Type) where
  ticket : Nat
  job : Option J
  hash : Int
deriving DecidableEq, Repr

/-- What was appended, in order; what is in the queues; what was taken and by
    whom; and whether the server was shut down. -/
structure Ledger (n : Nat) (J : Type) where
  appended : List (Entry J)
  lines : Queues n (Entry J)
  taken : List (Fin n × Entry J)
  down : Bool

def Ledger.empty : Ledger n J := ⟨[], ⟨[], fun _ => []⟩, [], false⟩

def Ledger.append (l : Ledger n J) (job : Option J) (hash : Int) : Ledger n J :=
  let e : Entry J := ⟨l.appended.length, job, hash⟩
  { l with appended := l.appended ++ [e], lines := (doAppendJob l.lines e hash).1 }

def Ledger.take (l : Ledger n J) (id : Fin n) : Ledger n J :=
  match getJob id l.lines with
  | some (e, lines) => { l with lines := lines, taken := l.taken ++ [(id, e)] }
  | none => l

def Ledger.shutdown (l : Ledger n J) : Ledger n J :=
  (List.finRange n).foldl (fun l id => l.append none (id.val : Int))
    { l with lines := doDumpJobs l.lines, down := true }

/-- What a step adds to the record. -/
def note (_ : State (Fin n) (Jobs n J)) (act : Label (Fin n) (Call n J))
    (l : Ledger n J) : Ledger n J :=
  match act with
  | .enter id => l.take id
  | .stir _ => l
  | .update (.appendJob job hash) _ => l.append (some job) hash
  | .update (.finish _) _ => l
  | .update .shutdown _ => l.shutdown

/-- The job workers with the record. -/
def recorded (n : Nat) (J : Type) :
    System (State (Fin n) (Jobs n J) × Ledger n J) (Label (Fin n) (Call n J)) :=
  (server n J).record .empty note

-- ── One queue at a time ──────────────────────────────────────────────────────

/-- The global queue, or that of a worker. -/
def Queues.line (q : Queues n α) : Option (Fin n) → List α
  | none => q.jobs
  | some id => q.hashjobs id

/-- The queue that a hash chooses. -/
def belongs : Option (Fin n) → Int → Bool
  | none, hash => decide (hash < 0)
  | some id, hash => decide (0 ≤ hash ∧ id.val = hash.toNat % n)

def Queues.map (f : α → β) (q : Queues n α) : Queues n β :=
  ⟨q.jobs.map f, fun id => (q.hashjobs id).map f⟩

theorem belongs_unique {k k' : Option (Fin n)} {hash : Int}
    (h : belongs k hash = true) (h' : belongs k' hash = true) : k = k' := by
  cases k with
  | none =>
      cases k' with
      | none => rfl
      | some id' =>
          simp only [belongs, decide_eq_true_eq] at h h'
          omega
  | some id =>
      cases k' with
      | none =>
          simp only [belongs, decide_eq_true_eq] at h h'
          omega
      | some id' =>
          simp only [belongs, decide_eq_true_eq] at h h'
          rw [Option.some_inj, Fin.ext_iff, h.2, h'.2]

/-- With a worker there is a queue for every hash. -/
theorem exists_belongs (id : Fin n) (hash : Int) :
    ∃ k : Option (Fin n), belongs k hash = true := by
  by_cases hneg : hash < 0
  · exact ⟨none, by simpa [belongs] using hneg⟩
  · have hn : 0 < n := id.pos
    refine ⟨some ⟨hash.toNat % n, Nat.mod_lt _ hn⟩, ?_⟩
    simpa [belongs] using hneg

/-- `DoAppendJob` appends to the queue that the hash chooses, and to no other. -/
theorem line_doAppendJob (q : Queues n α) (job : α) (hash : Int)
    (k : Option (Fin n)) : (doAppendJob q job hash).1.line k =
      if belongs k hash then q.line k ++ [job] else q.line k := by
  rw [doAppendJob]
  cases k with
  | none =>
      by_cases hneg : hash < 0
      · simp [belongs, Queues.line, hneg]
      · simp [belongs, Queues.line, hneg]
  | some id =>
      by_cases hneg : hash < 0
      · simp [belongs, Queues.line, hneg, Int.not_le.mpr hneg]
      · simp [belongs, Queues.line, hneg, Int.not_lt.mp hneg]

section GetJob

variable {id : Fin n} {q : Queues n α} {job : α} {rest : List α}

theorem getJob_own (h : q.hashjobs id = job :: rest) : getJob id q =
    some (job, ⟨q.jobs, Function.update q.hashjobs id rest⟩) := by
  rw [getJob]
  rw [h]

theorem getJob_global (hown : q.hashjobs id = []) (h : q.jobs = job :: rest) :
    getJob id q = some (job, ⟨rest, q.hashjobs⟩) := by
  rw [getJob]
  rw [hown, h]

theorem getJob_wait (hown : q.hashjobs id = []) (h : q.jobs = []) :
    getJob id q = none := by
  rw [getJob]
  rw [hown, h]

end GetJob

/-- `GetJob` takes the first of one queue, and leaves the others alone. -/
theorem getJob_eq_some {id : Fin n} {q q' : Queues n α} {job : α}
    (h : getJob id q = some (job, q')) :
    ∃ k, (k = none ∧ q.hashjobs id = [] ∨ k = some id) ∧
      q.line k = job :: q'.line k ∧ ∀ k' ≠ k, q'.line k' = q.line k' := by
  rw [getJob] at h
  split at h
  · rename_i rest _ hown
    obtain ⟨rfl, rfl⟩ := Prod.mk.inj (Option.some.inj h)
    refine ⟨some id, .inr rfl, by simpa [Queues.line] using hown, ?_⟩
    intro k' hk'
    cases k' with
    | none => rfl
    | some id' =>
        have hne : id' ≠ id := fun heq => hk' (by rw [heq])
        simp [Queues.line, hne]
  · rename_i rest hown hjobs
    obtain ⟨rfl, rfl⟩ := Prod.mk.inj (Option.some.inj h)
    refine ⟨none, .inl ⟨rfl, hown⟩, hjobs, ?_⟩
    intro k' hk'
    cases k' with
    | none => exact absurd rfl hk'
    | some id' => rfl
  · exact absurd h (by simp)

/-- A worker waits if there is nothing for it. -/
theorem getJob_eq_none {id : Fin n} {q : Queues n α} :
    getJob id q = none ↔ q.jobs = [] ∧ q.hashjobs id = [] := by
  rw [getJob]
  split <;> simp_all

theorem getJob_map (f : α → β) (id : Fin n) (q : Queues n α) :
    getJob id (q.map f) = (getJob id q).map (Prod.map f (Queues.map f)) := by
  cases hown : q.hashjobs id with
  | cons job rest =>
      have hmap : (q.map f).hashjobs id = f job :: rest.map f := by
        show (q.hashjobs id).map f = _
        rw [hown, List.map_cons]
      rw [getJob_own hown, getJob_own hmap]
      simp only [Queues.map, Option.map_some, Prod.map_apply]
      congr 3
      funext id'
      by_cases heq : id' = id
      · subst heq
        simp
      · simp [heq]
  | nil =>
      have hmap : (q.map f).hashjobs id = [] := by
        show (q.hashjobs id).map f = _
        rw [hown, List.map_nil]
      cases hjobs : q.jobs with
      | cons job rest =>
          have hmapjobs : (q.map f).jobs = f job :: rest.map f := by
            show q.jobs.map f = _
            rw [hjobs, List.map_cons]
          rw [getJob_global hown hjobs, getJob_global hmap hmapjobs]
          rfl
      | nil =>
          have hmapjobs : (q.map f).jobs = [] := by
            show q.jobs.map f = _
            rw [hjobs, List.map_nil]
          rw [getJob_wait hown hjobs, getJob_wait hmap hmapjobs]
          rfl

theorem doAppendJob_map (f : α → β) (q : Queues n α) (job : α) (hash : Int) :
    (doAppendJob (q.map f) (f job) hash).1 = (doAppendJob q job hash).1.map f := by
  unfold doAppendJob Queues.map
  split
  · simp
  · simp only [Queues.mk.injEq, true_and]
    funext id
    split <;> simp

/-- What is left in a queue after `GetJob` was in it before. -/
theorem line_getJob_suffix {id : Fin n} {q q' : Queues n α} {job : α}
    (h : getJob id q = some (job, q')) (k : Option (Fin n)) :
    q'.line k <:+ q.line k := by
  obtain ⟨k₀, -, hline, hothers⟩ := getJob_eq_some h
  by_cases heq : k = k₀
  · subst heq
    rw [hline]
    exact List.suffix_cons _ _
  · exact ⟨[], (List.nil_append _).trans (hothers k heq)⟩

-- ── The record is kept ───────────────────────────────────────────────────────

theorem filter_snoc (p : α → Bool) (xs : List α) (x : α) : (xs ++ [x]).filter p =
    if p x then xs.filter p ++ [x] else xs.filter p := by
  rw [List.filter_append]
  cases h : p x <;> simp [h]

/-- The entries of a queue among those that were taken. -/
def Ledger.takenFrom (l : Ledger n J) (k : Option (Fin n)) : List (Entry J) :=
  (l.taken.map Prod.snd).filter fun e => belongs k e.hash

/-- The entries of a queue among those that were appended. -/
def Ledger.appendedTo (l : Ledger n J) (k : Option (Fin n)) : List (Entry J) :=
  l.appended.filter fun e => belongs k e.hash

/-- The last that a worker took. -/
def Ledger.last (l : Ledger n J) (id : Fin n) : Option (Fin n × Entry J) :=
  (l.taken.filter fun x => decide (x.1 = id)).getLast?

/-- **WHAT THE RECORD SAYS**: the entries are numbered; the queues are those of
    the server; what was taken from a queue and what is in it was appended to
    it, in that order, and is all of it unless the server was shut down. -/
structure Kept (d : Jobs n J) (l : Ledger n J) : Prop where
  numbered : l.appended.map Entry.ticket = List.range l.appended.length
  queues : d.queues = l.lines.map Entry.job
  order : ∀ k, (l.takenFrom k ++ l.lines.line k).Sublist (l.appendedTo k)
  all : l.down = false → ∀ k, l.takenFrom k ++ l.lines.line k = l.appendedTo k
  worker : ∀ x ∈ l.taken, 0 ≤ x.2.hash → x.1.val = x.2.hash.toNat % n
  hand : ∀ id, d.hand id = .idle ∨
    ∃ x, l.last id = some x ∧ d.hand id = hold x.2.job

variable {d : Jobs n J} {l : Ledger n J}

/-- What is in a queue belongs there. -/
theorem Kept.belongs_of_mem (h : Kept d l) {k : Option (Fin n)} {e : Entry J}
    (he : e ∈ l.lines.line k) : e ∈ l.appended ∧ belongs k e.hash = true := by
  have hmem : e ∈ l.appendedTo k :=
    (h.order k).subset (List.mem_append_right _ he)
  exact List.mem_filter.mp hmem

theorem Kept.fresh :
    Kept (⟨⟨[], fun _ => []⟩, fun _ => .idle⟩ : Jobs n J) Ledger.empty := by
  refine ⟨rfl, rfl, ?_, ?_, ?_, fun _ => .inl rfl⟩
  · intro k
    cases k <;> exact List.Sublist.refl _
  · intro _ k
    cases k <;> rfl
  · intro x hx
    exact absurd hx List.not_mem_nil

theorem Kept.append (h : Kept d l) (job : Option J) (hash : Int) :
    Kept { d with queues := (doAppendJob d.queues job hash).1 }
      (l.append job hash) := by
  have hline : ∀ k, (l.append job hash).lines.line k =
      if belongs k hash then
        l.lines.line k ++ [⟨l.appended.length, job, hash⟩]
      else l.lines.line k :=
    line_doAppendJob l.lines ⟨l.appended.length, job, hash⟩ hash
  have hto : ∀ k, (l.append job hash).appendedTo k =
      if belongs k hash then
        l.appendedTo k ++ [⟨l.appended.length, job, hash⟩]
      else l.appendedTo k := by
    intro k
    exact filter_snoc _ l.appended _
  refine ⟨?_, ?_, ?_, ?_, h.worker, h.hand⟩
  · show (l.appended ++ [_]).map Entry.ticket = List.range (l.appended ++ [_]).length
    rw [List.map_append, h.numbered, List.length_append, List.length_singleton,
      List.range_succ]
    rfl
  · show (doAppendJob d.queues job hash).1 = _
    rw [h.queues]
    exact doAppendJob_map Entry.job l.lines ⟨l.appended.length, job, hash⟩ hash
  · intro k
    rw [hline, hto]
    show (l.takenFrom k ++ _).Sublist _
    split
    · rw [← List.append_assoc]
      exact (h.order k).append (List.Sublist.refl _)
    · exact h.order k
  · intro hdown k
    rw [hline, hto]
    show l.takenFrom k ++ _ = _
    split
    · rw [← List.append_assoc, h.all hdown k]
    · exact h.all hdown k

theorem Kept.take (h : Kept d l) (id : Fin n) :
    Kept (FlinterEasyServerJob.take id d) (l.take id) := by
  cases hget : getJob id l.lines with
  | none =>
      have hwait : getJob id d.queues = none := by
        rw [h.queues, getJob_map, hget]
        rfl
      rw [FlinterEasyServerJob.take, Ledger.take]
      rw [hwait, hget]
      exact h
  | some p =>
      obtain ⟨e, lines⟩ := p
      have htake : getJob id d.queues = some (e.job, lines.map Entry.job) := by
        rw [h.queues, getJob_map, hget]
        rfl
      obtain ⟨k, hk, hline, hothers⟩ := getJob_eq_some hget
      have hmem : e ∈ l.lines.line k := by
        rw [hline]
        exact List.mem_cons_self
      have hbelongs := (h.belongs_of_mem hmem).2
      rw [FlinterEasyServerJob.take, Ledger.take]
      rw [htake, hget]
      have hfrom : ∀ k', Ledger.takenFrom
          { l with lines := lines, taken := l.taken ++ [(id, e)] } k' ++
          lines.line k' = l.takenFrom k' ++ l.lines.line k' := by
        intro k'
        unfold Ledger.takenFrom
        rw [List.map_append, List.map_singleton, filter_snoc]
        by_cases heq : k' = k
        · subst heq
          rw [if_pos hbelongs, hline, List.append_assoc, List.singleton_append]
        · have hnot : ¬belongs k' e.hash = true :=
            fun hb => heq (belongs_unique hb hbelongs)
          rw [if_neg hnot, hothers k' heq]
      refine ⟨h.numbered, rfl, ?_, ?_, ?_, ?_⟩
      · intro k'
        rw [hfrom]
        exact h.order k'
      · intro hdown k'
        rw [hfrom]
        exact h.all hdown k'
      · intro x hx hhash
        rcases List.mem_append.mp hx with hx | hx
        · exact h.worker x hx hhash
        · obtain rfl := List.mem_singleton.mp hx
          rcases hk with ⟨rfl, -⟩ | rfl
          · simp only [belongs, decide_eq_true_eq] at hbelongs
            exact absurd hbelongs (Int.not_lt.mpr hhash)
          · simp only [belongs, decide_eq_true_eq] at hbelongs
            exact hbelongs.2
      · intro id'
        have hlast : Ledger.last
            { l with lines := lines, taken := l.taken ++ [(id, e)] } id' =
            if id = id' then some (id, e) else l.last id' := by
          unfold Ledger.last
          rw [filter_snoc]
          by_cases heq : id = id'
          · rw [if_pos (by simpa using heq), if_pos heq]
            exact List.getLast?_concat
          · rw [if_neg (by simpa using heq), if_neg heq]
        rw [hlast]
        show Function.update d.hand id (hold e.job) id' = _ ∨ ∃ x, _ ∧
          Function.update d.hand id (hold e.job) id' = _
        by_cases heq : id = id'
        · subst heq
          rw [if_pos rfl, Function.update_self]
          exact .inr ⟨_, rfl, rfl⟩
        · rw [if_neg heq, Function.update_of_ne (Ne.symm heq)]
          exact h.hand id'

theorem Kept.dump (h : Kept d l) :
    Kept { d with queues := doDumpJobs d.queues }
      { l with lines := doDumpJobs l.lines, down := true } := by
  refine ⟨h.numbered, rfl, ?_, fun hdown => absurd hdown (by simp), h.worker,
    h.hand⟩
  intro k
  have hempty : (doDumpJobs l.lines).line k = [] := by cases k <;> rfl
  show (l.takenFrom k ++ (doDumpJobs l.lines).line k).Sublist (l.appendedTo k)
  rw [hempty]
  exact ((List.Sublist.refl _).append (List.nil_sublist _)).trans (h.order k)

theorem Kept.shutdown (h : Kept d l) :
    Kept { d with queues := doShutdown d.queues } l.shutdown := by
  rw [doShutdown, Ledger.shutdown]
  have hdump := h.dump
  generalize doDumpJobs d.queues = q at hdump ⊢
  generalize ({ l with lines := doDumpJobs l.lines, down := true } :
    Ledger n J) = l' at hdump ⊢
  induction List.finRange n generalizing q l' with
  | nil => exact hdump
  | cons id ids ih => exact ih _ _ (hdump.append none (id.val : Int))

theorem Kept.finish (h : Kept d l) (id : Fin n) :
    Kept { d with hand := Function.update d.hand id .idle } l := by
  refine ⟨h.numbered, h.queues, h.order, h.all, h.worker, ?_⟩
  intro id'
  by_cases heq : id' = id
  · subst heq
    exact .inl (by simp)
  · simpa [heq] using h.hand id'

variable {s : State (Fin n) (Jobs n J)}

theorem Kept.reachable (h : Reachable (recorded n J) (s, l)) :
    Kept s.data l := by
  refine h.invariant (I := fun p => Kept p.1.data p.2) ?_ ?_
  · rintro ⟨s, l⟩ ⟨⟨hstart, -⟩, rfl⟩
    show Kept s.data _
    rw [show s.data = _ from hstart]
    exact Kept.fresh
  · rintro ⟨s, l⟩ act ⟨s', l'⟩ - hk ⟨hs, hl⟩
    obtain rfl : l' = note s act l := hl
    cases hs with
    | @take data place id hplace he hr => exact hk.take id
    | @wait data place id hplace he hr =>
        obtain ⟨hjobs, hown⟩ := not_or.mp hr
        have hwait : getJob id data.queues = none :=
          getJob_eq_none.mpr ⟨not_not.mp hjobs, not_not.mp hown⟩
        have hsame := hk.take id
        rw [FlinterEasyServerJob.take] at hsame
        simp only [hwait] at hsame
        exact hsame
    | @stir data place id hplace => exact hk
    | @update data place call who ha hw =>
        cases call with
        | appendJob job hash => exact hk.append (some job) hash
        | finish id => exact hk.finish id
        | shutdown => exact hk.shutdown

-- ── Each job once, in order ──────────────────────────────────────────────────

/-- Of the entries that meet `p`, those that were taken come in the order in
    which they were appended, and none is passed over that `Shutdown` did not
    delete. -/
def Ledger.InOrder (l : Ledger n J) (p : Entry J → Bool) : Prop :=
  ((l.taken.map Prod.snd).filter p).Sublist (l.appended.filter p) ∧
  (l.down = false → (l.taken.map Prod.snd).filter p <+: l.appended.filter p)

/-- A queue gives out in order what it was given. -/
theorem Kept.queue_inOrder (h : Kept d l) (k : Option (Fin n)) :
    l.InOrder fun e => belongs k e.hash := by
  constructor
  · exact (List.sublist_append_left _ _).trans (h.order k)
  · intro hdown
    exact ⟨_, h.all hdown k⟩

/-- So do those of its entries that meet another condition. -/
theorem Ledger.InOrder.of_imp {p p' : Entry J → Bool} (h : l.InOrder p)
    (himp : ∀ e, p' e = true → p e = true) : l.InOrder p' := by
  have hfilter : ∀ es : List (Entry J), es.filter p' = (es.filter p).filter p' := by
    intro es
    rw [List.filter_filter]
    refine List.filter_congr ?_
    intro e _
    cases hp' : p' e with
    | false => rfl
    | true => rw [himp e hp', Bool.and_true]
  constructor
  · rw [hfilter, hfilter l.appended]
    exact h.1.filter p'
  · intro hdown
    rw [hfilter, hfilter l.appended]
    exact (h.2 hdown).filter p'

/-- Jobs of one hash are jobs of one queue. -/
theorem Kept.hash_inOrder (h : Kept d l) (hash : Int) :
    l.InOrder fun e => decide (e.hash = hash) := by
  rcases Nat.eq_zero_or_pos n with rfl | hn
  · have htaken : l.taken = [] := by
      cases htaken : l.taken with
      | nil => rfl
      | cons x _ => exact x.1.elim0
    rw [Ledger.InOrder]
    rw [htaken]
    exact ⟨List.nil_sublist _, fun _ => List.nil_prefix⟩
  · obtain ⟨k, hk⟩ := exists_belongs ⟨0, hn⟩ hash
    refine (h.queue_inOrder k).of_imp ?_
    intro e he
    rw [of_decide_eq_true he]
    exact hk

theorem Kept.appended_nodup (h : Kept d l) :
    (l.appended.map Entry.ticket).Nodup := by
  rw [h.numbered]
  exact List.nodup_range

theorem Kept.mem_appended (h : Kept d l) {x : Fin n × Entry J}
    (hx : x ∈ l.taken) : x.2 ∈ l.appended := by
  obtain ⟨k, hk⟩ := exists_belongs x.1 x.2.hash
  have hmem : x.2 ∈ l.takenFrom k :=
    List.mem_filter.mpr ⟨List.mem_map_of_mem hx, hk⟩
  exact (List.mem_filter.mp ((h.queue_inOrder k).1.subset hmem)).1

/-- Nothing is taken twice: not from one queue, and no two queues have an entry
    in common. -/
theorem Kept.taken_nodup (h : Kept d l) :
    (l.taken.map fun x => x.2.ticket).Nodup := by
  classical
  have hcount : ∀ (k : Option (Fin n)) (e : Entry J) (es : List (Entry J)),
      belongs k e.hash = true →
      (es.filter fun e => belongs k e.hash).count e = es.count e := by
    intro k e es hb
    exact List.count_filter (p := fun e : Entry J => belongs k e.hash) hb
  have hentries : (l.taken.map Prod.snd).Nodup := by
    rw [List.nodup_iff_count_le_one]
    intro e
    by_cases he : e ∈ l.taken.map Prod.snd
    · obtain ⟨x, hx, rfl⟩ := List.mem_map.mp he
      obtain ⟨k, hk⟩ := exists_belongs x.1 x.2.hash
      calc (l.taken.map Prod.snd).count x.2
          = (l.takenFrom k).count x.2 := (hcount k _ _ hk).symm
        _ ≤ (l.appendedTo k).count x.2 := (h.queue_inOrder k).1.count_le _
        _ = l.appended.count x.2 := hcount k _ _ hk
        _ ≤ 1 := List.nodup_iff_count_le_one.mp (h.appended_nodup.of_map _) _
    · rw [List.count_eq_zero_of_not_mem he]
      exact Nat.zero_le 1
  have hinj := List.inj_on_of_nodup_map h.appended_nodup
  rw [show (l.taken.map fun x => x.2.ticket) =
    (l.taken.map Prod.snd).map Entry.ticket by rw [List.map_map]; rfl]
  refine hentries.map_on ?_
  rintro e he e' he' heq
  obtain ⟨x, hx, rfl⟩ := List.mem_map.mp he
  obtain ⟨x', hx', rfl⟩ := List.mem_map.mp he'
  exact hinj (h.mem_appended hx) (h.mem_appended hx') heq

-- ── No wake-up is lost ───────────────────────────────────────────────────────

/-- A worker that waits has nothing in its own queue, which only it empties and
    which wakes all when it is filled. -/
theorem own_empty_of_waiting (h : Reachable (server n J) s) (id : Fin n)
    (hid : s.place id = .waiting) : s.data.queues.hashjobs id = [] := by
  by_contra hne
  refine not_own_of_waiting (m := jobWorkers n J)
    (fun id d => d.queues.hashjobs id ≠ []) ?_ ?_ ?_ h id hid hne
  · intro id d hown
    exact Or.inr hown
  · intro id id' d _ _ hown hempty
    apply hown
    show (FlinterEasyServerJob.take id d).queues.line (some id') = []
    rw [FlinterEasyServerJob.take]
    cases hget : getJob id d.queues with
    | none => exact hempty
    | some p =>
        have hsuffix := line_getJob_suffix hget (some id')
        rw [show d.queues.line (some id') = [] from hempty] at hsuffix
        exact List.suffix_nil.mp hsuffix
  · intro call d id' _ hown
    cases call with
    | appendJob job hash =>
        show _ ∨ (doAppendJob d.queues (some job) hash).2 = .all
        change (doAppendJob d.queues (some job) hash).1.hashjobs id' ≠ [] at hown
        rw [doAppendJob] at hown ⊢
        by_cases hneg : hash < 0
        · rw [if_pos hneg] at hown
          exact .inl hown
        · rw [if_neg hneg]
          exact .inr rfl
    | finish id => exact .inl hown
    | shutdown => exact .inr rfl

/-- While a job is in the global queue some worker does not wait. -/
theorem awake_of_job (h : Reachable (server n J) s) (id : Fin n)
    (hjobs : s.data.queues.jobs ≠ []) : ∃ id, s.place id ≠ .waiting := by
  have : Nonempty (Fin n) := ⟨id⟩
  refine awake_of_common (m := jobWorkers n J)
    (fun d => d.queues.jobs ≠ []) ?_ ?_ h hjobs
  · intro id d hc
    exact Or.inl hc
  · intro call d _ hc
    cases call with
    | appendJob job hash =>
        right
        show (doAppendJob d.queues (some job) hash).2 ≠ .none
        rw [doAppendJob]
        split <;> simp
    | finish id => exact .inl hc
    | shutdown =>
        right
        show Wake.all ≠ .none
        simp

/-- **EACH JOB ONCE, IN ORDER, AND NO WORKER SLEEPS ON IT**: in every run of any
    number of workers, what they take was appended, each once; the jobs of a
    hash that is not negative all go to one worker, in order; those of a
    negative hash are taken in order; and never do all workers wait, none of
    them woken, while there is a job for one of them. -/
theorem jobs_dispatched (h : Reachable (recorded n J) (s, l)) :
    (l.appended.map Entry.ticket).Nodup ∧
    (l.taken.map fun x => x.2.ticket).Nodup ∧
    (∀ x ∈ l.taken, x.2 ∈ l.appended) ∧
    (∀ id job, s.data.hand id = .running job →
      ∃ x, l.last id = some x ∧ x.2.job = some job) ∧
    (∀ hash : Int, 0 ≤ hash →
      (∀ x ∈ l.taken, ∀ y ∈ l.taken, x.2.hash = hash → y.2.hash = hash →
        x.1 = y.1) ∧
      l.InOrder fun e => decide (e.hash = hash)) ∧
    (l.InOrder fun e => decide (e.hash < 0)) ∧
    ¬((∀ id, s.place id = .waiting) ∧ ∃ id, Ready id s.data) := by
  have hk := Kept.reachable h
  have hserver : Reachable (server n J) s := h.of_record
  refine ⟨hk.appended_nodup, hk.taken_nodup, fun _ hx => hk.mem_appended hx, ?_,
    ?_, hk.queue_inOrder none, ?_⟩
  · intro id job hrun
    rcases hk.hand id with hidle | ⟨x, hlast, hx⟩
    · rw [hrun] at hidle
      exact absurd hidle (by simp)
    · refine ⟨x, hlast, ?_⟩
      rw [hrun] at hx
      cases hjob : x.2.job with
      | none =>
          rw [hjob] at hx
          exact absurd hx (by simp [hold])
      | some job' =>
          rw [hjob] at hx
          rw [Hand.running.inj hx]
  · intro hash hhash
    refine ⟨?_, hk.hash_inOrder hash⟩
    intro x hx y hy hxh hyh
    rw [Fin.ext_iff, hk.worker x hx (hxh ▸ hhash), hk.worker y hy (hyh ▸ hhash),
      hxh, hyh]
  · rintro ⟨hwait, id, hjobs | hown⟩
    · obtain ⟨id', hid'⟩ := awake_of_job hserver id hjobs
      exact hid' (hwait id')
    · exact hown (own_empty_of_waiting hserver id (hwait id))

-- ── Runs step by step ────────────────────────────────────────────────────────

section Runs

variable {place : Fin n → Place}

theorem recorded_wait (h : Reachable (recorded n J) (⟨d, place⟩, l)) (id : Fin n)
    (hplace : place id ≠ .waiting) (he : d.hand id = .idle) (hr : ¬Ready id d) :
    Reachable (recorded n J)
      (⟨d, Function.update place id .waiting⟩, l.take id) :=
  .next (l := .enter id) h ⟨.wait hplace he hr, rfl⟩

theorem recorded_take (h : Reachable (recorded n J) (⟨d, place⟩, l)) (id : Fin n)
    (hplace : place id ≠ .waiting) (he : d.hand id = .idle) (hr : Ready id d) :
    Reachable (recorded n J)
      (⟨take id d, Function.update place id .outside⟩, l.take id) :=
  .next (l := .enter id) h ⟨.take hplace he hr, rfl⟩

theorem recorded_append (h : Reachable (recorded n J) (⟨d, place⟩, l)) (job : J)
    (hash : Int) (who : Fin n → Bool) (hn : 0 < n)
    (hw : Rouses place who (doAppendJob d.queues (some job) hash).2) :
    Reachable (recorded n J)
      (⟨update (.appendJob job hash) d, rouse who place⟩,
        l.append (some job) hash) :=
  .next (l := .update (.appendJob job hash) who) h ⟨.update hn hw, rfl⟩

end Runs

/-- Two workers wait; a job for the second wakes both, the first finds nothing and
    waits again, and the second takes it. -/
theorem jobs_dispatched_second : ∃ (s : State (Fin 2) (Jobs 2 Nat))
    (l : Ledger 2 Nat), Reachable (recorded 2 Nat) (s, l) ∧
    l.taken = [(1, ⟨0, some 7, 3⟩)] ∧
    (l.taken.map fun x => x.2.ticket).Nodup ∧
    ¬((∀ id, s.place id = .waiting) ∧ ∃ id, Ready id s.data) := by
  have hstart : Reachable (recorded 2 Nat)
      (⟨⟨⟨[], fun _ => []⟩, fun _ => .idle⟩, fun _ => .outside⟩, .empty) :=
    .start ⟨⟨rfl, fun _ => rfl⟩, rfl⟩
  have hempty : ∀ id, ¬Ready id
      (⟨⟨[], fun _ => []⟩, fun _ => .idle⟩ : Jobs 2 Nat) := by
    rintro id (h | h) <;> exact h rfl
  have h₁ := recorded_wait hstart 0 (by decide) rfl (hempty 0)
  have h₂ := recorded_wait h₁ 1 (by decide) rfl (hempty 1)
  have h₃ := recorded_append h₂ 7 3 (fun _ => true) Nat.two_pos fun _ => rfl
  have h₄ := recorded_wait h₃ 0 (by decide) rfl
    (by rintro (h | h) <;> exact h rfl)
  have h₅ := recorded_take h₄ 1 (by decide) rfl (.inr (List.cons_ne_nil _ _))
  have hall := jobs_dispatched h₅
  exact ⟨_, _, h₅, rfl, hall.2.1, hall.2.2.2.2.2.2⟩

end FlinterEasyServerJob
