import Flinter.DeskProofs
import Mathlib.Data.Finset.Basic

/-! # ThreadDaemon: what a thread does with the jobs of its pool

    An `internal::Thread` asks its pool for a job, runs it, deletes the runnable
    if that is to be released, and asks again.  It does so whichever pool it is
    of; an `AbstractThreadPool` is what each of its steps does with the jobs.

    `Terminate` cancels a thread.  That takes effect in the job, or in the log
    lines before and behind it, so the job is then left as it is. -/

namespace FlinterThread

open Runs Desks

/-- `internal::ThreadJob`; the objects are told apart by their numbers. -/
structure ThreadJob where
  number : Nat
  runnable : Nat
  autoRelease : Bool
deriving DecidableEq, Repr

/-- What a step of a pool does with jobs.  A thread may call `RequestJob` and
    get none yet, or none at all; `Shutdown` purges jobs and terminates
    threads. -/
inductive Effect (Q : Type) where
  | nothing
  | append (q : Q) (job : ThreadJob)
  | request (t : Nat)
  | take (t : Nat) (q : Q) (job : ThreadJob)
  | shutdown (purged : List (Q × ThreadJob)) (terminated : Finset Nat)
  | cancel (t : Nat)

namespace Effect

variable {Q : Type}

/-- The thread that calls `RequestJob`. -/
def asks : Effect Q → Option Nat
  | .request t | .take t _ _ => some t
  | _ => none

/-- The thread that is left without a job. -/
def leaves : Effect Q → Option Nat
  | .request t | .cancel t => some t
  | _ => none

/-- The threads that are terminated. -/
def terminates : Effect Q → Finset Nat
  | .shutdown _ terminated => terminated
  | _ => ∅

/-- What is put into a queue. -/
def enters [DecidableEq Q] (q : Q) : Effect Q → List ThreadJob
  | .append q' job => if q' = q then [job] else []
  | _ => []

/-- What it does to the queues. -/
def Pends [DecidableEq Q] (pending pending' : Q → List ThreadJob) :
    Effect Q → Prop
  | .append q job =>
      pending' = Function.update pending q (pending q ++ [job])
  | .take _ q job => ∃ rest, pending q = job :: rest ∧
      pending' = Function.update pending q rest
  | .shutdown purged _ =>
      (∀ q, pending q = (purged.filter fun x => x.1 = q).map Prod.snd) ∧
      pending' = fun _ => []
  | .nothing | .request _ | .cancel _ => pending' = pending

end Effect

/-- `AbstractThreadPool`: its steps, what they do, the jobs that are pending,
    and the threads that are in a job, and those of them that are
    terminated. -/
structure AbstractThreadPool (Q S A : Type) where
  start : S → Prop
  next : S → A → Option S
  effect : S → A → Effect Q
  pending : S → Q → List ThreadJob
  busy : S → Nat → Prop
  terminated : S → Nat → Prop

variable {Q S A : Type} [DecidableEq Q] {P : AbstractThreadPool Q S A}

/-- The pool on its own. -/
def AbstractThreadPool.system (P : AbstractThreadPool Q S A) : System S A where
  init := P.start
  step := fun s a s' => P.next s a = some s'

/-- A step does what its effect says. -/
structure AbstractThreadPool.Does (P : AbstractThreadPool Q S A) (s : S)
    (e : Effect Q) (s' : S) : Prop where
  pends : e.Pends (P.pending s) (P.pending s')
  busy : ∀ t, P.busy s t → e.leaves ≠ some t → P.busy s' t
  takes : ∀ t q job, e = .take t q job → P.busy s' t
  terminated : ∀ t, P.terminated s' t → P.terminated s t ∨ t ∈ e.terminates
  cancels : ∀ t, e = .cancel t → P.terminated s t

/-- A step that does nothing with jobs. -/
theorem AbstractThreadPool.Does.of_nothing {s s' : S}
    (hpending : P.pending s' = P.pending s)
    (hbusy : ∀ t, P.busy s t → P.busy s' t)
    (hterminated : ∀ t, P.terminated s' t → P.terminated s t) :
    P.Does s .nothing s' := by
  refine ⟨hpending, fun t ht _ => hbusy t ht, ?_,
    fun t ht => .inl (hterminated t ht), ?_⟩
  · rintro t q job ⟨⟩
  · rintro t ⟨⟩

/-- A pool that does what it says. -/
structure AbstractThreadPool.Lawful (P : AbstractThreadPool Q S A) : Prop where
  start : ∀ s, P.start s →
    (∀ q, P.pending s q = []) ∧ ∀ t, ¬P.terminated s t
  next : ∀ s a s', Reachable P.system s → P.next s a = some s' →
    P.Does s (P.effect s a) s'

-- ── Threads and their jobs ───────────────────────────────────────────────────

/-- A pool and its threads: the `job` of each `ThreadDaemon` and whether it runs
    it, the jobs whose runnables have been deleted, the threads that were
    terminated, and a log. -/
structure Daemons (Q S : Type) where
  pool : S
  job : Nat → Work ThreadJob
  deleted : List ThreadJob
  terminated : Finset Nat
  log : List (Event Q Nat ThreadJob)

/-- `Purge`, or the end of `ThreadDaemon`'s loop: the runnables that it
    deletes. -/
def purge (jobs : List ThreadJob) : List ThreadJob :=
  jobs.filter fun job => job.autoRelease

namespace Daemons

/-- A step of the pool takes it to `s`.  A job that is appended is a new
    object, and a thread asks for one when it has none. -/
def follow (d : Daemons Q S) (s : S) : Effect Q → Option (Daemons Q S)
  | .nothing => some { d with pool := s }
  | .append q job =>
      if ∀ e ∈ d.log, e.item ≠ job then
        some { d with pool := s, log := d.log ++ [.enter q job] }
      else none
  | .request t => if d.job t = .free then some { d with pool := s } else none
  | .take t q job =>
      if d.job t = .free then
        some { d with
          pool := s
          job := Function.update d.job t (.holding job)
          log := d.log ++ [.take t q job] }
      else none
  | .shutdown purged terminated =>
      some { d with
        pool := s
        deleted := d.deleted ++ purge (purged.map Prod.snd)
        terminated := d.terminated ∪ terminated
        log := d.log ++ purged.map fun x => .withdraw x.1 x.2 }
  | .cancel t =>
      match d.job t with
      | .holding job | .working job =>
          some { d with
            pool := s
            job := Function.update d.job t .free
            log := d.log ++ [.abandon t job] }
      | .free => some { d with pool := s }

/-- `job->runnable()->Run()`. -/
def run (d : Daemons Q S) (t : Nat) : Option (Daemons Q S) :=
  match d.job t with
  | .holding job =>
      some { d with
        job := Function.update d.job t (.working job)
        log := d.log ++ [.start t job] }
  | _ => none

/-- `Run` has returned; the job is released. -/
def release (d : Daemons Q S) (t : Nat) : Option (Daemons Q S) :=
  match d.job t with
  | .working job =>
      some { d with
        job := Function.update d.job t .free
        deleted := d.deleted ++ purge [job]
        log := d.log ++ [.finish t job] }
  | _ => none

end Daemons

/-- What happens next. -/
inductive Act (A : Type) where
  | pool (a : A)
  | run (t : Nat)
  | release (t : Nat)

/-- One step, if it can be taken. -/
def AbstractThreadPool.daemonNext (P : AbstractThreadPool Q S A)
    (d : Daemons Q S) : Act A → Option (Daemons Q S)
  | .pool a =>
      match P.next d.pool a with
      | some s => d.follow s (P.effect d.pool a)
      | none => none
  | .run t => d.run t
  | .release t => d.release t

/-- The pool with its threads. -/
def AbstractThreadPool.daemons (P : AbstractThreadPool Q S A) :
    System (Daemons Q S) (Act A) where
  init := fun d => P.start d.pool ∧ d.job = (fun _ => .free) ∧
    d.deleted = [] ∧ d.terminated = ∅ ∧ d.log = []
  step := fun d a d' => P.daemonNext d a = some d'

-- ── What holds of them ───────────────────────────────────────────────────────

variable {d d' : Daemons Q S} {s : S} {e : Effect Q} {a : Act A} {t : Nat}
variable {job : ThreadJob} {q : Q}

/-- The queues, the threads and the log. -/
def AbstractThreadPool.desk (P : AbstractThreadPool Q S A) (d : Daemons Q S) :
    Desk Q Nat ThreadJob :=
  ⟨P.pending d.pool, d.job, d.log⟩

/-- How often the runnable of a job has been deleted. -/
def Daemons.deletions (d : Daemons Q S) (job : ThreadJob) : Nat :=
  d.deleted.count job

/-- What a run of a pool and its threads keeps. -/
structure AbstractThreadPool.Keeps (P : AbstractThreadPool Q S A)
    (d : Daemons Q S) : Prop where
  pool : Reachable P.system d.pool
  desk : Reachable (machine Q Nat ThreadJob) (P.desk d)
  busy : ∀ t, d.job t ≠ .free → P.busy d.pool t
  terminated : ∀ t, P.terminated d.pool t → t ∈ d.terminated
  abandoned : ∀ t job, .abandon t job ∈ d.log → t ∈ d.terminated
  deletions : ∀ job, d.deletions job =
    if job.autoRelease then
      times .finish job d.log + times .withdraw job d.log
    else 0

theorem count_purge (job : ThreadJob) (jobs : List ThreadJob) :
    (purge jobs).count job = if job.autoRelease then jobs.count job else 0 := by
  rw [purge]
  by_cases hauto : job.autoRelease = true
  · rw [if_pos hauto, List.count_filter hauto]
  · rw [if_neg hauto, List.count_eq_zero]
    intro hin
    exact hauto (List.mem_filter.mp hin).2

/-- What a step of the pool adds to the log. -/
theorem Daemons.follow_log (hs : d.follow s e = some d') :
    d'.pool = s ∧ ∃ es, d'.log = d.log ++ es ∧ (∀ q, entered q es = e.enters q) ∧
      ∀ t q job, .take t q job ∈ es → e = .take t q job := by
  cases e with
  | nothing =>
      obtain rfl := Option.some.inj hs
      exact ⟨rfl, [], (List.append_nil _).symm, fun _ => rfl, nofun⟩
  | append q job =>
      obtain ⟨-, ⟨⟩⟩ := Option.ite_none_right_eq_some.mp hs
      refine ⟨rfl, [.enter q job], rfl, fun q' => ?_, fun t q' job' hin => ?_⟩
      · by_cases heq : q = q' <;> simp [entered, Effect.enters, heq]
      · cases List.mem_singleton.mp hin
  | request t =>
      obtain ⟨-, ⟨⟩⟩ := Option.ite_none_right_eq_some.mp hs
      exact ⟨rfl, [], (List.append_nil _).symm, fun _ => rfl, nofun⟩
  | take t q job =>
      obtain ⟨-, ⟨⟩⟩ := Option.ite_none_right_eq_some.mp hs
      refine ⟨rfl, [.take t q job], rfl, fun _ => rfl, fun t' q' job' hin => ?_⟩
      cases List.mem_singleton.mp hin
      rfl
  | shutdown purged terminated =>
      obtain rfl := Option.some.inj hs
      refine ⟨rfl, _, rfl, fun q => ?_, fun t q job hin => ?_⟩
      · rw [entered, List.filterMap_map]
        exact List.filterMap_eq_nil_iff.mpr fun _ _ => rfl
      · obtain ⟨x, -, hx⟩ := List.mem_map.mp hin
        cases hx
  | cancel t =>
      have habandon : ∀ job, d'.log = d.log ++ [.abandon t job] → d'.pool = s →
          d'.pool = s ∧ ∃ es, d'.log = d.log ++ es ∧ (∀ q, entered q es = []) ∧
            ∀ u q job, .take u q job ∈ es → Effect.cancel t = .take u q job := by
        intro job hlog hpool
        refine ⟨hpool, _, hlog, fun _ => rfl, fun u q job' hin => ?_⟩
        cases List.mem_singleton.mp hin
      rw [Daemons.follow] at hs
      split at hs
      next job hwork =>
        obtain rfl := Option.some.inj hs
        exact habandon job rfl rfl
      next job hwork =>
        obtain rfl := Option.some.inj hs
        exact habandon job rfl rfl
      next =>
        obtain rfl := Option.some.inj hs
        exact ⟨rfl, [], (List.append_nil _).symm, fun _ => rfl, nofun⟩

omit [DecidableEq Q] in
theorem Daemons.run_log (hs : d.run t = some d') :
    ∃ job, d'.pool = d.pool ∧ d'.log = d.log ++ [.start t job] := by
  rw [Daemons.run] at hs
  split at hs
  next job hwork =>
    obtain rfl := Option.some.inj hs
    exact ⟨job, rfl, rfl⟩
  next => cases hs

omit [DecidableEq Q] in
theorem Daemons.release_log (hs : d.release t = some d') :
    ∃ job, d'.pool = d.pool ∧ d'.log = d.log ++ [.finish t job] := by
  rw [Daemons.release] at hs
  split at hs
  next job hwork =>
    obtain rfl := Option.some.inj hs
    exact ⟨job, rfl, rfl⟩
  next => cases hs

theorem AbstractThreadPool.daemonNext_pool {a : A}
    (hs : P.daemonNext d (.pool a) = some d') :
    P.next d.pool a = some d'.pool ∧
      d.follow d'.pool (P.effect d.pool a) = some d' := by
  have hs : (match P.next d.pool a with
    | some s => d.follow s (P.effect d.pool a)
    | none => none) = some d' := hs
  split at hs
  next s hnext =>
    obtain ⟨rfl, -⟩ := Daemons.follow_log hs
    exact ⟨hnext, hs⟩
  next => cases hs

namespace AbstractThreadPool

/-- A new pool. -/
theorem Keeps.start (hP : P.Lawful) (h : P.daemons.init d) : P.Keeps d := by
  obtain ⟨hstart, hjob, hdeleted, hterminated, hlog⟩ := h
  obtain ⟨hpending, hnone⟩ := hP.start _ hstart
  refine ⟨.start hstart, .start ?_, ?_, ?_, ?_, ?_⟩
  · show (⟨P.pending d.pool, d.job, d.log⟩ : Desk Q Nat ThreadJob) = _
    rw [hjob, hlog, funext hpending]
  · intro t hne
    rw [hjob] at hne
    exact absurd rfl hne
  · intro t ht
    exact absurd ht (hnone t)
  · intro t job hin
    rw [hlog] at hin
    cases hin
  · intro job
    rw [Daemons.deletions, hdeleted, hlog]
    split <;> rfl

/-- A step without a log. -/
theorem Keeps.unlogged (h : P.Keeps d) (hr : Reachable P.system s)
    (hdoes : P.Does d.pool e s) (hpending : P.pending s = P.pending d.pool)
    (hfree : ∀ t, e.leaves = some t → d.job t = .free)
    (hterminated : ∀ t, P.terminated s t → t ∈ d.terminated) :
    P.Keeps { d with pool := s } := by
  refine ⟨hr, ?_, fun t hne => ?_, hterminated, h.abandoned, h.deletions⟩
  · have hdesk : Reachable (machine Q Nat ThreadJob)
        ⟨P.pending d.pool, d.job, d.log⟩ := h.desk
    rw [← hpending] at hdesk
    exact hdesk
  · exact hdoes.busy t (h.busy t hne) fun heq => hne (hfree t heq)

/-- A step that is logged, in which nothing is deleted. -/
theorem Keeps.logged (h : P.Keeps d) (hr : Reachable P.system s)
    {work : Nat → Work ThreadJob} {l : Event Q Nat ThreadJob}
    (hdesk : Reachable (machine Q Nat ThreadJob)
      ⟨P.pending s, work, d.log ++ [l]⟩)
    (hbusy : ∀ t, work t ≠ .free → P.busy s t)
    (hterminated : ∀ t, P.terminated s t → t ∈ d.terminated)
    (habandon : ∀ t job, l = .abandon t job → t ∈ d.terminated)
    (hfinish : l.kind ≠ .finish) (hwithdraw : l.kind ≠ .withdraw) :
    P.Keeps { d with pool := s, job := work, log := d.log ++ [l] } := by
  refine ⟨hr, hdesk, hbusy, hterminated, fun t job hin => ?_, fun job => ?_⟩
  · rcases List.mem_append.mp hin with hin | hin
    · exact h.abandoned t job hin
    · exact habandon t job (List.mem_singleton.mp hin).symm
  · rw [times_snoc hfinish, times_snoc hwithdraw]
    exact h.deletions job

/-- Where no thread is terminated. -/
theorem Keeps.not_terminated (h : P.Keeps d) (hdoes : P.Does d.pool e s)
    (hnone : e.terminates = ∅) (t : Nat) (ht : P.terminated s t) :
    t ∈ d.terminated := by
  rcases hdoes.terminated t ht with ht | ht
  · exact h.terminated t ht
  · rw [hnone] at ht
    exact absurd ht (Finset.notMem_empty t)

/-- A thread is free, or as busy as it was. -/
theorem Keeps.busy_update (h : P.Keeps d) {work : Work ThreadJob}
    (hother : ∀ u, u ≠ t → P.busy d.pool u → P.busy s u)
    (hself : work ≠ .free → P.busy s t) (u : Nat)
    (hne : Function.update d.job t work u ≠ .free) : P.busy s u := by
  by_cases heq : u = t
  · subst heq
    rw [Function.update_self] at hne
    exact hself hne
  · rw [Function.update_of_ne heq] at hne
    exact hother u heq (h.busy u hne)

theorem Keeps.append (h : P.Keeps d) (hr : Reachable P.system s)
    (hdoes : P.Does d.pool (.append q job) s)
    (hnew : ∀ e ∈ d.log, e.item ≠ job) :
    P.Keeps { d with pool := s, log := d.log ++ [.enter q job] } := by
  refine h.logged hr ?_ (fun t hne => hdoes.busy t (h.busy t hne) nofun)
    (h.not_terminated hdoes rfl) nofun nofun nofun
  rw [show P.pending s = _ from hdoes.pends]
  exact .next (l := ()) h.desk (.enter q job hnew)

theorem Keeps.take (h : P.Keeps d) (hr : Reachable P.system s)
    (hdoes : P.Does d.pool (.take t q job) s) (hfree : d.job t = .free) :
    P.Keeps { d with
      pool := s
      job := Function.update d.job t (.holding job)
      log := d.log ++ [.take t q job] } := by
  obtain ⟨rest, hhead, htail⟩ := hdoes.pends
  refine h.logged hr ?_ (h.busy_update (fun u _ hu => hdoes.busy u hu nofun)
    fun _ => hdoes.takes t q job rfl) (h.not_terminated hdoes rfl) nofun nofun nofun
  rw [htail]
  have hstep : Step (P.desk d) _ := .take hhead hfree
  exact .next (l := ()) h.desk hstep

theorem Keeps.shutdown {purged : List (Q × ThreadJob)} {terminated : Finset Nat}
    (h : P.Keeps d) (hr : Reachable P.system s)
    (hdoes : P.Does d.pool (.shutdown purged terminated) s) :
    P.Keeps { d with
      pool := s
      deleted := d.deleted ++ purge (purged.map Prod.snd)
      terminated := d.terminated ∪ terminated
      log := d.log ++ purged.map fun x => .withdraw x.1 x.2 } := by
  obtain ⟨hall, hnone⟩ := hdoes.pends
  refine ⟨hr, ?_, fun u hne => hdoes.busy u (h.busy u hne) nofun, fun u hu => ?_,
    fun u job' hin => ?_, fun job' => ?_⟩
  · have hdesk := Reachable.withdraw h.desk hall
    rw [← hnone] at hdesk
    exact hdesk
  · rcases hdoes.terminated u hu with hu | hu
    · exact Finset.mem_union_left _ (h.terminated u hu)
    · exact Finset.mem_union_right _ hu
  · rcases List.mem_append.mp hin with hin | hin
    · exact Finset.mem_union_left _ (h.abandoned u job' hin)
    · obtain ⟨x, -, hx⟩ := List.mem_map.mp hin
      cases hx
  · have hdeletions := h.deletions job'
    rw [Daemons.deletions] at hdeletions
    rw [Daemons.deletions, List.count_append, count_purge, hdeletions, times_append,
      times_append, times_withdraw, times_withdraw_ne (by decide)]
    split
    · omega
    · rfl

theorem Keeps.cancel (h : P.Keeps d) (hr : Reachable P.system s)
    (hdoes : P.Does d.pool (.cancel t) s)
    (hwork : d.job t = .holding job ∨ d.job t = .working job) :
    P.Keeps { d with
      pool := s
      job := Function.update d.job t .free
      log := d.log ++ [.abandon t job] } := by
  refine h.logged hr ?_ (h.busy_update (fun u hne hu => hdoes.busy u hu ?_) nofun)
    (h.not_terminated hdoes rfl) ?_ nofun nofun
  · rw [show P.pending s = _ from hdoes.pends]
    have hstep : Step (P.desk d) _ := .abandon hwork
    exact .next (l := ()) h.desk hstep
  · exact fun heq => hne (Option.some.inj heq).symm
  · rintro u job' heq
    cases heq
    exact h.terminated t (hdoes.cancels t rfl)

/-- A step of the pool. -/
theorem Keeps.follow (h : P.Keeps d) (hr : Reachable P.system s)
    (hdoes : P.Does d.pool e s) (hs : d.follow s e = some d') : P.Keeps d' := by
  cases e with
  | nothing =>
      obtain rfl := Option.some.inj hs
      exact h.unlogged hr hdoes hdoes.pends nofun (h.not_terminated hdoes rfl)
  | append q job =>
      obtain ⟨hnew, ⟨⟩⟩ := Option.ite_none_right_eq_some.mp hs
      exact h.append hr hdoes hnew
  | request t =>
      obtain ⟨hfree, ⟨⟩⟩ := Option.ite_none_right_eq_some.mp hs
      refine h.unlogged hr hdoes hdoes.pends (fun u hu => ?_)
        (h.not_terminated hdoes rfl)
      obtain rfl := Option.some.inj hu
      exact hfree
  | take t q job =>
      obtain ⟨hfree, ⟨⟩⟩ := Option.ite_none_right_eq_some.mp hs
      exact h.take hr hdoes hfree
  | shutdown purged terminated =>
      obtain rfl := Option.some.inj hs
      exact h.shutdown hr hdoes
  | cancel t =>
      rw [Daemons.follow] at hs
      split at hs
      next job hwork =>
        obtain rfl := Option.some.inj hs
        exact h.cancel hr hdoes (.inl hwork)
      next job hwork =>
        obtain rfl := Option.some.inj hs
        exact h.cancel hr hdoes (.inr hwork)
      next hfree =>
        obtain rfl := Option.some.inj hs
        refine h.unlogged hr hdoes hdoes.pends (fun u hu => ?_)
          (h.not_terminated hdoes rfl)
        obtain rfl := Option.some.inj hu
        exact hfree

theorem Keeps.run (h : P.Keeps d) (hs : d.run t = some d') : P.Keeps d' := by
  rw [Daemons.run] at hs
  split at hs
  next job hwork =>
    obtain rfl := Option.some.inj hs
    refine h.logged h.pool ?_ (h.busy_update (fun _ _ hu => hu) fun _ => h.busy t ?_)
      h.terminated nofun nofun nofun
    · have hstep : Step (P.desk d) _ := .start hwork
      exact .next (l := ()) h.desk hstep
    · rw [hwork]
      exact nofun
  next => cases hs

theorem Keeps.release (h : P.Keeps d) (hs : d.release t = some d') :
    P.Keeps d' := by
  rw [Daemons.release] at hs
  split at hs
  next job hwork =>
    obtain rfl := Option.some.inj hs
    refine ⟨h.pool, ?_, h.busy_update (fun _ _ hu => hu) (absurd rfl), h.terminated,
      fun u job' hin => ?_, fun job' => ?_⟩
    · have hstep : Step (P.desk d) _ := .finish hwork
      exact .next (l := ()) h.desk hstep
    · rcases List.mem_append.mp hin with hin | hin
      · exact h.abandoned u job' hin
      · cases List.mem_singleton.mp hin
    · have hfinish : times .finish job' (d.log ++ [.finish t job]) =
          times .finish job' d.log + List.count job' [job] := by
        rw [times_append, times_singleton, List.count_singleton]
        simp [Event.kind, Event.item]
      have hwithdraw : times .withdraw job' (d.log ++ [.finish t job]) =
          times .withdraw job' d.log :=
        times_snoc (by intro heq; cases heq) job' d.log
      have hdeletions := h.deletions job'
      rw [Daemons.deletions] at hdeletions
      show _ = if job'.autoRelease then times .finish job' (d.log ++ [.finish t job]) +
        times .withdraw job' (d.log ++ [.finish t job]) else 0
      rw [Daemons.deletions, List.count_append, count_purge, hdeletions, hfinish,
        hwithdraw]
      split
      · omega
      · rfl
  next => cases hs

/-- **A RUN OF A LAWFUL POOL** and its threads. -/
theorem keeps (hP : P.Lawful) (h : Reachable P.daemons d) : P.Keeps d := by
  refine h.invariant (I := P.Keeps) (fun d h0 => .start hP h0) ?_
  intro d a d' _ ih hs
  cases a with
  | pool a =>
      obtain ⟨hnext, hs⟩ := daemonNext_pool hs
      exact ih.follow (.next ih.pool hnext) (hP.next _ _ _ ih.pool hnext) hs
  | run t => exact ih.run hs
  | release t => exact ih.release hs

end AbstractThreadPool

-- ── The fate of a job ────────────────────────────────────────────────────────

/-- How often its runnable is deleted. -/
def ThreadJob.releases (job : ThreadJob) : Nat := if job.autoRelease then 1 else 0

/-- What has become of a job: it was purged, or run, and released if it is to
    be; or the thread that had taken it was terminated. -/
inductive Fate (d : Daemons Q S) (job : ThreadJob) : Prop where
  | purged (hpurged : times .withdraw job d.log = 1)
      (htaken : times .take job d.log = 0) (hrun : times .start job d.log = 0)
      (hdeleted : d.deletions job = job.releases)
  | ran (hpurged : times .withdraw job d.log = 0)
      (htaken : times .take job d.log = 1) (hrun : times .start job d.log = 1)
      (hdeleted : d.deletions job = job.releases)
  | terminated (t : Nat) (q : Q) (hpurged : times .withdraw job d.log = 0)
      (htaken : times .take job d.log = 1) (hby : .take t q job ∈ d.log)
      (hrun : times .start job d.log ≤ 1) (hdeleted : d.deletions job = 0)
      (hterminated : t ∈ d.terminated)

/-- **EACH JOB HAS ITS FATE** once no job is pending and no thread in one. -/
theorem fate (hP : P.Lawful) (h : Reachable P.daemons d)
    (hpending : ∀ q, P.pending d.pool q = []) (hbusy : ∀ t, ¬P.busy d.pool t)
    (hin : .enter q job ∈ d.log) : Fate d job := by
  have hkeeps := AbstractThreadPool.keeps hP h
  have hfree : ∀ t, d.job t = .free := by
    intro t
    by_contra hne
    exact hbusy t (hkeeps.busy t hne)
  have hdeletions := hkeeps.deletions job
  rcases over_of_idle hkeeps.desk hpending hfree hin with
    ⟨q, t, hstory⟩ | ⟨q, hstory⟩ | ⟨q, t, begun, hstory⟩
  · have htimes := times_of_story hstory
    rw [show times .finish job d.log = 1 from htimes _,
      show times .withdraw job d.log = 0 from htimes _] at hdeletions
    exact .ran (htimes _) (htimes _) (htimes _) hdeletions
  · have htimes := times_of_story hstory
    rw [show times .finish job d.log = 0 from htimes _,
      show times .withdraw job d.log = 1 from htimes _] at hdeletions
    exact .purged (htimes _) (htimes _) (htimes _) hdeletions
  · have hstory : about job d.log = (Phase.dropped q t begun).story job := hstory
    have htimes := times_of_story hstory
    have hmem : ∀ l, l ∈ (Phase.dropped q t begun).story job → l ∈ d.log := by
      intro l hl
      rw [← hstory] at hl
      exact (List.mem_filter.mp hl).1
    have habandon : .abandon t job ∈ d.log := by
      refine hmem _ ?_
      cases begun <;> simp [Phase.story]
    have htake : .take t q job ∈ d.log := by
      refine hmem _ ?_
      cases begun <;> simp [Phase.story]
    have hcounts : times .withdraw job d.log = 0 ∧ times .take job d.log = 1 ∧
        times .start job d.log ≤ 1 ∧ times .finish job d.log = 0 := by
      rw [htimes, htimes, htimes, htimes]
      cases begun with
      | false => exact ⟨rfl, rfl, Nat.zero_le 1, rfl⟩
      | true => exact ⟨rfl, rfl, Nat.le_refl 1, rfl⟩
    obtain ⟨hwithdraw, htaken, hrun, hfinish⟩ := hcounts
    rw [hfinish, hwithdraw] at hdeletions
    refine .terminated t q hwithdraw htaken htake hrun ?_
      (hkeeps.abandoned t job habandon)
    rw [hdeletions]
    split <;> rfl

/-- No runnable is deleted twice, or if it is not to be released. -/
theorem deletions_le (hP : P.Lawful) (h : Reachable P.daemons d)
    (job : ThreadJob) : d.deletions job ≤ job.releases := by
  have hkeeps := AbstractThreadPool.keeps hP h
  obtain ⟨henter, htake, -, -, hfinish⟩ := at_most_once hkeeps.desk job
  have hdeletions := hkeeps.deletions job
  rw [hdeletions, ThreadJob.releases]
  split
  · show times .finish job (P.desk d).log + times .withdraw job (P.desk d).log ≤ 1
    omega
  · exact Nat.le_refl 0

/-- What is kept of the jobs of a pool with one queue, and settled when
    `Shutdown` has `joined` the threads. -/
structure Conserves {S A : Type} (P : AbstractThreadPool Unit S A) (joined : A)
    (d : Daemons Unit S) : Prop where
  order : entered () d.log = left () d.log ++ P.pending d.pool ()
  distinct : (entered () d.log).Nodup
  once : ∀ job, times .take job d.log + times .withdraw job d.log ≤ 1 ∧
    times .start job d.log ≤ times .take job d.log ∧
    d.deletions job ≤ job.releases
  settled : ∀ d', P.daemonNext d (.pool joined) = some d' →
    ∀ job ∈ entered () d'.log, Fate d' job

/-- If no job is pending and no thread in one when the threads are joined. -/
theorem conserves {S A : Type} {P : AbstractThreadPool Unit S A} {joined : A}
    {d : Daemons Unit S} (hP : P.Lawful)
    (hjoined : ∀ s s', Reachable P.system s → P.next s joined = some s' →
      (∀ q, P.pending s' q = []) ∧ ∀ t, ¬P.busy s' t)
    (h : Reachable P.daemons d) : Conserves P joined d := by
  have hkeeps := AbstractThreadPool.keeps hP h
  refine ⟨entered_eq hkeeps.desk (), entered_nodup hkeeps.desk (), fun job => ?_,
    fun d' hs job hin => ?_⟩
  · obtain ⟨henter, htake, hstart, -, -⟩ := at_most_once hkeeps.desk job
    exact ⟨Nat.le_trans htake henter, hstart, deletions_le hP h job⟩
  · obtain ⟨hpending, hbusy⟩ :=
      hjoined _ _ hkeeps.pool (AbstractThreadPool.daemonNext_pool hs).1
    exact fate hP (.next h hs) hpending hbusy (mem_entered.mp hin)

-- ── What threads come to ─────────────────────────────────────────────────────

section Service

variable {S A : Type} {P : AbstractThreadPool Q S A} {own : A → Prop}
variable {I : S → Prop} {s s' : S} {q : Q} {job : ThreadJob}

omit [DecidableEq Q]

/-- The threads alone, by their `own` steps, can go on until the job is taken. -/
inductive AbstractThreadPool.Serves (P : AbstractThreadPool Q S A)
    (own : A → Prop) (q : Q) (job : ThreadJob) : S → Prop where
  | takes {s s' : S} {a : A} {t : Nat} (ha : own a) (hs : P.next s a = some s')
      (he : P.effect s a = .take t q job) : P.Serves own q job s
  | goes {s s' : S} {a : A} (ha : own a) (hs : P.next s a = some s')
      (h : P.Serves own q job s') : P.Serves own q job s

/-- The same of the first job, with what holds behind. -/
inductive AbstractThreadPool.Comes (P : AbstractThreadPool Q S A)
    (own : A → Prop) (I : S → Prop) (q : Q) (job : ThreadJob)
    (rest : List ThreadJob) : S → Prop where
  | takes {s s' : S} {a : A} {t : Nat} (ha : own a) (hs : P.next s a = some s')
      (he : P.effect s a = .take t q job) (hi : I s')
      (hrest : P.pending s' q = rest) : P.Comes own I q job rest s
  | goes {s s' : S} {a : A} (ha : own a) (hs : P.next s a = some s')
      (h : P.Comes own I q job rest s') : P.Comes own I q job rest s

theorem AbstractThreadPool.Comes.serves {rest : List ThreadJob}
    (h : P.Comes own I q job rest s) : P.Serves own q job s := by
  induction h with
  | takes ha hs he _ _ => exact .takes ha hs he
  | goes ha hs _ ih => exact .goes ha hs ih

/-- What can be done behind it can be done. -/
theorem AbstractThreadPool.Comes.then_serves {first : ThreadJob}
    {rest : List ThreadJob} (h : P.Comes own I q first rest s)
    (hthen : ∀ s', I s' → P.pending s' q = rest → P.Serves own q job s') :
    P.Serves own q job s := by
  induction h with
  | takes ha hs _ hi hrest => exact .goes ha hs (hthen _ hi hrest)
  | goes ha hs _ ih => exact .goes ha hs ih

/-- **IN TURN**: if the first job can always be taken, each can. -/
theorem serves_of_comes
    (hhead : ∀ s job rest, I s → P.pending s q = job :: rest →
      P.Comes own I q job rest s)
    (hi : I s) (hin : job ∈ P.pending s q) : P.Serves own q job s := by
  generalize hpending : P.pending s q = jobs at hin
  induction jobs generalizing s with
  | nil => cases hin
  | cons first rest ih =>
      have hcomes := hhead s first rest hi hpending
      rcases List.mem_cons.mp hin with rfl | hin
      · exact hcomes.serves
      · exact hcomes.then_serves fun s' hi' hrest => ih hi' hrest hin

end Service

end FlinterThread
