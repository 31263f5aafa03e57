import Flinter.ThreadObjectProofs
import Flinter.KeyedThreadPoolProofs
import Flinter.GrowableThreadPoolServeProofs
import Flinter.GrowableThreadPoolThreadProofs

/-! # Thread pools and the work that they cannot run

    All three pools look at `_initializing` only, so they accept jobs without
    threads.  `FixedThreadPool` has them run once it is initialized.
    `GrowableThreadPool` makes threads in `AppendJob`, so a job that is there
    before its first `Initialize` is not run by that; behind a `Shutdown` it
    makes new ones.  If none can be made `AppendJob` throws, and the job is there
    all the same.  `KeyedThreadPool` divides by the number of its threads.

    Nobody purges what is pending in a pool without threads when that is
    destroyed. -/

namespace FlinterThreadPool

open Runs Desks FlinterThread

-- ── FixedThreadPool ──────────────────────────────────────────────────────────

namespace Fixed

open FlinterFixedThreadPool

def owner : Owner FixedThreadPool Act where
  undefined := fun _ _ => false
  idle := fun s => !s.initializing && s.threads.isEmpty
  shutdown := .shutdown false
  joined := fun
    | .joined => true
    | _ => false

/-- It has threads. -/
def ready (s : FixedThreadPool) : Prop := s.threads ≠ []

/-- Whatever is called. -/
def allowed (_ : FixedThreadPool) (_ : Act) : Prop := True

/-- Without exceptions. -/
def spared (_ : FixedThreadPool) (_ : Act) : Prop := False

theorem promises : Promises pool owner own ready allowed spared where
  lawful := lawful
  shutdown := fun _ => trivial
  defined := fun _ _ _ => rfl
  idle := by
    intro s hr hidle t hbusy
    have hbusy : (s.place t).busy = true := hbusy
    rw [(reachable_sound hr.of_restrict).roster.calm hidle t] at hbusy
    cases hbusy
  joined := by
    intro s a s' hr hjoined hs
    cases a with
    | joined => exact joined_done hr.of_restrict hs
    | _ => cases hjoined
  serves := fun s _ job hr hready hin => serves (reachable_sound hr.of_restrict) hready hin
  exact := fun _ _ _ hnot _ => absurd trivial hnot

end Fixed

-- ── KeyedThreadPool ──────────────────────────────────────────────────────────

namespace Keyed

open FlinterKeyedThreadPool

/-- `key % size` has no result without threads. -/
def owner : Owner KeyedThreadPool Act where
  undefined := fun s a =>
    match a with
    | .appendJobWithKey key _ => !s.initializing && (s.context key).isNone
    | _ => false
  idle := fun s => !s.initializing && s.threads.isEmpty
  shutdown := .shutdown false
  joined := fun
    | .joined => true
    | _ => false

/-- It has threads. -/
def ready (s : KeyedThreadPool) : Prop := s.threads ≠ []

/-- Jobs are appended while there are threads, or `Shutdown` joins them. -/
def allowed (s : KeyedThreadPool) : Act → Prop
  | .appendJobWithKey _ _ => s.initializing = true ∨ s.threads ≠ []
  | _ => True

/-- Without exceptions. -/
def spared (_ : KeyedThreadPool) (_ : Act) : Prop := False

theorem undefined_iff {s : KeyedThreadPool} {a : Act} :
    owner.undefined s a = true ↔ ¬allowed s a := by
  cases a with
  | appendJobWithKey key job =>
      show (!s.initializing && (s.context key).isNone) = true ↔
        ¬(s.initializing = true ∨ s.threads ≠ [])
      rw [← context_isSome key, Bool.and_eq_true_iff, not_or]
      simp
  | _ => exact ⟨nofun, fun hnot => absurd trivial hnot⟩

theorem promises : Promises pool owner own ready allowed spared where
  lawful := lawful
  shutdown := fun _ => trivial
  defined := by
    intro s a hallowed
    by_contra hundefined
    exact undefined_iff.mp (Bool.not_eq_false _ ▸ hundefined) hallowed
  idle := by
    intro s hr hidle t hbusy
    have hbusy : (s.place t).busy = true := hbusy
    rw [(reachable_sound hr.of_restrict).roster.calm hidle t] at hbusy
    cases hbusy
  joined := by
    intro s a s' hr hjoined hs
    cases a with
    | joined => exact joined_done hr.of_restrict hs
    | _ => cases hjoined
  serves := fun s _ job hr _ hin => serves (reachable_sound hr.of_restrict) hin
  exact := fun _ _ _ hnot _ => .inl (undefined_iff.mpr hnot)

end Keyed

-- ── GrowableThreadPool ───────────────────────────────────────────────────────

namespace Growable

open FlinterGrowableThreadPool

variable {s s' : GrowableThreadPool ThreadJob} {a : FlinterGrowableThreadPool.Act ThreadJob}

/-- From the constructor on. -/
def fromNew : AbstractThreadPool Unit (GrowableThreadPool ThreadJob)
    (FlinterGrowableThreadPool.Act ThreadJob) :=
  jobPool fun s => s = .new

def owner : Owner (GrowableThreadPool ThreadJob)
    (FlinterGrowableThreadPool.Act ThreadJob) where
  undefined := fun _ _ => false
  idle := fun s => !s.initializing && decide (s.threads = ∅)
  shutdown := .shutdown false
  joined := fun
    | .joined => true
    | _ => false

/-- It has been initialized. -/
def ready (s : GrowableThreadPool ThreadJob) : Prop :=
  0 < s.size ∧ s.initializing = false

/-- It is initialized without jobs, and no `AppendJob` throws. -/
def allowed (s : GrowableThreadPool ThreadJob) :
    FlinterGrowableThreadPool.Act ThreadJob → Prop
  | .initializeSize _ => s.pendingJobs = []
  | .appendJobThrows _ _ => False
  | _ => True

/-- An `AppendJob` that throws while there are threads, or behind one that it has
    made: these may take the job. -/
def spared (s : GrowableThreadPool ThreadJob) :
    FlinterGrowableThreadPool.Act ThreadJob → Prop
  | .appendJobThrows _ made => s.threads ≠ ∅ ∨ made ≠ 0
  | _ => False

theorem fresh (h : Reachable fromNew.system s) :
    ∀ t, s.spawned ≤ t → s.place t = .absent := by
  obtain ⟨k, hk⟩ := h.exists_record Ends.none note
  rcases (reachable_kept hk).stage with hbare | ⟨hsound, -, -⟩ | ⟨hshut, -, -⟩
  · exact fun t _ => hbare.place t
  · exact hsound.fresh
  · exact hshut.fresh

theorem lawful_fromNew : fromNew.Lawful := by
  refine lawful (fun s h0 => ?_) fun s h => fresh h
  have h0 : s = .new := h0
  rw [h0]
  exact ⟨rfl, fun _ => rfl⟩

/-- A step that is allowed. -/
theorem next_of_allowed (h : (Good s ∨ Closing s) ∨ Doomed s) (hallowed : allowed s a)
    (hs : next s a = some s') : (Good s' ∨ Closing s') ∨ Doomed s' := by
  rcases h with (hgood | hclosing) | hdoomed
  · cases a with
    | shutdown w =>
        by_cases hzero : s.exits = 0
        · exact .inl (.inr (hgood.loose.closing hzero hs))
        · have huntimely : ¬Timely s (.shutdown w) := hzero
          exact .inr (doomed_of_untimely (.inl hgood.loose) huntimely hs)
    | appendJobThrows job made => exact hallowed.elim
    | _ =>
        refine .inl (.inl (hgood.next ?_ hs))
        trivial
  · by_cases htimely : Timely s a
    · exact .inl (hclosing.next_timely htimely hs)
    · exact .inr (doomed_of_untimely (.inr hclosing) htimely hs)
  · exact .inr (hdoomed.next hs)

/-- Where a run is that is allowed. -/
theorem cases_of_allowed (h : Reachable (fromNew.system.restrict allowed) s) :
    Bare s ∨ (Good s ∨ Closing s) ∨ Doomed s := by
  refine h.invariant (I := fun s => Bare s ∨ (Good s ∨ Closing s) ∨ Doomed s) ?_ ?_
  · intro s h0
    have h0 : s = .new := h0
    rw [h0]
    exact .inl bare_new
  · rintro s a s' - hi ⟨hallowed, hs⟩
    have hs : next s a = some s' := hs
    rcases hi with hbare | hcases
    · rcases hbare.next_cases hs with ⟨job, who, rfl, hs⟩ | ⟨size, rfl, hs⟩
      · exact .inl (hbare.appendJob hs)
      · have hnew := hbare.eq_new hallowed
        subst hnew
        exact .inr (.inl (.inl (good_start hs)))
    · exact .inr (next_of_allowed hcases hallowed hs)

/-- A pool that is not shut down has not been initialized, or keeps the
    balance. -/
theorem bare_or_good (h : Reachable (fromNew.system.restrict allowed) s)
    (hopen : s.initializing = false) : Bare s ∨ Good s := by
  rcases cases_of_allowed h with hbare | hcases
  · exact .inl hbare
  · rcases hcases with (hgood | hclosing) | hdoomed
    · exact .inr hgood
    · rw [hclosing.shut.initializing] at hopen
      cases hopen
    · rw [hdoomed.shut.initializing] at hopen
      cases hopen

/-- Without threads no job is pending that the pool has to see to. -/
theorem pending_of_idle (hgood : Good s) (hthreads : s.threads = ∅) :
    s.pendingJobs = [] := by
  have hcard := hgood.sound.card_threads
  have haccount := hgood.balance.account
  rw [hthreads, Finset.card_empty] at hcard
  exact List.length_eq_zero_iff.mp (by omega)

/-- Nobody takes a job if there is no thread. -/
theorem not_serves {q : Unit} {job : ThreadJob} (hplace : ∀ t, (s.place t).live = 0) :
    ¬fromNew.Serves own q job s := by
  have hnone : ∀ a s', own a → ¬next s a = some s' := by
    intro a s' ha hs
    cases a with
    | requestJob t jobs who =>
        have hs : s.requestJob t jobs who = some s' := hs
        have hdead := hplace t
        rw [GrowableThreadPool.requestJob] at hs
        split at hs
        next hp => rw [hp] at hdead; cases hdead
        next hp => rw [hp] at hdead; cases hdead
        next => cases hs
    | resume t who =>
        have hs : s.resume t who = some s' := hs
        have hdead := hplace t
        rw [GrowableThreadPool.resume] at hs
        split at hs
        next hp => rw [hp] at hdead; cases hdead
        next hp => rw [hp] at hdead; cases hdead
        next => cases hs
    | _ => exact ha
  intro hserves
  cases hserves with
  | takes ha hs _ => exact hnone _ _ ha hs
  | goes ha hs _ => exact hnone _ _ ha hs

/-- The places of a pool without threads. -/
theorem live_of_idle (h : Bare s ∨ Good s) (hthreads : s.threads = ∅) (t : Nat) :
    (s.place t).live = 0 := by
  rcases h with hbare | hgood
  · rw [hbare.place]
    rfl
  · have hnot := mt (hgood.sound.threads t).mpr (by rw [hthreads]; exact Finset.notMem_empty t)
    cases hp : s.place t <;> first | rfl | (rw [hp] at hnot; exact absurd rfl hnot)

/-- An `AppendJob` that throws and has no thread for its job. -/
theorem not_serves_of_throws {job : ThreadJob} {made : Nat} (h : Bare s ∨ Good s)
    (hthreads : s.threads = ∅) (hmade : made = 0)
    (hs : s.appendJobThrows job made = some s') :
    ready s' ∧ job ∈ s'.pendingJobs ∧ ¬fromNew.Serves own () job s' := by
  obtain ⟨hopen, -, hsize, -, rfl⟩ := appendJobThrows_cases hs
  subst hmade
  refine ⟨⟨hsize, hopen⟩, List.mem_append_right _ (List.mem_singleton_self job),
    not_serves fun t => ?_⟩
  have hnew : ¬(s.spawned ≤ t ∧ t < s.spawned + 0) := by omega
  have hplace : ((s.push job).spawn 0).place t = s.place t := if_neg hnew
  rw [hplace]
  exact live_of_idle h hthreads t

theorem promises : Promises fromNew owner own ready allowed spared where
  lawful := lawful_fromNew
  shutdown := fun _ => trivial
  defined := fun _ _ _ => rfl
  idle := by
    intro s hr hidle t hbusy
    obtain ⟨hopen, hthreads⟩ := Bool.and_eq_true_iff.mp hidle
    rw [Bool.not_eq_true'] at hopen
    have hthreads := of_decide_eq_true hthreads
    have hbusy : (s.place t).busy = true := hbusy
    have hdead := live_of_idle (bare_or_good hr hopen) hthreads t
    cases hp : s.place t with
    | running job terminated =>
        rw [hp] at hdead
        exact absurd hdead Nat.one_ne_zero
    | _ =>
        rw [hp] at hbusy
        cases hbusy
  joined := by
    intro s a s' hr hjoined hs
    cases a with
    | joined =>
        have hs : s.joined = some s' := hs
        rcases cases_of_allowed hr with hbare | hcases
        · rw [GrowableThreadPool.joined, hbare.is_open] at hs
          obtain ⟨⟨hinit, -⟩, -⟩ := Option.ite_none_right_eq_some.mp hs
          cases hinit
        · exact joined_done (hcases.imp_left (Or.imp_left Good.loose)) hs
    | _ => cases hjoined
  serves := by
    rintro s q job hr ⟨hsize, hopen⟩ hin
    rcases bare_or_good hr hopen with hbare | hgood
    · rw [hbare.size] at hsize
      cases hsize
    · exact hgood.serves hin
  exact := by
    intro s a hr hnot hspare
    cases a with
    | appendJobThrows job made =>
        refine .inr fun s' hs => ?_
        have hs : s.appendJobThrows job made = some s' := hs
        obtain ⟨hthreads, hmade⟩ := not_or.mp hspare
        have hopen := (appendJobThrows_cases hs).1
        obtain ⟨hready, hin, hserves⟩ := not_serves_of_throws (bare_or_good hr hopen)
          (not_not.mp hthreads) (not_not.mp hmade) hs
        exact ⟨hready, (), job, hin, hserves⟩
    | initializeSize size =>
        refine .inr fun s' hs => ?_
        have hpending : s.pendingJobs ≠ [] := hnot
        have hs : s.initializeSize size = some s' := hs
        rw [GrowableThreadPool.initializeSize] at hs
        obtain ⟨hcond, ⟨⟩⟩ := Option.ite_none_left_eq_some.mp hs
        obtain ⟨hsize, hcond⟩ := not_or.mp hcond
        obtain ⟨hopen, hthreads⟩ := not_or.mp hcond
        have hopen := Bool.eq_false_iff.mpr hopen
        obtain ⟨job, hin⟩ := List.exists_mem_of_ne_nil _ hpending
        refine ⟨⟨Nat.pos_of_ne_zero hsize, hopen⟩, (), job, hin, ?_⟩
        rcases bare_or_good hr hopen with hbare | hgood
        · exact not_serves fun t => by
            show (s.place t).live = 0
            rw [hbare.place]
            rfl
        · exact absurd (pending_of_idle hgood (not_not.mp hthreads)) hpending
    | _ => exact absurd trivial hnot

end Growable

-- ── All three ────────────────────────────────────────────────────────────────

/-- **WORK IS REFUSED OR DONE** as long as no `KeyedThreadPool` without threads is
    given a job, no `GrowableThreadPool` is initialized when it has jobs, no
    `AppendJob` of one throws, and no pool without threads is destroyed when it has
    jobs. -/
theorem work_refused
    {f : Daemons Unit (PoolObject FlinterFixedThreadPool.FixedThreadPool)}
    {g : Daemons Unit
      (PoolObject (FlinterGrowableThreadPool.GrowableThreadPool ThreadJob))}
    {k : Daemons Nat (PoolObject FlinterKeyedThreadPool.KeyedThreadPool)}
    (hf : AllowedRun FlinterFixedThreadPool.pool Fixed.owner Fixed.allowed f)
    (hg : AllowedRun Growable.fromNew Growable.owner Growable.allowed g)
    (hk : AllowedRun FlinterKeyedThreadPool.pool Keyed.owner Keyed.allowed k) :
    HonestWhile FlinterFixedThreadPool.pool Fixed.owner FlinterFixedThreadPool.own
      Fixed.ready Fixed.allowed Fixed.spared f ∧
    HonestWhile Growable.fromNew Growable.owner FlinterGrowableThreadPool.own
      Growable.ready Growable.allowed Growable.spared g ∧
    HonestWhile FlinterKeyedThreadPool.pool Keyed.owner FlinterKeyedThreadPool.own
      Keyed.ready Keyed.allowed Keyed.spared k :=
  ⟨Fixed.promises.honest_while hf, Growable.promises.honest_while hg,
    Keyed.promises.honest_while hk⟩

namespace Single

/-- A job that is to be released. -/
def task : ThreadJob := ⟨0, 0, true⟩

/-- An object that has just been made. -/
def made {Q S : Type} (pool : S) : Daemons Q (PoolObject S) :=
  ⟨⟨pool, .built⟩, fun _ => .free, [], ∅, []⟩

/-- The job is appended before there are threads, and run. -/
def fixedActs : List (FlinterThread.Act (Call FlinterFixedThreadPool.Act)) :=
  [.pool (.act (.appendJob task ∅)), .pool (.act (.initializeSize 1)),
    .pool (.act (.requestJob 0)), .run 0, .release 0]

def fixed : Daemons Unit (PoolObject FlinterFixedThreadPool.FixedThreadPool) :=
  (fixedActs.foldlM (FlinterFixedThreadPool.pool.object Fixed.owner).daemonNext
    (made .new)).get (by decide)

theorem allowed_fixed :
    AllowedRun FlinterFixedThreadPool.pool Fixed.owner Fixed.allowed fixed := by
  have hmade : AllowedRun FlinterFixedThreadPool.pool Fixed.owner Fixed.allowed
      (made .new) := .start ⟨⟨rfl, rfl⟩, rfl, rfl, rfl, rfl⟩
  refine hmade.steps (fun a ha d => ?_) (Option.some_get _).symm
  simp only [fixedActs, List.mem_cons, List.not_mem_nil, or_false] at ha
  rcases ha with rfl | rfl | rfl | rfl | rfl <;> trivial

def growableMade :
    Daemons Unit (PoolObject (FlinterGrowableThreadPool.GrowableThreadPool ThreadJob)) :=
  ((Growable.fromNew.object Growable.owner).daemonNext (made .new)
    (.pool (.act (.initializeSize 1)))).get (by decide)

/-- The job is appended, and run. -/
def growableActs :
    List (FlinterThread.Act (Call (FlinterGrowableThreadPool.Act ThreadJob))) :=
  [.pool (.act (.appendJob task ∅)), .pool (.act (.requestJob 0 ∅ ∅)), .run 0,
    .release 0]

def growable :
    Daemons Unit (PoolObject (FlinterGrowableThreadPool.GrowableThreadPool ThreadJob)) :=
  (growableActs.foldlM (Growable.fromNew.object Growable.owner).daemonNext
    growableMade).get (by decide)

theorem allowed_growable :
    AllowedRun Growable.fromNew Growable.owner Growable.allowed growable := by
  have hmade : AllowedRun Growable.fromNew Growable.owner Growable.allowed
      (made .new) := .start ⟨⟨rfl, rfl⟩, rfl, rfl, rfl, rfl⟩
  have hgrowable : AllowedRun Growable.fromNew Growable.owner Growable.allowed
      growableMade :=
    hmade.step (a := .pool (.act (.initializeSize 1))) rfl (Option.some_get _).symm
  refine hgrowable.steps (fun a ha d => ?_) (Option.some_get _).symm
  simp only [growableActs, List.mem_cons, List.not_mem_nil, or_false] at ha
  rcases ha with rfl | rfl | rfl | rfl <;> trivial

def keyedMade : Daemons Nat (PoolObject FlinterKeyedThreadPool.KeyedThreadPool) :=
  ((FlinterKeyedThreadPool.pool.object Keyed.owner).daemonNext (made .new)
    (.pool (.act (.initializeSize 1)))).get (by decide)

/-- The job is appended when there is a thread. -/
def keyed : Daemons Nat (PoolObject FlinterKeyedThreadPool.KeyedThreadPool) :=
  ((FlinterKeyedThreadPool.pool.object Keyed.owner).daemonNext keyedMade
    (.pool (.act (.appendJobWithKey 7 task)))).get (by decide)

theorem allowed_keyed :
    AllowedRun FlinterKeyedThreadPool.pool Keyed.owner Keyed.allowed keyed := by
  have hmade : AllowedRun FlinterKeyedThreadPool.pool Keyed.owner Keyed.allowed
      (made .new) := .start ⟨⟨rfl, rfl⟩, rfl, rfl, rfl, rfl⟩
  have hkeyed : AllowedRun FlinterKeyedThreadPool.pool Keyed.owner Keyed.allowed
      keyedMade :=
    hmade.step (a := .pool (.act (.initializeSize 1))) trivial (Option.some_get _).symm
  refine hkeyed.step (a := .pool (.act (.appendJobWithKey 7 task))) (.inr ?_)
    (Option.some_get _).symm
  decide

end Single

/-- Of a job that is appended too early, and of two that are not. -/
theorem work_refused_single :
    HonestWhile FlinterFixedThreadPool.pool Fixed.owner FlinterFixedThreadPool.own
      Fixed.ready Fixed.allowed Fixed.spared Single.fixed ∧
    HonestWhile Growable.fromNew Growable.owner FlinterGrowableThreadPool.own
      Growable.ready Growable.allowed Growable.spared Single.growable ∧
    HonestWhile FlinterKeyedThreadPool.pool Keyed.owner FlinterKeyedThreadPool.own
      Keyed.ready Keyed.allowed Keyed.spared Single.keyed :=
  work_refused Single.allowed_fixed Single.allowed_growable Single.allowed_keyed

/-- **A KEY IS DIVIDED BY ZERO**: a job is given to a pool that has no threads. -/
theorem key_divided : ¬∀ d,
    Reachable (FlinterKeyedThreadPool.pool.object Keyed.owner).daemons d →
    d.pool.stage ≠ .undefined := by
  intro hclaim
  have hmade : Reachable (FlinterKeyedThreadPool.pool.object Keyed.owner).daemons
      (Single.made .new) := .start ⟨⟨rfl, rfl⟩, rfl, rfl, rfl, rfl⟩
  have hundefined : (FlinterKeyedThreadPool.pool.object Keyed.owner).daemonNext
      (Single.made .new) (.pool (.act (.appendJobWithKey 7 Single.task))) =
      some { Single.made FlinterKeyedThreadPool.KeyedThreadPool.new with
        pool := ⟨.new, .undefined⟩ } := rfl
  exact hclaim _ (.next hmade hundefined) rfl

end FlinterThreadPool
