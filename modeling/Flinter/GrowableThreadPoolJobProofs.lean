import Flinter.FixedThreadPoolProofs
import Flinter.GrowableThreadPoolShutdownProofs

/-! # GrowableThreadPool: its jobs, and those of FixedThreadPool

    Both pools hand out their jobs in the order in which they were appended, and
    purge at `Shutdown` those that nobody has taken, also those of an `AppendJob`
    that throws.  A job that was taken is run
    and released, unless `Shutdown` terminates the thread: then it may not have
    been run, and is not released. -/

namespace FlinterGrowableThreadPool

open Runs Tallies Desks FlinterThread

namespace Place

/-- In a job. -/
def busy : Place ThreadJob → Bool
  | .running _ _ => true
  | _ => false

def terminated : Place ThreadJob → Bool
  | .running _ terminated => terminated
  | _ => false

theorem busy_wake (p : Place ThreadJob) : p.wake.busy = p.busy := by
  cases p <;> rfl

theorem terminated_wake (p : Place ThreadJob) :
    p.wake.terminated = p.terminated := by
  cases p <;> rfl

end Place

/-- What `RequestJob` did for a thread that is then in a job, or is not. -/
def asked (t : Nat) : Option (GrowableThreadPool ThreadJob) → Effect Unit
  | some s =>
      match s.place t with
      | .running job _ => .take t () job
      | _ => .request t
  | none => .nothing

/-- The threads that `Shutdown` terminates. -/
def doomed (s : GrowableThreadPool ThreadJob) (waitForJobsDone : Bool) :
    Finset Nat :=
  if waitForJobsDone then ∅ else s.actives

/-- What a step does with jobs. -/
def effect (s : GrowableThreadPool ThreadJob) : Act ThreadJob → Effect Unit
  | .appendJob job _ | .appendJobThrows job _ => .append () job
  | .requestJob t jobs who => asked t (s.requestJob t jobs who)
  | .resume t who => asked t (s.resume t who)
  | .cancel t => .cancel t
  | .shutdown waitForJobsDone =>
      .shutdown (s.pendingJobs.map fun job => ((), job))
        (doomed s waitForJobsDone)
  | .initializeSize _ | .stir _ | .joined => .nothing

/-- The pool, from where it starts on. -/
def jobPool (start : GrowableThreadPool ThreadJob → Prop) :
    AbstractThreadPool Unit (GrowableThreadPool ThreadJob) (Act ThreadJob) where
  start := start
  next := next
  effect := effect
  pending := fun s _ => s.pendingJobs
  busy := fun s t => (s.place t).busy = true
  terminated := fun s t => (s.place t).terminated = true

-- ── What a thread does that asks for a job ───────────────────────────────────

variable {s s' s'' : GrowableThreadPool ThreadJob} {t reaped exits : Nat}
variable {who jobs : Finset Nat} {a : Act ThreadJob} {job : ThreadJob}
variable {start : GrowableThreadPool ThreadJob → Prop}

/-- The other threads stay in their jobs. -/
def Others (s : GrowableThreadPool ThreadJob) (t : Nat)
    (s' : GrowableThreadPool ThreadJob) : Prop :=
  ∀ u, u ≠ t → (s'.place u).busy = (s.place u).busy ∧
    (s'.place u).terminated = (s.place u).terminated

theorem Others.trans (h : Others s t s') (h' : Others s' t s'') :
    Others s t s'' := fun u hu =>
  ⟨(h' u hu).1.trans (h u hu).1, (h' u hu).2.trans (h u hu).2⟩

theorem others_setPlace (s : GrowableThreadPool ThreadJob)
    {u : GrowableThreadPool ThreadJob} (p : Place ThreadJob)
    (hu : u.place = Function.update s.place t p) : Others s t u := by
  intro v hv
  rw [hu, Function.update_of_ne hv]
  exact ⟨rfl, rfl⟩

theorem wakeUp_same (s : GrowableThreadPool ThreadJob) (who : Finset Nat)
    (v : Nat) : ((s.wakeUp who).place v).busy = (s.place v).busy ∧
      ((s.wakeUp who).place v).terminated = (s.place v).terminated := by
  rcases wakeUp_place s who v with heq | heq
  · rw [heq]
    exact ⟨Place.busy_wake _, Place.terminated_wake _⟩
  · rw [heq]
    exact ⟨rfl, rfl⟩

theorem others_wakeUp (s : GrowableThreadPool ThreadJob) (who : Finset Nat) :
    Others s t (s.wakeUp who) := fun v _ => wakeUp_same s who v

theorem setPlace_idle {p : Place ThreadJob} (hp : p.busy = false) :
    ((s.setPlace t p).place t).busy = false := by
  show (Function.update s.place t p t).busy = false
  rw [Function.update_self]
  exact hp

/-- It takes the first job, or none. -/
inductive Asks (s : GrowableThreadPool ThreadJob) (t : Nat)
    (s' : GrowableThreadPool ThreadJob) : Prop where
  | takes {job : ThreadJob} (hpending : s.pendingJobs = job :: s'.pendingJobs)
      (hplace : s'.place t = .running job false) (hothers : Others s t s')
  | idles (hpending : s'.pendingJobs = s.pendingJobs)
      (hplace : (s'.place t).busy = false) (hothers : Others s t s')

theorem Asks.of_others {u : GrowableThreadPool ThreadJob} (h : Asks u t s')
    (hpending : u.pendingJobs = s.pendingJobs) (hothers : Others s t u) :
    Asks s t s' := by
  cases h with
  | takes hp hplace ho => exact .takes (hpending ▸ hp) hplace (hothers.trans ho)
  | idles hp hplace ho =>
      exact .idles (hp.trans hpending) hplace (hothers.trans ho)

theorem tryRequestJob_asks {terminated : Bool}
    (hs : s.tryRequestJob t terminated who = some s') : Asks s t s' := by
  rw [GrowableThreadPool.tryRequestJob] at hs
  by_cases hpos : 0 < sizeT s.exits
  · rw [if_pos hpos] at hs
    dsimp only at hs
    split at hs
    next =>
      obtain rfl := Option.some.inj hs
      exact .idles rfl (setPlace_idle rfl) (others_setPlace s .gone rfl)
    next =>
      obtain ⟨-, ⟨⟩⟩ := Option.ite_none_right_eq_some.mp hs
      refine .idles rfl ?_ ((others_setPlace s .gone rfl).trans (others_wakeUp _ who))
      rcases wakeUp_place ({ s with exits := s.exits - 1 }.setPlace t .gone) who t
        with heq | heq
      · refine (congrArg Place.busy heq).trans ?_
        rw [Place.busy_wake]
        exact setPlace_idle rfl
      · exact (congrArg Place.busy heq).trans (setPlace_idle rfl)
  · rw [if_neg hpos] at hs
    split at hs
    next job rest hpending =>
      obtain rfl := Option.some.inj hs
      exact .takes hpending (Function.update_self ..) (others_setPlace s _ rfl)
    next hpending =>
      obtain rfl := Option.some.inj hs
      refine .idles rfl (setPlace_idle ?_) (others_setPlace s _ rfl)
      cases terminated <;> rfl

theorem reap_asks (hs : s.reap t reaped exits who = some s') : Asks s t s' := by
  rw [GrowableThreadPool.reap] at hs
  split at hs
  next =>
    exact (tryRequestJob_asks hs).of_others rfl (others_setPlace s .woken rfl)
  next =>
    obtain rfl := Option.some.inj hs
    exact .idles rfl (setPlace_idle rfl) (others_setPlace s _ rfl)

theorem maybeShrink_asks {terminated : Bool}
    (hs : s.maybeShrink t terminated jobs who = some s') : Asks s t s' := by
  rw [GrowableThreadPool.maybeShrink] at hs
  split at hs
  next => exact tryRequestJob_asks hs
  next =>
    obtain ⟨-, hs⟩ := Option.ite_none_right_eq_some.mp hs
    refine (reap_asks hs).of_others rfl ?_
    exact (others_wakeUp s jobs).trans (others_setPlace _ _ rfl)

theorem requestJob_asks (hs : s.requestJob t jobs who = some s') :
    Asks s t s' := by
  have henter : ∀ {terminated : Bool},
      (s.enter t).maybeShrink t terminated jobs who = some s' → Asks s t s' :=
    fun hs => (maybeShrink_asks hs).of_others rfl (others_setPlace s .woken rfl)
  rw [GrowableThreadPool.requestJob] at hs
  split at hs
  · exact henter hs
  · exact henter hs
  · cases hs

theorem resume_asks (hs : s.resume t who = some s') : Asks s t s' := by
  rw [GrowableThreadPool.resume] at hs
  split at hs
  · exact tryRequestJob_asks hs
  · exact reap_asks hs
  · cases hs

-- ── The pool is lawful ───────────────────────────────────────────────────────

theorem pending_update {u : GrowableThreadPool ThreadJob} {jobs : List ThreadJob}
    (h : u.pendingJobs = jobs) : (jobPool start).pending u =
      Function.update ((jobPool start).pending s) () jobs := by
  funext q
  rw [Function.update_self]
  exact h

/-- A thread asks for a job. -/
theorem Asks.does (h : Asks s t s') :
    (jobPool start).Does s (asked t (some s')) s' := by
  cases h with
  | @takes job hpending hplace hothers =>
      have heffect : asked t (some s') = .take t () job := by
        rw [asked, hplace]
      rw [heffect]
      refine ⟨⟨s'.pendingJobs, hpending, pending_update rfl⟩, fun v hv _ => ?_, ?_,
        fun v hv => .inl ?_, nofun⟩
      · show (s'.place v).busy = true
        by_cases heq : v = t
        · rw [heq, hplace]
          rfl
        · exact (hothers v heq).1.trans hv
      · rintro v q job' heq
        cases heq
        show (s'.place t).busy = true
        rw [hplace]
        rfl
      · have hv : (s'.place v).terminated = true := hv
        by_cases heq : v = t
        · rw [heq, hplace] at hv
          cases hv
        · exact (hothers v heq).2.symm.trans hv
  | idles hpending hplace hothers =>
      have heffect : asked t (some s') = .request t := by
        rw [asked]
        split
        next hp =>
          rw [hp] at hplace
          cases hplace
        next => rfl
      rw [heffect]
      refine ⟨funext fun _ => hpending, fun v hv hleft => ?_, nofun,
        fun v hv => .inl ?_, nofun⟩
      · have hne : v ≠ t := fun heq => hleft (congrArg some heq.symm)
        exact (hothers v hne).1.trans hv
      · have hv : (s'.place v).terminated = true := hv
        by_cases heq : v = t
        · rw [heq] at hv
          cases hp : s'.place t with
          | running job terminated =>
              rw [hp] at hplace
              cases hplace
          | _ =>
              rw [hp] at hv
              cases hv
        · exact (hothers v heq).2.symm.trans hv

/-- Threads are woken, or terminated, and jobs put or purged. -/
theorem does_of_places {e : Effect Unit}
    (hpends : e.Pends ((jobPool start).pending s) ((jobPool start).pending s'))
    (hbusy : ∀ v, (s.place v).busy = true → (s'.place v).busy = true)
    (hterminated : ∀ v, (s'.place v).terminated = true →
      (s.place v).terminated = true ∨ v ∈ e.terminates)
    (htakes : ∀ v q job, e ≠ .take v q job) (hcancels : ∀ v, e ≠ .cancel v) :
    (jobPool start).Does s e s' :=
  ⟨hpends, fun v hv _ => hbusy v hv, fun v q job heq => absurd heq (htakes v q job),
    hterminated, fun v heq => absurd heq (hcancels v)⟩

/-- The threads that are made start, and have no job. -/
theorem spawn_place {size : Nat}
    (hfresh : ∀ v, s.spawned ≤ v → s.place v = .absent) (v : Nat) :
    ((s.spawn size).place v).busy = (s.place v).busy ∧
      ((s.spawn size).place v).terminated = (s.place v).terminated := by
  by_cases hv : s.spawned ≤ v ∧ v < s.spawned + size
  · have hnew : (s.spawn size).place v = .starting := if_pos hv
    rw [hnew, hfresh v hv.1]
    exact ⟨rfl, rfl⟩
  · have hold : (s.spawn size).place v = s.place v := if_neg hv
    rw [hold]
    exact ⟨rfl, rfl⟩

/-- A job is put, and no thread comes to one. -/
theorem does_append (hpending : s'.pendingJobs = s.pendingJobs ++ [job])
    (hplace : ∀ v, (s'.place v).busy = (s.place v).busy ∧
      (s'.place v).terminated = (s.place v).terminated) :
    (jobPool start).Does s (.append () job) s' :=
  does_of_places (pending_update hpending) (fun v hv => (hplace v).1.trans hv)
    (fun v hv => .inl ((hplace v).2.symm.trans hv)) nofun nofun

theorem appendJob_does (hfresh : ∀ v, s.spawned ≤ v → s.place v = .absent)
    (hs : s.appendJob job who = some s') :
    (jobPool start).Does s (.append () job) s' := by
  obtain ⟨u, -, -, rfl, hu⟩ := appendJob_cases hs
  have hpending : u.pendingJobs = s.pendingJobs ++ [job] := by
    rw [hu]
    split <;> rfl
  have hplace : ∀ v, (u.place v).busy = (s.place v).busy ∧
      (u.place v).terminated = (s.place v).terminated := by
    intro v
    rw [hu]
    split
    · exact spawn_place (s := s.push job) hfresh v
    · exact ⟨rfl, rfl⟩
  refine does_append hpending fun v => ?_
  obtain ⟨hbusy, hterminated⟩ := wakeUp_same u who v
  exact ⟨hbusy.trans (hplace v).1, hterminated.trans (hplace v).2⟩

/-- The job stays, also if `AppendJob` throws. -/
theorem appendJobThrows_does {made : Nat}
    (hfresh : ∀ v, s.spawned ≤ v → s.place v = .absent)
    (hs : s.appendJobThrows job made = some s') :
    (jobPool start).Does s (.append () job) s' := by
  obtain ⟨-, -, -, -, rfl⟩ := appendJobThrows_cases hs
  exact does_append rfl fun v => spawn_place (s := s.push job) hfresh v

/-- What `Shutdown` does before it wakes the threads that wait. -/
def halted (s : GrowableThreadPool ThreadJob) (w : Bool) :
    GrowableThreadPool ThreadJob :=
  { s with
    pendingJobs := []
    exits := if w then s.threads.card else sizeSub s.threads.card s.actives.card
    actives := ∅
    threads := ∅
    joining := s.threads
    initializing := true
    place := fun t =>
      if !w && decide (t ∈ s.actives) then GrowableThreadPool.terminate (s.place t)
      else s.place t }

theorem halted_place (w : Bool) (v : Nat) :
    ((halted s w).place v).busy = (s.place v).busy ∧
      (((halted s w).place v).terminated = true →
        (s.place v).terminated = true ∨ v ∈ doomed s w) := by
  show (Place.busy (if _ then _ else _)) = _ ∧ (Place.terminated (if _ then _ else _) = _ → _)
  split
  next hcond =>
    rw [Bool.and_eq_true, Bool.not_eq_true', decide_eq_true_eq] at hcond
    refine ⟨by cases s.place v <;> rfl, fun _ => .inr ?_⟩
    rw [doomed, hcond.1]
    exact hcond.2
  next => exact ⟨rfl, .inl⟩

theorem shutdown_does {w : Bool} (hs : s.shutdown w = some s') :
    (jobPool start).Does s
      (.shutdown (s.pendingJobs.map fun job => ((), job)) (doomed s w)) s' := by
  have hcases : ∀ v, (s'.place v).busy = (s.place v).busy ∧
      ((s'.place v).terminated = true → (s.place v).terminated = true ∨
        v ∈ doomed s w) := by
    intro v
    rw [GrowableThreadPool.shutdown] at hs
    obtain ⟨-, ⟨⟩⟩ := Option.ite_none_left_eq_some.mp hs
    obtain ⟨hbusy, hterminated⟩ := wakeUp_same (halted s w) s.jobWaiters v
    refine ⟨hbusy.trans (halted_place w v).1, fun hv => ?_⟩
    exact (halted_place w v).2 (hterminated.symm.trans hv)
  have hpending : s'.pendingJobs = [] := by
    rw [GrowableThreadPool.shutdown] at hs
    obtain ⟨-, ⟨⟩⟩ := Option.ite_none_left_eq_some.mp hs
    rfl
  refine does_of_places ⟨fun q => ?_, funext fun _ => hpending⟩
    (fun v hv => (hcases v).1.trans hv) (fun v hv => (hcases v).2 hv) ?_ ?_
  · show s.pendingJobs = _
    rw [List.filter_eq_self.mpr (by simp), List.map_map]
    exact (List.map_id _).symm
  · rintro v q job ⟨⟩
  · rintro v ⟨⟩

theorem cancel_does (hs : s.cancel t = some s') :
    (jobPool start).Does s (.cancel t) s' := by
  rw [GrowableThreadPool.cancel] at hs
  split at hs
  next job hp =>
    obtain rfl := Option.some.inj hs
    have hothers : Others s t (s.setPlace t .gone) := others_setPlace s .gone rfl
    have hterminated : (s.place t).terminated = true := by rw [hp]; rfl
    refine ⟨rfl, fun v hv hleft => ?_, ?_, fun v hv => .inl ?_, ?_⟩
    · have hne : v ≠ t := fun heq => hleft (congrArg some heq.symm)
      exact (hothers v hne).1.trans hv
    · rintro v q job' ⟨⟩
    · by_cases heq : v = t
      · rw [heq]
        exact hterminated
      · exact (hothers v heq).2.symm.trans hv
    · rintro v heq
      cases heq
      exact hterminated
  next => cases hs

/-- **THE POOL IS LAWFUL**: its steps do what `effect` says. -/
theorem lawful (hstart : ∀ s, start s → s.pendingJobs = [] ∧
      ∀ t, (s.place t).terminated = false)
    (hfresh : ∀ s, Reachable (jobPool start).system s →
      ∀ t, s.spawned ≤ t → s.place t = .absent) : (jobPool start).Lawful := by
  refine ⟨fun s h0 => ?_, fun s a s' hr hs => ?_⟩
  · obtain ⟨hpending, hcalm⟩ := hstart s h0
    refine ⟨fun _ => hpending, fun t ht => ?_⟩
    have ht : (s.place t).terminated = true := ht
    rw [hcalm t] at ht
    cases ht
  · cases a with
    | initializeSize size =>
        have hs : s.initializeSize size = some s' := hs
        rw [GrowableThreadPool.initializeSize] at hs
        obtain ⟨-, ⟨⟩⟩ := Option.ite_none_left_eq_some.mp hs
        exact .of_nothing rfl (fun _ hv => hv) fun _ hv => hv
    | appendJob job who => exact appendJob_does (hfresh s hr) hs
    | appendJobThrows job made => exact appendJobThrows_does (hfresh s hr) hs
    | requestJob t jobs who =>
        have hs : s.requestJob t jobs who = some s' := hs
        show (jobPool start).Does s (asked t (s.requestJob t jobs who)) s'
        rw [hs]
        exact (requestJob_asks hs).does
    | resume t who =>
        have hs : s.resume t who = some s' := hs
        show (jobPool start).Does s (asked t (s.resume t who)) s'
        rw [hs]
        exact (resume_asks hs).does
    | stir t =>
        have hs : s.stir t = some s' := hs
        rw [GrowableThreadPool.stir] at hs
        obtain ⟨-, ⟨⟩⟩ := Option.ite_none_right_eq_some.mp hs
        have hwake := wakeUp_same s {t}
        exact .of_nothing rfl (fun v hv => (hwake v).1.trans hv)
          fun v hv => (hwake v).2.symm.trans hv
    | cancel t => exact cancel_does hs
    | shutdown w => exact shutdown_does hs
    | joined =>
        have hs : s.joined = some s' := hs
        rw [GrowableThreadPool.joined] at hs
        obtain ⟨-, ⟨⟩⟩ := Option.ite_none_right_eq_some.mp hs
        exact .of_nothing rfl (fun _ hv => hv) fun _ hv => hv

-- ── Each job is accounted for ────────────────────────────────────────────────

theorem fresh_of_reachable (h : Reachable (pool ThreadJob) s) :
    ∀ t, s.spawned ≤ t → s.place t = .absent := by
  rcases reachable_cases h with (hloose | hclosing) | hdoomed
  · exact hloose.sound.fresh
  · exact hclosing.shut.fresh
  · exact hdoomed.shut.fresh

/-- From its first `Initialize` on. -/
theorem lawful_pool : (jobPool (pool ThreadJob).init).Lawful := by
  refine lawful (fun s h0 => ?_) fun s h => fresh_of_reachable h
  obtain ⟨size, hs⟩ := h0
  rw [GrowableThreadPool.initializeSize] at hs
  obtain ⟨-, ⟨⟩⟩ := Option.ite_none_left_eq_some.mp hs
  exact ⟨rfl, fun _ => rfl⟩

/-- `Shutdown` joins only in between. -/
theorem shut_of_cases (h : (Loose s ∨ Closing s) ∨ Doomed s)
    (hinit : s.initializing = true) : Shut s := by
  rcases h with (hloose | hclosing) | hdoomed
  · have hopen := hloose.sound.is_open
    rw [hinit] at hopen
    cases hopen
  · exact hclosing.shut
  · exact hdoomed.shut

theorem busy_eq_false {p : Place ThreadJob} (h : p.runs = 0) : p.busy = false := by
  cases p <;> first | rfl | cases h

/-- Nothing is left when `Shutdown` has joined its threads. -/
theorem joined_done (h : (Loose s ∨ Closing s) ∨ Doomed s)
    (hs : s.joined = some s') :
    (∀ q, (jobPool start).pending s' q = []) ∧ ∀ t, ¬(jobPool start).busy s' t := by
  have hinit : s.initializing = true := by
    rw [GrowableThreadPool.joined] at hs
    exact (Option.ite_none_right_eq_some.mp hs).1.1
  have hshut := shut_of_cases h hinit
  obtain ⟨hsound, rfl, -⟩ := hshut.joined hs
  refine ⟨fun _ => hshut.pending, fun t hbusy => ?_⟩
  have hruns : (s.place t).runs = 0 := by
    have hactive := (hsound.actives t).mpr
    have hnone : t ∉ s.actives := by
      rw [hshut.actives]
      exact Finset.notMem_empty t
    cases hp : s.place t with
    | running job terminated =>
        exact absurd (hactive (by show (s.place t).runs = 1; rw [hp]; rfl)) hnone
    | _ => rfl
  have hbusy : (s.place t).busy = true := hbusy
  rw [busy_eq_false hruns] at hbusy
  cases hbusy

/-- **NO JOB IS LOST, OR DONE TWICE**, in either pool: jobs are taken in the order
    in which they were appended, also by an `AppendJob` that throws, and when
    `Shutdown` has joined the threads each was purged once, or taken once, and then
    run and released unless its thread was terminated. -/
theorem jobs_conserved
    {d : Daemons Unit FlinterFixedThreadPool.FixedThreadPool}
    {g : Daemons Unit (GrowableThreadPool ThreadJob)}
    (hd : Reachable FlinterFixedThreadPool.pool.daemons d)
    (hg : Reachable (jobPool (pool ThreadJob).init).daemons g) :
    Conserves FlinterFixedThreadPool.pool .joined d ∧
      Conserves (jobPool (pool ThreadJob).init) .joined g := by
  constructor
  · exact conserves FlinterFixedThreadPool.lawful
      (fun s s' h hs => FlinterFixedThreadPool.joined_done h hs) hd
  · exact conserves lawful_pool (fun s s' h hs => joined_done (reachable_cases h) hs) hg

namespace Whole

/-- A pool of one thread, which runs the job and is joined. -/
def acts : List (FlinterThread.Act (Act ThreadJob)) :=
  [.pool (.appendJob FlinterFixedThreadPool.Cut.task ∅), .pool (.requestJob 0 ∅ ∅),
    .run 0, .release 0, .pool (.requestJob 0 ∅ ∅), .pool (.shutdown true),
    .pool (.resume 0 ∅)]

def first : GrowableThreadPool ThreadJob :=
  (GrowableThreadPool.new.initializeSize 1).get (by decide)

def fresh : Daemons Unit (GrowableThreadPool ThreadJob) :=
  ⟨first, fun _ => .free, [], ∅, []⟩

/-- Before `Shutdown` has joined the thread. -/
def left : Daemons Unit (GrowableThreadPool ThreadJob) :=
  (acts.foldlM (jobPool (pool ThreadJob).init).daemonNext fresh).get (by decide)

theorem reachable_left :
    Reachable (jobPool (pool ThreadJob).init).daemons left := by
  have hfirst : GrowableThreadPool.new.initializeSize 1 = some first :=
    (Option.some_get _).symm
  have hfresh : Reachable (jobPool (pool ThreadJob).init).daemons fresh :=
    .start ⟨⟨1, hfirst⟩, rfl, rfl, rfl, rfl⟩
  exact hfresh.follow (fun _ _ _ _ hs => hs) (Option.some_get _).symm

end Whole

/-- Of a job whose thread was terminated, and one that was run. -/
theorem jobs_conserved_one :
    Conserves FlinterFixedThreadPool.pool .joined FlinterFixedThreadPool.Cut.left ∧
      Conserves (jobPool (pool ThreadJob).init) .joined Whole.left :=
  jobs_conserved FlinterFixedThreadPool.Cut.reachable_left Whole.reachable_left

end FlinterGrowableThreadPool
