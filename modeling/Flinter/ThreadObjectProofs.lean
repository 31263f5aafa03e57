import Flinter.ThreadDaemonProofs

/-! # Pool objects: the calls of their owners, and the destructor

    The destructor of a pool calls `Shutdown(false)`, which returns at once if
    there are no threads, and takes what is pending with it then.  A job that is
    accepted by a pool without threads is therefore run only if it gets threads
    before it is destroyed. -/

namespace FlinterThread

open Runs Desks

/-- How far a pool object is: its destructor joins its threads, it is destroyed,
    or it was called where no result is defined. -/
inductive Stage where
  | built
  | dying
  | destroyed
  | undefined
deriving DecidableEq, Repr

structure PoolObject (S : Type) where
  pool : S
  stage : Stage

/-- What its owner sees of a pool: the calls without a defined result, whether
    `Shutdown` returns at once, `Shutdown(false)`, and the end of a `Shutdown`
    that joins. -/
structure Owner (S A : Type) where
  undefined : S → A → Bool
  idle : S → Bool
  shutdown : A
  joined : A → Bool

/-- A step of the pool, or the destructor. -/
inductive Call (A : Type) where
  | act (a : A)
  | destroy

variable {Q S A : Type} {P : AbstractThreadPool Q S A} {O : Owner S A}

/-- One step of an object, if it can be taken. -/
def AbstractThreadPool.objectNext (P : AbstractThreadPool Q S A) (O : Owner S A)
    (o : PoolObject S) : Call A → Option (PoolObject S)
  | .act a =>
    match o.stage with
    | .built =>
        if O.undefined o.pool a then some { o with stage := .undefined }
        else (P.next o.pool a).map fun s => ⟨s, .built⟩
    | .dying =>
        (P.next o.pool a).map fun s =>
          ⟨s, if O.joined a then .destroyed else .dying⟩
    | .destroyed | .undefined => none
  | .destroy =>
    match o.stage with
    | .built =>
        if O.idle o.pool then some { o with stage := .destroyed }
        else (P.next o.pool O.shutdown).map fun s => ⟨s, .dying⟩
    | .dying | .destroyed | .undefined => none

/-- What it does with jobs. -/
def AbstractThreadPool.objectEffect (P : AbstractThreadPool Q S A) (O : Owner S A)
    (o : PoolObject S) : Call A → Effect Q
  | .act a =>
    match o.stage with
    | .built => if O.undefined o.pool a then .nothing else P.effect o.pool a
    | .dying => P.effect o.pool a
    | .destroyed | .undefined => .nothing
  | .destroy => if O.idle o.pool then .nothing else P.effect o.pool O.shutdown

/-- An object is a pool. -/
def AbstractThreadPool.object (P : AbstractThreadPool Q S A) (O : Owner S A) :
    AbstractThreadPool Q (PoolObject S) (Call A) where
  start := fun o => P.start o.pool ∧ o.stage = .built
  next := P.objectNext O
  effect := P.objectEffect O
  pending := fun o => P.pending o.pool
  busy := fun o => P.busy o.pool
  terminated := fun o => P.terminated o.pool

variable {o o' : PoolObject S} {c : Call A}

/-- What a step is. -/
inductive Calls (P : AbstractThreadPool Q S A) (O : Owner S A) (o : PoolObject S) :
    Call A → Effect Q → PoolObject S → Prop where
  | fails {a : A} (hstage : o.stage = .built)
      (hundefined : O.undefined o.pool a = true) :
      Calls P O o (.act a) .nothing { o with stage := .undefined }
  | acts {a : A} {s : S} (hstage : o.stage = .built)
      (hdefined : O.undefined o.pool a = false) (hs : P.next o.pool a = some s) :
      Calls P O o (.act a) (P.effect o.pool a) ⟨s, .built⟩
  | goes {a : A} {s : S} (hstage : o.stage = .dying)
      (hs : P.next o.pool a = some s) :
      Calls P O o (.act a) (P.effect o.pool a)
        ⟨s, if O.joined a then .destroyed else .dying⟩
  | ends (hstage : o.stage = .built) (hidle : O.idle o.pool = true) :
      Calls P O o .destroy .nothing { o with stage := .destroyed }
  | shuts {s : S} (hstage : o.stage = .built) (hidle : O.idle o.pool = false)
      (hs : P.next o.pool O.shutdown = some s) :
      Calls P O o .destroy (P.effect o.pool O.shutdown) ⟨s, .dying⟩

theorem calls (hs : P.objectNext O o c = some o') :
    Calls P O o c (P.objectEffect O o c) o' := by
  cases c with
  | act a =>
      cases hstage : o.stage with
      | built =>
          rw [AbstractThreadPool.objectNext, hstage] at hs
          dsimp only at hs
          rw [AbstractThreadPool.objectEffect, hstage]
          dsimp only
          by_cases hundefined : O.undefined o.pool a = true
          · rw [if_pos hundefined] at hs ⊢
            obtain rfl := Option.some.inj hs
            exact .fails hstage hundefined
          · rw [if_neg hundefined] at hs ⊢
            obtain ⟨s, hnext, rfl⟩ := Option.map_eq_some_iff.mp hs
            exact .acts hstage (Bool.eq_false_iff.mpr hundefined) hnext
      | dying =>
          rw [AbstractThreadPool.objectNext, hstage] at hs
          rw [AbstractThreadPool.objectEffect, hstage]
          obtain ⟨s, hnext, rfl⟩ := Option.map_eq_some_iff.mp hs
          exact .goes hstage hnext
      | destroyed =>
          rw [AbstractThreadPool.objectNext, hstage] at hs
          cases hs
      | undefined =>
          rw [AbstractThreadPool.objectNext, hstage] at hs
          cases hs
  | destroy =>
      cases hstage : o.stage with
      | built =>
          rw [AbstractThreadPool.objectNext, hstage] at hs
          dsimp only at hs
          rw [AbstractThreadPool.objectEffect]
          by_cases hidle : O.idle o.pool = true
          · rw [if_pos hidle] at hs ⊢
            obtain rfl := Option.some.inj hs
            exact .ends hstage hidle
          · rw [if_neg hidle] at hs ⊢
            obtain ⟨s, hnext, rfl⟩ := Option.map_eq_some_iff.mp hs
            exact .shuts hstage (Bool.eq_false_iff.mpr hidle) hnext
      | dying =>
          rw [AbstractThreadPool.objectNext, hstage] at hs
          cases hs
      | destroyed =>
          rw [AbstractThreadPool.objectNext, hstage] at hs
          cases hs
      | undefined =>
          rw [AbstractThreadPool.objectNext, hstage] at hs
          cases hs

/-- The step of the pool that it takes, if any. -/
theorem Calls.pool {e : Effect Q} (h : Calls P O o c e o') :
    (o'.pool = o.pool ∧ e = .nothing) ∨
      ∃ a, P.next o.pool a = some o'.pool ∧ e = P.effect o.pool a := by
  cases h with
  | fails _ _ => exact .inl ⟨rfl, rfl⟩
  | acts _ _ hs => exact .inr ⟨_, hs, rfl⟩
  | goes _ hs => exact .inr ⟨_, hs, rfl⟩
  | ends _ _ => exact .inl ⟨rfl, rfl⟩
  | shuts _ _ hs => exact .inr ⟨_, hs, rfl⟩

theorem object_reachable (h : Reachable (P.object O).system o) :
    Reachable P.system o.pool := by
  refine h.abstracts PoolObject.pool (fun o h0 => ?_) fun o c o' _ hs => ?_
  · obtain ⟨hstart, -⟩ : P.start o.pool ∧ o.stage = .built := h0
    exact hstart
  rcases (calls hs).pool with ⟨heq, -⟩ | ⟨a, hnext, -⟩
  · exact .inl heq
  · exact .inr ⟨a, hnext⟩

/-- **AN OBJECT IS LAWFUL** if its pool is. -/
theorem AbstractThreadPool.Lawful.object [DecidableEq Q] (hP : P.Lawful) :
    (P.object O).Lawful := by
  refine ⟨fun o h0 => hP.start o.pool h0.1, fun o c o' hr hs => ?_⟩
  have hcalls := (calls hs).pool
  show (P.object O).Does o (P.objectEffect O o c) o'
  rcases hcalls with ⟨heq, he⟩ | ⟨a, hnext, he⟩
  · rw [he]
    have hpending : P.pending o'.pool = P.pending o.pool := by rw [heq]
    refine .of_nothing hpending (fun t hbusy => ?_) fun t ht => ?_
    · show P.busy o'.pool t
      rw [heq]
      exact hbusy
    · have ht : P.terminated o'.pool t := ht
      rw [heq] at ht
      exact ht
  · rw [he]
    obtain ⟨hpends, hbusy, htakes, hterminated, hcancels⟩ :=
      hP.next _ a _ (object_reachable hr) hnext
    exact ⟨hpends, hbusy, htakes, hterminated, hcancels⟩

-- ── Objects that keep what they promise ──────────────────────────────────────

section Promise

variable [DecidableEq Q] {own : A → Prop} {ready : S → Prop}
variable {allowed spared : S → A → Prop} {d d' : Daemons Q (PoolObject S)}

/-- No call is without a result; jobs of a pool that is ready for them can all be
    taken; and when the object is destroyed each has been purged or taken. -/
structure Honest (P : AbstractThreadPool Q S A) (own : A → Prop)
    (ready : S → Prop) (d : Daemons Q (PoolObject S)) : Prop where
  defined : d.pool.stage ≠ .undefined
  served : d.pool.stage = .built → ready d.pool.pool →
    ∀ q job, job ∈ P.pending d.pool.pool q → P.Serves own q job d.pool.pool
  settled : d.pool.stage = .destroyed →
    ∀ q job, .enter q job ∈ d.log → Fate d job

/-- The steps of the pool are allowed, and it is not destroyed with jobs that
    `Shutdown` does not look at. -/
def Meets (P : AbstractThreadPool Q S A) (O : Owner S A) (allowed : S → A → Prop)
    (o : PoolObject S) : Call A → Prop
  | .act a => allowed o.pool a
  | .destroy => O.idle o.pool = true → ∀ q, P.pending o.pool q = []

/-- The same of a pool with its threads. -/
def DaemonsMeet (P : AbstractThreadPool Q S A) (O : Owner S A)
    (allowed : S → A → Prop) (d : Daemons Q (PoolObject S)) : Act (Call A) → Prop
  | .pool c => Meets P O allowed d.pool c
  | _ => True

/-- A step of the pool that does no harm by itself. -/
def DaemonsSpare (spared : S → A → Prop) (d : Daemons Q (PoolObject S)) :
    Act (Call A) → Prop
  | .pool (.act a) => spared d.pool.pool a
  | _ => False

/-- The runs of an object whose steps are all allowed. -/
def AllowedRun (P : AbstractThreadPool Q S A) (O : Owner S A)
    (allowed : S → A → Prop) (d : Daemons Q (PoolObject S)) : Prop :=
  Reachable ((P.object O).daemons.restrict (DaemonsMeet P O allowed)) d

omit [DecidableEq Q] in
theorem AllowedRun.step {a : Act (Call A)} (h : AllowedRun P O allowed d)
    (hmeets : DaemonsMeet P O allowed d a)
    (hs : (P.object O).daemonNext d a = some d') : AllowedRun P O allowed d' := by
  have hstep : ((P.object O).daemons.restrict (DaemonsMeet P O allowed)).step d a d' :=
    ⟨hmeets, hs⟩
  exact .next h hstep

omit [DecidableEq Q] in
/-- Steps that are allowed wherever they are taken. -/
theorem AllowedRun.steps {as : List (Act (Call A))} (h : AllowedRun P O allowed d)
    (hmeets : ∀ a ∈ as, ∀ d, DaemonsMeet P O allowed d a)
    (hs : as.foldlM (P.object O).daemonNext d = some d') : AllowedRun P O allowed d' := by
  induction as generalizing d with
  | nil =>
      obtain rfl := Option.some.inj hs
      exact h
  | cons a as ih =>
      rw [List.foldlM_cons, Option.bind_eq_bind] at hs
      obtain ⟨d₁, h₁, hs⟩ := Option.bind_eq_some_iff.mp hs
      exact ih (h.step (hmeets a List.mem_cons_self d) h₁)
        (fun b hb => hmeets b (List.mem_cons_of_mem a hb)) hs

/-- What makes the objects of a pool honest in all runs whose steps are
    allowed, and in no others, but for steps that are spared. -/
structure Promises (P : AbstractThreadPool Q S A) (O : Owner S A)
    (own : A → Prop) (ready : S → Prop) (allowed spared : S → A → Prop) : Prop where
  lawful : P.Lawful
  shutdown : ∀ s, allowed s O.shutdown
  defined : ∀ s a, allowed s a → O.undefined s a = false
  idle : ∀ s, Reachable (P.system.restrict allowed) s → O.idle s = true →
    ∀ t, ¬P.busy s t
  joined : ∀ s a s', Reachable (P.system.restrict allowed) s →
    O.joined a = true → P.next s a = some s' →
    (∀ q, P.pending s' q = []) ∧ ∀ t, ¬P.busy s' t
  serves : ∀ s q job, Reachable (P.system.restrict allowed) s → ready s →
    job ∈ P.pending s q → P.Serves own q job s
  exact : ∀ s a, Reachable (P.system.restrict allowed) s → ¬allowed s a →
    ¬spared s a → O.undefined s a = true ∨ ∀ s', P.next s a = some s' →
      ready s' ∧ ∃ q, ∃ job ∈ P.pending s' q, ¬P.Serves own q job s'

variable (L : Promises P O own ready allowed spared)

include L

/-- What holds of the object in between. -/
theorem Promises.invariant
    (h : AllowedRun P O allowed d) :
    Reachable (P.system.restrict allowed) d.pool.pool ∧
      d.pool.stage ≠ .undefined ∧
      (d.pool.stage = .destroyed → (∀ q, P.pending d.pool.pool q = []) ∧
        ∀ t, ¬P.busy d.pool.pool t) := by
  refine Reachable.invariant (I := fun d => Reachable (P.system.restrict allowed) d.pool.pool ∧
    d.pool.stage ≠ .undefined ∧ (d.pool.stage = .destroyed →
      (∀ q, P.pending d.pool.pool q = []) ∧ ∀ t, ¬P.busy d.pool.pool t)) ?_ ?_ h
  · rintro d ⟨⟨hstart, hbuilt⟩, -⟩
    refine ⟨.start hstart, ?_, fun hdestroyed => ?_⟩
    · rw [hbuilt]
      exact nofun
    · rw [hbuilt] at hdestroyed
      cases hdestroyed
  · rintro d a d' _ ⟨hr, hdefined, hdestroyed⟩ ⟨hmeets, hs⟩
    cases a with
    | run t =>
        obtain ⟨job, hpool, -⟩ := Daemons.run_log hs
        rw [hpool]
        exact ⟨hr, hdefined, hdestroyed⟩
    | release t =>
        obtain ⟨job, hpool, -⟩ := Daemons.release_log hs
        rw [hpool]
        exact ⟨hr, hdefined, hdestroyed⟩
    | pool c =>
        obtain ⟨hnext, -⟩ := AbstractThreadPool.daemonNext_pool hs
        have hmeets : Meets P O allowed d.pool c := hmeets
        have hcalls := calls hnext
        clear hs hnext
        generalize P.objectEffect O d.pool c = e at hcalls
        generalize d'.pool = o' at hcalls ⊢
        cases hcalls with
        | fails _ hundefined =>
            rw [L.defined _ _ hmeets] at hundefined
            cases hundefined
        | acts _ _ hs => exact ⟨.next hr ⟨hmeets, hs⟩, nofun, nofun⟩
        | @goes a s _ hs =>
            refine ⟨.next hr ⟨hmeets, hs⟩, ?_, fun hdone => ?_⟩
            · show (if O.joined a = true then Stage.destroyed else .dying) ≠ .undefined
              split <;> exact nofun
            · refine L.joined _ a s hr ?_ hs
              by_contra hnot
              have hdone : (if O.joined a = true then Stage.destroyed else .dying) =
                .destroyed := hdone
              rw [if_neg hnot] at hdone
              cases hdone
        | ends _ hidle => exact ⟨hr, nofun, fun _ => ⟨hmeets hidle, L.idle _ hr hidle⟩⟩
        | shuts _ _ hs => exact ⟨.next hr ⟨L.shutdown _, hs⟩, nofun, nofun⟩

/-- **AN OBJECT IS HONEST** as long as each step is allowed. -/
theorem Promises.honest
    (h : AllowedRun P O allowed d) :
    Honest P own ready d := by
  obtain ⟨hr, hdefined, hdestroyed⟩ := L.invariant h
  refine ⟨hdefined, fun _ hready q job hin => L.serves _ q job hr hready hin,
    fun hstage q job hin => ?_⟩
  obtain ⟨hpending, hbusy⟩ := hdestroyed hstage
  exact fate L.lawful.object (Reachable.of_restrict h) hpending hbusy hin

/-- A job that is in a queue has had no fate. -/
theorem Promises.no_fate (h : Reachable (P.object O).daemons d) {q : Q}
    {job : ThreadJob} (hin : job ∈ P.pending d.pool.pool q) : ¬Fate d job := by
  have hkeeps := AbstractThreadPool.keeps L.lawful.object h
  obtain ⟨p, hp⟩ := agrees hkeeps.desk job
  have hqueued := Phase.of_queue ((hp.queue q).mp hin)
  rw [hqueued] at hp
  have htimes := times_of_story hp.story
  have htake : times .take job d.log = 0 := htimes .take
  have hwithdraw : times .withdraw job d.log = 0 := htimes .withdraw
  rintro (⟨hpurged, -, -, -⟩ | ⟨-, htaken, -, -⟩ | ⟨-, -, -, htaken, -, -, -, -⟩)
  · rw [hwithdraw] at hpurged
    cases hpurged
  · rw [htake] at htaken
    cases htaken
  · rw [htake] at htaken
    cases htaken

/-- **AND NO LONGER** once one is not. -/
theorem Promises.dishonest {a : Act (Call A)}
    (h : AllowedRun P O allowed d)
    (hs : (P.object O).daemonNext d a = some d')
    (hstage : d.pool.stage = .built) (hnot : ¬DaemonsMeet P O allowed d a)
    (hspare : ¬DaemonsSpare spared d a) : ¬Honest P own ready d' := by
  obtain ⟨hr, -, -⟩ := L.invariant h
  have hd' : Reachable (P.object O).daemons d' := .next (Reachable.of_restrict h) hs
  intro hhonest
  cases a with
  | run t => exact hnot trivial
  | release t => exact hnot trivial
  | pool c =>
      obtain ⟨hnext, hfollow⟩ := AbstractThreadPool.daemonNext_pool hs
      have hnot : ¬Meets P O allowed d.pool c := hnot
      cases c with
      | act a =>
          have hnext : P.objectNext O d.pool (.act a) = some d'.pool := hnext
          have hcalls := calls hnext
          generalize P.objectEffect O d.pool (.act a) = e at hcalls
          generalize hpool : d'.pool = o' at hcalls
          cases hcalls with
          | fails _ _ => exact hhonest.defined (by rw [hpool])
          | @acts _ s' _ hdefined hs' =>
              rcases L.exact _ a hr hnot hspare with hundefined | hstuck
              · rw [hdefined] at hundefined
                cases hundefined
              · obtain ⟨hready, q, job, hin, hserves⟩ := hstuck s' hs'
                have hserved := hhonest.served
                rw [hpool] at hserved
                exact hserves (hserved rfl hready q job hin)
          | goes hdying _ =>
              rw [hstage] at hdying
              cases hdying
      | destroy =>
          obtain ⟨hidle, hpending⟩ := Classical.not_imp.mp hnot
          obtain ⟨q, hq⟩ := not_forall.mp hpending
          have hpool : d'.pool = { d.pool with stage := .destroyed } := by
            have hnext : P.objectNext O d.pool .destroy = some d'.pool := hnext
            rw [AbstractThreadPool.objectNext, hstage] at hnext
            exact (Option.some.inj ((if_pos hidle).symm.trans hnext)).symm
          obtain ⟨job, hin⟩ := List.exists_mem_of_ne_nil _ hq
          have hin' : job ∈ P.pending d'.pool.pool q := by
            rw [hpool]
            exact hin
          have hkeeps := AbstractThreadPool.keeps L.lawful.object hd'
          have henter : .enter q job ∈ d'.log := by
            refine mem_entered.mp ?_
            have hentered := entered_eq hkeeps.desk q
            have hlog : entered q d'.log = _ := hentered
            rw [hlog]
            exact List.mem_append_right _ hin'
          exact L.no_fate hd' hin' (hhonest.settled (by rw [hpool]) q job henter)

/-- An object is honest, and no longer if a step is not allowed, and not spared. -/
def HonestWhile (P : AbstractThreadPool Q S A) (O : Owner S A) (own : A → Prop)
    (ready : S → Prop) (allowed spared : S → A → Prop)
    (d : Daemons Q (PoolObject S)) : Prop :=
  Honest P own ready d ∧ ∀ a d', (P.object O).daemonNext d a = some d' →
    d.pool.stage = .built → ¬DaemonsMeet P O allowed d a →
    ¬DaemonsSpare spared d a → ¬Honest P own ready d'

theorem Promises.honest_while (h : AllowedRun P O allowed d) :
    HonestWhile P O own ready allowed spared d :=
  ⟨L.honest h, fun _ _ hs hstage hnot hspare => L.dishonest h hs hstage hnot hspare⟩

end Promise

end FlinterThread
