import Flinter.ThreadDaemonProofs

/-! # Threads of a pool of a fixed size

    `FixedThreadPool` and `KeyedThreadPool` make all their threads in
    `Initialize` and join them in `Shutdown`.  In between a thread is live and in
    `_threads`, and none is terminated; while `Shutdown` joins, a thread that
    asks for a job ends. -/

namespace FlinterThread

/-- Where a thread of a pool of a fixed size is: not made yet, about to call
    `RequestJob` for the first time, in a job, in `_job_available.Wait` or woken
    from it, or at its end.  It is `terminated` from `Terminate` on. -/
inductive Place where
  | absent
  | starting
  | running (job : ThreadJob) (terminated : Bool)
  | waiting
  | woken
  | gone
deriving DecidableEq, Repr

namespace Place

/-- A wake-up; it does nothing to a thread that does not wait. -/
def wake : Place → Place
  | .waiting => .woken
  | p => p

/-- `Terminate` of a thread that is in a job. -/
def terminate : Place → Place
  | .running job _ => .running job true
  | p => p

/-- Between its creation and its end. -/
def live : Place → Bool
  | .absent | .gone => false
  | _ => true

/-- In a job. -/
def busy : Place → Bool
  | .running _ _ => true
  | _ => false

def terminated : Place → Bool
  | .running _ terminated => terminated
  | _ => false

def waits : Place → Nat
  | .waiting => 1
  | _ => 0

/-- About to look for a job. -/
def looks : Place → Nat
  | .starting | .woken => 1
  | _ => 0

theorem not_busy_of_dead {p : Place} (h : p.live = false) : p.busy = false := by
  cases p <;> first | rfl | cases h

theorem not_terminated_of_dead {p : Place} (h : p.live = false) :
    p.terminated = false := by
  cases p <;> first | rfl | cases h

theorem live_of_waits {p : Place} (h : 0 < p.waits) : p.live = true := by
  cases p <;> first | rfl | cases h

theorem waits_eq_one {p : Place} (h : p.waits = 1) : p = .waiting := by
  cases p <;> first | rfl | cases h

/-- A thread is woken, or terminated if it is one of those that are. -/
structure Halted (doomed : Prop) (p p' : Place) : Prop where
  live : p'.live = p.live
  busy : p'.busy = p.busy
  absent : p = .absent → p' = .absent
  terminated : p'.terminated = true → p.terminated = true ∨ doomed

variable {doomed : Prop} {p p' p'' : Place}

theorem Halted.refl (p : Place) : Halted doomed p p :=
  ⟨rfl, rfl, id, .inl⟩

theorem Halted.weaken {doomed' : Prop} (h : Halted doomed p p')
    (hweak : doomed → doomed') : Halted doomed' p p' :=
  ⟨h.live, h.busy, h.absent, fun ht => (h.terminated ht).imp_right hweak⟩

theorem Halted.wake (p : Place) : Halted doomed p p.wake := by
  cases p <;> exact ⟨rfl, rfl, fun h => by cases h <;> rfl, .inl⟩

theorem Halted.terminate (h : doomed) (p : Place) :
    Halted doomed p p.terminate := by
  cases p <;> exact ⟨rfl, rfl, fun h => by cases h <;> rfl, fun _ => .inr h⟩

theorem Halted.trans (h : Halted doomed p p') (h' : Halted doomed p' p'') :
    Halted doomed p p'' := by
  refine ⟨h'.live.trans h.live, h'.busy.trans h.busy,
    fun hp => h'.absent (h.absent hp), fun ht => ?_⟩
  rcases h'.terminated ht with ht | hdoomed
  · exact h.terminated ht
  · exact .inr hdoomed

end Place

-- ── The threads ──────────────────────────────────────────────────────────────

/-- `Spawn`. -/
def spawnPlaces (first size : Nat) (place : Nat → Place) : Nat → Place := fun t =>
  if first ≤ t ∧ t < first + size then .starting else place t

/-- What holds of the threads between two steps, with those that `Shutdown` is
    joining. -/
structure Roster (initializing : Bool) (threads joining : List Nat) (made : Nat)
    (place : Nat → Place) : Prop where
  fresh : ∀ t, made ≤ t → place t = .absent
  live : ∀ t, (place t).live = true → t ∈ threads ∨ t ∈ joining
  here : ∀ t ∈ threads, (place t).live = true
  closed : initializing = true → threads = []
  opened : initializing = false →
    joining = [] ∧ ∀ t, (place t).terminated = false

namespace Roster

variable {initializing : Bool} {threads joining : List Nat} {made t size : Nat}
variable {place place' : Nat → Place} {p : Place} {doomed : Nat → Prop}

theorem start : Roster false [] [] 0 fun _ => .absent :=
  ⟨fun _ _ => rfl, nofun, nofun, nofun, fun _ => ⟨rfl, fun _ => rfl⟩⟩

theorem lt (h : Roster initializing threads joining made place)
    (hlive : (place t).live = true) : t < made := by
  by_contra hge
  rw [h.fresh t (Nat.le_of_not_lt hge)] at hlive
  cases hlive

/-- A thread is terminated in `Shutdown` only. -/
theorem of_terminated (h : Roster initializing threads joining made place)
    (hp : (place t).terminated = true) : initializing = true := by
  by_contra hopen
  have hcalm := (h.opened (Bool.eq_false_iff.mpr hopen)).2 t
  rw [hp] at hcalm
  cases hcalm

/-- A live thread moves. -/
theorem moved (h : Roster initializing threads joining made place)
    (hlive : (place t).live = true) (hp : p.live = true ∨ initializing = true)
    (hterminated : p.terminated = false) :
    Roster initializing threads joining made (Function.update place t p) := by
  have hcases : ∀ u, (u = t ∧ Function.update place t p u = p) ∨
      (u ≠ t ∧ Function.update place t p u = place u) := by
    intro u
    by_cases heq : u = t
    · exact .inl ⟨heq, by rw [heq, Function.update_self]⟩
    · exact .inr ⟨heq, Function.update_of_ne heq ..⟩
  refine ⟨fun u hu => ?_, fun u hu => ?_, fun u hu => ?_, h.closed,
    fun hopen => ⟨(h.opened hopen).1, fun u => ?_⟩⟩
  · rcases hcases u with ⟨rfl, -⟩ | ⟨-, heq⟩
    · exact absurd (h.lt hlive) (Nat.not_lt.mpr hu)
    · rw [heq]
      exact h.fresh u hu
  · rcases hcases u with ⟨rfl, -⟩ | ⟨-, heq⟩
    · exact h.live u hlive
    · rw [heq] at hu
      exact h.live u hu
  · rcases hcases u with ⟨rfl, heq⟩ | ⟨-, heq⟩
    · rw [heq]
      refine hp.resolve_right fun hinit => ?_
      rw [h.closed hinit] at hu
      cases hu
    · rw [heq]
      exact h.here u hu
  · rcases hcases u with ⟨-, heq⟩ | ⟨-, heq⟩
    · rw [heq]
      exact hterminated
    · rw [heq]
      exact (h.opened hopen).2 u

/-- Threads are woken. -/
theorem woken (h : Roster initializing threads joining made place)
    (hplace : ∀ t, Place.Halted False (place t) (place' t)) :
    Roster initializing threads joining made place' := by
  refine ⟨fun t ht => (hplace t).absent (h.fresh t ht), fun t ht => ?_,
    fun t ht => (hplace t).live.trans (h.here t ht), h.closed,
    fun hopen => ⟨(h.opened hopen).1, fun t => ?_⟩⟩
  · rw [(hplace t).live] at ht
    exact h.live t ht
  · by_contra hterminated
    rcases (hplace t).terminated (Bool.not_eq_false _ ▸ hterminated) with hold | hno
    · rw [(h.opened hopen).2 t] at hold
      cases hold
    · exact hno

/-- `Shutdown` begins to join. -/
theorem shut (h : Roster false threads joining made place)
    (hplace : ∀ t, Place.Halted (doomed t) (place t) (place' t)) :
    Roster true [] threads made place' := by
  refine ⟨fun t ht => (hplace t).absent (h.fresh t ht), fun t ht => ?_, nofun,
    fun _ => rfl, nofun⟩
  rw [(hplace t).live] at ht
  refine .inr ((h.live t ht).resolve_right ?_)
  rw [(h.opened rfl).1]
  exact List.not_mem_nil

/-- No thread is live if there is none in `_threads`. -/
theorem dead (h : Roster false [] joining made place) (t : Nat) :
    (place t).live = false := by
  by_contra hlive
  have hin := h.live t (Bool.not_eq_false _ ▸ hlive)
  rw [(h.opened rfl).1] at hin
  rcases hin with hin | hin <;> cases hin

/-- `Shutdown` returns at once only where no thread is in a job. -/
theorem calm (h : Roster initializing threads joining made place)
    (hidle : (!initializing && threads.isEmpty) = true) (t : Nat) :
    (place t).busy = false := by
  obtain ⟨hopen, hthreads⟩ := Bool.and_eq_true_iff.mp hidle
  rw [Bool.not_eq_true'] at hopen
  rw [hopen, List.isEmpty_iff.mp hthreads] at h
  exact Place.not_busy_of_dead (h.dead t)

theorem spawnPlaces_cases (h : Roster initializing threads joining made place)
    (size t : Nat) : (t ∈ List.range' made size ∧ place t = .absent ∧
      spawnPlaces made size place t = .starting) ∨
      (t ∉ List.range' made size ∧ spawnPlaces made size place t = place t) := by
  rw [List.mem_range'_1]
  by_cases ht : made ≤ t ∧ t < made + size
  · exact .inl ⟨ht, h.fresh t ht.1, if_pos ht⟩
  · exact .inr ⟨ht, if_neg ht⟩

/-- Threads are made where there is none. -/
theorem spawn (h : Roster false [] joining made place) (size : Nat) :
    Roster false (List.range' made size) joining (made + size)
      (spawnPlaces made size place) := by
  refine ⟨fun t ht => ?_, fun t ht => ?_, fun t ht => ?_, nofun,
    fun _ => ⟨(h.opened rfl).1, fun t => ?_⟩⟩
  · rcases h.spawnPlaces_cases size t with ⟨hin, -, -⟩ | ⟨-, heq⟩
    · exact absurd (List.mem_range'_1.mp hin).2 (Nat.not_lt.mpr ht)
    · rw [heq]
      exact h.fresh t (Nat.le_trans (Nat.le_add_right ..) ht)
  · rcases h.spawnPlaces_cases size t with ⟨hin, -, -⟩ | ⟨-, heq⟩
    · exact .inl hin
    · rw [heq, h.dead t] at ht
      cases ht
  · rcases h.spawnPlaces_cases size t with ⟨-, -, heq⟩ | ⟨hnot, -⟩
    · rw [heq]
      rfl
    · exact absurd ht hnot
  · rcases h.spawnPlaces_cases size t with ⟨-, -, heq⟩ | ⟨-, heq⟩
    · rw [heq]
      rfl
    · rw [heq]
      exact (h.opened rfl).2 t

/-- `Shutdown` has joined its threads. -/
theorem joined (h : Roster true threads joining made place)
    (hall : ∀ t ∈ joining, (place t).live = false) :
    Roster false [] [] made place ∧ ∀ t, (place t).live = false := by
  have hdead : ∀ t, (place t).live = false := by
    intro t
    by_contra hlive
    have hlive := Bool.not_eq_false _ ▸ hlive
    have hin := h.live t hlive
    rw [h.closed rfl] at hin
    rw [hall t (hin.resolve_left List.not_mem_nil)] at hlive
    cases hlive
  refine ⟨⟨h.fresh, fun t ht => ?_, nofun, nofun,
    fun _ => ⟨rfl, fun t => Place.not_terminated_of_dead (hdead t)⟩⟩, hdead⟩
  rw [hdead t] at ht
  cases ht

end Roster

-- ── Pools of such threads ────────────────────────────────────────────────────

/-- The threads of a pool are where `place` says. -/
structure AbstractThreadPool.Placed {Q S A : Type} (P : AbstractThreadPool Q S A)
    (place : S → Nat → Place) : Prop where
  busy : ∀ s t, P.busy s t ↔ (place s t).busy = true
  terminated : ∀ s t, P.terminated s t ↔ (place s t).terminated = true

section Pools

variable {Q S A : Type} [DecidableEq Q] {P : AbstractThreadPool Q S A}
variable {place : S → Nat → Place} {s s' : S} {t : Nat} {p : Place} {e : Effect Q}

/-- A thread moves, into a job or out of one. -/
theorem does_of_move (hP : P.Placed place)
    (hplace : place s' = Function.update (place s) t p)
    (hpends : e.Pends (P.pending s) (P.pending s'))
    (hleaves : p.busy = true ∨ (place s t).busy = false ∨ e.leaves = some t)
    (htakes : ∀ v q job, e = .take v q job → v = t ∧ p.busy = true)
    (hterminated : p.terminated = false)
    (hcancels : ∀ v, e = .cancel v → (place s v).terminated = true) :
    P.Does s e s' := by
  refine ⟨hpends, fun v hbusy hv => ?_, fun v q job heq => ?_, fun v hv => ?_,
    fun v heq => (hP.terminated s v).mpr (hcancels v heq)⟩
  · rw [hP.busy] at hbusy ⊢
    rw [hplace]
    by_cases heq : v = t
    · subst heq
      rw [Function.update_self]
      rcases hleaves with hp | hidle | hleft
      · exact hp
      · rw [hidle] at hbusy
        cases hbusy
      · exact absurd hleft hv
    · rw [Function.update_of_ne heq]
      exact hbusy
  · obtain ⟨rfl, hp⟩ := htakes v q job heq
    rw [hP.busy, hplace, Function.update_self]
    exact hp
  · rw [hP.terminated] at hv ⊢
    refine .inl ?_
    rw [hplace] at hv
    by_cases heq : v = t
    · rw [heq, Function.update_self, hterminated] at hv
      cases hv
    · rw [Function.update_of_ne heq] at hv
      exact hv

/-- Threads are woken, or terminated, and jobs put or purged. -/
theorem does_of_halt (hP : P.Placed place)
    (hpends : e.Pends (P.pending s) (P.pending s'))
    (hplace : ∀ v, Place.Halted (v ∈ e.terminates) (place s v) (place s' v))
    (htakes : ∀ v q job, e ≠ .take v q job) (hcancels : ∀ v, e ≠ .cancel v) :
    P.Does s e s' := by
  refine ⟨hpends, fun v hv _ => ?_, fun v q job heq => absurd heq (htakes v q job),
    fun v hv => ?_, fun v heq => absurd heq (hcancels v)⟩
  · rw [hP.busy] at hv ⊢
    exact (hplace v).busy.trans hv
  · rw [hP.terminated] at hv ⊢
    exact (hplace v).terminated hv

/-- Threads are made. -/
theorem does_of_spawn {initializing : Bool} {threads joining : List Nat}
    {made size : Nat} (hP : P.Placed place)
    (hroster : Roster initializing threads joining made (place s))
    (hplace : place s' = spawnPlaces made size (place s))
    (hpends : P.pending s' = P.pending s) : P.Does s .nothing s' := by
  refine .of_nothing hpends (fun v hv => ?_) fun v hv => ?_
  · rw [hP.busy] at hv ⊢
    rw [hplace]
    rcases hroster.spawnPlaces_cases size v with ⟨-, habsent, -⟩ | ⟨-, heq⟩
    · rw [habsent] at hv
      cases hv
    · rw [heq]
      exact hv
  · rw [hP.terminated] at hv ⊢
    rw [hplace] at hv
    rcases hroster.spawnPlaces_cases size v with ⟨-, -, hnew⟩ | ⟨-, heq⟩
    · rw [hnew] at hv
      cases hv
    · rw [heq] at hv
      exact hv

end Pools

end FlinterThread
