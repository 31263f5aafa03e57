import Flinter.RunProofs
import Mathlib.Logic.Function.Basic

/-! # A monitor with one condition variable

    Threads call one procedure of a monitor: with the mutex locked it waits on
    the condition variable until it is ready, and then takes what it waits for.
    Others update the data with the mutex locked, and wake no thread, one or
    all.  What happens from one lock to the next unlock or wait is one step, as
    nothing else touches the data in between.

    The condition variable is that of POSIX: `one` wakes at least one of those
    that wait, and a thread may wake for no reason.  A thread that was woken has
    yet to lock the mutex again. -/

namespace Monitors

open Runs

variable {T D U : Type}

/-- Where a thread is; `outside` the procedure or before its lock, `waiting` on
    the condition variable, or `woken` from it. -/
inductive Place where
  | outside
  | waiting
  | woken
deriving DecidableEq, Repr

/-- What an update wakes. -/
inductive Wake where
  | none
  | one
  | all
deriving DecidableEq, Repr

/-- A thread enters the procedure where `enters` lets it, waits while it is not
    `ready`, and then does `take`. -/
structure Monitor (T D U : Type) where
  start : D → Prop
  enters : T → D → Prop
  ready : T → D → Prop
  take : T → D → D
  admits : U → D → Prop
  update : U → D → D
  wakes : U → D → Wake

/-- The data, and where the threads are. -/
structure State (T D : Type) where
  data : D
  place : T → Place

/-- What a step chooses: who enters, or wakes for no reason, or which update is
    made and whom it wakes. -/
inductive Label (T U : Type) where
  | enter (t : T)
  | stir (t : T)
  | update (u : U) (who : T → Bool)

/-- Of those that wait, `who` are woken. -/
def rouse (who : T → Bool) (place : T → Place) : T → Place := fun t =>
  if place t = .waiting ∧ who t then .woken else place t

/-- A wake-up may wake `who`. -/
def Rouses (place : T → Place) (who : T → Bool) : Wake → Prop
  | .none => ∀ t, who t = false
  | .one => (∃ t, place t = .waiting) → ∃ t, place t = .waiting ∧ who t
  | .all => ∀ t, who t = true

/-- The steps of a monitor. -/
inductive Step [DecidableEq T] (m : Monitor T D U) :
    State T D → Label T U → State T D → Prop where
  | take {data place t} (hplace : place t ≠ .waiting) (he : m.enters t data)
      (hr : m.ready t data) :
      Step m ⟨data, place⟩ (.enter t)
        ⟨m.take t data, Function.update place t .outside⟩
  | wait {data place t} (hplace : place t ≠ .waiting) (he : m.enters t data)
      (hr : ¬m.ready t data) :
      Step m ⟨data, place⟩ (.enter t) ⟨data, Function.update place t .waiting⟩
  | stir {data place t} (hplace : place t = .waiting) :
      Step m ⟨data, place⟩ (.stir t) ⟨data, Function.update place t .woken⟩
  | update {data place u who} (ha : m.admits u data)
      (hw : Rouses place who (m.wakes u data)) :
      Step m ⟨data, place⟩ (.update u who) ⟨m.update u data, rouse who place⟩

theorem rouse_waiting {who : T → Bool} {place : T → Place} {t : T}
    (h : rouse who place t = .waiting) : place t = .waiting ∧ who t = false := by
  rw [rouse] at h
  split at h
  · exact absurd h (by simp)
  · rename_i hn
    exact ⟨h, Bool.eq_false_iff.mpr fun hwho => hn ⟨h, hwho⟩⟩

variable [DecidableEq T] {m : Monitor T D U} {s : State T D}

/-- At the start no thread waits. -/
def machine (m : Monitor T D U) : System (State T D) (Label T U) where
  init := fun s => m.start s.data ∧ ∀ t, s.place t = .outside
  step := Step m

/-- **WHAT ONE THREAD WAITS FOR**: if `own` makes a thread ready, no other thread's
    `take` brings it about, and an update that does so wakes all, then it holds
    for no thread that waits. -/
theorem not_own_of_waiting (own : T → D → Prop)
    (hready : ∀ t d, own t d → m.ready t d)
    (htake : ∀ t t' d, m.enters t d → m.ready t d → own t' (m.take t d) →
      own t' d)
    (hupdate : ∀ u d t, m.admits u d → own t (m.update u d) →
      own t d ∨ m.wakes u d = .all)
    (h : Reachable (machine m) s) (t : T) (ht : s.place t = .waiting) :
    ¬own t s.data := by
  refine h.invariant
    (I := fun s => ∀ t, s.place t = .waiting → ¬own t s.data) ?_ ?_ t ht
  · intro s hinit t ht
    rw [hinit.2 t] at ht
    exact absurd ht (by simp)
  · intro s l s' _ ih hs t ht hown
    cases hs with
    | @take data place t' hplace he hr =>
        by_cases heq : t = t'
        · subst heq
          simp at ht
        · simp only [Function.update_of_ne heq] at ht
          exact ih t ht (htake t' t data he hr hown)
    | @wait data place t' hplace he hr =>
        by_cases heq : t = t'
        · subst heq
          exact hr (hready t data hown)
        · simp only [Function.update_of_ne heq] at ht
          exact ih t ht hown
    | @stir data place t' hplace =>
        by_cases heq : t = t'
        · subst heq
          simp at ht
        · simp only [Function.update_of_ne heq] at ht
          exact ih t ht hown
    | @update data place u who ha hw =>
        obtain ⟨hwaits, hwho⟩ := rouse_waiting ht
        rcases hupdate u data t ha hown with hold | hall
        · exact ih t hwaits hold
        · rw [hall] at hw
          rw [hw t] at hwho
          exact absurd hwho (by simp)

/-- **WHAT ALL THREADS WAIT FOR**: if `common` makes every thread ready, no `take`
    brings it about, and an update that does so wakes one, then some thread does
    not wait while it holds. -/
theorem awake_of_common [Nonempty T] (common : D → Prop)
    (hready : ∀ t d, common d → m.ready t d)
    (hupdate : ∀ u d, m.admits u d → common (m.update u d) →
      common d ∨ m.wakes u d ≠ .none)
    (h : Reachable (machine m) s) (hc : common s.data) :
    ∃ t, s.place t ≠ .waiting := by
  refine h.invariant
    (I := fun s => common s.data → ∃ t, s.place t ≠ .waiting) ?_ ?_ hc
  · intro s hinit _
    obtain ⟨t⟩ := ‹Nonempty T›
    refine ⟨t, ?_⟩
    rw [hinit.2 t]
    simp
  · intro s l s' _ ih hs hc
    cases hs with
    | @take data place t hplace he hr =>
        exact ⟨t, by simp⟩
    | @wait data place t hplace he hr =>
        exact absurd (hready t data hc) hr
    | @stir data place t hplace =>
        exact ⟨t, by simp⟩
    | @update data place u who ha hw =>
        by_contra hnone
        have hall : ∀ t, place t = .waiting ∧ who t = false :=
          fun t => rouse_waiting (by_contra fun ht => hnone ⟨t, ht⟩)
        obtain ⟨t⟩ := ‹Nonempty T›
        rcases hupdate u data ha hc with hold | hwakes
        · obtain ⟨t', ht'⟩ := ih hold
          exact ht' (hall t').1
        · cases hwake : m.wakes u data with
          | none => exact hwakes hwake
          | one =>
              rw [hwake] at hw
              obtain ⟨t', -, ht'⟩ := hw ⟨t, (hall t).1⟩
              rw [(hall t').2] at ht'
              exact absurd ht' (by simp)
          | all =>
              rw [hwake] at hw
              have ht' := hw t
              rw [(hall t).2] at ht'
              exact absurd ht' (by simp)

end Monitors
