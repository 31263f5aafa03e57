import Mathlib.Logic.Relation

/-! # Runs of a transition system

    A system is a set of start states and a labelled step relation.  The
    invariant rule is proved once here; a safety theorem about a system is then
    two goals, the start and the step.  A system that abstracts another is used
    through the simulation rule.  `restrict` keeps the steps that meet a
    condition on the state before and the label, so "every run whose steps meet
    the condition" is reachability in the restricted system. -/

namespace Runs

universe u v

variable {S : Type u} {L : Type v}

/-- Start states and labelled steps. -/
structure System (S : Type u) (L : Type v) where
  init : S → Prop
  step : S → L → S → Prop

/-- The states some run passes through. -/
inductive Reachable (M : System S L) : S → Prop where
  | start {s : S} : M.init s → Reachable M s
  | next {s s' : S} {l : L} : Reachable M s → M.step s l s' → Reachable M s'

/-- The steps of `M` that meet `C`. -/
def System.restrict (M : System S L) (C : S → L → Prop) : System S L where
  init := M.init
  step := fun s l s' => C s l ∧ M.step s l s'

/-- `M` with a record beside the state, which no step looks at. -/
def System.record {H : Type u} (M : System S L) (start : H)
    (note : S → L → H → H) : System (S × H) L where
  init := fun s => M.init s.1 ∧ s.2 = start
  step := fun s l s' => M.step s.1 l s'.1 ∧ s'.2 = note s.1 l s.2

/-- **THE INVARIANT RULE**: what holds at the start and survives each step
    holds in every reachable state.  The step may use that its source is
    itself reachable. -/
theorem Reachable.invariant {M : System S L} {I : S → Prop}
    (hinit : ∀ s, M.init s → I s)
    (hstep : ∀ s l s', Reachable M s → I s → M.step s l s' → I s')
    {s : S} (h : Reachable M s) : I s := by
  induction h with
  | start h0 => exact hinit _ h0
  | next hr hs ih => exact hstep _ _ _ hr ih hs

/-- What survives one step of a relation survives any number of them. -/
theorem invariant_of_star {R : S → S → Prop} {I : S → Prop}
    (hstep : ∀ s s', R s s' → I s → I s') {s s' : S}
    (h : Relation.ReflTransGen R s s') (hi : I s) : I s' := by
  induction h with
  | refl => exact hi
  | tail _ hs ih => exact hstep _ _ hs ih

/-- **THE SIMULATION RULE**: if the abstraction of a start is a start, and every
    step is abstracted to one step or to none, then the abstraction of every
    reachable state is reachable. -/
theorem Reachable.abstracts {T : Type u} {K : Type v} {M : System S L}
    {A : System T K} (f : S → T) (hinit : ∀ s, M.init s → A.init (f s))
    (hstep : ∀ s l s', Reachable M s → M.step s l s' →
      f s' = f s ∨ ∃ k, A.step (f s) k (f s'))
    {s : S} (h : Reachable M s) : Reachable A (f s) := by
  induction h with
  | start h0 => exact .start (hinit _ h0)
  | next hr hs ih =>
      rcases hstep _ _ _ hr hs with heq | ⟨k, hk⟩
      · rw [heq]
        exact ih
      · exact .next ih hk

/-- A restricted run is a run. -/
theorem Reachable.of_restrict {M : System S L} {C : S → L → Prop} {s : S}
    (h : Reachable (M.restrict C) s) : Reachable M s := by
  induction h with
  | start h0 => exact .start h0
  | next _ hs ih => exact .next ih hs.2

/-- A run with a record is a run. -/
theorem Reachable.of_record {H : Type u} {M : System S L} {start : H}
    {note : S → L → H → H} {p : S × H} (h : Reachable (M.record start note) p) :
    Reachable M p.1 := by
  induction h with
  | start h0 => exact .start h0.1
  | next _ hs ih => exact .next ih hs.1

/-- A run can be recorded. -/
theorem Reachable.exists_record {H : Type u} {M : System S L} {s : S}
    (h : Reachable M s) (start : H) (note : S → L → H → H) :
    ∃ x, Reachable (M.record start note) (s, x) := by
  induction h with
  | start h0 => exact ⟨start, .start ⟨h0, rfl⟩⟩
  | @next s s' l _ hs ih =>
      obtain ⟨x, hx⟩ := ih
      exact ⟨note s l x, .next hx ⟨hs, rfl⟩⟩

/-- A record that something bad has happened. -/
def marks (bad : S → L → Prop) (s : S) (l : L) (was : Prop) : Prop :=
  was ∨ bad s l

/-- **THE GHOST RULE**: nothing bad is recorded in a run that keeps to a
    condition that excludes it. -/
theorem Reachable.unmarked {S : Type} {M : System S L} {C bad : S → L → Prop}
    (hgood : ∀ s l s', Reachable M s → M.step s l s' → C s l → ¬bad s l)
    {p : S × Prop}
    (h : Reachable ((M.restrict C).record False (marks bad)) p) : ¬p.2 := by
  refine h.invariant (I := fun p => ¬p.2) ?_ ?_
  · rintro ⟨s, was⟩ ⟨-, rfl⟩
    exact id
  · rintro ⟨s, was⟩ l ⟨s', was'⟩ hr ih ⟨⟨hc, hs⟩, rfl⟩ hmarked
    rcases hmarked with hwas | hbad
    · exact ih hwas
    · exact hgood s l s' hr.of_record.of_restrict hs hc hbad

/-- A list of labels is followed from a reachable state, by a step function. -/
theorem Reachable.follow {M : System S L} {next : S → L → Option S} {ls : List L}
    (hnext : ∀ l ∈ ls, ∀ s s', next s l = some s' → M.step s l s')
    {s s' : S} (h : Reachable M s) (hs : ls.foldlM next s = some s') :
    Reachable M s' := by
  induction ls generalizing s with
  | nil =>
      obtain rfl := Option.some.inj hs
      exact h
  | cons l ls ih =>
      rw [List.foldlM_cons, Option.bind_eq_bind] at hs
      obtain ⟨s₁, h₁, hs⟩ := Option.bind_eq_some_iff.mp hs
      refine ih (fun l' hl' => hnext l' (List.mem_cons_of_mem l hl')) ?_ hs
      exact .next h (hnext l List.mem_cons_self s s₁ h₁)

-- ── Histories ────────────────────────────────────────────────────────────────

variable {E : Type u} {P : List E → E → Prop}

/-- Each entry of a history meets `P` with what came before it. -/
def Throughout (P : List E → E → Prop) (t : List E) : Prop :=
  ∀ pre e post, t = pre ++ e :: post → P pre e

theorem throughout_nil : Throughout P [] := by
  intro pre e post heq
  exact absurd heq.symm (by simp)

/-- A history grows at its end. -/
theorem throughout_snoc {t : List E} {e : E} :
    Throughout P (t ++ [e]) ↔ Throughout P t ∧ P t e := by
  constructor
  · intro ht
    refine ⟨fun pre e' post heq => ht pre e' (post ++ [e]) ?_, ht t e [] rfl⟩
    rw [heq, List.append_assoc, List.cons_append]
  · rintro ⟨ht, he⟩ pre e' post heq
    rcases List.eq_nil_or_concat post with rfl | ⟨post', x, rfl⟩
    · obtain ⟨rfl, hx⟩ := List.append_inj' heq rfl
      obtain rfl := List.singleton_inj.mp hx
      exact he
    · rw [List.concat_eq_append, ← List.cons_append, ← List.append_assoc] at heq
      exact ht pre e' post' (List.append_inj' heq rfl).1

/-- Entries that meet `P` anyway do not matter. -/
theorem throughout_append {t es : List E} (hes : ∀ pre, ∀ e ∈ es, P pre e)
    (ht : Throughout P t) : Throughout P (t ++ es) := by
  induction es generalizing t with
  | nil => rw [List.append_nil]; exact ht
  | cons e es ih =>
      rw [List.append_cons]
      refine ih (fun pre e' he' => hes pre e' (List.mem_cons_of_mem e he')) ?_
      exact throughout_snoc.mpr ⟨ht, hes t e List.mem_cons_self⟩

theorem Throughout.of_append {t es : List E} (ht : Throughout P (t ++ es)) :
    Throughout P t := by
  intro pre e post heq
  refine ht pre e (post ++ es) ?_
  rw [heq, List.append_assoc, List.cons_append]

end Runs
