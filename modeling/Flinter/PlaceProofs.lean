import Mathlib.Data.List.Basic

/-! # Places and the ways to them

    A way goes up or down by a name, step by step.  It leads to a place: so many
    steps up from where it begins, then down by names.  From the root there is no
    way up, and a step up stays there.

    The shortest way to a place goes up first, and then down. -/

namespace Places

universe u

/-- A step of a way. -/
inductive Step (α : Type u) where
  | up
  | name (a : α)
deriving DecidableEq, Repr

/-- Steps up, of which there are none from the root, then down by names. -/
@[ext] structure Place (α : Type u) where
  rooted : Bool
  ups : Nat
  names : List α
  ups_rooted : rooted = true → ups = 0

variable {α : Type u} {a : α} {s : Step α} {way way' : List (Step α)}

namespace Place

instance [DecidableEq α] : DecidableEq (Place α) := fun p q =>
  decidable_of_iff (p.rooted = q.rooted ∧ p.ups = q.ups ∧ p.names = q.names)
    Place.ext_iff.symm

/-- Where a way begins. -/
def start (rooted : Bool) : Place α := ⟨rooted, 0, [], fun _ => rfl⟩

/-- One step up where there is no name to go back from. -/
def above (p : Place α) : Place α where
  rooted := p.rooted
  ups := if p.rooted then p.ups else p.ups + 1
  names := []
  ups_rooted h := by rw [if_pos h, p.ups_rooted h]

/-- One step. -/
def step (p : Place α) : Step α → Place α
  | .name a => { p with names := p.names ++ [a] }
  | .up =>
      match p.names with
      | [] => p.above
      | _ :: _ => { p with names := p.names.dropLast }

/-- A way, from a place. -/
def walk (p : Place α) (way : List (Step α)) : Place α := way.foldl step p

/-- The shortest way to a place. -/
def shortest (p : Place α) : List (Step α) :=
  List.replicate p.ups .up ++ p.names.map .name

variable {p : Place α}

@[simp] theorem walk_nil : p.walk [] = p := rfl

@[simp] theorem walk_cons : p.walk (s :: way) = (p.step s).walk way := rfl

theorem walk_append : p.walk (way ++ way') = (p.walk way).walk way' := List.foldl_append

theorem step_up_nil (h : p.names = []) : p.step .up = p.above := by
  rw [step, h]

theorem step_up_concat {names : List α} (h : p.names = names ++ [a]) :
    p.step .up = { p with names := names } := by
  rw [step]
  split
  · next hnil => simp [hnil] at h
  · rw [h, List.dropLast_concat]

/-- Down by names. -/
theorem walk_names (names : List α) :
    p.walk (names.map .name) = { p with names := p.names ++ names } := by
  induction names generalizing p with
  | nil => simp
  | cons a names ih => simp [ih, step]

@[simp] theorem step_rooted : (p.step s).rooted = p.rooted := by
  cases s with
  | name a => rfl
  | up =>
      rw [step]
      split
      · rfl
      · rfl

/-- Up, where that is possible. -/
theorem walk_ups {rooted : Bool} (n : Nat) (h : rooted = true → n = 0) :
    (start rooted : Place α).walk (List.replicate n .up) = ⟨rooted, n, [], h⟩ := by
  induction n with
  | zero => rfl
  | succ n ih =>
      have hfree : ¬rooted = true := fun hr => Nat.succ_ne_zero n (h hr)
      rw [List.replicate_succ', walk_append, ih fun hr => absurd hr hfree, walk_cons,
        walk_nil, step_up_nil rfl]
      ext1
      · rfl
      · exact if_neg hfree
      · rfl

/-- **THE SHORTEST WAY** to a place leads there. -/
theorem walk_shortest (p : Place α) : (start p.rooted).walk p.shortest = p := by
  rw [shortest, walk_append, walk_ups p.ups p.ups_rooted, walk_names]
  rfl

/-- The names of a place are names of the way there. -/
theorem mem_walk_names (h : a ∈ (p.walk way).names) : a ∈ p.names ∨ .name a ∈ way := by
  induction way generalizing p with
  | nil => exact .inl h
  | cons s way ih =>
      rcases ih h with h | h
      · cases s with
        | name b =>
            rcases List.mem_append.mp h with h | h
            · exact .inl h
            · exact .inr (List.mem_singleton.mp h ▸ List.mem_cons_self)
        | up =>
            rw [step] at h
            split at h
            · cases h
            · exact .inl (List.dropLast_subset _ h)
      · exact .inr (List.mem_cons_of_mem s h)

end Place

end Places
