import Flinter.ForestProofs

/-! # Positions

    The positions of a tree are in order from left to right: one is left of
    another if it branches off from it to a smaller name.  Of two positions either
    one is left of the other, or one is below the other.

    A tree has only so many positions: they are not longer than it is deep, and
    there are no other names in them than it has. -/

namespace Forests

universe u v

variable {κ : Type u} {ι : Type v} [LinearOrder κ] {p r s : List κ}
variable {F : Forest κ ι} {i : ι}

-- ── From left to right ───────────────────────────────────────────────────────

/-- The first position is left of the second. -/
def Left : List κ → List κ → Prop
  | [], _ => False
  | _ :: _, [] => False
  | j :: p, k :: r => j < k ∨ j = k ∧ Left p r

instance decidableLeft : (p r : List κ) → Decidable (Left p r)
  | [], _ => isFalse id
  | _ :: _, [] => isFalse id
  | j :: p, k :: r =>
      let _ := decidableLeft p r
      decidable_of_iff (j < k ∨ j = k ∧ Left p r) Iff.rfl

theorem left_append : Left (r ++ p) (r ++ s) ↔ Left p s := by
  induction r with
  | nil => rfl
  | cons k r ih => simp [Left, ih]

/-- What is below two positions is as they are. -/
theorem Left.append (h : Left p r) (s t : List κ) : Left (p ++ s) (r ++ t) := by
  induction p generalizing r with
  | nil => cases h
  | cons j p ih =>
      cases r with
      | nil => cases h
      | cons k r => exact h.imp_right fun h => ⟨h.1, ih h.2⟩

theorem not_left_append : ¬Left (r ++ s) r := by
  induction r with
  | nil => cases s <;> exact id
  | cons k r ih =>
      rintro (h | h)
      · exact lt_irrefl k h
      · exact ih h.2

theorem Left.trans (h : Left p r) (h' : Left r s) : Left p s := by
  induction p generalizing r s with
  | nil => cases h
  | cons j p ih =>
      cases r with
      | nil => cases h
      | cons k r =>
          cases s with
          | nil => cases h'
          | cons l s =>
              rcases h with hjk | ⟨rfl, h⟩
              · rcases h' with hkl | ⟨rfl, -⟩
                · exact .inl (hjk.trans hkl)
                · exact .inl hjk
              · rcases h' with hkl | ⟨rfl, h'⟩
                · exact .inl hkl
                · exact .inr ⟨rfl, ih h h'⟩

/-- Left of what is below a position. -/
theorem left_append_right :
    Left p (r ++ s) ↔ Left p r ∨ ∃ t, p = r ++ t ∧ Left t s := by
  induction r generalizing p with
  | nil =>
      refine ⟨fun h => .inr ⟨p, rfl, h⟩, ?_⟩
      rintro (h | ⟨t, rfl, h⟩)
      · cases p <;> cases h
      · exact h
  | cons k r ih =>
      cases p with
      | nil => simp [Left]
      | cons j p =>
          rw [List.cons_append, Left, Left, ih]
          constructor
          · rintro (h | ⟨rfl, h | ⟨t, rfl, h⟩⟩)
            · exact .inl (.inl h)
            · exact .inl (.inr ⟨rfl, h⟩)
            · exact .inr ⟨t, rfl, h⟩
          · rintro ((h | ⟨rfl, h⟩) | ⟨t, heq, h⟩)
            · exact .inl h
            · exact .inr ⟨rfl, .inl h⟩
            · obtain ⟨rfl, rfl⟩ := List.cons.inj heq
              exact .inr ⟨rfl, .inr ⟨t, rfl, h⟩⟩

theorem left_singleton {k : κ} : Left p [k] ↔ ∃ j s, p = j :: s ∧ j < k := by
  cases p with
  | nil => simp [Left]
  | cons j p =>
      constructor
      · rintro (hlt | ⟨-, h⟩)
        · exact ⟨j, p, rfl, hlt⟩
        · cases p <;> cases h
      · rintro ⟨l, s, heq, hlt⟩
        obtain ⟨rfl, rfl⟩ := List.cons.inj heq
        exact .inl hlt

/-- Left of a child. -/
theorem left_snoc {k : κ} :
    Left p (r ++ [k]) ↔ Left p r ∨ ∃ j s, p = r ++ j :: s ∧ j < k := by
  rw [left_append_right]
  refine or_congr_right ⟨?_, ?_⟩
  · rintro ⟨t, rfl, ht⟩
    obtain ⟨j, s, rfl, hlt⟩ := left_singleton.mp ht
    exact ⟨j, s, rfl, hlt⟩
  · rintro ⟨j, s, rfl, hlt⟩
    exact ⟨j :: s, rfl, .inl hlt⟩

-- ── How many there are ───────────────────────────────────────────────────────

namespace Forest

/-- How long a position can be. -/
def depth : Forest κ ι → Nat
  | nil => 0
  | cons _ _ children rest => max (children.depth + 1) rest.depth

/-- All names. -/
def names : Forest κ ι → List κ
  | nil => []
  | cons name _ children rest => name :: (children.names ++ rest.names)

end Forest

theorem bounded_of_view (h : (Node.view ⟨i, F⟩ p).isSome) :
    p.length ≤ F.depth ∧ ∀ k ∈ p, k ∈ F.names := by
  induction F generalizing i p with
  | nil =>
      cases p with
      | nil => exact ⟨le_rfl, fun k hk => (by cases hk)⟩
      | cons k p => cases h
  | cons name info children rest ihc ihr =>
      cases p with
      | nil => exact ⟨Nat.zero_le _, fun k hk => (by cases hk)⟩
      | cons k p =>
          rw [Node.view_cons] at h
          dsimp only at h
          rw [Forest.find] at h
          split at h
          · next heq =>
              obtain ⟨hlength, hmem⟩ := ihc (i := info) h
              refine ⟨(Nat.succ_le_succ hlength).trans (le_max_left _ _), fun l hl => ?_⟩
              rw [Forest.names, List.mem_cons, List.mem_append]
              rcases List.mem_cons.mp hl with rfl | hl
              · exact .inl heq
              · exact .inr (.inl (hmem l hl))
          · obtain ⟨hlength, hmem⟩ := ihr (i := i) (p := k :: p)
              (by rw [Node.view_cons]; exact h)
            refine ⟨hlength.trans (le_max_right _ _), fun l hl => ?_⟩
            rw [Forest.names, List.mem_cons, List.mem_append]
            exact .inr (.inr (hmem l hl))

end Forests
