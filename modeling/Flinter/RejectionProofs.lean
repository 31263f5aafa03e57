import Mathlib.Data.Fintype.BigOperators
import Mathlib.Data.Fintype.Pi

/-! # Drawing until something is accepted

    Each draw is accepted as a result or drawn again.  If as many draws are
    accepted for one result as for another, then as many sequences of draws end
    with the one as with the other, whatever their length; for the same number of
    draws, every sequence being as likely as any other, both results are. -/

namespace Rejections

variable {α β : Type*} [Fintype α] [DecidableEq β] {accept : α → Option β}
variable {v w : β} {n : Nat}

/-- The draws that are accepted for a result. -/
def accepted (accept : α → Option β) (v : β) : Nat :=
  (Finset.univ.filter fun a => accept a = some v).card

/-- The draws that are not accepted. -/
def rejected (accept : α → Option β) : Nat :=
  (Finset.univ.filter fun a => accept a = none).card

/-- The sequences of draws with a result. -/
def ways (accept : α → Option β) (n : Nat) (v : β) : Nat :=
  (Finset.univ.filter fun draws : Fin n → α =>
    (List.ofFn draws).findSome? accept = some v).card

omit [Fintype α] [DecidableEq β] in
/-- It is either the first draw, or one of those after it. -/
theorem findSome?_eq_some (a : α) (draws : List α) :
    (a :: draws).findSome? accept = some v ↔
      accept a = some v ∨ accept a = none ∧ draws.findSome? accept = some v := by
  rw [List.findSome?_cons]
  cases accept a with
  | none => simp
  | some u => simp

/-- **ONE DRAW MORE.** -/
theorem ways_succ (accept : α → Option β) (n : Nat) (v : β) :
    ways accept (n + 1) v =
      accepted accept v * Fintype.card α ^ n + rejected accept * ways accept n v := by
  classical
  have hsplit : ways accept (n + 1) v =
      ((Finset.univ.filter fun p : α × (Fin n → α) => accept p.1 = some v ∨
        accept p.1 = none ∧ (List.ofFn p.2).findSome? accept = some v)).card := by
    refine Finset.card_equiv (Fin.consEquiv fun _ => α).symm fun draws => ?_
    rw [Finset.mem_filter, Finset.mem_filter, List.ofFn_succ, findSome?_eq_some]
    exact and_congr (by simp) Iff.rfl
  have hfirst : (Finset.univ.filter fun p : α × (Fin n → α) => accept p.1 = some v) =
      (Finset.univ.filter fun a => accept a = some v) ×ˢ Finset.univ := by
    ext p
    simp
  have hlater : (Finset.univ.filter fun p : α × (Fin n → α) =>
      accept p.1 = none ∧ (List.ofFn p.2).findSome? accept = some v) =
      (Finset.univ.filter fun a => accept a = none) ×ˢ
        Finset.univ.filter fun draws : Fin n → α =>
          (List.ofFn draws).findSome? accept = some v := by
    ext p
    simp
  rw [hsplit, Finset.filter_or, Finset.card_union_of_disjoint, hfirst, hlater,
    Finset.card_product, Finset.card_product, Finset.card_univ, Fintype.card_pi,
    Finset.prod_const, Finset.card_univ, Fintype.card_fin]
  · rfl
  · refine Finset.disjoint_filter.mpr fun p _ hv hnone => ?_
    rw [hnone.1] at hv
    cases hv

/-- **UNIFORM**: results that as many draws are accepted for are as likely. -/
theorem ways_eq (h : accepted accept v = accepted accept w) :
    ways accept n v = ways accept n w := by
  induction n with
  | zero => simp [ways]
  | succ n ih => rw [ways_succ, ways_succ, h, ih]

end Rejections
