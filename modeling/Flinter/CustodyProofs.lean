import Mathlib.Data.List.Nodup
import Mathlib.Data.Set.Insert
import Mathlib.Logic.Pairwise

/-! # Things in custody

    Keepers have lists of things, and each thing is with one keeper, once.  A
    step brings in a new thing, or hands some over from one keeper to another;
    it is told by what it does to the lists of the keepers involved, in any
    order. -/

namespace Custodies

universe u v

variable {P : Type u} {α : Type v} {items : Set α} {lists lists' : P → List α}
  {p q : P} {a : α}

/-- `items` are what the keepers have, each with one of them, once. -/
structure Custody (items : Set α) (lists : P → List α) : Prop where
  nodup : ∀ p, (lists p).Nodup
  disjoint : Pairwise (Function.onFun List.Disjoint lists)
  mem : ∀ a, a ∈ items ↔ ∃ p, a ∈ lists p

theorem Custody.unique (h : Custody items lists) (hp : a ∈ lists p) (hq : a ∈ lists q) :
    p = q := by
  by_contra hne
  exact h.disjoint hne hp hq

/-- Nobody has anything. -/
theorem custody_nil (h : ∀ p, lists p = []) : Custody ∅ lists where
  nodup := fun p => by
    rw [h p]
    exact List.nodup_nil
  disjoint := fun p q _ a ha _ => by
    rw [h p] at ha
    exact List.not_mem_nil ha
  mem := fun a => by
    refine iff_of_false (Set.notMem_empty a) ?_
    rintro ⟨p, hp⟩
    rw [h p] at hp
    exact List.not_mem_nil hp

/-- The order in which a keeper has its things does not matter. -/
theorem Custody.perm (h : Custody items lists) (hl : ∀ p, (lists' p).Perm (lists p)) :
    Custody items lists' where
  nodup := fun p => (hl p).nodup_iff.mpr (h.nodup p)
  disjoint := fun _ _ hne _ hp hq =>
    h.disjoint hne ((hl _).mem_iff.mp hp) ((hl _).mem_iff.mp hq)
  mem := fun a => (h.mem a).trans (exists_congr fun p => (hl p).mem_iff.symm)

/-- **A NEW THING** comes to one keeper. -/
theorem Custody.enter (h : Custody items lists) (q : P) (hnew : a ∉ items)
    (hq : (lists' q).Perm (a :: lists q)) (hrest : ∀ r, r ≠ q → lists' r = lists r) :
    Custody (insert a items) lists' := by
  have hout : ∀ r, a ∉ lists r := fun r hr => hnew ((h.mem a).mpr ⟨r, hr⟩)
  have hmem : ∀ b r, b ∈ lists' r ↔ (b = a ∧ r = q) ∨ b ∈ lists r := by
    intro b r
    by_cases hr : r = q
    · rw [hr, hq.mem_iff, List.mem_cons, and_iff_left rfl]
    · rw [hrest r hr, or_iff_right fun hb => hr hb.2]
  refine ⟨fun r => ?_, fun r s hne b hbr hbs => ?_, fun b => ?_⟩
  · by_cases hr : r = q
    · rw [hr, hq.nodup_iff, List.nodup_cons]
      exact ⟨hout q, h.nodup q⟩
    · rw [hrest r hr]
      exact h.nodup r
  · rcases (hmem b r).mp hbr with ⟨rfl, rfl⟩ | hr
    · rcases (hmem b s).mp hbs with ⟨-, rfl⟩ | hs
      · exact hne rfl
      · exact hout s hs
    · rcases (hmem b s).mp hbs with ⟨rfl, -⟩ | hs
      · exact hout r hr
      · exact h.disjoint hne hr hs
  · rw [Set.mem_insert_iff, h.mem]
    constructor
    · rintro (rfl | ⟨r, hr⟩)
      · exact ⟨q, (hmem _ q).mpr (.inl ⟨rfl, rfl⟩)⟩
      · exact ⟨r, (hmem b r).mpr (.inr hr)⟩
    · rintro ⟨r, hr⟩
      exact ((hmem b r).mp hr).imp And.left fun hr => ⟨r, hr⟩

/-- **HANDING OVER**: some things go from one keeper to another. -/
theorem Custody.move (h : Custody items lists) (p q : P) (as : List α) (hpq : p ≠ q)
    (hp : (as ++ lists' p).Perm (lists p)) (hq : (lists' q).Perm (as ++ lists q))
    (hrest : ∀ r, r ≠ p → r ≠ q → lists' r = lists r) : Custody items lists' := by
  have hfrom : ∀ b ∈ as, b ∈ lists p := fun b hb =>
    hp.mem_iff.mp (List.mem_append_left _ hb)
  have hnodup : as.Nodup ∧ (lists' p).Nodup ∧ List.Disjoint as (lists' p) :=
    List.nodup_append'.mp (hp.nodup_iff.mpr (h.nodup p))
  -- what is with another keeper is not handed over
  have hkept : ∀ b r, r ≠ p → b ∈ lists r → b ∉ as :=
    fun b r hr hb has => hr (h.unique hb (hfrom b has))
  have hmem : ∀ b r, b ∈ lists' r ↔ (b ∈ as ∧ r = q) ∨ (b ∈ lists r ∧ b ∉ as) := by
    intro b r
    by_cases hr : r = q
    · rw [hr, hq.mem_iff, List.mem_append, and_iff_left rfl,
        and_iff_left_of_imp (hkept b q hpq.symm)]
    by_cases hr' : r = p
    · rw [hr', ← hp.mem_iff, List.mem_append, or_iff_right fun hb => hpq hb.2]
      constructor
      · exact fun hb => ⟨.inr hb, fun has => hnodup.2.2 has hb⟩
      · exact fun hb => hb.1.resolve_left hb.2
    · rw [hrest r hr' hr, or_iff_right fun hb => hr hb.2]
      exact (and_iff_left_of_imp (hkept b r hr')).symm
  refine ⟨fun r => ?_, fun r s hne b hbr hbs => ?_, fun b => ?_⟩
  · by_cases hr : r = q
    · rw [hr, hq.nodup_iff, List.nodup_append']
      exact ⟨hnodup.1, h.nodup q, fun b has hb => hkept b q hpq.symm hb has⟩
    by_cases hr' : r = p
    · rw [hr']
      exact hnodup.2.1
    · rw [hrest r hr' hr]
      exact h.nodup r
  · rcases (hmem b r).mp hbr with ⟨has, rfl⟩ | ⟨hr, hout⟩
    · rcases (hmem b s).mp hbs with ⟨-, rfl⟩ | ⟨-, hout⟩
      · exact hne rfl
      · exact hout has
    · rcases (hmem b s).mp hbs with ⟨has, -⟩ | ⟨hs, -⟩
      · exact hout has
      · exact h.disjoint hne hr hs
  · rw [h.mem]
    by_cases has : b ∈ as
    · exact iff_of_true ⟨p, hfrom b has⟩ ⟨q, (hmem b q).mpr (.inl ⟨has, rfl⟩)⟩
    · refine exists_congr fun r => ?_
      rw [hmem, or_iff_right fun hb => has hb.1, and_iff_left has]

end Custodies
