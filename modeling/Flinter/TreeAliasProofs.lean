import Flinter.TreeOverlapProofs

/-! # Merging within one tree

    Nothing keeps a node from being merged with a node of its own tree.  If the
    source is above the target, each child that is created in the target is a
    new child in the source, and the merge never ends.  If it is below, what was
    written may be read, and it is a matter of what that is if the merge of a copy
    would have left the same. -/

namespace FlinterTree

open Forests Forest

variable {w w' : World} {x y : Ref} {p q : List Text} {k : Text} {c : Option Text}
variable {t : Tree} {ow : Bool} {fuel fuel' : Nat} {a b : Place}

-- ── A source above the target ────────────────────────────────────────────────

/-- The loop does not get past the child that the target is at or below. -/
theorem mergeLoop_diverges (hx : (w.view (y.below (k :: q))).isSome)
    (hk : Behind c k) : mergeLoop fuel w (y.below (k :: q)) y ow c = none := by
  induction fuel generalizing w y q k c with
  | zero => rfl
  | succ fuel ih =>
      have hchild : (w.view (y.child k)).isSome := by
        refine World.view_isSome_of_below (p := q) ?_
        rw [Ref.child_below]
        exact hx
      cases hnext : w.next y c with
      | none => exact absurd hk (World.next_eq_none.mp hnext k hchild)
      | some j =>
          obtain ⟨hj, -, hleast⟩ := World.next_eq_some.mp hnext
          obtain ⟨ix, hix⟩ := Option.isSome_iff_exists.mp hx
          obtain ⟨iy, hiy⟩ := Option.isSome_iff_exists.mp hj
          rw [mergeLoop_next hnext]
          rcases lt_or_eq_of_le (hleast k hchild hk) with hlt | rfl
          · -- one before it: the iteration goes on, if it ever does
            cases hmerge : merge fuel (w.createChild (y.below (k :: q)) y j)
                ((y.below (k :: q)).child j) (y.child j) ow with
            | none => rfl
            | some w₁ =>
                refine ih (merge_isSome (createChild_isSome hj) hmerge
                  (createChild_isSome hx)) fun b hb => ?_
                rw [← Option.some.inj hb]
                exact hlt
          · -- the one itself: its counterpart is a node below it
            have hdeep : (y.below (j :: q)).child j = (y.child j).below (q ++ [j]) := by
              rw [Ref.child_below, Ref.below_child, List.cons_append]
            have hnew : ((w.createChild (y.below (j :: q)) y j).view
                ((y.child j).below (q ++ [j]))).isSome := by
              rw [view_createChild hix hiy, hdeep, if_pos rfl]
              rfl
            have hne : (y.child j).below (q ++ [j]) ≠ y.child j :=
              Ref.below_ne_self (by simp)
            rw [hdeep, merge, if_neg hne]
            obtain ⟨l, s, hls⟩ := List.exists_cons_of_ne_nil (l := q ++ [j]) (by simp)
            rw [hls] at hnew ⊢
            rw [ih hnew fun b hb => (by cases hb)]
            rfl

/-- **A SOURCE ABOVE THE TARGET** is merged forever. -/
theorem merge_diverges (hx : (w.view (y.below q)).isSome) (hq : q ≠ []) :
    ¬Merges w (y.below q) y ow w' := by
  rintro ⟨fuel, h⟩
  obtain ⟨k, s, rfl⟩ := List.exists_cons_of_ne_nil hq
  rw [merge, if_neg (Ref.below_ne_self hq),
    mergeLoop_diverges hx fun b hb => (by cases hb)] at h
  cases h

-- ── A detached copy ──────────────────────────────────────────────────────────

/-- `Tree copy(b); a.Merge(copy, ow);` -/
def mergeDetached (fuel : Nat) (w : World) (a b : Place) (ow : Bool) :
    Option World :=
  (construct fuel w .copy b.ref).bind fun w =>
    (merge fuel w a.ref Root.copy.ref ow).map fun w => w.fresh .copy

/-- A merge ends, and leaves what that of a copy does. -/
def Safe (w : World) (a b : Place) (ow : Bool) : Prop :=
  ∃ w', Merges w a.ref b.ref ow w' ∧
    ∃ fuel w'', mergeDetached fuel w a b ow = some w'' ∧
      ∀ p, w'.valueAt (a.ref.below p) = w''.valueAt (a.ref.below p)

theorem mergeDetached_mono (h : mergeDetached fuel w a b ow = some w')
    (hle : fuel ≤ fuel') : mergeDetached fuel' w a b ow = some w' := by
  rw [mergeDetached] at h ⊢
  obtain ⟨w₁, hcopy, hrest⟩ := Option.bind_eq_some_iff.mp h
  obtain ⟨w₂, hmerge, rfl⟩ := Option.map_eq_some_iff.mp hrest
  rw [show construct fuel' w .copy b.ref = some w₁ from merge_mono hcopy hle,
    Option.bind_some, merge_mono hmerge hle, Option.map_some]

/-- A copy that is merged always ends in the union. -/
theorem mergeDetached_value (ow : Bool) (ha : (w.view a.ref).isSome)
    (hb : (w.view b.ref).isSome) :
    ∃ fuel w', mergeDetached fuel w a b ow = some w' ∧
      ∀ p, w'.valueAt (a.ref.below p) =
        unionAt ow (w.valueAt (a.ref.below p)) (w.valueAt (b.ref.below p)) := by
  obtain ⟨t, ht⟩ := Option.isSome_iff_exists.mp (World.view_isSome.mp hb)
  obtain ⟨fuel₁, w₁, hcopy, hmerged₁⟩ :=
    construct_merged (n := .copy) ht (place_ne_copy b _ rfl)
  obtain ⟨t₁, ht₁, hcopied⟩ := construct_value hmerged₁
  have hobject : ∀ p, w₁.view (a.ref.below p) = w.view (a.ref.below p) := fun p =>
    construct_frame hmerged₁ (place_ne_copy a _ rfl)
  have hself : (w₁.view a.ref).isSome := by
    rw [construct_frame hmerged₁ (place_ne_copy a _ rfl)]
    exact ha
  obtain ⟨w₂, ⟨fuel₂, hmerge⟩, hmerged₂⟩ := merge_apart ow hself ht₁
    (apart_of_root (y := Root.copy.ref) (place_ne_copy a _ rfl))
  refine ⟨max fuel₁ fuel₂, w₂.fresh .copy, ?_, fun p => ?_⟩
  · rw [mergeDetached,
      show construct _ w .copy b.ref = some w₁ from
        merge_mono hcopy (le_max_left fuel₁ fuel₂),
      Option.bind_some, merge_mono hmerge (le_max_right fuel₁ fuel₂), Option.map_some]
  · have hunion := hmerged₂.value hself p
    have hold : valueAt t p = w.valueAt (b.ref.below p) := by
      rw [World.valueAt, World.view_below, ht]
      rfl
    rw [World.valueAt, World.valueAt, hobject] at hunion
    rw [World.valueAt, view_fresh_copy, hunion, hcopied, hold]
    rfl

-- ── The condition ────────────────────────────────────────────────────────────

/-- A merge that ends is safe if it ends in the union. -/
theorem safe_iff (ha : (w.view a.ref).isSome) (hb : (w.view b.ref).isSome)
    (hmerges : Merges w a.ref b.ref ow w') :
    Safe w a b ow ↔ ∀ p, w'.values a.ref p =
      unionAt ow (w.values a.ref p) (w.values b.ref p) := by
  obtain ⟨fuel, w₂, hdetached, hvalue⟩ := mergeDetached_value ow ha hb
  constructor
  · rintro ⟨w₁, hmerges₁, fuel', w₃, hdetached', hsame⟩ p
    obtain rfl := hmerges.unique hmerges₁
    have hmax := mergeDetached_mono hdetached (le_max_left fuel fuel')
    rw [mergeDetached_mono hdetached' (le_max_right fuel fuel')] at hmax
    obtain rfl := Option.some.inj hmax
    exact (hsame p).trans (hvalue p)
  · intro hunion
    exact ⟨w', hmerges, fuel, w₂, hdetached, fun p => (hunion p).trans (hvalue p).symm⟩

/-- The source is not above the target; and if it is below, it has no node where
    it lies itself below the target. -/
structure Undisturbed (w : World) (a b : Place) : Prop where
  above : ∀ q, q ≠ [] → a.ref ≠ b.ref.below q
  below : ∀ q, q ≠ [] → b.ref = a.ref.below q → w.view (b.ref.below q) = none

/-- Then nothing that is written is read. -/
theorem Undisturbed.apart (h : Undisturbed w a b) (hab : a.ref ≠ b.ref)
    (ht : w.at? b.ref = some t) : Apart a.ref b.ref t := by
  intro r hr s heq
  rcases Ref.comparable heq with ⟨q, hq⟩ | ⟨q, hq⟩
  · by_cases hnil : q = []
    · exact hab (by rw [hq, hnil, Ref.below_nil])
    · exact h.above q hnil hq
  · have hnil : q ≠ [] := fun hnil => hab (by rw [hq, hnil, Ref.below_nil])
    have hnone := h.below q hnil hq
    rw [hq, Ref.below_below] at heq
    rw [Ref.below_injective heq] at hr
    have hview := Node.view_isSome_of_append hr
    rw [World.view_below, ht, Option.bind_some] at hnone
    rw [hnone] at hview
    cases hview

theorem unionAt_self (v : Option Text) : unionAt ow v v = v := ite_self v

/-- The source is not above the target; and if it is below, what is merged into it
    before it is read makes no difference. -/
structure Harmless (w : World) (a b : Place) (ow : Bool) : Prop where
  above : ∀ q, q ≠ [] → a.ref ≠ b.ref.below q
  below : ∀ q, q ≠ [] → b.ref = a.ref.below q → Steady (w.values a.ref) q ow

/-- **MERGING WITHIN A TREE** is safe exactly if it is harmless. -/
theorem merge_within (ha : (w.view a.ref).isSome) (hb : (w.view b.ref).isSome)
    (ow : Bool) : Safe w a b ow ↔ Harmless w a b ow := by
  constructor
  · intro h
    refine ⟨fun q hq heq => ?_, fun q hq heq => ?_⟩
    · obtain ⟨w', hmerges, -⟩ := h
      rw [heq] at ha hmerges
      exact merge_diverges ha hq hmerges
    · obtain ⟨w₁, hmerges, -, hunion⟩ := merge_inside (x := a.ref) ow hq (heq ▸ hb)
      refine hunion.mp fun p => ?_
      have hvalue := (safe_iff ha hb (heq ▸ hmerges)).mp h p
      rw [heq] at hvalue
      rw [hvalue, World.values, World.values, Ref.below_below]
      rfl
  · intro h
    by_cases hab : a.ref = b.ref
    · refine (safe_iff ha hb ⟨0, by rw [merge, if_pos hab]⟩).mpr fun p => ?_
      rw [← hab, unionAt_self]
    by_cases hin : ∃ q, q ≠ [] ∧ b.ref = a.ref.below q
    · obtain ⟨q, hq, heq⟩ := hin
      obtain ⟨w₁, hmerges, -, hunion⟩ := merge_inside (x := a.ref) ow hq (heq ▸ hb)
      refine (safe_iff ha hb (heq ▸ hmerges)).mpr fun p => ?_
      rw [hunion.mpr (h.below q hq heq), heq, World.values, World.values, World.values,
        Ref.below_below]
    · have hundisturbed : Undisturbed w a b :=
        ⟨h.above, fun q hq heq => absurd ⟨q, hq, heq⟩ hin⟩
      obtain ⟨t, ht⟩ := Option.isSome_iff_exists.mp (World.view_isSome.mp hb)
      obtain ⟨w₁, hmerges, hmerged⟩ := merge_apart ow ha ht (hundisturbed.apart hab ht)
      refine (safe_iff ha hb hmerges).mpr fun p => ?_
      have hsource : valueAt t p = w.valueAt (b.ref.below p) := by
        rw [World.valueAt, World.view_below, ht]
        rfl
      rw [World.values, hmerged.value ha, hsource]
      rfl

/-- A child with a grandchild of its own is merged into the root. -/
theorem merge_within_child : Safe twoLeaves ⟨0, []⟩ ⟨0, ["a".toList]⟩ true := by
  refine (merge_within (w := twoLeaves) (a := ⟨0, []⟩) (b := ⟨0, ["a".toList]⟩)
    (by decide) (by decide) true).mpr
      ⟨fun q hq heq => ?_, fun q hq heq s v hlate hv => ?_⟩
  · exact absurd (Ref.mk.inj heq).2 (by simp [Place.ref])
  · -- there is nothing below the child where it lies itself
    obtain rfl : q = ["a".toList] := (Ref.mk.inj heq).2.symm
    have hthere := World.values_closed twoLeaves (Root.object 0).ref
      ["a".toList, "a".toList] s (Option.isSome_of_eq_some hv)
    exact absurd hthere (by decide)

/-- The root is merged into a child of its own. -/
theorem merge_unsafe :
    ¬∀ (w : World) (a b : Place) (ow : Bool), (w.view a.ref).isSome →
      (w.view b.ref).isSome → Safe w a b ow := by
  intro h
  obtain ⟨w', hmerges, -⟩ := h twoLeaves ⟨0, ["a".toList]⟩ ⟨0, []⟩ true
    (by decide) (by decide)
  exact merge_diverges (w := twoLeaves) (y := ⟨.object 0, []⟩) (q := ["a".toList])
    (by decide) (by simp) hmerges

/-- A source that has a node where it lies itself: its value is overwritten with
    that of this node before it is read. -/
example :
    let w := (twoLeaves.put (.object 0)
      (set (set emptyTree "a".toList "1".toList) "a.a".toList "2".toList)
      (set_ascending (set_ascending trivial)))
    (merge 9 w ⟨.object 0, []⟩ ⟨.object 0, ["a".toList]⟩ true).map
        (fun w' => w'.valueAt ⟨.object 0, []⟩) = some (some "2".toList) ∧
      (mergeDetached 9 w ⟨0, []⟩ ⟨0, ["a".toList]⟩ true).map
        (fun w' => w'.valueAt ⟨.object 0, []⟩) = some (some "1".toList) := by
  decide

end FlinterTree
