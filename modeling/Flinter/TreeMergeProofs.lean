import Flinter.TreeWorldProofs

/-! # Merging trees

    `Merge` goes over the children of the other node, creates those that are
    missing here and merges each into its counterpart; in the end it takes over
    the key and the value, if it is to overwrite.  The iteration is over a map
    that may itself be changed on the way, so each step looks for the next key in
    the map as it is then.

    As long as nothing that is written belongs to what is read, the source stays
    as it is, the merge ends, and what it leaves is the union.  `operator =`
    merges from a copy, and the copy shares nothing with anything. -/

namespace FlinterTree

open Forests Forest

variable {w w' w₁ w₂ : World} {x y z : Ref} {p q r s : List Text} {j k : Text}
variable {c : Option Text} {i ix iy : Info} {t : Tree} {ow : Bool}
variable {fuel fuel' : Nat}

-- ── The code ─────────────────────────────────────────────────────────────────

/-- `Merge`: a child of the other node, if it is missing here. -/
def World.createChild (w : World) (x y : Ref) (k : Text) : World :=
  w.modify x (fun t => t.add k
    ⟨k, (w.info (y.child k)).value, t.info.fullPath ++ '.' :: k⟩) fun _ ht =>
      Node.add_ascending ht

/-- What a node becomes that is to take over the other's key and value. -/
def overwritten (ow : Bool) (i source : Info) : Info :=
  if ow then { i with key := source.key, value := source.value } else i

/-- `Merge`: the end. -/
def World.overwrite (w : World) (x y : Ref) (ow : Bool) : World :=
  w.modify x (Node.relabel (overwritten ow · (w.info y))) fun _ ht =>
    Node.relabel_ascending ht

/-- `Merge`: the loop from where the iteration stands, and the end. -/
def mergeLoop : Nat → World → Ref → Ref → Bool → Option Text → Option World
  | 0, _, _, _, _, _ => none
  | fuel + 1, w, x, y, ow, c =>
      match w.next y c with
      | none => some (w.overwrite x y ow)
      | some k =>
          let w := w.createChild x y k
          let merged :=
            if x.child k = y.child k then some w
            else mergeLoop fuel w (x.child k) (y.child k) ow none
          merged.bind fun w => mergeLoop fuel w x y ow (some k)

/-- `Merge`, as far as the fuel lasts. -/
def merge (fuel : Nat) (w : World) (x y : Ref) (ow : Bool) : Option World :=
  if x = y then some w else mergeLoop fuel w x y ow none

/-- `Merge` comes to an end. -/
def Merges (w : World) (x y : Ref) (ow : Bool) (w' : World) : Prop :=
  ∃ fuel, merge fuel w x y ow = some w'

-- ── Single steps ─────────────────────────────────────────────────────────────

/-- Nothing but the child. -/
theorem view_createChild_of_ne (hz : z ≠ x.child k) :
    (w.createChild x y k).view z = w.view z := by
  by_cases hin : ∃ p, z = x.below p
  · obtain ⟨p, rfl⟩ := hin
    have hp : p ≠ [k] := fun heq => hz (by rw [heq]; rfl)
    rw [World.createChild, World.view_modify_below, World.view_below]
    exact Option.bind_congr fun t _ => Node.view_add_of_ne hp
  · rw [World.createChild, World.view_modify_of_not fun p hp => hin ⟨p, hp⟩]

/-- Nothing but the node. -/
theorem view_overwrite_of_ne (hz : z ≠ x) :
    (w.overwrite x y ow).view z = w.view z := by
  by_cases hin : ∃ p, z = x.below p
  · obtain ⟨p, rfl⟩ := hin
    have hp : p ≠ [] := fun heq => hz (by rw [heq, Ref.below_nil])
    rw [World.overwrite, World.view_modify_below, World.view_below]
    exact Option.bind_congr fun t _ => Node.view_relabel_of_ne hp
  · rw [World.overwrite, World.view_modify_of_not fun p hp => hin ⟨p, hp⟩]

/-- A child that is created, or is there already. -/
theorem view_createChild (hx : w.view x = some ix)
    (hy : w.view (y.child k) = some iy) :
    (w.createChild x y k).view z =
      if z = x.child k then
        some ((w.view (x.child k)).getD ⟨k, iy.value, ix.fullPath ++ '.' :: k⟩)
      else w.view z := by
  split
  · next heq =>
      rw [World.view_eq_at?] at hx
      obtain ⟨t, ht, rfl⟩ := Option.map_eq_some_iff.mp hx
      have hchild : w.view (x.child k) = (w.at? x).bind fun t => t.view [k] :=
        World.view_below
      rw [heq, hchild, Ref.child, World.createChild, World.view_modify_below, ht,
        Option.bind_some, Option.bind_some, World.info_of_view hy, Node.view_add_self]
  · next hne => exact view_createChild_of_ne hne

theorem view_overwrite (hx : w.view x = some ix) (hy : w.view y = some iy) :
    (w.overwrite x y ow).view z =
      if z = x then some (overwritten ow ix iy) else w.view z := by
  split
  · next heq =>
      rw [World.view_eq_at?] at hx
      obtain ⟨t, ht, rfl⟩ := Option.map_eq_some_iff.mp hx
      rw [heq, World.overwrite, World.view_modify_self, ht, World.info_of_view hy]
      rfl
  · next hne => exact view_overwrite_of_ne hne

theorem mergeLoop_done (h : w.next y c = none) :
    mergeLoop (fuel + 1) w x y ow c = some (w.overwrite x y ow) := by
  rw [mergeLoop, h]

theorem mergeLoop_next (h : w.next y c = some k) :
    mergeLoop (fuel + 1) w x y ow c =
      (merge fuel (w.createChild x y k) (x.child k) (y.child k) ow).bind
        fun w => mergeLoop fuel w x y ow (some k) := by
  rw [mergeLoop, h]
  rfl

/-- More fuel does no harm. -/
theorem mergeLoop_mono (h : mergeLoop fuel w x y ow c = some w')
    (hle : fuel ≤ fuel') : mergeLoop fuel' w x y ow c = some w' := by
  induction fuel generalizing fuel' w x y c w' with
  | zero => cases h
  | succ fuel ih =>
      obtain ⟨more, rfl⟩ : ∃ more, fuel' = more + 1 := ⟨fuel' - 1, by omega⟩
      have hmore : fuel ≤ more := by omega
      cases hnext : w.next y c with
      | none =>
          rw [mergeLoop_done hnext] at h ⊢
          exact h
      | some k =>
          rw [mergeLoop_next hnext] at h ⊢
          obtain ⟨w₁, hchild, hrest⟩ := Option.bind_eq_some_iff.mp h
          refine Option.bind_eq_some_iff.mpr ⟨w₁, ?_, ih hrest hmore⟩
          rw [merge] at hchild ⊢
          split at hchild
          · next heq => rw [if_pos heq, hchild]
          · next hne => rw [if_neg hne, ih hchild hmore]

/-- What it leaves does not depend on the fuel. -/
theorem Merges.unique (h : Merges w x y ow w₁) (h' : Merges w x y ow w₂) :
    w₁ = w₂ := by
  obtain ⟨fuel, h⟩ := h
  obtain ⟨fuel', h'⟩ := h'
  rw [merge] at h h'
  split at h
  · next heq =>
      rw [if_pos heq, h] at h'
      exact Option.some.inj h'
  · next hne =>
      rw [if_neg hne] at h'
      have hmax := mergeLoop_mono h (le_max_left fuel fuel')
      rw [mergeLoop_mono h' (le_max_right fuel fuel')] at hmax
      exact (Option.some.inj hmax).symm

theorem createChild_isSome (h : (w.view z).isSome) :
    ((w.createChild x y k).view z).isSome := by
  refine World.view_modify_isSome (fun t p hp => ?_) h
  by_cases hpk : p = [k]
  · rw [hpk, Node.view_add_self]
    rfl
  · rw [Node.view_add_of_ne hpk]
    exact hp

theorem overwrite_isSome (h : (w.view z).isSome) :
    ((w.overwrite x y ow).view z).isSome := by
  refine World.view_modify_isSome (fun t p hp => ?_) h
  by_cases hnil : p = []
  · rw [hnil]
    rfl
  · rw [Node.view_relabel_of_ne hnil]
    exact hp

/-- **THE RULE OF THE MERGE**: what survives the single steps, between nodes that
    are related, survives the loop; and so does every node. -/
theorem mergeLoop_invariant {I : World → Prop} {P : Ref → Ref → Prop}
    (hchild : ∀ x y k, P x y → P (x.child k) (y.child k))
    (hcreate : ∀ w x y k, P x y → I w → (w.view (y.child k)).isSome →
      I (w.createChild x y k))
    (hoverwrite : ∀ w x y, P x y → I w → (w.view y).isSome →
      I (w.overwrite x y ow))
    (hP : P x y) (hI : I w) (hy : (w.view y).isSome)
    (h : mergeLoop fuel w x y ow c = some w') :
    I w' ∧ ∀ z, (w.view z).isSome → (w'.view z).isSome := by
  induction fuel generalizing w x y c w' with
  | zero => cases h
  | succ fuel ih =>
      cases hnext : w.next y c with
      | none =>
          rw [mergeLoop_done hnext] at h
          rw [← Option.some.inj h]
          exact ⟨hoverwrite w x y hP hI hy, fun z hz => overwrite_isSome hz⟩
      | some k =>
          rw [mergeLoop_next hnext] at h
          obtain ⟨w₁, hmerge, hrest⟩ := Option.bind_eq_some_iff.mp h
          have hk := (World.next_eq_some.mp hnext).1
          have hcreated := hcreate w x y k hP hI hk
          obtain ⟨hI₁, hkeep₁⟩ : I w₁ ∧ ∀ z,
              ((w.createChild x y k).view z).isSome → (w₁.view z).isSome := by
            rw [merge] at hmerge
            split at hmerge
            · rw [← Option.some.inj hmerge]
              exact ⟨hcreated, fun z hz => hz⟩
            · exact ih (hchild x y k hP) hcreated (createChild_isSome hk) hmerge
          have hkeep : ∀ z, (w.view z).isSome → (w₁.view z).isSome :=
            fun z hz => hkeep₁ z (createChild_isSome hz)
          obtain ⟨hI', hkeep'⟩ := ih hP hI₁ (hkeep y hy) hrest
          exact ⟨hI', fun z hz => hkeep' z (hkeep z hz)⟩

/-- A merge removes no node. -/
theorem merge_isSome (hy : (w.view y).isSome)
    (h : merge fuel w x y ow = some w') (hz : (w.view z).isSome) :
    (w'.view z).isSome := by
  rw [merge] at h
  split at h
  · rw [← Option.some.inj h]
    exact hz
  · exact (mergeLoop_invariant (I := fun _ => True) (P := fun _ _ => True)
      (fun _ _ _ _ => trivial) (fun _ _ _ _ _ _ _ => trivial)
      (fun _ _ _ _ _ _ => trivial) trivial trivial hy h).2 z hz

-- ── What a merge leaves ──────────────────────────────────────────────────────

/-- The world after the node `x` was merged with what `t` looks like. -/
structure Merged (w w' : World) (x : Ref) (t : Tree) (ow : Bool) : Prop where
  frame : ∀ z, (∀ r, (t.view r).isSome → z ≠ x.below r) → w'.view z = w.view z
  self : ∀ i, w.view x = some i → w'.view x = some (overwritten ow i t.info)
  below : ∀ r k i, t.view (r ++ [k]) = some i → ∃ above,
    w'.view (x.below r) = some above ∧
      w'.view (x.below (r ++ [k])) = some (overwritten ow
        ((w.view (x.below (r ++ [k]))).getD
          ⟨k, i.value, above.fullPath ++ '.' :: k⟩) i)

/-- What is written does not belong to what is read. -/
def Apart (x y : Ref) (t : Tree) : Prop :=
  ∀ r, (t.view r).isSome → ∀ s, x.below r ≠ y.below s

theorem Merged.source (h : Merged w w' x t ow) (hapart : Apart x y t) :
    w'.view (y.below s) = w.view (y.below s) :=
  h.frame _ fun r hr heq => hapart r hr s heq.symm

/-- What the children look like that an iteration has yet to come to. -/
structure Remaining (w : World) (y : Ref) (c : Option Text) (R : Forest Text Info) :
    Prop where
  ascending : R.Ascending
  behind : R.AllBehind c
  same : ∀ k r, Behind c k →
    w.view (y.below (k :: r)) = (R.find k).bind fun t => t.view r

theorem Remaining.of_next (h : Remaining w y c .nil) : w.next y c = none := by
  refine World.next_eq_none.mpr fun k hk hbehind => ?_
  rw [Ref.child, h.same k [] hbehind] at hk
  cases hk

section Rest

variable {name : Text} {info : Info} {children rest : Forest Text Info}

theorem find_cons_of_behind (hk : Behind (some name) k) :
    (Forest.cons name info children rest).find k = rest.find k := by
  rw [Forest.find, if_neg (ne_of_gt (hk name rfl))]

theorem Remaining.next_cons (h : Remaining w y c (.cons name info children rest)) :
    w.next y c = some name ∧
      ∀ r, w.view ((y.child name).below r) = Node.view ⟨info, children⟩ r := by
  have hfind : (Forest.cons name info children rest).find name =
      some ⟨info, children⟩ := by
    rw [Forest.find, if_pos rfl]
  have hname : ∀ r, w.view ((y.child name).below r) =
      Node.view ⟨info, children⟩ r := by
    intro r
    rw [Ref.child_below, h.same name r h.behind.1, hfind]
    rfl
  refine ⟨World.next_eq_some.mpr ⟨?_, h.behind.1, fun j hj hbehind => ?_⟩, hname⟩
  · have hview := hname []
    rw [Ref.below_nil] at hview
    rw [hview]
    rfl
  · rw [Ref.child, h.same j [] hbehind] at hj
    by_cases heq : j = name
    · exact heq.ge
    · rw [Forest.find, if_neg heq] at hj
      obtain ⟨n, hn, -⟩ := Option.bind_eq_some_iff.mp (Option.eq_some_of_isSome hj)
      exact (h.ascending.1.find (by rw [hn]; rfl) name rfl).le

/-- The iteration goes on, in a world where the source is the same. -/
theorem Remaining.tail (h : Remaining w y c (.cons name info children rest))
    (hsource : ∀ s, w'.view (y.below s) = w.view (y.below s)) :
    Remaining w' y (some name) rest where
  ascending := h.ascending.2.2
  behind := h.ascending.1
  same k r hk := by
    have hbehind : Behind c k := fun b hb =>
      (h.behind.1 b hb).trans (hk name rfl)
    rw [hsource, h.same k r hbehind, find_cons_of_behind hk]

/-- A node that is left to come to is not at or below the one that is merged. -/
theorem view_cons_rest (h : Ascending (.cons name info children rest))
    (hr : (Node.view ⟨i, rest⟩ r).isSome) :
    Node.view ⟨i, .cons name info children rest⟩ r = Node.view ⟨i, rest⟩ r ∧
      ∀ s, r ≠ name :: s := by
  cases r with
  | nil => exact ⟨rfl, by simp⟩
  | cons j r =>
      rw [Node.view_cons] at hr
      obtain ⟨n, hn, -⟩ := Option.bind_eq_some_iff.mp (Option.eq_some_of_isSome hr)
      have hbehind : Behind (some name) j := h.1.find (by rw [hn]; rfl)
      refine ⟨?_, fun s hs => ?_⟩
      · rw [Node.view_cons, Node.view_cons, find_cons_of_behind hbehind]
      · exact ne_of_gt (hbehind name rfl) (List.cons.inj hs).1

/-- Below the one that is merged, its own view. -/
theorem view_cons_name :
    Node.view ⟨i, .cons name info children rest⟩ (name :: r) =
      Node.view ⟨info, children⟩ r := by
  rw [Node.view_cons, Forest.find, if_pos rfl]
  rfl

/-- Elsewhere, the view of those left. -/
theorem view_cons_other (h : ∀ s, r ≠ name :: s) :
    Node.view ⟨i, .cons name info children rest⟩ r = Node.view ⟨i, rest⟩ r := by
  cases r with
  | nil => rfl
  | cons j r =>
      have hj : j ≠ name := fun heq => h r (by rw [heq])
      rw [Node.view_cons, Node.view_cons, Forest.find, if_neg hj]

/-- **ONE CHILD AND THE REST**: what the merge of the first child leaves and what
    the rest of the iteration does to that. -/
theorem Merged.cons (hx : w.view x = some ix)
    (hy : w.view (y.child name) = some info)
    (hasc : Ascending (.cons name info children rest))
    (hchild : Merged (w.createChild x y name) w₁ (x.child name) ⟨info, children⟩ ow)
    (hrest : Merged w₁ w₂ x ⟨iy, rest⟩ ow) :
    Merged w w₂ x ⟨iy, .cons name info children rest⟩ ow := by
  have hcreate : ∀ {z}, z ≠ x.child name →
      (w.createChild x y name).view z = w.view z := fun hz => by
    rw [view_createChild hx hy, if_neg hz]
  -- what the first child's merge does not touch
  have houter : ∀ {z}, (∀ s, z ≠ x.below (name :: s)) → w₁.view z = w.view z := by
    intro z hz
    rw [hchild.frame z fun r _ heq => hz r (heq.trans Ref.child_below)]
    exact hcreate (hz [])
  -- and what the rest does not
  have hinner : ∀ s, w₂.view (x.below (name :: s)) = w₁.view (x.below (name :: s)) :=
    fun s => hrest.frame _ fun r hr heq =>
      (view_cons_rest hasc hr).2 s (Ref.below_injective heq).symm
  have hself : w₁.view x = some ix := by
    rw [houter fun s heq => Ref.below_ne_self (by simp) heq.symm, hx]
  have hdone := hrest.self ix hself
  refine ⟨fun z hz => ?_, fun i hi => ?_, fun r k i hi => ?_⟩
  · have hz₁ : ∀ s, ((Node.mk info children).view s).isSome →
        z ≠ x.below (name :: s) := fun s hs =>
      hz (name :: s) (by rw [view_cons_name]; exact hs)
    have hz₂ : ∀ r, ((Node.mk iy rest).view r).isSome → z ≠ x.below r := fun r hr =>
      hz r (by rw [(view_cons_rest hasc hr).1]; exact hr)
    rw [hrest.frame z hz₂,
      hchild.frame z fun r hr heq => hz₁ r hr (heq.trans Ref.child_below)]
    exact hcreate (hz₁ [] rfl)
  · rw [hx] at hi
    rw [← Option.some.inj hi]
    exact hdone
  · by_cases hin : ∃ s, r ++ [k] = name :: s
    · obtain ⟨s, hs⟩ := hin
      cases r with
      | nil =>
          obtain ⟨rfl, rfl⟩ := List.cons.inj hs
          rw [List.nil_append, view_cons_name] at hi
          obtain rfl := Option.some.inj hi
          refine ⟨overwritten ow ix iy, by rw [Ref.below_nil]; exact hdone, ?_⟩
          have hnew : (w.createChild x y k).view (x.child k) = some _ :=
            (view_createChild hx hy).trans (if_pos rfl)
          have hpath : (overwritten ow ix iy).fullPath = ix.fullPath := by
            rw [overwritten]
            split <;> rfl
          rw [List.nil_append, hinner, hpath]
          exact hchild.self _ hnew
      | cons l r =>
          obtain ⟨rfl, -⟩ := List.cons.inj hs
          rw [List.cons_append, view_cons_name] at hi
          obtain ⟨above, habove, hbelow⟩ := hchild.below r k i hi
          rw [Ref.child_below] at habove hbelow
          refine ⟨above, by rw [hinner]; exact habove, ?_⟩
          have hne : x.below (l :: (r ++ [k])) ≠ x.child l := by
            intro heq
            have hlist := Ref.below_injective heq
            simp at hlist
          rw [List.cons_append, hinner, hbelow, hcreate hne]
    · have hout : ∀ s, r ++ [k] ≠ name :: s := fun s hs => hin ⟨s, hs⟩
      rw [view_cons_other hout] at hi
      obtain ⟨above, habove, hbelow⟩ := hrest.below r k i hi
      refine ⟨above, habove, ?_⟩
      rw [hbelow, houter fun s heq => hout s (Ref.below_injective heq)]

end Rest

/-- **THE LOOP** ends, and has merged what was left. -/
theorem mergeLoop_merged {R : Forest Text Info} (hR : Remaining w y c R)
    (hx : w.view x = some ix) (hy : w.view y = some iy)
    (hapart : Apart x y ⟨iy, R⟩) :
    ∃ fuel w', mergeLoop fuel w x y ow c = some w' ∧ Merged w w' x ⟨iy, R⟩ ow := by
  induction R generalizing w x y c ix iy with
  | nil =>
      refine ⟨1, w.overwrite x y ow, mergeLoop_done hR.of_next, ?_⟩
      refine ⟨fun z hz => ?_, fun i hi => ?_, fun r k i hi => ?_⟩
      · have hne : z ≠ x := fun heq => hz [] rfl (heq.trans Ref.below_nil.symm)
        rw [view_overwrite hx hy, if_neg hne]
      · rw [hx] at hi
        rw [view_overwrite hx hy, if_pos rfl, Option.some.inj hi]
      · obtain ⟨j, s, hs⟩ := List.exists_cons_of_ne_nil (l := r ++ [k]) (by simp)
        rw [hs, Node.view_cons] at hi
        cases hi
  | cons name info children rest ihchild ihrest =>
      obtain ⟨hnext, hview⟩ := hR.next_cons
      have hinfo : w.view (y.child name) = some info := by
        have hv := hview []
        rwa [Ref.below_nil] at hv
      -- nothing that is written on the way belongs to the source
      have hdisjoint : Apart (x.child name) (y.child name) ⟨info, children⟩ := by
        intro r hr s heq
        rw [Ref.child_below, Ref.child_below] at heq
        exact hapart (name :: r) (by rw [view_cons_name]; exact hr) _ heq
      have hcreate : ∀ s, (w.createChild x y name).view (y.below s) =
          w.view (y.below s) := by
        intro s
        refine (view_createChild hx hinfo).trans (if_neg fun heq => ?_)
        exact hapart [name] (by rw [view_cons_name]; rfl) s heq.symm
      have hremaining : Remaining (w.createChild x y name) (y.child name) none
          children := by
        refine ⟨hR.ascending.2.1, ?_, fun k r _ => ?_⟩
        · exact Forest.allBehind_none
        · have hv := hview (k :: r)
          rw [Ref.child_below] at hv ⊢
          rw [hcreate, hv, Node.view_cons]
      have hchildx : (w.createChild x y name).view (x.child name) = some _ :=
        (view_createChild hx hinfo).trans (if_pos rfl)
      have hchildy : (w.createChild x y name).view (y.child name) = some info := by
        rw [Ref.child, hcreate, ← Ref.child, hinfo]
      obtain ⟨fuel₁, w₁, hloop₁, hmerged₁⟩ :=
        ihchild hremaining hchildx hchildy hdisjoint
      have hsource : ∀ s, w₁.view (y.below s) = w.view (y.below s) := by
        intro s
        rw [← hcreate]
        refine hmerged₁.frame _ fun r hr heq => ?_
        rw [Ref.child_below] at heq
        exact hapart (name :: r) (by rw [view_cons_name]; exact hr) s heq.symm
      have hselfx : w₁.view x = some ix := by
        rw [hmerged₁.frame x fun r _ heq => ?_]
        · rw [view_createChild hx hinfo, if_neg, hx]
          exact fun heq => Ref.below_ne_self (by simp) heq.symm
        · rw [Ref.child_below] at heq
          exact Ref.below_ne_self (by simp) heq.symm
      have hselfy : w₁.view y = some iy := by
        have hv := hsource []
        rwa [Ref.below_nil, hy] at hv
      have hapart' : Apart x y ⟨iy, rest⟩ := fun r hr =>
        hapart r (by rw [(view_cons_rest hR.ascending hr).1]; exact hr)
      obtain ⟨fuel₂, w₂, hloop₂, hmerged₂⟩ :=
        ihrest (hR.tail hsource) hselfx hselfy hapart'
      refine ⟨max fuel₁ fuel₂ + 1, w₂, ?_,
        Merged.cons hx hinfo hR.ascending hmerged₁ hmerged₂⟩
      have hne : x.child name ≠ y.child name := by
        have h := hdisjoint [] rfl []
        rwa [Ref.below_nil, Ref.below_nil] at h
      rw [mergeLoop_next hnext, merge, if_neg hne,
        mergeLoop_mono hloop₁ (le_max_left fuel₁ fuel₂), Option.bind_some,
        mergeLoop_mono hloop₂ (le_max_right fuel₁ fuel₂)]

-- ── The union ────────────────────────────────────────────────────────────────

/-- **A MERGE OF WHAT IS APART** ends. -/
theorem merge_apart (ow : Bool) (hx : (w.view x).isSome) (hy : w.at? y = some t)
    (hapart : Apart x y t) : ∃ w', Merges w x y ow w' ∧ Merged w w' x t ow := by
  have hview : ∀ r, w.view (y.below r) = t.view r := fun r => by
    rw [World.view_below, hy, Option.bind_some]
  have hne : x ≠ y := by
    have h := hapart [] rfl []
    rwa [Ref.below_nil, Ref.below_nil] at h
  have hremaining : Remaining w y none t.children := by
    refine ⟨Node.at?_ascending (w.ascending _) hy, allBehind_none, fun k r _ => ?_⟩
    rw [hview, Node.view_cons]
  have hselfy : w.view y = some t.info := by
    have h := hview []
    rwa [Ref.below_nil] at h
  obtain ⟨fuel, w', hloop, hmerged⟩ : ∃ fuel w',
      mergeLoop fuel w x y ow none = some w' ∧ Merged w w' x t ow :=
    mergeLoop_merged hremaining (Option.eq_some_of_isSome hx) hselfy hapart
  exact ⟨w', ⟨fuel, by rw [merge, if_neg hne, hloop]⟩, hmerged⟩

/-- A value of the union: that of `b`, if it has one and it counts, or that
    of `a`. -/
def unionAt (ow : Bool) (a b : Option Text) : Option Text :=
  if b.isSome ∧ (ow = true ∨ a = none) then b else a

theorem unionAt_isSome {a b : Option Text} :
    (unionAt ow a b).isSome ↔ a.isSome ∨ b.isSome := by
  rw [unionAt]
  cases a <;> cases b <;> cases ow <;> simp

/-- A node that was there, or was created with the other's value. -/
theorem overwritten_value (old : Option Info) {created : Info}
    (h : created.value = i.value) :
    some (overwritten ow (old.getD created) i).value =
      unionAt ow (old.map Info.value) (some i.value) := by
  cases old with
  | none =>
      rw [Option.getD_none, overwritten]
      cases ow with
      | false => exact congrArg some h
      | true => rfl
  | some i =>
      rw [Option.getD_some, overwritten]
      cases ow with
      | false => rfl
      | true => rfl

/-- A union that overwrites a part of what it is given is that. -/
theorem unionAt_true {a b : Option Text} (h : b = none → a = none) :
    unionAt true a b = b := by
  rw [unionAt]
  cases b with
  | none => rw [if_neg (by simp), h rfl]
  | some v => rw [if_pos ⟨rfl, .inl rfl⟩]

theorem Merged.value (h : Merged w w' x t ow) (hx : (w.view x).isSome)
    (p : List Text) :
    w'.valueAt (x.below p) =
      unionAt ow (w.valueAt (x.below p)) (FlinterTree.valueAt t p) := by
  rw [World.valueAt, World.valueAt, FlinterTree.valueAt]
  cases hp : t.view p with
  | none =>
      rw [h.frame _ fun r hr heq => ?_]
      · rw [unionAt, if_neg fun h => by cases h.1]
      · rw [← Ref.below_injective heq, hp] at hr
        cases hr
  | some i =>
      rcases List.eq_nil_or_concat p with rfl | ⟨r, k, rfl⟩
      · obtain rfl := Option.some.inj hp
        obtain ⟨ix, hix⟩ := Option.isSome_iff_exists.mp hx
        rw [Ref.below_nil, h.self ix hix, hix]
        exact overwritten_value (some ix) (rfl : t.info.value = _)
      · rw [List.concat_eq_append] at hp ⊢
        obtain ⟨above, -, hbelow⟩ := h.below r k i hp
        rw [hbelow]
        exact overwritten_value _ rfl

theorem Merged.child (h : Merged w w' x t ow) (hx : (w.view x).isSome)
    (hk : (w'.view (x.child k)).isSome) :
    (w.view (x.child k)).isSome ∨ (t.view [k]).isSome := by
  rw [← World.valueAt_isSome, Ref.child, h.value hx [k], unionAt_isSome] at hk
  rw [← World.valueAt_isSome]
  refine hk.imp_right fun hk => ?_
  rwa [FlinterTree.valueAt, Option.isSome_map] at hk

-- ── Copies ───────────────────────────────────────────────────────────────────

/-- A node of an object of the program. -/
structure Place where
  object : Nat
  path : List Text
deriving DecidableEq, Repr

def Place.ref (x : Place) : Ref := ⟨.object x.object, x.path⟩

/-- The root of a tree. -/
def Root.ref (n : Root) : Ref := ⟨n, []⟩

/-- `Clear`, of a node. -/
def World.clear (w : World) (x : Ref) : World :=
  w.modify x FlinterTree.clear fun _ _ => trivial

/-- A tree without anything in it. -/
def World.fresh (w : World) (n : Root) : World := w.put n emptyTree trivial

/-- `Tree(const Tree &)`. -/
def construct (fuel : Nat) (w : World) (n : Root) (y : Ref) : Option World :=
  merge fuel (w.fresh n) n.ref y true

/-- `operator =`: the copy is destroyed in the end. -/
def assign (fuel : Nat) (w : World) (x y : Place) : Option World :=
  if x = y then some w
  else
    (construct fuel w .copy y.ref).bind fun w =>
      (merge fuel (w.clear x.ref) x.ref Root.copy.ref true).map fun w =>
        w.fresh .copy

/-- `operator =` comes to an end. -/
def Assigns (w : World) (x y : Place) (w' : World) : Prop :=
  ∃ fuel, assign fuel w x y = some w'

variable {n : Root} {a b : Place}

theorem merge_mono (h : merge fuel w x y ow = some w') (hle : fuel ≤ fuel') :
    merge fuel' w x y ow = some w' := by
  rw [merge] at h ⊢
  split at h
  · next heq => rw [if_pos heq, h]
  · next hne => rw [if_neg hne, mergeLoop_mono h hle]

theorem assign_mono (h : assign fuel w a b = some w') (hle : fuel ≤ fuel') :
    assign fuel' w a b = some w' := by
  rw [assign] at h ⊢
  split at h
  · next heq => rw [if_pos heq, h]
  · next hne =>
      rw [if_neg hne]
      obtain ⟨w₁, hcopy, hrest⟩ := Option.bind_eq_some_iff.mp h
      obtain ⟨w₂, hmerge, rfl⟩ := Option.map_eq_some_iff.mp hrest
      rw [show construct fuel' w .copy b.ref = some w₁ from merge_mono hcopy hle,
        Option.bind_some, merge_mono hmerge hle, Option.map_some]

theorem Assigns.unique (h : Assigns w a b w₁) (h' : Assigns w a b w₂) : w₁ = w₂ := by
  obtain ⟨fuel, h⟩ := h
  obtain ⟨fuel', h'⟩ := h'
  have hmax := assign_mono h (le_max_left fuel fuel')
  rw [assign_mono h' (le_max_right fuel fuel')] at hmax
  exact (Option.some.inj hmax).symm

theorem place_ne_copy (a : Place) (n : Root) (hn : n = .copy) : a.ref.root ≠ n := by
  rw [hn]
  exact Root.noConfusion

theorem view_fresh_self (p : List Text) :
    (w.fresh n).view (n.ref.below p) = emptyTree.view p :=
  World.view_put_self (x := n.ref) rfl

/-- It is there itself. -/
theorem view_fresh : (w.fresh n).view n.ref = some emptyTree.info := by
  have hview := view_fresh_self (w := w) (n := n) []
  rwa [Ref.below_nil] at hview

theorem view_fresh_isSome : ((w.fresh n).view n.ref).isSome := by
  rw [view_fresh]
  rfl

theorem view_fresh_of_ne (h : z.root ≠ n) : (w.fresh n).view z = w.view z :=
  World.view_put_of_ne h

theorem view_clear_below :
    (w.clear x).view (x.below p) = (w.at? x).bind fun t => (clear t).view p :=
  World.view_modify_below

theorem view_clear_of_not (h : ∀ p, z ≠ x.below p) :
    (w.clear x).view z = w.view z :=
  World.view_modify_of_not h

theorem view_clear_self (h : w.at? x = some t) : ((w.clear x).view x).isSome := by
  have hview := view_clear_below (w := w) (x := x) (p := [])
  rw [Ref.below_nil, h, Option.bind_some] at hview
  rw [hview]
  rfl

/-- Nodes of different trees are apart. -/
theorem apart_of_root (h : x.root ≠ y.root) : Apart x y t := fun _ _ _ heq =>
  h (Ref.mk.inj heq).1

/-- A tree is copied to another root. -/
theorem construct_merged (hy : w.at? y = some t) (hn : y.root ≠ n) :
    ∃ fuel w', construct fuel w n y = some w' ∧ Merged (w.fresh n) w' n.ref t true := by
  have hfresh : (w.fresh n).at? y = some t := (World.at?_put_of_ne hn).trans hy
  obtain ⟨w', ⟨fuel, hmerge⟩, hmerged⟩ := merge_apart true view_fresh_isSome hfresh
    (apart_of_root (Ne.symm hn))
  exact ⟨fuel, w', hmerge, hmerged⟩

/-- The copy has the values of what was copied. -/
theorem construct_value (hmerged : Merged (w.fresh n) w' n.ref t true) :
    ∃ t', w'.at? n.ref = some t' ∧ ∀ p, valueAt t' p = valueAt t p := by
  have hvalue : ∀ p, w'.valueAt (n.ref.below p) = valueAt t p := by
    intro p
    rw [hmerged.value view_fresh_isSome p, World.valueAt, view_fresh_self, unionAt_true]
    intro hnone
    cases p with
    | nil => cases hnone
    | cons k p => rfl
  have hroot : (w'.view n.ref).isSome := by
    have h := hvalue []
    rw [Ref.below_nil, World.valueAt] at h
    rw [← Option.isSome_map (f := Info.value), h]
    rfl
  obtain ⟨t', ht'⟩ := Option.isSome_iff_exists.mp (World.view_isSome.mp hroot)
  refine ⟨t', ht', fun p => ?_⟩
  rw [← hvalue, World.valueAt, World.view_below, ht', Option.bind_some]
  rfl

/-- Nothing else has changed. -/
theorem construct_frame (hmerged : Merged (w.fresh n) w' n.ref t true)
    (hz : z.root ≠ n) : w'.view z = w.view z := by
  rw [hmerged.frame z fun r _ heq => ?_, view_fresh_of_ne hz]
  rw [heq] at hz
  exact hz rfl

theorem view_fresh_copy (w : World) (z : Place) (p : List Text) :
    (w.fresh .copy).view (z.ref.below p) = w.view (z.ref.below p) :=
  view_fresh_of_ne (place_ne_copy z _ rfl)

/-- **ASSIGNMENT** ends, whatever is assigned: the other node is copied, the node
    is cleared and the copy merged into it. -/
theorem assign_merged (ha : (w.view a.ref).isSome) (hb : w.at? b.ref = some t)
    (hab : a ≠ b) :
    ∃ w₁ w₂ t₁ ta, Assigns w a b (w₂.fresh .copy) ∧
      Merged (w.fresh .copy) w₁ Root.copy.ref t true ∧
      w₁.at? Root.copy.ref = some t₁ ∧ (∀ p, valueAt t₁ p = valueAt t p) ∧
      w₁.at? a.ref = some ta ∧ Merged (w₁.clear a.ref) w₂ a.ref t₁ true := by
  obtain ⟨fuel₁, w₁, hcopy, hmerged₁⟩ :=
    construct_merged (n := .copy) hb (place_ne_copy b _ rfl)
  obtain ⟨t₁, ht₁, hvalue⟩ := construct_value hmerged₁
  have hcleared : (w₁.clear a.ref).at? Root.copy.ref = some t₁ :=
    (World.at?_modify_of_ne (Ne.symm (place_ne_copy a _ rfl))).trans ht₁
  obtain ⟨ta, hta⟩ : ∃ ta, w₁.at? a.ref = some ta := by
    refine Option.isSome_iff_exists.mp (World.view_isSome.mp ?_)
    rw [construct_frame hmerged₁ (place_ne_copy a _ rfl)]
    exact ha
  obtain ⟨w₂, ⟨fuel₂, hmerge⟩, hmerged₂⟩ := merge_apart true (view_clear_self hta)
    hcleared (apart_of_root (y := Root.copy.ref) (place_ne_copy a _ rfl))
  refine ⟨w₁, w₂, t₁, ta, ⟨max fuel₁ fuel₂, ?_⟩, hmerged₁, ht₁, hvalue, hta, hmerged₂⟩
  rw [assign, if_neg hab,
    show construct _ w .copy b.ref = some w₁ from
      merge_mono hcopy (le_max_left fuel₁ fuel₂),
    Option.bind_some, merge_mono hmerge (le_max_right fuel₁ fuel₂), Option.map_some]

/-- The node has the values that the other one had. -/
theorem assign_value (ha : (w.view a.ref).isSome) (hb : (w.view b.ref).isSome) :
    ∃ w', Assigns w a b w' ∧
      ∀ p, w'.valueAt (a.ref.below p) = w.valueAt (b.ref.below p) := by
  by_cases hab : a = b
  · exact ⟨w, ⟨0, by rw [assign, if_pos hab]⟩, fun p => by rw [hab]⟩
  obtain ⟨t, ht⟩ := Option.isSome_iff_exists.mp (World.view_isSome.mp hb)
  obtain ⟨w₁, w₂, t₁, ta, hassigns, -, -, hvalue, hta, hmerged⟩ :=
    assign_merged ha ht hab
  refine ⟨w₂.fresh .copy, hassigns, fun p => ?_⟩
  have hunion := hmerged.value (view_clear_self hta) p
  have hold : valueAt t p = w.valueAt (b.ref.below p) := by
    rw [World.valueAt, World.view_below, ht]
    rfl
  rw [World.valueAt] at hunion
  rw [World.valueAt, view_fresh_copy, hunion, hvalue, hold, unionAt_true]
  intro hnone
  cases p with
  | nil =>
      rw [Ref.below_nil, World.valueAt, Option.map_eq_none_iff] at hnone
      rw [hnone] at hb
      cases hb
  | cons k p =>
      rw [World.valueAt, view_clear_below, hta]
      rfl

-- ── Merging and assigning ────────────────────────────────────────────────────

/-- No node is one of both. -/
def SharesNothing (x y : Ref) : Prop := ∀ p q, x.below p ≠ y.below q

/-- What a merge of two trees should leave: the union here, and there what was
    before. -/
structure Union (w w' : World) (x y : Ref) (ow : Bool) : Prop where
  exists_iff : ∀ p, (w'.valueAt (x.below p)).isSome ↔
    (w.valueAt (x.below p)).isSome ∨ (w.valueAt (y.below p)).isSome
  value : ∀ p, w'.valueAt (x.below p) =
    unionAt ow (w.valueAt (x.below p)) (w.valueAt (y.below p))
  source : ∀ p, w'.view (y.below p) = w.view (y.below p)

/-- **THE UNION**: merging two nodes that share nothing ends and leaves the union;
    and assigning any node to any other ends and leaves what that one was. -/
theorem merge_and_assign (ha : (w.view a.ref).isSome) (hb : (w.view b.ref).isSome) :
    (SharesNothing a.ref b.ref → ∀ ow,
      (∃ w', Merges w a.ref b.ref ow w') ∧
        ∀ w', Merges w a.ref b.ref ow w' → Union w w' a.ref b.ref ow) ∧
    (∃ w', Assigns w a b w') ∧
      ∀ w', Assigns w a b w' → ∀ p,
        w'.valueAt (a.ref.below p) = w.valueAt (b.ref.below p) := by
  constructor
  · intro hapart ow
    obtain ⟨t, ht⟩ := Option.isSome_iff_exists.mp (World.view_isSome.mp hb)
    have hview : ∀ p, w.view (b.ref.below p) = t.view p := fun p => by
      rw [World.view_below, ht, Option.bind_some]
    have hvalue : ∀ p, valueAt t p = w.valueAt (b.ref.below p) := fun p => by
      rw [World.valueAt, hview]
      rfl
    have happ : Apart a.ref b.ref t := fun r _ s => hapart r s
    obtain ⟨w₁, hmerges, hmerged⟩ := merge_apart ow ha ht happ
    refine ⟨⟨w₁, hmerges⟩, fun w' h => ?_⟩
    obtain rfl := hmerges.unique h
    have hunion : ∀ p, w₁.valueAt (a.ref.below p) =
        unionAt ow (w.valueAt (a.ref.below p)) (w.valueAt (b.ref.below p)) :=
      fun p => by rw [hmerged.value ha p, hvalue]
    exact ⟨fun p => by rw [hunion, unionAt_isSome], hunion,
      fun p => hmerged.source happ⟩
  · obtain ⟨w₁, hassigns, hvalue⟩ := assign_value ha hb
    refine ⟨⟨w₁, hassigns⟩, fun w' h => ?_⟩
    obtain rfl := hassigns.unique h
    exact hvalue

/-- A tree with two leaves. -/
def twoLeaves : World where
  tree := fun _ => set (set emptyTree "a.c".toList "1".toList) "b.d".toList "2".toList
  ascending := fun _ => set_ascending (set_ascending trivial)

/-- Two children are merged, and the root is assigned to one of them. -/
theorem merge_and_assign_children :
    (∀ w', Merges twoLeaves ⟨.object 0, ["a".toList]⟩ ⟨.object 0, ["b".toList]⟩
      true w' → Union twoLeaves w' ⟨.object 0, ["a".toList]⟩
        ⟨.object 0, ["b".toList]⟩ true) ∧
    ∀ w', Assigns twoLeaves ⟨0, ["a".toList]⟩ ⟨0, []⟩ w' → ∀ p,
      w'.valueAt ⟨.object 0, "a".toList :: p⟩ = twoLeaves.valueAt ⟨.object 0, p⟩ := by
  constructor
  · refine ((merge_and_assign (w := twoLeaves) (a := ⟨0, ["a".toList]⟩)
      (b := ⟨0, ["b".toList]⟩) (by decide) (by decide)).1 ?_ true).2
    intro p q heq
    exact absurd (List.cons.inj (Ref.mk.inj heq).2).1 (by decide)
  · exact (merge_and_assign (w := twoLeaves) (a := ⟨0, ["a".toList]⟩)
      (b := ⟨0, []⟩) (by decide) (by decide)).2.2

end FlinterTree
