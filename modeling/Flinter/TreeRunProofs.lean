import Flinter.RunProofs
import Flinter.TreeMergeProofs
import Flinter.TreeParseProofs

/-! # Programs that work on trees

    A program has as many trees as it likes, refers to any of their nodes and
    calls what `Tree` offers on them.  What every node is to have, it has in every
    state reached if the nodes that are created and changed have it: those on a
    path, those from a document and those of a merge. -/

namespace FlinterTree

open Forests Forest Runs

-- ── The operations ───────────────────────────────────────────────────────────

/-- What is called. -/
inductive Operation where
  | set (x : Place) (path value : Text)
  | get (x : Place) (path : Text)
  | setValue (x : Place) (value : Text)
  | merge (x y : Place) (ow : Bool)
  | assign (x y : Place)
  | construct (i : Nat) (y : Place)
  | clear (x : Place)
  | parseXml (x : Place) (doc : XmlDoc)
  | parseHdf (x : Place) (doc : HdfDoc)
  | parseJson (x : Place) (doc : Option JsonNodes)
deriving DecidableEq, Repr

/-- The nodes that are referred to. -/
def Operation.places : Operation → List Place
  | .set x _ _ => [x]
  | .get x _ => [x]
  | .setValue x _ => [x]
  | .merge x y _ => [x, y]
  | .assign x y => [x, y]
  | .construct _ y => [y]
  | .clear x => [x]
  | .parseXml x _ => [x]
  | .parseHdf x _ => [x]
  | .parseJson x _ => [x]

theorem get_ascending {t : Tree} {path : Text} (h : t.Ascending) :
    (get t path).2.Ascending := by
  rw [get_snd]
  exact set_ascending h

/-- What it does, if it comes to an end. -/
def Operation.Does (w : World) : Operation → World → Prop
  | .set x path value, w' =>
      w' = w.modify x.ref (fun t => FlinterTree.set t path value)
        fun _ h => set_ascending h
  | .get x path, w' =>
      w' = w.modify x.ref (fun t => (FlinterTree.get t path).2)
        fun _ h => get_ascending h
  | .setValue x value, w' =>
      w' = w.modify x.ref (FlinterTree.setValue value)
        fun _ h => Node.relabel_ascending h
  | .merge x y ow, w' => Merges w x.ref y.ref ow w'
  | .assign x y, w' => Assigns w x y w'
  | .construct i y, w' =>
      y.object ≠ i ∧
        ∃ fuel, FlinterTree.construct fuel w (.object i) y.ref = some w'
  | .clear x, w' => w' = w.clear x.ref
  | .parseXml x doc, w' =>
      w' = w.modify x.ref (fun t => (parseFromXml t doc).2)
        fun _ h => parseFromXml_ascending h
  | .parseHdf x doc, w' =>
      w' = w.modify x.ref (fun t => (parseFromHdf t doc).2)
        fun _ _ => parseFromHdf_ascending
  | .parseJson x doc, w' =>
      w' = w.modify x.ref (fun t => (parseFromJson t doc).2)
        fun _ h => parseFromJson_ascending h

/-- A program that begins with empty trees. -/
def program : System World Operation where
  init := fun w => ∀ n, w.tree n = emptyTree
  step := fun w op w' => (∀ x ∈ op.places, (w.view x.ref).isSome) ∧ op.Does w w'

/-- After a first path is set. -/
def oneChild : World :=
  World.modify ⟨fun _ => emptyTree, fun _ => trivial⟩ (Root.object 0).ref
    (fun t => set t "a".toList "1".toList) fun _ h => set_ascending h

-- ── What every node has ──────────────────────────────────────────────────────

/-- Every node has what its place asks for. -/
def EachNode (P : Ref → Info → Prop) (w : World) : Prop :=
  ∀ z i, w.view z = some i → P z i

variable {P : Ref → Info → Prop} {w w' : World} {x y z : Ref} {t : Tree}
variable {i ix iy : Info} {k : Text} {ow : Bool} {n : Root} {a b : Place}
variable {f : Tree → Tree} {hf : ∀ t : Tree, t.Ascending → (f t).Ascending}

/-- Below a node, the same of its tree. -/
theorem EachNode.at? (h : EachNode P w) (ht : w.at? x = some t) :
    Each (fun r => P (x.below r)) t := by
  intro r i hr
  refine h _ i ?_
  rw [World.view_below, ht, Option.bind_some, hr]

/-- A node that is changed, and what is below it. -/
theorem EachNode.modify (h : EachNode P w)
    (hkeep : ∀ t, Each (fun r => P (x.below r)) t →
      Each (fun r => P (x.below r)) (f t)) : EachNode P (w.modify x f hf) := by
  intro z i hz
  by_cases hin : ∃ p, z = x.below p
  · obtain ⟨p, rfl⟩ := hin
    rw [World.view_modify_below] at hz
    obtain ⟨t, ht, hview⟩ := Option.bind_eq_some_iff.mp hz
    exact hkeep t (h.at? ht) p i hview
  · rw [World.view_modify_of_not fun p hp => hin ⟨p, hp⟩] at hz
    exact h z i hz

theorem EachNode.fresh (h : EachNode P w) (hnew : P n.ref emptyTree.info) :
    EachNode P (w.fresh n) := by
  intro z i hz
  by_cases hroot : z.root = n
  · obtain ⟨root, path⟩ := z
    obtain rfl : root = n := hroot
    have hview : (w.fresh root).view ⟨root, path⟩ = emptyTree.view path :=
      view_fresh_self path
    rw [hview] at hz
    cases path with
    | nil =>
        obtain rfl := Option.some.inj hz
        exact hnew
    | cons k p => cases hz
  · rw [view_fresh_of_ne hroot] at hz
    exact h z i hz

-- ── The steps of a merge ─────────────────────────────────────────────────────

/-- A node after a child was created was there, or is the child, which was not. -/
theorem createChild_cases (hy : w.view (y.child k) = some iy)
    (hz : (w.createChild x y k).view z = some i) :
    w.view z = some i ∨ z = x.child k ∧ w.view (x.child k) = none ∧
      ∃ ix, w.view x = some ix ∧
        i = ⟨k, iy.value, ix.fullPath ++ '.' :: k⟩ := by
  by_cases heq : z = x.child k
  · subst heq
    cases hx : w.view x with
    | none =>
        -- there is nothing to be changed
        rw [World.view_eq_at?, Option.map_eq_none_iff] at hx
        have hnone : (w.createChild x y k).view (x.below [k]) = none := by
          rw [World.createChild, World.view_modify_below, hx]
          rfl
        cases hnone.symm.trans hz
    | some ix =>
        rw [view_createChild hx hy, if_pos rfl] at hz
        cases hold : w.view (x.child k) with
        | some j =>
            rw [hold, Option.getD_some] at hz
            exact .inl hz
        | none =>
            rw [hold, Option.getD_none] at hz
            exact .inr ⟨rfl, rfl, ix, rfl, (Option.some.inj hz).symm⟩
  · rw [view_createChild_of_ne heq] at hz
    exact .inl hz

/-- A node after an end was as it is, or is the one whose merge has ended. -/
theorem overwrite_cases (hz : (w.overwrite x y ow).view z = some i) :
    w.view z = some i ∨ z = x ∧ ∃ ix, w.view x = some ix ∧
      i = overwritten ow ix (w.info y) := by
  by_cases heq : z = x
  · subst heq
    rw [World.overwrite, World.view_modify_self] at hz
    obtain ⟨t, ht, hinfo⟩ := Option.map_eq_some_iff.mp hz
    refine .inr ⟨rfl, t.info, ?_, hinfo.symm⟩
    rw [World.view_eq_at?, ht]
    rfl
  · rw [view_overwrite_of_ne heq] at hz
    exact .inl hz

/-- **AFTER A MERGE** of what is apart: what was elsewhere, the node itself, and
    below it what was there and what was created. -/
theorem Merged.each (h : Merged w w' x t ow) (hx : w.view x = some ix)
    (hother : ∀ z i, z ≠ x → w.view z = some i → P z i)
    (hself : P x (overwritten ow ix t.info))
    (hold : ∀ r k i j, t.view (r ++ [k]) = some i →
      P (x.below (r ++ [k])) j → P (x.below (r ++ [k])) (overwritten ow j i))
    (hnew : ∀ r k i above, t.view (r ++ [k]) = some i →
      w.view (x.below (r ++ [k])) = none → P (x.below r) above →
      P (x.below (r ++ [k]))
        (overwritten ow ⟨k, i.value, above.fullPath ++ '.' :: k⟩ i)) :
    EachNode P w' := by
  have hbelow : ∀ r i, (t.view r).isSome → w'.view (x.below r) = some i →
      P (x.below r) i := by
    intro r
    -- along the path: the full path of a new node comes from the one above
    induction r using List.reverseRecOn with
    | nil =>
        intro i _ hi
        rw [Ref.below_nil, h.self ix hx] at hi
        rw [← Option.some.inj hi, Ref.below_nil]
        exact hself
    | append_singleton r k ih =>
        intro i hr hi
        obtain ⟨source, hsource⟩ := Option.isSome_iff_exists.mp hr
        obtain ⟨above, habove, hnode⟩ := h.below r k source hsource
        rw [hnode] at hi
        rw [← Option.some.inj hi]
        cases hw : w.view (x.below (r ++ [k])) with
        | some j =>
            refine hold r k source j hsource (hother _ j ?_ hw)
            exact Ref.below_ne_self (by simp)
        | none =>
            exact hnew r k source above hsource hw
              (ih above (Node.view_isSome_of_append hr) habove)
  intro z i hz
  by_cases hin : ∃ r, z = x.below r ∧ (t.view r).isSome
  · obtain ⟨r, rfl, hr⟩ := hin
    exact hbelow r i hr hz
  · rw [h.frame z fun r hr heq => hin ⟨r, heq, hr⟩] at hz
    refine hother z i (fun heq => hin ⟨[], ?_, rfl⟩) hz
    rw [heq, Ref.below_nil]

end FlinterTree
