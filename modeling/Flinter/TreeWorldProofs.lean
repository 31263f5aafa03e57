import Flinter.TreeProofs

/-! # Trees beside each other

    Two references to nodes may name the same node, or nodes of one tree, so an
    operation on both is one on all the trees there are.  A world has a tree for
    each object of the program, and one for the local copy that `operator =`
    makes; the children of every node are in the order of their keys, as a map
    keeps them. -/

namespace FlinterTree

open Forests Forest

/-- Where a tree begins. -/
inductive Root where
  | object (i : Nat)
  | copy
deriving DecidableEq, Repr

/-- A reference to a node. -/
structure Ref where
  root : Root
  path : List Text
deriving DecidableEq, Repr

/-- The node below a node. -/
def Ref.below (x : Ref) (p : List Text) : Ref := ⟨x.root, x.path ++ p⟩

/-- The child of a node. -/
def Ref.child (x : Ref) (k : Text) : Ref := x.below [k]

/-- All the trees. -/
structure World where
  tree : Root → Tree
  ascending : ∀ i, (tree i).Ascending

variable {w w' : World} {x y z : Ref} {p q r : List Text} {j k : Text}
variable {c : Option Text} {i : Info} {t : Tree}

namespace Ref

@[simp] theorem below_nil : x.below [] = x := by
  rw [below, List.append_nil]

@[simp] theorem below_below : (x.below p).below q = x.below (p ++ q) := by
  rw [below, below, below, List.append_assoc]

theorem child_below : (x.child k).below p = x.below (k :: p) := below_below

theorem below_child : (x.below p).child k = x.below (p ++ [k]) := below_below

theorem below_injective (h : x.below p = x.below q) : p = q :=
  List.append_cancel_left (congrArg Ref.path h)

theorem below_ne_self (hp : p ≠ []) : x.below p ≠ x := fun h =>
  hp (below_injective (h.trans below_nil.symm))

/-- Two nodes that have one below both are one above the other. -/
theorem comparable (h : x.below p = y.below q) :
    (∃ s, x = y.below s) ∨ ∃ s, y = x.below s := by
  obtain ⟨hroot, hpath⟩ := Ref.mk.inj h
  rcases List.append_eq_append_iff.mp hpath with ⟨s, hs, -⟩ | ⟨s, hs, -⟩
  · refine .inr ⟨s, ?_⟩
    rw [below, hroot, ← hs]
  · refine .inl ⟨s, ?_⟩
    rw [below, ← hroot, ← hs]

end Ref

-- ── Looking and changing ─────────────────────────────────────────────────────

namespace World

/-- The node that is referred to. -/
def at? (w : World) (x : Ref) : Option Tree := (w.tree x.root).at? x.path

/-- What is seen of it. -/
def view (w : World) (x : Ref) : Option Info := (w.tree x.root).view x.path

/-- Its value. -/
def valueAt (w : World) (x : Ref) : Option Text := (w.view x).map Info.value

/-- The fields of a node that is there. -/
def info (w : World) (x : Ref) : Info := (w.view x).getD ⟨[], [], []⟩

/-- A node is changed, and keeps the order of its children. -/
def modify (w : World) (x : Ref) (f : Tree → Tree)
    (hf : ∀ t : Tree, t.Ascending → (f t).Ascending) : World where
  tree := Function.update w.tree x.root ((w.tree x.root).modify f x.path)
  ascending := fun i => by
    rcases eq_or_ne i x.root with rfl | hne
    · rw [Function.update_self]
      exact Node.modify_ascending (w.ascending _) hf
    · rw [Function.update_of_ne hne]
      exact w.ascending i

/-- An iteration over the children goes on. -/
def next (w : World) (x : Ref) (c : Option Text) : Option Text :=
  (w.at? x).bind fun t => t.children.next c

/-- A tree is constructed, or destroyed. -/
def put (w : World) (i : Root) (t : Tree) (ht : t.Ascending) : World where
  tree := Function.update w.tree i t
  ascending := fun j => by
    rcases eq_or_ne j i with rfl | hne
    · rw [Function.update_self]
      exact ht
    · rw [Function.update_of_ne hne]
      exact w.ascending j

theorem view_below : w.view (x.below p) = (w.at? x).bind fun t => t.view p :=
  Node.view_append

theorem view_eq_at? : w.view x = (w.at? x).map Node.info := rfl

theorem view_isSome : (w.view x).isSome ↔ (w.at? x).isSome := Node.view_isSome

theorem valueAt_isSome : (w.valueAt z).isSome ↔ (w.view z).isSome := by
  rw [valueAt, Option.isSome_map]

theorem view_isSome_of_below (h : (w.view (x.below p)).isSome) :
    (w.view x).isSome := Node.view_isSome_of_append h

theorem info_of_view (h : w.view x = some i) : w.info x = i := by
  rw [info, h, Option.getD_some]

/-- At a node and below it, the view is that of the changed node. -/
theorem view_modify_below {f : Tree → Tree}
    {hf : ∀ t : Tree, t.Ascending → (f t).Ascending} :
    (w.modify x f hf).view (x.below p) = (w.at? x).bind fun t => (f t).view p := by
  rw [view, Ref.below, modify]
  dsimp only
  rw [Function.update_self, Node.view_modify_append]
  rfl

/-- The node itself. -/
theorem view_modify_self {f : Tree → Tree}
    {hf : ∀ t : Tree, t.Ascending → (f t).Ascending} :
    (w.modify x f hf).view x = (w.at? x).map fun t => (f t).info := by
  calc (w.modify x f hf).view x = (w.modify x f hf).view (x.below []) := by
        rw [Ref.below_nil]
    _ = (w.at? x).bind fun t => (f t).view [] := view_modify_below
    _ = (w.at? x).map fun t => (f t).info := Option.map_eq_bind.symm

/-- Nothing else changes. -/
theorem view_modify_of_not {f : Tree → Tree}
    {hf : ∀ t : Tree, t.Ascending → (f t).Ascending}
    (h : ∀ p, z ≠ x.below p) : (w.modify x f hf).view z = w.view z := by
  rw [view, view, modify]
  dsimp only
  rcases eq_or_ne z.root x.root with hroot | hne
  · rw [hroot, Function.update_self, Node.view_modify_of_not]
    rintro ⟨p, hp⟩
    refine h p ?_
    rw [Ref.below, hp, ← hroot]
  · rw [Function.update_of_ne hne]

theorem at?_put_of_ne {n : Root} {ht : t.Ascending} (h : z.root ≠ n) :
    (w.put n t ht).at? z = w.at? z := by
  rw [at?, at?, put]
  dsimp only
  rw [Function.update_of_ne h]

theorem view_put_self {ht : t.Ascending} (h : z.root = x.root) :
    (w.put x.root t ht).view z = t.view z.path := by
  rw [view, put]
  dsimp only
  rw [h, Function.update_self]

theorem view_put_of_ne {n : Root} {ht : t.Ascending} (h : z.root ≠ n) :
    (w.put n t ht).view z = w.view z := by
  rw [view, view, put]
  dsimp only
  rw [Function.update_of_ne h]

/-- Nor does any node of another tree. -/
theorem at?_modify_of_ne {f : Tree → Tree}
    {hf : ∀ t : Tree, t.Ascending → (f t).Ascending}
    (h : z.root ≠ x.root) : (w.modify x f hf).at? z = w.at? z := by
  rw [at?, at?, modify]
  dsimp only
  rw [Function.update_of_ne h]

/-- A change that keeps the nodes of the node keeps all nodes. -/
theorem view_modify_isSome {f : Tree → Tree}
    {hf : ∀ t : Tree, t.Ascending → (f t).Ascending}
    (hkeep : ∀ (t : Tree) p, (t.view p).isSome → ((f t).view p).isSome)
    (h : (w.view z).isSome) : ((w.modify x f hf).view z).isSome := by
  by_cases hz : ∃ p, z = x.below p
  · obtain ⟨p, rfl⟩ := hz
    rw [view_below] at h
    rw [view_modify_below]
    obtain ⟨i, hi⟩ := Option.isSome_iff_exists.mp h
    obtain ⟨t, ht, hview⟩ := Option.bind_eq_some_iff.mp hi
    rw [ht, Option.bind_some]
    exact hkeep t p (by rw [hview]; rfl)
  · rw [view_modify_of_not fun p hp => hz ⟨p, hp⟩]
    exact h

/-- **THE ITERATION** stops when no child is behind. -/
theorem next_eq_none : w.next x c = none ↔
    ∀ k, (w.view (x.child k)).isSome → ¬Behind c k := by
  have hview : ∀ k, w.view (x.child k) =
      (w.at? x).bind fun t => t.view [k] := fun k => view_below
  rw [next]
  cases hat : w.at? x with
  | none => simp [hview, hat]
  | some t =>
      rw [Option.bind_some, Forest.next_eq_none]
      refine forall_congr' fun k => ?_
      rw [hview, hat, Option.bind_some, Node.view_isSome, Node.at?_cons]
      cases t.children.find k with
      | none => rfl
      | some n => rfl

/-- It goes on with the smallest key behind. -/
theorem next_eq_some : w.next x c = some k ↔
    (w.view (x.child k)).isSome ∧ Behind c k ∧
      ∀ j, (w.view (x.child j)).isSome → Behind c j → k ≤ j := by
  have hview : ∀ k, w.view (x.child k) =
      (w.at? x).bind fun t => t.view [k] := fun k => view_below
  rw [next]
  cases hat : w.at? x with
  | none => simp [hview, hat]
  | some t =>
      have hfind : ∀ k, (w.view (x.child k)).isSome ↔
          (t.children.find k).isSome := by
        intro k
        rw [hview, hat, Option.bind_some, Node.view_isSome, Node.at?_cons]
        cases t.children.find k with
        | none => rfl
        | some n => rfl
      rw [Option.bind_some,
        Forest.next_eq_some (Node.at?_ascending (w.ascending _) hat), hfind]
      simp only [hfind]

end World

end FlinterTree
