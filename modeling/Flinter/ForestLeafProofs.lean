import Flinter.ForestProofs

/-! # Leaves

    A forest has its leaves in an order, and every leaf has labels on the way to
    it.  Pruning keeps some of the leaves and what leads to them: nothing else is
    left, and the order stays. -/

namespace Forests

universe u v

variable {κ : Type u} {ι : Type v} {F children : Forest κ ι} {i : ι}
variable {keep : ι → Bool}

namespace Forest

def isNil : Forest κ ι → Bool
  | nil => true
  | cons .. => false

/-- The labels, in order. -/
def labels : Forest κ ι → List ι
  | nil => []
  | cons _ info children rest => info :: (children.labels ++ rest.labels)

/-- The leaves in order, each with the labels on the way to it. -/
def leaves : Forest κ ι → List (List ι × ι)
  | nil => []
  | cons _ info children rest =>
      (if children.isNil then [([], info)]
        else children.leaves.map fun l => (info :: l.1, l.2)) ++ rest.leaves

end Forest

/-- The leaves of a node, which is one itself if it has no children. -/
def Node.leaves (n : Node κ ι) : List (List ι × ι) :=
  if n.children.isNil then [([], n.info)]
  else n.children.leaves.map fun l => (n.info :: l.1, l.2)

namespace Forest

/-- What is kept of the leaves, and the nodes on the way to them. -/
def prune (keep : ι → Bool) : Forest κ ι → Forest κ ι
  | nil => nil
  | cons name info children rest =>
      if (Node.leaves ⟨info, children⟩).any fun l => keep l.2 then
        cons name info (children.prune keep) (rest.prune keep)
      else rest.prune keep

theorem isNil_iff : F.isNil ↔ F = nil := by
  cases F with
  | nil => exact ⟨fun _ => rfl, fun _ => rfl⟩
  | cons => exact ⟨fun h => (by cases h), fun h => (by cases h)⟩

theorem leaves_cons {name : κ} {rest : Forest κ ι} :
    (cons name i children rest).leaves =
      Node.leaves ⟨i, children⟩ ++ rest.leaves := rfl

theorem leaves_eq_nil : F.leaves = [] ↔ F = nil := by
  induction F with
  | nil => exact ⟨fun _ => rfl, fun _ => rfl⟩
  | cons name info children rest ihc _ =>
      refine ⟨fun h => ?_, fun h => (by cases h)⟩
      have hnode := (List.append_eq_nil_iff.mp (leaves_cons.symm.trans h)).1
      rw [Node.leaves] at hnode
      split at hnode
      · cases hnode
      · next hne =>
          have hnil := ihc.mp (List.map_eq_nil_iff.mp hnode)
          exact absurd (isNil_iff.mpr hnil) hne

/-- A node that stays has the leaves that are kept. -/
theorem leaves_prune_node
    (h : (children.prune keep).leaves = children.leaves.filter fun l => keep l.2)
    (hany : (Node.leaves ⟨i, children⟩).any fun l => keep l.2) :
    Node.leaves ⟨i, children.prune keep⟩ =
      (Node.leaves ⟨i, children⟩).filter fun l => keep l.2 := by
  rw [Node.leaves] at hany ⊢
  rw [Node.leaves]
  by_cases hnil : children.isNil
  · rw [if_pos hnil] at hany ⊢
    have hleft : (children.prune keep).isNil := by
      rw [isNil_iff.mp hnil]
      rfl
    rw [if_pos hleft, List.filter_eq_self.mpr]
    intro l hl
    rw [List.mem_singleton.mp hl]
    simpa using hany
  · rw [if_neg hnil] at hany ⊢
    have hleft : ¬(children.prune keep).isNil := by
      intro hleft
      rw [isNil_iff, ← leaves_eq_nil, h, List.filter_eq_nil_iff] at hleft
      obtain ⟨l, hl, hkeep⟩ := List.any_eq_true.mp hany
      obtain ⟨m, hm, rfl⟩ := List.mem_map.mp hl
      exact hleft m hm hkeep
    rw [if_neg hleft, h, List.filter_map]
    rfl

/-- **WHAT IS LEFT** are the leaves that are kept, in their order. -/
theorem leaves_prune :
    (F.prune keep).leaves = F.leaves.filter fun l => keep l.2 := by
  induction F with
  | nil => rfl
  | cons name info children rest ihc ihr =>
      rw [prune, leaves_cons, List.filter_append]
      split
      · next hany => rw [leaves_cons, leaves_prune_node ihc hany, ihr]
      · next hnone =>
          rw [List.any_eq_true, not_exists] at hnone
          have hnode := List.filter_eq_nil_iff.mpr fun l hl hkeep =>
            hnone l ⟨hl, hkeep⟩
          rw [hnode, ihr, List.nil_append]

/-- Nothing is left where no leaf is kept. -/
theorem prune_eq_nil : F.prune keep = nil ↔ ∀ l ∈ F.leaves, ¬keep l.2 := by
  rw [← leaves_eq_nil, leaves_prune, List.filter_eq_nil_iff]

theorem prune_leaf {name : κ} {rest : Forest κ ι} :
    (cons name i nil rest).prune keep =
      if keep i then cons name i nil (rest.prune keep) else rest.prune keep := by
  rw [prune]
  cases hkeep : keep i <;> simp [Node.leaves, isNil, hkeep, prune]

/-- A node with children stays if something of them is left. -/
theorem prune_node {name : κ} {rest : Forest κ ι} (h : children.isNil = false) :
    (cons name i children rest).prune keep =
      if (children.prune keep).isNil then rest.prune keep
      else cons name i (children.prune keep) (rest.prune keep) := by
  have hany : ((Node.leaves ⟨i, children⟩).any fun l => keep l.2) =
      !(children.prune keep).isNil := by
    rw [Bool.eq_iff_iff, Bool.not_eq_true', ← Bool.not_eq_true, isNil_iff,
      prune_eq_nil, Node.leaves, h]
    simp
  rw [prune, hany]
  cases (children.prune keep).isNil <;> rfl

end Forest

end Forests
