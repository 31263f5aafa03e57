import Flinter.ForestLeafProofs
import Flinter.TreeParseProofs

/-! # Trees to XML

    What is below a node is written below an element: a child without children
    as an element with its value, any other child as one with what is below it.
    If only nodes with a value are asked for, a child without children and value
    is left out, and so is one that nothing was written below.

    But the latter does not only leave out the child, it ends the loop, and the
    children after it are lost. -/

namespace FlinterTree

open Forests Forest

-- ── The code ─────────────────────────────────────────────────────────────────

/-- `SerializeToXmlInternal`: the name of a child, that may have been numbered. -/
def elementName (i : Info) : Text := i.key.takeWhile (· ≠ '[')

/-- `xmlNewTextChild`. -/
def textChild (name content : Text) (next : XmlNodes) : XmlNodes :=
  .element (some (cString name)) (.text (some "text".toList) (cString content) .nil)
    [] next

/-- `xmlNewNode` and `xmlAddChild`. -/
def nodeChild (name : Text) (children next : XmlNodes) : XmlNodes :=
  .element (some (cString name)) children [] next

/-- `SerializeToXmlInternal`: the loop, where `only` stands for
    `only_nodes_with_value`.  What it returns is `*empty` and what it adds. -/
def serializeLoop (only : Bool) : Forest Text Info → Bool → Bool × XmlNodes
  | .nil, empty => (empty, .nil)
  | .cons _ i children rest, empty =>
      let key := elementName i
      if children.isNil then
        if i.value = [] ∧ only then serializeLoop only rest empty
        else
          let (empty, next) := serializeLoop only rest false
          (empty, textChild key i.value next)
      else
        let (e, c) := serializeLoop only children true
        if e ∧ only then (empty, .nil) -- `return true`
        else
          let (empty, next) := serializeLoop only rest false
          (empty, nodeChild key c next)

/-- `SerializeToXmlInternal`, which succeeds if libxml2 has memory. -/
def serializeToXmlInternal (t : Tree) (only : Bool) : Bool × XmlNodes :=
  serializeLoop only t.children true

-- ── What should be written ───────────────────────────────────────────────────

variable {F children rest : Forest Text Info} {t : Tree} {i : Info} {key : Text}
variable {only empty : Bool} {name name' : Info → Text}

/-- The texts in order, each with the names of the elements around it. -/
def XmlNodes.texts : XmlNodes → List (List Text × Text)
  | .nil => []
  | .element name children _ next =>
      children.texts.map (fun l => (name.toList ++ l.1, l.2)) ++ next.texts
  | .text _ content next => ([], content) :: next.texts
  | .other _ next => next.texts

/-- Every node as an element, those without children with their values. -/
def written (name : Info → Text) : Forest Text Info → XmlNodes
  | .nil => .nil
  | .cons _ i children rest =>
      .element (some (name i))
        (if children.isNil then .text (some "text".toList) (cString i.value) .nil
          else written name children)
        [] (written name rest)

def hasValue (i : Info) : Bool := i.value ≠ []

/-- A tree is written completely: its leaves with a value, in the order of the
    map and each below the elements of the nodes that lead to it, and an element
    for those nodes but for no others. -/
structure Complete (t : Tree) (nodes : XmlNodes) : Prop where
  leaves : nodes.texts = (t.children.leaves.filter fun l => hasValue l.2).map
    fun l => (l.1.map elementName ++ [elementName l.2], cString l.2.value)
  elements : nodes = written elementName (t.children.prune hasValue)

/-- There is no leaf with a value. -/
def Bare (F : Forest Text Info) : Prop := ∀ l ∈ F.leaves, l.2.value = []

/-- After a node that has children, but no leaf with a value below it, there is no
    leaf with a value. -/
def Orderly : Forest Text Info → Prop
  | .nil => True
  | .cons _ _ children rest =>
      Orderly children ∧ Orderly rest ∧ (children ≠ .nil → Bare children → Bare rest)

theorem bare_iff : Bare F ↔ F.prune hasValue = .nil := by
  rw [prune_eq_nil]
  exact forall₂_congr fun l _ => by simp [hasValue]

theorem Bare.cons (h : Bare (.cons key i children rest)) :
    (children.isNil → i.value = []) ∧ Bare children ∧ Bare rest := by
  obtain ⟨hnode, hrest⟩ := List.forall_mem_append.mp h
  refine ⟨fun hnil => ?_, fun l hl => ?_, hrest⟩
  · exact hnode ([], i) (by rw [hnil]; exact List.mem_cons_self)
  · cases hnil : children.isNil with
    | true =>
        rw [isNil_iff.mp hnil] at hl
        cases hl
    | false =>
        exact hnode (i :: l.1, l.2) (by rw [hnil]; exact List.mem_map_of_mem hl)

theorem written_eq_nil : written name F = .nil ↔ F = .nil := by
  cases F with
  | nil => exact ⟨fun _ => rfl, fun _ => rfl⟩
  | cons => exact ⟨fun h => (by cases h), fun h => (by cases h)⟩

/-- The leaves that are written. -/
theorem texts_written : (written name F).texts =
    F.leaves.map fun l => (l.1.map name ++ [name l.2], cString l.2.value) := by
  induction F with
  | nil => rfl
  | cons k i children rest ihc ihr =>
      rw [written, XmlNodes.texts, leaves_cons, List.map_append, ihr, Node.leaves]
      split
      · rfl
      · rw [ihc, List.map_map, List.map_map]
        rfl

theorem Complete.of_elements {nodes : XmlNodes}
    (h : nodes = written elementName (t.children.prune hasValue)) :
    Complete t nodes where
  leaves := by rw [h, texts_written, leaves_prune]
  elements := h

/-- Names are written as they are if all of them are the same. -/
theorem written_eq_iff :
    written name F = written name' F ↔ ∀ i ∈ F.labels, name i = name' i := by
  induction F with
  | nil => simp [written, labels]
  | cons k i children rest ihc ihr =>
      rw [written, written, labels, List.forall_mem_cons, List.forall_mem_append,
        ← ihc, ← ihr, XmlNodes.element.injEq, Option.some.injEq]
      by_cases hnil : children.isNil
      · rw [if_pos hnil, if_pos hnil, isNil_iff.mp hnil, written, written]
        simp
      · rw [if_neg hnil, if_neg hnil]
        simp

-- ── What is written ──────────────────────────────────────────────────────────

/-- What is added does not depend on the flag, and the flag tells if it is
    nothing. -/
theorem serializeLoop_flag (only : Bool) (F : Forest Text Info) (empty : Bool) :
    (serializeLoop only F empty).2 = (serializeLoop only F true).2 ∧
      ((serializeLoop only F empty).1 = true ↔
        empty = true ∧ (serializeLoop only F true).2 = .nil) := by
  induction F generalizing empty with
  | nil => exact ⟨rfl, by simp [serializeLoop]⟩
  | cons k i children rest ihc ihr =>
      have hfalse : (serializeLoop only rest false).1 = false := by
        simpa using (ihr false).2
      rw [serializeLoop, serializeLoop]
      dsimp only
      split
      · split
        · exact ihr empty
        · exact ⟨rfl, by simp [hfalse, textChild]⟩
      · split
        · exact ⟨rfl, by simp⟩
        · exact ⟨rfl, by simp [hfalse, nodeChild]⟩

/-- What is added. -/
def serialized (only : Bool) (F : Forest Text Info) : XmlNodes :=
  (serializeLoop only F true).2

theorem serialized_leaf : serialized only (.cons key i .nil rest) =
    if i.value = [] ∧ only then serialized only rest
    else textChild (elementName i) i.value (serialized only rest) := by
  have hnil : isNil (.nil : Forest Text Info) = true := rfl
  rw [serialized, serializeLoop]
  dsimp only
  rw [if_pos hnil]
  split
  · rfl
  · exact congrArg _ (serializeLoop_flag only rest false).1

/-- **THE LOOP** ends where nothing was written below a child. -/
theorem serialized_node (h : children.isNil = false) :
    serialized only (.cons key i children rest) =
      if serialized only children = .nil ∧ only then .nil
      else nodeChild (elementName i) (serialized only children)
        (serialized only rest) := by
  have hflag := (serializeLoop_flag only children true).2
  rw [serialized, serializeLoop]
  dsimp only
  rw [h, if_neg Bool.false_ne_true]
  by_cases hstop : serialized only children = .nil ∧ only
  · rw [if_pos hstop, if_pos ⟨hflag.mpr ⟨rfl, hstop.1⟩, hstop.2⟩]
  · have hgo : ¬((serializeLoop only children true).1 = true ∧ only = true) :=
      fun hstop' => hstop ⟨(hflag.mp hstop'.1).2, hstop'.2⟩
    rw [if_neg hstop, if_neg hgo, serialized, serialized,
      (serializeLoop_flag only rest false).1]

theorem serialized_bare (h : Bare F) : serialized true F = .nil := by
  induction F with
  | nil => rfl
  | cons k i children rest ihc ihr =>
      obtain ⟨hvalue, hchildren, hrest⟩ := h.cons
      cases hnil : children.isNil with
      | true =>
          obtain rfl := isNil_iff.mp hnil
          rw [serialized_leaf, if_pos ⟨hvalue hnil, rfl⟩, ihr hrest]
      | false => rw [serialized_node hnil, if_pos ⟨ihc hchildren, rfl⟩]

theorem orderly_of_bare (h : Bare F) : Orderly F := by
  induction F with
  | nil => trivial
  | cons k i children rest ihc ihr =>
      obtain ⟨-, hchildren, hrest⟩ := h.cons
      exact ⟨ihc hchildren, ihr hrest, fun _ _ => hrest⟩

/-- **AN ORDERLY TREE** is written up to its leaves with a value. -/
theorem serialized_orderly (h : Orderly F) :
    serialized true F = written (cString ∘ elementName) (F.prune hasValue) := by
  induction F with
  | nil => rfl
  | cons k i children rest ihc ihr =>
      obtain ⟨hchildren, hrest, hafter⟩ := h
      cases hnil : children.isNil with
      | true =>
          obtain rfl := isNil_iff.mp hnil
          rw [serialized_leaf, prune_leaf, ihr hrest]
          by_cases hvalue : i.value = []
          · rw [if_pos ⟨hvalue, rfl⟩, if_neg (by simp [hasValue, hvalue])]
          · rw [if_neg (by simp [hvalue]), if_pos (by simp [hasValue, hvalue])]
            rfl
      | false =>
          have hne : children ≠ .nil := fun heq => by rw [heq] at hnil; cases hnil
          have hnothing : serialized true children = .nil ↔
              children.prune hasValue = .nil := by
            rw [ihc hchildren, written_eq_nil]
          rw [serialized_node hnil, prune_node hnil]
          by_cases hbare : children.prune hasValue = .nil
          · have hrest' := bare_iff.mp (hafter hne (bare_iff.mpr hbare))
            rw [if_pos ⟨hnothing.mpr hbare, rfl⟩, if_pos (isNil_iff.mpr hbare), hrest']
            rfl
          · have hleft : ¬(children.prune hasValue).isNil :=
              fun h => hbare (isNil_iff.mp h)
            rw [if_neg fun h => hbare (hnothing.mp h.1), if_neg hleft, ihc hchildren,
              ihr hrest, written, if_neg hleft]
            rfl

/-- And only an orderly tree is. -/
theorem orderly_of_serialized (h : serialized true F = written name (F.prune hasValue)) :
    Orderly F := by
  induction F with
  | nil => trivial
  | cons k i children rest ihc ihr =>
      cases hnil : children.isNil with
      | true =>
          obtain rfl := isNil_iff.mp hnil
          refine ⟨trivial, ihr ?_, fun hne => absurd rfl hne⟩
          rw [serialized_leaf, prune_leaf] at h
          by_cases hvalue : i.value = []
          · rwa [if_pos ⟨hvalue, rfl⟩, if_neg (by simp [hasValue, hvalue])] at h
          · rw [if_neg (by simp [hvalue]), if_pos (by simp [hasValue, hvalue]),
              textChild, written] at h
            exact (XmlNodes.element.inj h).2.2.2
      | false =>
          rw [serialized_node hnil, prune_node hnil] at h
          cases hleft : (children.prune hasValue).isNil with
          | true =>
              have hbare : Bare children := bare_iff.mpr (isNil_iff.mp hleft)
              rw [hleft, if_pos rfl, if_pos ⟨serialized_bare hbare, rfl⟩] at h
              have hrest : Bare rest := bare_iff.mpr (written_eq_nil.mp h.symm)
              exact ⟨orderly_of_bare hbare, orderly_of_bare hrest, fun _ _ => hrest⟩
          | false =>
              rw [hleft, if_neg Bool.false_ne_true, written, hleft,
                if_neg Bool.false_ne_true] at h
              split at h
              · cases h
              · obtain ⟨-, hc, -, hr⟩ := XmlNodes.element.inj h
                refine ⟨ihc hc, ihr hr, fun _ hbare => ?_⟩
                rw [isNil_iff.mpr (bare_iff.mp hbare)] at hleft
                cases hleft

/-- **A TREE IS WRITTEN COMPLETELY** exactly if it is orderly, and no name that is
    written has a null character in it. -/
theorem serialize_complete_iff (t : Tree) :
    Complete t (serializeToXmlInternal t true).2 ↔
      Orderly t.children ∧
        ∀ i ∈ (t.children.prune hasValue).labels, '\x00' ∉ elementName i := by
  constructor
  · intro h
    have horderly := orderly_of_serialized h.elements
    have hnames := (serialized_orderly horderly).symm.trans h.elements
    refine ⟨horderly, fun i hi => ?_⟩
    exact cString_eq_self.mp (written_eq_iff.mp hnames i hi)
  · rintro ⟨horderly, hnames⟩
    refine .of_elements ((serialized_orderly horderly).trans ?_)
    exact written_eq_iff.mpr fun i hi => cString_eq_self.mpr (hnames i hi)

/-- `a` has a child without a value: `b` is lost. -/
theorem serialize_stops : ¬∀ t, Complete t (serializeToXmlInternal t true).2 := by
  intro h
  have hleaves := (h (set (set emptyTree "a.x".toList []) "b".toList "1".toList)).leaves
  revert hleaves
  decide

end FlinterTree
