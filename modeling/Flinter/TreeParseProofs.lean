import Flinter.TreeProofs

/-! # Trees from XML, HDF and JSON

    All three parsers clear the tree and then create a child for each named thing
    that they come to, with the key and the full path that go with its place.  A
    child whose key is taken is filled all the same, and lost.

    Names may come more than once in XML, and are numbered then; JSON numbers
    what has no name.

    What the parsers and `Set` have in common: a node that they create has the
    key that it stands under, and its full path comes from the node above. -/

namespace FlinterTree

open Forests

-- ── XML ──────────────────────────────────────────────────────────────────────

/-- `xmlNode`: one after the other.  An element has children and properties,
    text and CDATA sections have a content. -/
inductive XmlNodes where
  | nil
  | element (name : Option Text) (children : XmlNodes)
      (properties : List (Text × Text)) (next : XmlNodes)
  | text (name : Option Text) (content : Text) (next : XmlNodes)
  | other (name : Option Text) (next : XmlNodes)
deriving DecidableEq, Repr

/-- The names that are counted. -/
def XmlNodes.names : XmlNodes → List Text
  | .nil => []
  | .element name _ _ next => name.toList ++ next.names
  | .text name _ next => name.toList ++ next.names
  | .other name next => name.toList ++ next.names

/-- `FormatDuplicatedKey`. -/
def formatDuplicatedKey (i total : Nat) : Text :=
  let digits := Nat.toDigits 10 i
  let len := (Nat.toDigits 10 total).length
  '[' :: (List.replicate (len - digits.length) '0' ++ digits) ++ [']']

/-- `ParseFromXmlInternal`: the key of a node, where `seen` are the names of
    those before it. -/
def xmlKey (all seen : List Text) : Option Text → Text
  | none => []
  | some k =>
      if all.count k > 1 then k ++ formatDuplicatedKey (seen.count k) (all.count k)
      else k

/-- A child is put under a node, unless the key is taken. -/
def putChild (t : Tree) (key : Text) (child : Tree) : Tree :=
  { t with children := t.children.insert key child }

/-- `SetValue`. -/
def setValue (value : Text) (t : Tree) : Tree :=
  t.relabel fun i => { i with value := value }

/-- `ParseFromXmlInternal`: the properties. -/
def parseProperties : List (Text × Text) → Tree → Tree
  | [], t => t
  | (k, value) :: properties, t =>
      if value = [] then parseProperties properties t
      else
        let key := '@' :: k
        parseProperties properties
          (putChild t key (newTree (getFullPath t key) key value))

/-- `ParseFromXmlInternal`: the children, where `all` are the names that were
    counted. -/
def parseXmlNodes (all : List Text) : List Text → XmlNodes → Tree → Bool × Tree
  | _, .nil, t => (true, t)
  | seen, .element name children properties next, t =>
      let key := xmlKey all seen name
      if key = [] then (false, t)
      else
        let child := newTree (getFullPath t key) key []
        match parseXmlNodes children.names [] children child with
        | (false, child) => (false, putChild t key child)
        | (true, child) =>
            parseXmlNodes all (name.toList ++ seen) next
              (putChild t key (parseProperties properties child))
  | seen, .text name content next, t =>
      parseXmlNodes all (name.toList ++ seen) next
        (if content = [] then t else setValue content t)
  | seen, .other name next, t => parseXmlNodes all (name.toList ++ seen) next t

/-- What libxml2 makes of a string or a file. -/
inductive XmlDoc where
  | invalid
  | rootless
  | root (children : XmlNodes) (properties : List (Text × Text))
deriving DecidableEq, Repr

/-- `ParseFromXmlString`, `ParseFromXmlFile` and `ParseFromXml`. -/
def parseFromXml (t : Tree) : XmlDoc → Bool × Tree
  | .invalid => (false, t)
  | .rootless => (true, clear t)
  | .root children properties =>
      match parseXmlNodes children.names [] children (clear t) with
      | (false, t) => (false, t)
      | (true, t) => (true, parseProperties properties t)

-- ── HDF ──────────────────────────────────────────────────────────────────────

/-- `HDF`: one after the other. -/
inductive HdfNodes where
  | nil
  | node (name : Text) (value : Option Text) (children next : HdfNodes)
deriving DecidableEq, Repr

/-- `ParseFromHdfInternal`. -/
def parseHdfNodes : HdfNodes → Tree → Tree
  | .nil, t => t
  | .node name value children next, t =>
      let child := newTree (getFullPath t name) name (value.getD [])
      parseHdfNodes next (putChild t name (parseHdfNodes children child))

/-- What ClearSilver makes of a string or a file. -/
inductive HdfDoc where
  | empty
  | invalid
  | read (nodes : HdfNodes)
deriving DecidableEq, Repr

/-- `ParseFromHdfString` and `ParseFromHdfFile`. -/
def parseFromHdf (t : Tree) : HdfDoc → Bool × Tree
  | .empty => (true, clear t)
  | .invalid => (false, clear t)
  | .read nodes => (true, parseHdfNodes nodes (clear t))

-- ── JSON ─────────────────────────────────────────────────────────────────────

/-- `Json::Value`: the members of an array or an object, of which those of an
    array have no name. -/
inductive JsonNodes where
  | nil
  | scalar (name value : Text) (next : JsonNodes)
  | composite (name : Text) (members next : JsonNodes)
deriving DecidableEq, Repr

/-- `ParseFromJsonInternal`: the key of a member, and the index afterwards. -/
def jsonKey (index : Nat) (name : Text) : Text × Nat :=
  if name = [] then ('[' :: Nat.toDigits 10 index ++ [']'], index + 1)
  else (name, index)

/-- `ParseFromJsonInternal`. -/
def parseJsonNodes : Nat → JsonNodes → Tree → Tree
  | _, .nil, t => t
  | index, .scalar name value next, t =>
      let (key, index) := jsonKey index name
      parseJsonNodes index next
        (putChild t key (newTree (getFullPath t key) key value))
  | index, .composite name members next, t =>
      let (key, index) := jsonKey index name
      let child := newTree (getFullPath t key) key []
      parseJsonNodes index next (putChild t key (parseJsonNodes 0 members child))

/-- `ParseFromJsonString` and `ParseFromJson`. -/
def parseFromJson (t : Tree) : Option JsonNodes → Bool × Tree
  | none => (false, t)
  | some members => (true, parseJsonNodes 0 members (clear t))

-- ── What is created ──────────────────────────────────────────────────────────

/-- Every node has what its position asks for. -/
def Each (Q : List Text → Info → Prop) (t : Tree) : Prop :=
  ∀ r i, t.view r = some i → Q r i

/-- A property of nodes that a child has if the node above it has it, if the child
    is created as `Set` and the parsers do it and with a good key.  A good key is
    also good with a number, and so is the number of what has no name. -/
structure Grows (good : Text → Prop) (Q : List Text → Info → Prop) : Prop where
  numbered : ∀ k i total, good k → good (k ++ formatDuplicatedKey i total)
  indexed : ∀ index, good (jsonKey index []).1
  child : ∀ r above k v, Q r above → good k →
    Q (r ++ [k]) ⟨k, v, fullPathUnder above.fullPath k⟩
  value : ∀ r i v, Q r i → Q r { i with value := v }

variable {good : Text → Prop} {Q : List Text → Info → Prop} {t child : Tree}
variable {k key : Text} {v : Text} {r : List Text} {i : Info}

/-- Below a child it is one of longer positions. -/
theorem Grows.below (h : Grows good Q) (k : Text) :
    Grows good fun r => Q (k :: r) where
  numbered := h.numbered
  indexed := h.indexed
  child r above k' v hr hk := h.child (k :: r) above k' v hr hk
  value r := h.value (k :: r)

theorem Each.find (h : Each Q t) (hfind : t.children.find k = some child) :
    Each (fun r => Q (k :: r)) child := by
  intro r i hr
  refine h (k :: r) i ?_
  rw [Node.view_cons, hfind, Option.bind_some, hr]

/-- A new node is all there is of itself. -/
theorem Grows.newTree (h : Grows good Q) (ht : Each Q t) (hk : good k) (v : Text) :
    Each (fun r => Q (k :: r)) (newTree (getFullPath t k) k v) := by
  intro r i hr
  cases r with
  | nil =>
      obtain rfl := Option.some.inj hr
      exact h.child [] t.info k v (ht [] t.info rfl) hk
  | cons j r => cases hr

theorem Each.putChild (h : Each Q t) (hchild : Each (fun r => Q (k :: r)) child) :
    Each Q (putChild t k child) := by
  intro r i hr
  cases r with
  | nil => exact h [] i hr
  | cons j r =>
      rw [Node.view_cons, FlinterTree.putChild] at hr
      dsimp only at hr
      rw [Forest.find_insert] at hr
      split at hr
      · next heq =>
          subst heq
          rw [Option.bind_some] at hr
          cases hfind : t.children.find j with
          | none =>
              rw [hfind] at hr
              exact hchild r i hr
          | some m =>
              rw [hfind] at hr
              exact h.find hfind r i hr
      · refine h (j :: r) i ?_
        rw [Node.view_cons]
        exact hr

theorem Each.setValue (hQ : Grows good Q) (h : Each Q t) :
    Each Q (setValue v t) := by
  intro r i hr
  cases r with
  | nil =>
      obtain rfl := Option.some.inj hr
      exact hQ.value [] t.info v (h [] t.info rfl)
  | cons j r => exact h (j :: r) i hr

/-- A tree without children. -/
theorem each_clear (h : Q [] (clear t).info) : Each Q (clear t) := by
  intro r i hr
  cases r with
  | nil =>
      obtain rfl := Option.some.inj hr
      exact h
  | cons j r => cases hr

/-- **WHAT `Set` CREATES** -/
theorem Each.ensure {cs : List Text} (hQ : Grows good Q) (h : Each Q t)
    (hcs : ∀ k ∈ cs, good k) : Each Q (ensure v cs t) := by
  induction cs generalizing t Q with
  | nil => exact h
  | cons k cs ih =>
      obtain ⟨hk, hrest⟩ := List.forall_mem_cons.mp hcs
      intro r i hr
      cases r with
      | nil =>
          rw [Node.view_nil, ensure_info] at hr
          exact h [] i hr
      | cons j r =>
          rw [Node.view_cons, ensure_find] at hr
          split at hr
          · next heq =>
              subst heq
              refine ih (hQ.below j) ?_ hrest r i hr
              cases hfind : t.children.find j with
              | none => exact hQ.newTree h hk _
              | some m => exact h.find hfind
          · refine h (j :: r) i ?_
            rw [Node.view_cons]
            exact hr

theorem Each.parseProperties {properties : List (Text × Text)} (hQ : Grows good Q)
    (h : Each Q t) (hgood : ∀ p ∈ properties, p.2 ≠ [] → good ('@' :: p.1)) :
    Each Q (parseProperties properties t) := by
  induction properties generalizing t with
  | nil => exact h
  | cons p properties ih =>
      obtain ⟨k, value⟩ := p
      obtain ⟨hp, hrest⟩ := List.forall_mem_cons.mp hgood
      rw [FlinterTree.parseProperties]
      split
      · exact ih h hrest
      · next hvalue =>
          exact ih (h.putChild (hQ.newTree h (hp hvalue) value)) hrest

/-- The names of the elements are good, and those of the properties that have a
    value. -/
def XmlNodes.Good (good : Text → Prop) : XmlNodes → Prop
  | .nil => True
  | .element name children properties next =>
      (∀ k ∈ name, good k) ∧ children.Good good ∧
        (∀ p ∈ properties, p.2 ≠ [] → good ('@' :: p.1)) ∧ next.Good good
  | .text _ _ next => next.Good good
  | .other _ next => next.Good good

/-- **WHAT IS CREATED FROM XML**, also if it fails on the way. -/
theorem Each.parseXmlNodes {nodes : XmlNodes} {all seen : List Text}
    (hQ : Grows good Q) (h : Each Q t) (hgood : nodes.Good good) :
    Each Q (parseXmlNodes all seen nodes t).2 := by
  induction nodes generalizing t Q all seen with
  | nil => exact h
  | text name content next ih =>
      rw [FlinterTree.parseXmlNodes]
      refine ih hQ ?_ hgood
      split
      · exact h
      · exact h.setValue hQ
  | other name next ih => exact ih hQ h hgood
  | element name children properties next ihc ihn =>
      obtain ⟨hname, hchildren, hproperties, hnext⟩ := hgood
      rw [FlinterTree.parseXmlNodes]
      dsimp only
      split
      · exact h
      · next hkey =>
          have hk : good (xmlKey all seen name) := by
            cases name with
            | none => exact absurd rfl hkey
            | some k =>
                rw [xmlKey]
                split
                · exact hQ.numbered k _ _ (hname k rfl)
                · exact hname k rfl
          have hchild : Each _ (parseXmlNodes children.names [] children _).2 :=
            ihc (hQ.below (xmlKey all seen name)) (hQ.newTree h hk []) hchildren
          split
          · next child heq =>
              rw [heq] at hchild
              exact h.putChild hchild
          · next child heq =>
              rw [heq] at hchild
              refine ihn hQ (h.putChild ?_) hnext
              exact Each.parseProperties (hQ.below _) hchild hproperties

/-- **WHAT IS CREATED FROM XML**, by way of `Clear`. -/
theorem Each.parseFromXml {doc : XmlDoc} (hQ : Grows good Q) (h : Each Q t)
    (hclear : Q [] (clear t).info)
    (hgood : ∀ children properties, doc = .root children properties →
      children.Good good ∧ ∀ p ∈ properties, p.2 ≠ [] → good ('@' :: p.1)) :
    Each Q (parseFromXml t doc).2 := by
  cases doc with
  | invalid => exact h
  | rootless => exact each_clear hclear
  | root children properties =>
      obtain ⟨hchildren, hproperties⟩ := hgood children properties rfl
      have hnodes : Each Q
          (FlinterTree.parseXmlNodes children.names [] children (clear t)).2 :=
        Each.parseXmlNodes hQ (each_clear hclear) hchildren
      rw [FlinterTree.parseFromXml]
      split
      · next heq =>
          rw [heq] at hnodes
          exact hnodes
      · next heq =>
          rw [heq] at hnodes
          exact Each.parseProperties hQ hnodes hproperties

def HdfNodes.Good (good : Text → Prop) : HdfNodes → Prop
  | .nil => True
  | .node name _ children next => good name ∧ children.Good good ∧ next.Good good

theorem Each.parseHdfNodes {nodes : HdfNodes} (hQ : Grows good Q) (h : Each Q t)
    (hgood : nodes.Good good) : Each Q (parseHdfNodes nodes t) := by
  induction nodes generalizing t Q with
  | nil => exact h
  | node name value children next ihc ihn =>
      obtain ⟨hname, hchildren, hnext⟩ := hgood
      rw [FlinterTree.parseHdfNodes]
      exact ihn hQ (h.putChild
        (ihc (hQ.below name) (hQ.newTree h hname _) hchildren)) hnext

/-- **WHAT IS CREATED FROM HDF** -/
theorem Each.parseFromHdf {doc : HdfDoc} (hQ : Grows good Q)
    (hclear : Q [] (clear t).info)
    (hgood : ∀ nodes, doc = .read nodes → nodes.Good good) :
    Each Q (parseFromHdf t doc).2 := by
  cases doc with
  | empty => exact each_clear hclear
  | invalid => exact each_clear hclear
  | read nodes => exact Each.parseHdfNodes hQ (each_clear hclear) (hgood nodes rfl)

/-- The names are good, where there are any. -/
def JsonNodes.Good (good : Text → Prop) : JsonNodes → Prop
  | .nil => True
  | .scalar name _ next => (name ≠ [] → good name) ∧ next.Good good
  | .composite name members next =>
      (name ≠ [] → good name) ∧ members.Good good ∧ next.Good good

theorem Grows.jsonKey {name : Text} (hQ : Grows good Q) (hname : name ≠ [] → good name)
    (index : Nat) : good (jsonKey index name).1 := by
  by_cases hnil : name = []
  · rw [hnil]
    exact hQ.indexed index
  · rw [FlinterTree.jsonKey, if_neg hnil]
    exact hname hnil

theorem Each.parseJsonNodes {nodes : JsonNodes} {index : Nat} (hQ : Grows good Q)
    (h : Each Q t) (hgood : nodes.Good good) :
    Each Q (parseJsonNodes index nodes t) := by
  induction nodes generalizing t Q index with
  | nil => exact h
  | scalar name value next ih =>
      rw [FlinterTree.parseJsonNodes]
      exact ih hQ (h.putChild (hQ.newTree h (hQ.jsonKey hgood.1 index) value)) hgood.2
  | composite name members next ihm ihn =>
      obtain ⟨hname, hmembers, hnext⟩ := hgood
      rw [FlinterTree.parseJsonNodes]
      exact ihn hQ (h.putChild
        (ihm (hQ.below _) (hQ.newTree h (hQ.jsonKey hname index) []) hmembers)) hnext

/-- **WHAT IS CREATED FROM JSON** -/
theorem Each.parseFromJson {doc : Option JsonNodes} (hQ : Grows good Q)
    (h : Each Q t) (hclear : Q [] (clear t).info)
    (hgood : ∀ nodes ∈ doc, nodes.Good good) : Each Q (parseFromJson t doc).2 := by
  cases doc with
  | none => exact h
  | some nodes => exact Each.parseJsonNodes hQ (each_clear hclear) (hgood nodes rfl)

-- ── The order of the keys ────────────────────────────────────────────────────

theorem putChild_ascending (h : t.Ascending) (hchild : child.Ascending) :
    (putChild t k child).Ascending := Forest.Ascending.insert h hchild

theorem parseProperties_ascending {properties : List (Text × Text)}
    (h : t.Ascending) : (parseProperties properties t).Ascending := by
  induction properties generalizing t with
  | nil => exact h
  | cons p properties ih =>
      obtain ⟨k, value⟩ := p
      rw [parseProperties]
      split
      · exact ih h
      · exact ih (putChild_ascending h trivial)

theorem parseXmlNodes_ascending {nodes : XmlNodes} {all seen : List Text}
    (h : t.Ascending) : (parseXmlNodes all seen nodes t).2.Ascending := by
  induction nodes generalizing t all seen with
  | nil => exact h
  | text name content next ih =>
      rw [parseXmlNodes]
      refine ih ?_
      split
      · exact h
      · exact Node.relabel_ascending h
  | other name next ih => exact ih h
  | element name children properties next ihc ihn =>
      rw [parseXmlNodes]
      dsimp only
      split
      · exact h
      · have hchild : (parseXmlNodes children.names [] children
            (newTree (getFullPath t (xmlKey all seen name)) (xmlKey all seen name)
              [])).2.Ascending := ihc trivial
        split
        · next heq =>
            rw [heq] at hchild
            exact putChild_ascending h hchild
        · next heq =>
            rw [heq] at hchild
            exact ihn (putChild_ascending h (parseProperties_ascending hchild))

theorem parseFromXml_ascending {doc : XmlDoc} (h : t.Ascending) :
    (parseFromXml t doc).2.Ascending := by
  cases doc with
  | invalid => exact h
  | rootless => trivial
  | root children properties =>
      have hnodes : (parseXmlNodes children.names [] children (clear t)).2.Ascending :=
        parseXmlNodes_ascending (t := clear t) trivial
      rw [parseFromXml]
      split
      · next heq =>
          rw [heq] at hnodes
          exact hnodes
      · next heq =>
          rw [heq] at hnodes
          exact parseProperties_ascending hnodes

theorem parseHdfNodes_ascending {nodes : HdfNodes} (h : t.Ascending) :
    (parseHdfNodes nodes t).Ascending := by
  induction nodes generalizing t with
  | nil => exact h
  | node name value children next ihc ihn =>
      exact ihn (putChild_ascending h (ihc trivial))

theorem parseFromHdf_ascending {doc : HdfDoc} : (parseFromHdf t doc).2.Ascending := by
  cases doc with
  | empty => trivial
  | invalid => trivial
  | read nodes => exact parseHdfNodes_ascending (t := clear t) trivial

theorem parseJsonNodes_ascending {nodes : JsonNodes} {index : Nat}
    (h : t.Ascending) : (parseJsonNodes index nodes t).Ascending := by
  induction nodes generalizing t index with
  | nil => exact h
  | scalar name value next ih => exact ih (putChild_ascending h trivial)
  | composite name members next ihm ihn =>
      exact ihn (putChild_ascending h (ihm trivial))

theorem parseFromJson_ascending {doc : Option JsonNodes} (h : t.Ascending) :
    (parseFromJson t doc).2.Ascending := by
  cases doc with
  | none => exact h
  | some nodes => exact parseJsonNodes_ascending (t := clear t) trivial

end FlinterTree
