import Flinter.NumeralProofs
import Flinter.TreeParseProofs

/-! # The keys of what is read from XML

    Elements may share a name, and are then numbered, with as many digits as the
    greatest number has, so that the order of the keys is that of the document.

    The names are counted over all nodes though, not only over elements.  Libxml2
    calls every text `text`, and so the only element of this name is numbered if
    there is a text beside it. -/

namespace FlinterTree

open Forests Numerals

-- ── The code ─────────────────────────────────────────────────────────────────

/-- `ParseFromXmlInternal`. -/
def parseFromXmlInternal (children : XmlNodes) (properties : List (Text × Text))
    (t : Tree) : Bool × Tree :=
  match parseXmlNodes children.names [] children t with
  | (false, t) => (false, t)
  | (true, t) => (true, parseProperties properties t)

-- ── What the keys should be ──────────────────────────────────────────────────

/-- An element that has a name. -/
structure XmlElement where
  name : Text
  children : XmlNodes
  properties : List (Text × Text)
deriving DecidableEq, Repr

/-- The elements among nodes, in the order of the document. -/
def XmlNodes.elements : XmlNodes → List XmlElement
  | .nil => []
  | .element name children properties next =>
      ⟨name.getD [], children, properties⟩ :: next.elements
  | .text _ _ next => next.elements
  | .other _ next => next.elements

/-- The names of the elements. -/
def XmlNodes.tags (nodes : XmlNodes) : List Text := nodes.elements.map XmlElement.name

/-- A name of XML is not empty, and has no bracket and no at sign in it. -/
def XmlName (k : Text) : Prop := k ≠ [] ∧ '[' ∉ k ∧ '@' ∉ k

instance (k : Text) : Decidable (XmlName k) :=
  inferInstanceAs (Decidable (_ ∧ _ ∧ _))

/-- Every element has a name of XML, also those below others. -/
def XmlNodes.Named : XmlNodes → Prop
  | .nil => True
  | .element name children _ next =>
      (∃ k ∈ name, XmlName k) ∧ children.Named ∧ next.Named
  | .text _ _ next => next.Named
  | .other _ next => next.Named

/-- What an element becomes under a key of a node. -/
def XmlElement.parsed (e : XmlElement) (t : Tree) (key : Text) : Bool × Tree :=
  parseFromXmlInternal e.children e.properties (newTree (getFullPath t key) key [])

/-- Each element is there under a key of its own: its tag if no other element has
    it, else its tag with a number, and those that share a tag are in order. -/
structure KeyedElements (nodes : XmlNodes) (t : Tree)
    (keyed : List (Text × XmlElement)) : Prop where
  all : keyed.map Prod.snd = nodes.elements
  found : ∀ p ∈ keyed, (p.2.parsed t p.1).1 = true ∧
    t.children.find p.1 = some (p.2.parsed t p.1).2
  bare : ∀ p ∈ keyed, nodes.tags.count p.2.name = 1 → p.1 = p.2.name
  numbered : ∀ p ∈ keyed, 1 < nodes.tags.count p.2.name →
    ∃ i total, p.1 = p.2.name ++ formatDuplicatedKey i total
  inOrder : keyed.Pairwise fun p q => p.2.name = q.2.name → p.1 < q.1
  distinct : (keyed.map Prod.fst).Nodup
  ascending : t.Ascending

/-- An element without children yet is read, and its elements have their keys. -/
def KeysKept (children : XmlNodes) (properties : List (Text × Text)) (i : Info) :
    Prop :=
  ∃ t, parseFromXmlInternal children properties ⟨i, .nil⟩ = (true, t) ∧
    ∃ keyed, KeyedElements children t keyed

-- ── Keys ─────────────────────────────────────────────────────────────────────

variable {children nodes : XmlNodes} {properties : List (Text × Text)} {t child : Tree}
variable {all seen : List Text} {k key : Text} {i j total : Nat}
variable {p : Text × XmlElement} {e : XmlElement} {n : Tree}

/-- The key of the node that comes after `i` others of its name. -/
def keyAt (all : List Text) (k : Text) (i : Nat) : Text :=
  if all.count k > 1 then k ++ formatDuplicatedKey i (all.count k) else k

theorem xmlKey_some : xmlKey all seen (some k) = keyAt all k (seen.count k) := rfl

/-- **NUMBERS** are in order, for any number of duplicates. -/
theorem formatDuplicatedKey_lt (hij : i < j) (hj : j ≤ total) :
    k ++ formatDuplicatedKey i total < k ++ formatDuplicatedKey j total := by
  have hdigits : ∀ n, ∀ c ∈ List.replicate ((Nat.toDigits 10 total).length -
      (Nat.toDigits 10 n).length) '0' ++ Nat.toDigits 10 n, c.isDigit = true := by
    intro n c hc
    refine padded_digits ((Nat.toDigits 10 total).length -
      (Nat.toDigits 10 n).length) n 0 c ?_
    rwa [List.replicate_zero, List.append_nil]
  have hlen : ∀ n, n ≤ total →
      (Nat.toDigits 10 n).length ≤ (Nat.toDigits 10 total).length := by
    intro n hn
    have hpos : 0 < (Nat.toDigits 10 total).length := Nat.length_toDigits_pos
    rw [Nat.length_toDigits_le_iff (by decide) hpos]
    exact Nat.lt_of_le_of_lt hn
      ((Nat.length_toDigits_le_iff (by decide) hpos).mp (Nat.le_refl _))
  refine List.append_left_lt (List.cons_lt_cons_iff.mpr (Or.inr ⟨rfl, ?_⟩))
  refine lt_of_number_lt (hdigits i) (hdigits j) ?_ ?_
  · have hi := hlen i (by omega)
    have hj := hlen j hj
    rw [List.length_append, List.length_append, List.length_replicate,
      List.length_replicate]
    omega
  · rw [number_append, number_append, number_zeros, number_zeros, number_toDigits,
      number_toDigits]
    simpa using hij

/-- The name can be told from the key. -/
theorem takeWhile_keyAt (all : List Text) (i : Nat) (hk : '[' ∉ k) :
    (keyAt all k i).takeWhile (· ≠ '[') = k := by
  have hall : k.takeWhile (· ≠ '[') = k :=
    List.takeWhile_eq_self_iff.mpr fun c hc =>
      decide_eq_true fun heq => hk (heq ▸ hc)
  rw [keyAt]
  split
  · rw [formatDuplicatedKey, List.cons_append, List.takeWhile_append, if_pos (by rw [hall])]
    simp
  · exact hall

/-- A name that comes more than once is not a key. -/
theorem keyAt_ne (hcount : 1 < all.count k) {k' : Text} (hk : '[' ∉ k)
    (hk' : '[' ∉ k') : keyAt all k' i ≠ k := by
  intro heq
  have hname : k' = k := by
    rw [← takeWhile_keyAt all i hk', heq]
    exact List.takeWhile_eq_self_iff.mpr fun c hc =>
      decide_eq_true fun h => hk (h ▸ hc)
  subst hname
  rw [keyAt, if_pos hcount] at heq
  cases List.self_eq_append_right.mp heq.symm

/-- The elements with the keys that they get. -/
def XmlNodes.keyed (all : List Text) : List Text → XmlNodes → List (Text × XmlElement)
  | _, .nil => []
  | seen, .element name children properties next =>
      (xmlKey all seen name, ⟨name.getD [], children, properties⟩) ::
        next.keyed all (name.toList ++ seen)
  | seen, .text name _ next => next.keyed all (name.toList ++ seen)
  | seen, .other name next => next.keyed all (name.toList ++ seen)

theorem keyed_elements : (nodes.keyed all seen).map Prod.snd = nodes.elements := by
  induction nodes generalizing seen with
  | nil => rfl
  | element name children properties next ihc ihn => exact congrArg (_ :: ·) ihn
  | text name content next ih => exact ih
  | other name next ih => exact ih

/-- An element's number is at least that of the nodes before it. -/
theorem keyed_key (hnamed : nodes.Named) (hp : p ∈ nodes.keyed all seen) :
    XmlName p.2.name ∧ ∃ i, seen.count p.2.name ≤ i ∧
      i < seen.count p.2.name + nodes.names.count p.2.name ∧
      p.1 = keyAt all p.2.name i := by
  -- What a node leaves behind is counted for those after it.
  have hnext : ∀ {next : XmlNodes} {name : Option Text} {seen : List Text},
      (XmlName p.2.name ∧ ∃ i, (name.toList ++ seen).count p.2.name ≤ i ∧
        i < (name.toList ++ seen).count p.2.name + next.names.count p.2.name ∧
        p.1 = keyAt all p.2.name i) →
      XmlName p.2.name ∧ ∃ i, seen.count p.2.name ≤ i ∧
        i < seen.count p.2.name + (name.toList ++ next.names).count p.2.name ∧
        p.1 = keyAt all p.2.name i := by
    rintro next name seen ⟨hname, i, hle, hlt, hkey⟩
    rw [List.count_append] at hle hlt
    refine ⟨hname, i, by omega, ?_, hkey⟩
    rw [List.count_append]
    omega
  induction nodes generalizing seen with
  | nil => cases hp
  | text name content next ih => exact hnext (ih hnamed hp)
  | other name next ih => exact hnext (ih hnamed hp)
  | element name children properties next ihc ihn =>
      obtain ⟨⟨k, hk, hname⟩, -, hrest⟩ := hnamed
      obtain rfl := Option.mem_def.mp hk
      rcases List.mem_cons.mp hp with rfl | hp
      · refine ⟨hname, seen.count k, Nat.le_refl _, ?_, xmlKey_some⟩
        have hself : 0 < ((some k).toList ++ next.names).count k :=
          List.count_pos_iff.mpr List.mem_cons_self
        exact Nat.lt_add_of_pos_right hself
      · exact hnext (ihn hrest hp)

/-- **THE ORDER** of those that share a name. -/
theorem keyed_inOrder (hnamed : nodes.Named)
    (hall : ∀ k, seen.count k + nodes.names.count k = all.count k) :
    (nodes.keyed all seen).Pairwise fun p q => p.2.name = q.2.name → p.1 < q.1 := by
  have hnext : ∀ {next : XmlNodes} {name : Option Text} {seen : List Text},
      (∀ k, seen.count k + (name.toList ++ next.names).count k = all.count k) →
      ∀ k, (name.toList ++ seen).count k + next.names.count k = all.count k := by
    intro next name seen hall k
    have hk := hall k
    rw [List.count_append] at hk ⊢
    omega
  induction nodes generalizing seen with
  | nil => exact List.Pairwise.nil
  | text name content next ih => exact ih hnamed (hnext hall)
  | other name next ih => exact ih hnamed (hnext hall)
  | element name children properties next ihc ihn =>
      obtain ⟨⟨k, hk, hname⟩, -, hrest⟩ := hnamed
      obtain rfl := Option.mem_def.mp hk
      refine List.Pairwise.cons ?_ (ihn hrest (hnext hall))
      intro q hq heq
      obtain ⟨-, j, hle, hlt, hkey⟩ := keyed_key hrest hq
      have hcount := hnext hall q.2.name
      have hheq : k = q.2.name := heq
      subst hheq
      rw [List.count_append, Option.toList_some, List.count_singleton_self] at hle
      have htwo : 1 < all.count q.2.name := by omega
      rw [hkey, xmlKey_some, keyAt, keyAt, if_pos htwo, if_pos htwo]
      exact formatDuplicatedKey_lt (by omega) (by omega)

/-- **NO KEY TWICE** -/
theorem keyed_distinct (hnamed : nodes.Named)
    (hall : ∀ k, seen.count k + nodes.names.count k = all.count k) :
    ((nodes.keyed all seen).map Prod.fst).Nodup := by
  rw [List.nodup_iff_pairwise_ne, List.pairwise_map]
  refine (keyed_inOrder hnamed hall).imp_of_mem ?_
  intro p q hp hq hlt heq
  obtain ⟨hpname, i, -, -, hpkey⟩ := keyed_key hnamed hp
  obtain ⟨hqname, j, -, -, hqkey⟩ := keyed_key hnamed hq
  have hname : p.2.name = q.2.name := by
    rw [← takeWhile_keyAt all i hpname.2.1, ← hpkey, heq, hqkey,
      takeWhile_keyAt all j hqname.2.1]
  exact lt_irrefl _ (heq ▸ hlt hname)

-- ── What is put under a node ─────────────────────────────────────────────────

theorem putChild_find_self (h : t.children.find key = none) :
    (putChild t key child).children.find key = some child := by
  rw [putChild, Forest.find_insert, if_pos rfl, h, Option.getD_none]

theorem putChild_find_of_ne (h : k ≠ key) :
    (putChild t key child).children.find k = t.children.find k := by
  rw [putChild, Forest.find_insert, if_neg h]

theorem putChild_find_some (h : t.children.find k = some n) :
    (putChild t key child).children.find k = some n := by
  by_cases hk : k = key
  · subst hk
    rw [putChild, Forest.find_insert, if_pos rfl, h, Option.getD_some]
  · rw [putChild_find_of_ne hk, h]

/-- Whatever is put under a node, it keeps its full path and its children. -/
structure Extends (t t' : Tree) : Prop where
  fullPath : t'.info.fullPath = t.info.fullPath
  find : ∀ k n, t.children.find k = some n → t'.children.find k = some n

theorem Extends.refl (t : Tree) : Extends t t := ⟨rfl, fun _ _ h => h⟩

theorem Extends.trans {t₁ t₂ t₃ : Tree} (h : Extends t₁ t₂) (h' : Extends t₂ t₃) :
    Extends t₁ t₃ :=
  ⟨h'.fullPath.trans h.fullPath, fun k n hk => h'.find k n (h.find k n hk)⟩

/-- An element becomes the same under them. -/
theorem Extends.parsed {t' : Tree} (h : Extends t t') (e : XmlElement) (key : Text) :
    e.parsed t' key = e.parsed t key := by
  rw [XmlElement.parsed, XmlElement.parsed, getFullPath, getFullPath, h.fullPath]

theorem extends_putChild (t : Tree) (key : Text) (child : Tree) :
    Extends t (putChild t key child) := ⟨rfl, fun _ _ => putChild_find_some⟩

theorem extends_setValue (t : Tree) (v : Text) : Extends t (setValue v t) :=
  ⟨rfl, fun _ _ h => h⟩

theorem extends_parseProperties (properties : List (Text × Text)) (t : Tree) :
    Extends t (parseProperties properties t) := by
  induction properties generalizing t with
  | nil => exact Extends.refl t
  | cons p properties ih =>
      obtain ⟨k, value⟩ := p
      rw [parseProperties]
      split
      · exact ih t
      · exact (extends_putChild t _ _).trans (ih _)

/-- Properties make no child without an at sign. -/
theorem parseProperties_find (hk : k.head? ≠ some '@') :
    (parseProperties properties t).children.find k = t.children.find k := by
  induction properties generalizing t with
  | nil => rfl
  | cons p properties ih =>
      obtain ⟨j, value⟩ := p
      rw [parseProperties]
      split
      · exact ih
      · refine ih.trans (putChild_find_of_ne ?_)
        rintro rfl
        exact hk rfl

-- ── A run of the parser ──────────────────────────────────────────────────────

theorem xmlKey_ne_nil {name : Option Text} (h : ∃ k ∈ name, XmlName k) :
    xmlKey all seen name ≠ [] := by
  obtain ⟨k, hk, hname⟩ := h
  obtain rfl := Option.mem_def.mp hk
  rw [xmlKey_some, keyAt]
  split
  · exact List.append_ne_nil_of_left_ne_nil hname.1 _
  · exact hname.1

theorem parseXmlNodes_true (all seen : List Text) (t : Tree) (hnamed : nodes.Named) :
    (parseXmlNodes all seen nodes t).1 = true := by
  induction nodes generalizing t all seen with
  | nil => rfl
  | text name content next ih => exact ih _ _ _ hnamed
  | other name next ih => exact ih _ _ _ hnamed
  | element name children properties next ihc ihn =>
      obtain ⟨hname, hchildren, hrest⟩ := hnamed
      rw [parseXmlNodes]
      dsimp only
      rw [if_neg (xmlKey_ne_nil hname)]
      split
      · next heq =>
          have htrue := ihc children.names []
            (newTree (getFullPath t (xmlKey all seen name)) (xmlKey all seen name) [])
            hchildren
          rw [heq] at htrue
          cases htrue
      · exact ihn _ _ _ hrest

/-- **ELEMENTS WITH NAMES** are read. -/
theorem parseFromXmlInternal_named (properties : List (Text × Text)) (t : Tree)
    (hnamed : children.Named) :
    parseFromXmlInternal children properties t = (true,
      parseProperties properties (parseXmlNodes children.names [] children t).2) := by
  have htrue : (parseXmlNodes children.names [] children t).1 = true :=
    parseXmlNodes_true _ _ _ hnamed
  rw [parseFromXmlInternal]
  split
  · next heq =>
      rw [heq] at htrue
      cases htrue
  · next heq => rw [heq]

/-- **AN ELEMENT** is put under its key, and then come the nodes after it. -/
theorem parseXmlNodes_element {name : Option Text} {next : XmlNodes}
    (hnamed : (XmlNodes.element name children properties next).Named) :
    parseXmlNodes all seen (.element name children properties next) t =
      parseXmlNodes all (name.toList ++ seen) next
        (putChild t (xmlKey all seen name)
          ((XmlElement.mk (name.getD []) children properties).parsed t
            (xmlKey all seen name)).2) := by
  obtain ⟨hname, hchildren, -⟩ := hnamed
  rw [XmlElement.parsed, parseFromXmlInternal_named _ _ hchildren, parseXmlNodes]
  dsimp only
  rw [if_neg (xmlKey_ne_nil hname)]
  split
  · next heq =>
      have htrue := parseXmlNodes_true children.names []
        (newTree (getFullPath t (xmlKey all seen name)) (xmlKey all seen name) [])
        hchildren
      rw [heq] at htrue
      cases htrue
  · next heq => rw [heq]

theorem extends_parseXmlNodes (all seen : List Text) (t : Tree)
    (hnamed : nodes.Named) :
    Extends t (parseXmlNodes all seen nodes t).2 := by
  induction nodes generalizing t seen with
  | nil => exact Extends.refl t
  | text name content next ih =>
      rw [parseXmlNodes]
      split
      · exact ih _ _ hnamed
      · exact (extends_setValue t content).trans (ih _ _ hnamed)
  | other name next ih => exact ih _ _ hnamed
  | element name children properties next ihc ihn =>
      rw [parseXmlNodes_element hnamed]
      exact (extends_putChild t _ _).trans (ihn _ _ hnamed.2.2)

/-- **WHAT A RUN PUTS THERE** -/
theorem parseXmlNodes_found (hnamed : nodes.Named)
    (hdistinct : ((nodes.keyed all seen).map Prod.fst).Nodup)
    (hfree : ∀ p ∈ nodes.keyed all seen, t.children.find p.1 = none) :
    ∀ p ∈ nodes.keyed all seen,
      (parseXmlNodes all seen nodes t).2.children.find p.1 =
        some (p.2.parsed t p.1).2 := by
  induction nodes generalizing t seen with
  | nil =>
      intro p hp
      cases hp
  | text name content next ih =>
      rw [parseXmlNodes]
      split
      · exact ih hnamed hdistinct hfree
      · exact ih (t := setValue content t) hnamed hdistinct hfree
  | other name next ih => exact ih hnamed hdistinct hfree
  | element name children properties next ihc ihn =>
      rw [parseXmlNodes_element hnamed]
      obtain ⟨hself, hrest⟩ := List.forall_mem_cons.mp hfree
      obtain ⟨hnew, hdistinct⟩ := List.nodup_cons.mp hdistinct
      have hput := extends_putChild t (xmlKey all seen name)
        ((XmlElement.mk (name.getD []) children properties).parsed t
          (xmlKey all seen name)).2
      refine List.forall_mem_cons.mpr ⟨?_, fun p hp => ?_⟩
      · exact (extends_parseXmlNodes _ _ _ hnamed.2.2).find _ _
          (putChild_find_self hself)
      · rw [← hput.parsed]
        refine ihn hnamed.2.2 hdistinct (fun q hq => ?_) p hp
        refine (putChild_find_of_ne fun heq => ?_).trans (hrest q hq)
        have hmem : q.1 ∈ (next.keyed all (name.toList ++ seen)).map Prod.fst :=
          List.mem_map_of_mem hq
        rw [heq] at hmem
        exact hnew hmem

/-- And nothing else. -/
theorem parseXmlNodes_free (hnamed : nodes.Named)
    (hk : ∀ p ∈ nodes.keyed all seen, k ≠ p.1) (hfree : t.children.find k = none) :
    (parseXmlNodes all seen nodes t).2.children.find k = none := by
  induction nodes generalizing t seen with
  | nil => exact hfree
  | text name content next ih =>
      rw [parseXmlNodes]
      split
      · exact ih hnamed hk hfree
      · exact ih (t := setValue content t) hnamed hk hfree
  | other name next ih => exact ih hnamed hk hfree
  | element name children properties next ihc ihn =>
      rw [parseXmlNodes_element hnamed]
      obtain ⟨hself, hrest⟩ := List.forall_mem_cons.mp hk
      exact ihn hnamed.2.2 hrest ((putChild_find_of_ne hself).trans hfree)

/-- **A NAME THAT COMES MORE THAN ONCE**, be it of an element or of another node, is
    not the key of a child. -/
theorem find_of_counted (properties : List (Text × Text)) (i : Info)
    (hnamed : children.Named) (hk : XmlName k) (hcount : 1 < children.names.count k) :
    (parseFromXmlInternal children properties ⟨i, .nil⟩).2.children.find k = none := by
  have hhead : k.head? ≠ some '@' := fun h => hk.2.2 (List.mem_of_mem_head? h)
  rw [parseFromXmlInternal_named _ _ hnamed, parseProperties_find hhead]
  refine parseXmlNodes_free hnamed (fun p hp heq => ?_) rfl
  obtain ⟨hname, i, -, -, hkey⟩ := keyed_key hnamed hp
  exact keyAt_ne hcount hk.2.1 hname.2.1 (hkey ▸ heq.symm)

-- ── Tags ─────────────────────────────────────────────────────────────────────

theorem tags_sublist (hnamed : nodes.Named) : nodes.tags.Sublist nodes.names := by
  induction nodes with
  | nil => exact List.Sublist.refl []
  | text name content next ih =>
      exact (ih hnamed).trans (List.sublist_append_right _ _)
  | other name next ih => exact (ih hnamed).trans (List.sublist_append_right _ _)
  | element name children properties next ihc ihn =>
      obtain ⟨⟨k, hk, -⟩, -, hrest⟩ := hnamed
      obtain rfl := Option.mem_def.mp hk
      exact (ihn hrest).cons_cons k

theorem named_of_mem (hnamed : nodes.Named) (he : e ∈ nodes.elements) :
    XmlName e.name ∧ e.children.Named := by
  induction nodes with
  | nil => cases he
  | text name content next ih => exact ih hnamed he
  | other name next ih => exact ih hnamed he
  | element name children properties next ihc ihn =>
      obtain ⟨⟨k, hk, hname⟩, hchildren, hrest⟩ := hnamed
      obtain rfl := Option.mem_def.mp hk
      rcases List.mem_cons.mp he with rfl | he
      · exact ⟨hname, hchildren⟩
      · exact ihn hrest he

/-- **THE KEYS OF THE ELEMENTS** are as they should be exactly if no other node has
    the name of the only element of its tag. -/
theorem xml_keys_iff (children : XmlNodes) (properties : List (Text × Text)) (i : Info)
    (hnamed : children.Named) :
    KeysKept children properties i ↔
      ∀ k, children.tags.count k = 1 → children.names.count k = 1 := by
  have hrun := parseFromXmlInternal_named properties ⟨i, .nil⟩ hnamed
  constructor
  · rintro ⟨t, ht, keyed, h⟩ k hone
    have hmem : k ∈ children.tags := List.count_pos_iff.mp (hone ▸ Nat.one_pos)
    have hle := (tags_sublist hnamed).count_le k
    obtain ⟨e, he, rfl⟩ := List.mem_map.mp hmem
    rw [← h.all] at he
    obtain ⟨p, hp, rfl⟩ := List.mem_map.mp he
    by_contra hne
    have hname := (named_of_mem hnamed (h.all ▸ he)).1
    have hnone := find_of_counted properties i hnamed hname (by omega)
    rw [ht, ← h.bare p hp hone, (h.found p hp).2] at hnone
    cases hnone
  · intro hcond
    have hall : ∀ k, ([] : List Text).count k + children.names.count k =
        children.names.count k := fun k => Nat.zero_add _
    have hdistinct := keyed_distinct hnamed hall
    refine ⟨_, hrun, children.keyed children.names [], ?_⟩
    refine ⟨keyed_elements, fun p hp => ⟨?_, ?_⟩, fun p hp hone => ?_,
      fun p hp htwo => ?_, keyed_inOrder hnamed hall, hdistinct, ?_⟩
    · have he : p.2 ∈ children.elements :=
        keyed_elements ▸ List.mem_map_of_mem hp
      rw [XmlElement.parsed, parseFromXmlInternal_named _ _ (named_of_mem hnamed he).2]
    · have hnodes := extends_parseXmlNodes children.names [] ⟨i, .nil⟩ hnamed
      have hproperties := extends_parseProperties properties
        (parseXmlNodes children.names [] children ⟨i, .nil⟩).2
      rw [(hnodes.trans hproperties).parsed]
      exact hproperties.find _ _
        (parseXmlNodes_found hnamed hdistinct (fun _ _ => rfl) p hp)
    · obtain ⟨-, i, -, -, hkey⟩ := keyed_key hnamed hp
      rw [hkey, keyAt, hcond _ hone, if_neg (Nat.lt_irrefl 1)]
    · obtain ⟨-, i, -, -, hkey⟩ := keyed_key hnamed hp
      have hle := (tags_sublist hnamed).count_le p.2.name
      rw [keyAt, if_pos (by omega)] at hkey
      exact ⟨i, _, hkey⟩
    · exact parseProperties_ascending (parseXmlNodes_ascending trivial)

/-- `<r><a/>x<b/><a/></r>`. -/
def threeElements : XmlNodes :=
  .element (some "a".toList) .nil [] (.text (some "text".toList) "x".toList
    (.element (some "b".toList) .nil [] (.element (some "a".toList) .nil [] .nil)))

theorem xml_keys_three : KeysKept threeElements [] ⟨[], [], []⟩ := by
  refine (xml_keys_iff threeElements [] ⟨[], [], []⟩ ?_).mpr fun k hone => ?_
  · exact ⟨⟨_, rfl, by decide⟩, trivial, ⟨_, rfl, by decide⟩, trivial,
      ⟨_, rfl, by decide⟩, trivial, trivial⟩
  · have hmem : k ∈ threeElements.tags := List.count_pos_iff.mp (hone ▸ Nat.one_pos)
    have hall : ∀ k ∈ threeElements.tags, threeElements.tags.count k = 1 →
        threeElements.names.count k = 1 := by decide
    exact hall k hmem hone

/-- `<r>x<text/></r>`: the only element is `text[1]`. -/
theorem text_numbered : ¬∀ (children : XmlNodes) (properties : List (Text × Text))
    (i : Info), children.Named → KeysKept children properties i := by
  intro h
  obtain ⟨t, ht, keyed, hkeyed⟩ := h
    (.text (some "text".toList) "x".toList
      (.element (some "text".toList) .nil [] .nil)) [] ⟨[], [], []⟩
    ⟨⟨_, rfl, by decide⟩, trivial, trivial⟩
  have hmem : ⟨"text".toList, .nil, []⟩ ∈ keyed.map Prod.snd := by
    rw [hkeyed.all]
    exact List.mem_cons_self
  obtain ⟨p, hp, hname⟩ := List.mem_map.mp hmem
  have hbare := hkeyed.bare p hp (by rw [hname]; decide)
  have hfound := (hkeyed.found p hp).2
  rw [hbare, hname] at hfound
  obtain rfl := congrArg Prod.snd ht
  cases hfound

end FlinterTree
