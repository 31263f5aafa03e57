import Flinter.CodeProofs

/-! # Escaping for HTML

    `EscapeHtml` counts in a first pass how much longer the result is, returns the
    text as it is if it is not, and else writes an entity for each of the five
    characters in a second.

    The two passes agree on the five characters (`length_escaped`), so nothing is
    left out by the first.  The entities are a code (`htmlCode`): text that already
    looks escaped has its `&` escaped once more. -/

namespace FlinterEncode

open Codes

abbrev Text := List Char

-- ── The code ─────────────────────────────────────────────────────────────────

-- `'\x22'` is the double quote, `'\x27'` the apostrophe.

/-- `EscapeHtml`: what a character adds to `extra`. -/
def extraOf : Char → Nat
  | '<' => 3
  | '>' => 3
  | '&' => 4
  | '\x27' => 5
  | '\x22' => 5
  | _ => 0

/-- `EscapeHtml`: the first pass. -/
def extra (html : Text) : Nat := html.foldl (fun sum p => sum + extraOf p) 0

/-- `EscapeHtml`: `apos`. -/
def apos (ie_compatible : Bool) : Text :=
  if ie_compatible then "&#039;".toList else "&apos;".toList

/-- `EscapeHtml`: what is written for a character. -/
def escaped (ie_compatible : Bool) : Char → Text
  | '<' => "&lt;".toList
  | '>' => "&gt;".toList
  | '&' => "&amp;".toList
  | '\x22' => "&quot;".toList
  | '\x27' => apos ie_compatible
  | p => [p]

/-- `EscapeHtml`: the second pass. -/
def escapeLoop (html : Text) (ie_compatible : Bool) : Text :=
  html.foldl (fun result p => result ++ escaped ie_compatible p) []

/-- `EscapeHtml`. -/
def escapeHtml (html : Text) (ie_compatible : Bool) : Text :=
  if html = [] then html
  else if extra html = 0 then html
  else escapeLoop html ie_compatible

-- ── Entities ─────────────────────────────────────────────────────────────────

/-- The five characters that are not written as they are. -/
def escapedChars : Text := ['<', '>', '&', '\x22', '\x27']

/-- The five characters, and an entity for each. -/
def entities (ie_compatible : Bool) : List (Char × Text) :=
  escapedChars.map fun p => (p, escaped ie_compatible p)

/-- A character, or the entity that is there for one. -/
def readEntity (ie_compatible : Bool) : Text → Option (Char × Text)
  | [] => none
  | c :: s =>
      match (entities ie_compatible).find? (fun entity => entity.2.isPrefixOf (c :: s)) with
      | some entity => some (entity.1, (c :: s).drop entity.2.length)
      | none => some (c, s)

variable {ie : Bool} {p : Char} {html : Text}

/-- Any other character is written as it is. -/
theorem escaped_of_notMem (ie : Bool) (hp : p ∉ escapedChars) :
    extraOf p = 0 ∧ escaped ie p = [p] := by
  simp only [escapedChars, List.mem_cons, List.not_mem_nil, or_false, not_or] at hp
  obtain ⟨hlt, hgt, hamp, hquot, hapos⟩ := hp
  constructor
  · unfold extraOf
    split <;> first | rfl | contradiction
  · unfold escaped
    split <;> first | rfl | contradiction

theorem forall_escapedChars {P : Char → Prop} (hlt : P '<') (hgt : P '>') (hamp : P '&')
    (hquot : P '\x22') (hapos : P '\x27') (hother : ∀ p, p ∉ escapedChars → P p) (p : Char) :
    P p := by
  by_cases hp : p ∈ escapedChars
  · simp only [escapedChars, List.mem_cons, List.not_mem_nil, or_false] at hp
    rcases hp with rfl | rfl | rfl | rfl | rfl <;> assumption
  · exact hother p hp

/-- The two passes agree on what is longer, and by how much. -/
theorem length_escaped (ie : Bool) (p : Char) : (escaped ie p).length = 1 + extraOf p := by
  refine forall_escapedChars (P := fun p => (escaped ie p).length = 1 + extraOf p)
    rfl rfl rfl rfl ?_ ?_ p
  · cases ie <;> rfl
  · intro p hp
    obtain ⟨hextra, hescaped⟩ := escaped_of_notMem ie hp
    rw [hextra, hescaped]
    rfl

/-- An entity begins with `&`, and has none of the characters after that. -/
theorem entity_shape (ie : Bool) : ∀ p ∈ escapedChars,
    (escaped ie p).head? = some '&' ∧ ∀ c ∈ (escaped ie p).tail, c ∉ escapedChars := by
  have hall : escapedChars.all (fun p => (escaped ie p).head? == some '&' &&
      (escaped ie p).tail.all fun c => !escapedChars.contains c) = true := by
    cases ie <;> rfl
  simpa using hall

theorem entity_eq (ie : Bool) (hp : p ∈ escapedChars) :
    ∃ name, escaped ie p = '&' :: name ∧ ∀ c ∈ name, c ∉ escapedChars := by
  obtain ⟨hhead, htail⟩ := entity_shape ie p hp
  obtain ⟨name, hname⟩ := List.head?_eq_some_iff.mp hhead
  rw [hname] at htail
  exact ⟨name, hname, htail⟩

theorem mem_entities {entity : Char × Text} (h : entity ∈ entities ie) :
    entity.1 ∈ escapedChars ∧ entity.2 = escaped ie entity.1 := by
  obtain ⟨p, hp, rfl⟩ := List.mem_map.mp h
  exact ⟨hp, rfl⟩

/-- No entity is there where there is no `&`. -/
theorem readEntity_plain {rest : Text} (hp : p ≠ '&') :
    readEntity ie (p :: rest) = some (p, rest) := by
  have hnone : (entities ie).find? (fun entity => entity.2.isPrefixOf (p :: rest)) = none := by
    refine List.find?_eq_none.mpr fun entity hentity hprefix => hp ?_
    obtain ⟨hmem, heq⟩ := mem_entities hentity
    obtain ⟨name, hname, -⟩ := entity_eq ie hmem
    rw [heq, hname, List.isPrefixOf_iff_prefix, List.cons_prefix_cons] at hprefix
    exact hprefix.1.symm
  rw [readEntity, hnone]

theorem readEntity_shorter {s rest : Text} (hread : readEntity ie s = some (p, rest)) :
    rest.length < s.length := by
  cases s with
  | nil => cases hread
  | cons c s =>
      rw [readEntity] at hread
      split at hread
      · next entity hfind =>
          obtain ⟨hmem, heq⟩ := mem_entities (List.mem_of_find?_eq_some hfind)
          obtain ⟨name, hname, -⟩ := entity_eq ie hmem
          obtain ⟨-, rfl⟩ := Prod.mk.inj (Option.some.inj hread)
          rw [heq, hname, List.length_cons, List.drop_succ_cons, List.length_drop]
          exact Nat.lt_succ_of_le (Nat.sub_le _ _)
      · obtain ⟨-, rfl⟩ := Prod.mk.inj (Option.some.inj hread)
        exact Nat.lt_succ_self _

/-- The code of characters as entities. -/
def htmlCode (ie_compatible : Bool) : Code Char Char where
  word := escaped ie_compatible
  read := readEntity ie_compatible
  read_word := by
    intro p rest
    refine forall_escapedChars
      (P := fun p => readEntity ie_compatible (escaped ie_compatible p ++ rest) = some (p, rest))
      ?_ ?_ ?_ ?_ ?_ ?_ p
    · cases ie_compatible <;> rfl
    · cases ie_compatible <;> rfl
    · cases ie_compatible <;> rfl
    · cases ie_compatible <;> rfl
    · cases ie_compatible <;> rfl
    · intro p hp
      rw [(escaped_of_notMem _ hp).2]
      exact readEntity_plain (by rintro rfl; exact hp (by decide))
  read_shorter := readEntity_shorter

/-- Put a character in the place of each entity. -/
def replaceEntities (ie_compatible : Bool) (s : Text) : Option Text :=
  (htmlCode ie_compatible).decode s

-- ── The two passes ───────────────────────────────────────────────────────────

theorem escapeLoop_eq (html : Text) (ie : Bool) :
    escapeLoop html ie = (htmlCode ie).encode html := by
  have hfrom : ∀ result, html.foldl (fun result p => result ++ escaped ie p) result =
      result ++ (htmlCode ie).encode html := by
    induction html with
    | nil => intro result; exact (List.append_nil result).symm
    | cons p html ih =>
        intro result
        rw [List.foldl_cons, ih, Code.encode_cons, ← List.append_assoc]
        rfl
  exact hfrom []

theorem extra_cons (p : Char) (html : Text) : extra (p :: html) = extraOf p + extra html := by
  have hfrom : ∀ n, html.foldl (fun sum p => sum + extraOf p) n = n + extra html := by
    unfold extra
    induction html with
    | nil => intro n; rfl
    | cons q html ih =>
        intro n
        rw [List.foldl_cons, List.foldl_cons, ih, ih (0 + extraOf q), Nat.zero_add, Nat.add_assoc]
  rw [← hfrom, extra, List.foldl_cons, Nat.zero_add]

/-- What the first pass counts is what the second adds. -/
theorem length_escapeLoop (html : Text) (ie : Bool) :
    (escapeLoop html ie).length = html.length + extra html := by
  rw [escapeLoop_eq]
  induction html with
  | nil => rfl
  | cons p html ih =>
      have hp : ((htmlCode ie).word p).length = 1 + extraOf p := length_escaped ie p
      rw [Code.encode_cons, List.length_append, ih, extra_cons, List.length_cons, hp]
      omega

theorem escapeLoop_eq_self (hextra : extra html = 0) : escapeLoop html ie = html := by
  rw [escapeLoop_eq]
  induction html with
  | nil => rfl
  | cons p html ih =>
      rw [extra_cons, Nat.add_eq_zero_iff] at hextra
      have hp : p ∉ escapedChars := by
        intro hmem
        have hcounted : escapedChars.all (fun p => extraOf p != 0) = true := rfl
        exact bne_iff_ne.mp (List.all_eq_true.mp hcounted p hmem) hextra.1
      rw [Code.encode_cons, ih hextra.2]
      exact congrArg (· ++ html) (escaped_of_notMem _ hp).2

/-- The first pass only spares the second. -/
theorem escapeHtml_eq (html : Text) (ie : Bool) : escapeHtml html ie = escapeLoop html ie := by
  rw [escapeHtml]
  split
  · next hnil =>
      rw [hnil]
      rfl
  · split
    · next hextra => exact (escapeLoop_eq_self hextra).symm
    · rfl

-- ── Safe and without loss ────────────────────────────────────────────────────

/-- What is written for a character has `&` for its first letter only, where it is an
    entity, and no other of the five. -/
theorem mem_escaped {c : Char} {u v : Text} (h : escaped ie p = u ++ c :: v)
    (hc : c ∈ escapedChars) : p ∈ escapedChars ∧ c = '&' ∧ u = [] := by
  by_cases hp : p ∈ escapedChars
  · obtain ⟨name, hname, hplain⟩ := entity_eq ie hp
    rw [hname] at h
    cases u with
    | nil => exact ⟨hp, (List.cons.inj h).1.symm, rfl⟩
    | cons d u =>
        have hmem : c ∈ name := by
          rw [(List.cons.inj h).2]
          exact List.mem_append_right u List.mem_cons_self
        exact absurd hc (hplain c hmem)
  · rw [(escaped_of_notMem _ hp).2] at h
    have hmem : c ∈ [p] := by
      rw [h]
      exact List.mem_append_right u List.mem_cons_self
    rw [List.mem_singleton.mp hmem] at hc
    exact absurd hc hp

/-- **SAFE AND WITHOUT LOSS.**  Nothing that is escaped is left, each `&` begins an
    entity, characters in the place of the entities give the text back, so no two
    texts are escaped alike, and the text is returned as it is, without the second
    pass, exactly if that would change nothing. -/
theorem escape_safe (ie_compatible : Bool) :
    (∀ html,
      (∀ c ∈ escapeHtml html ie_compatible, c ∉ ['<', '>', '\x22', '\x27']) ∧
      (∀ pre post, escapeHtml html ie_compatible = pre ++ '&' :: post →
        ∃ entity ∈ entities ie_compatible, entity.2 <+: '&' :: post) ∧
      replaceEntities ie_compatible (escapeHtml html ie_compatible) = some html ∧
      (extra html = 0 ↔ escapeLoop html ie_compatible = html) ∧
      escapeHtml html ie_compatible = escapeLoop html ie_compatible) ∧
    Function.Injective (fun html => escapeHtml html ie_compatible) := by
  constructor
  · intro html
    have hletter : ∀ {c pre post}, escapeHtml html ie_compatible = pre ++ c :: post →
        c ∈ escapedChars →
        c = '&' ∧ ∃ entity ∈ entities ie_compatible, entity.2 <+: '&' :: post := by
      intro c pre post h hc
      rw [escapeHtml_eq, escapeLoop_eq] at h
      obtain ⟨p, -, u, v, hword, hpost⟩ := Code.letter_of_word h
      obtain ⟨hp, rfl, rfl⟩ := mem_escaped hword hc
      refine ⟨rfl, (p, escaped ie_compatible p), List.mem_map_of_mem hp, ?_⟩
      have hentity : escaped ie_compatible p = '&' :: v := hword
      rw [hentity]
      exact List.cons_prefix_cons.mpr ⟨rfl, hpost⟩
    refine ⟨?_, ?_, ?_, ?_, escapeHtml_eq html ie_compatible⟩
    · intro c hmem hc
      obtain ⟨pre, post, hsplit⟩ := List.append_of_mem hmem
      have hfound (hescaped : c ∈ escapedChars) (hne : c ≠ '&') : False :=
        hne (hletter hsplit hescaped).1
      simp only [List.mem_cons, List.not_mem_nil, or_false] at hc
      rcases hc with rfl | rfl | rfl | rfl <;> exact hfound (by decide) (by decide)
    · intro pre post h
      exact (hletter h (by decide)).2
    · rw [escapeHtml_eq, escapeLoop_eq]
      exact Code.decode_encode html
    · constructor
      · exact escapeLoop_eq_self
      · intro h
        have hlen := length_escapeLoop html ie_compatible
        rw [h] at hlen
        omega
  · intro html html' h
    simp only [escapeHtml_eq, escapeLoop_eq] at h
    exact Code.encode_injective h

theorem escape_safe_escaped :
    ∃ entity ∈ entities true, entity.2 <+: "&amp;lt; &#039;".toList :=
  ((escape_safe true).1 ['&', 'l', 't', ';', ' ', '\x27']).2.1 [] _ (by decide)

end FlinterEncode
