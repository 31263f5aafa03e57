import Flinter.CouncilNameProofs

/-! # Candidates: any name a child may have

    `Council::GetCandidates` and `Naming::OnChildren` read a child with the same
    lines: an underscore that is not the first character, ten more characters,
    and `atoi32` of these.  Anyone may create a child, so the ten need not be
    the digits ZooKeeper puts there: `strtol` passes over blanks and a sign, and
    stops at a NUL.  What is written back are always ten digits. -/

namespace FlinterCandidates

open FlinterCouncil OrderedMaps

variable {nodeName tail s t ds ds' blanks : Text} {i v : Int} {children : List Text}

-- ── The two parsers ──────────────────────────────────────────────────────────

/-- `c_str()`: what a function that takes a C string sees of a text. -/
def cString (s : Text) : Text := s.takeWhile fun c => c.toNat ≠ 0

/-- The loop body of both: the id of a child and the name before it. -/
def readChild (s : Text) : Option (Int × Text) :=
  match findLastOf '_' s with
  | none => none
  | some pos =>
    if pos = 0 ∨ pos + 11 ≠ s.length then none
    else
      let i := atoi32 (cString (s.drop (pos + 1)))
      if i < 0 then none else some (i, s.take pos)

/-- The loop of both, from an empty map. -/
def readChildren (children : List Text) : OrderedMap Int Text :=
  children.foldl (fun found s =>
    match readChild s with
    | some (i, nodeName) => found.insertNew i nodeName
    | none => found) .empty

/-- `Council::GetCandidates` of the children that were listed. -/
def getCandidates (children : List Text) : OrderedMap Int Text :=
  readChildren children

/-- `Naming::OnChildren`: what becomes of `_naming`. -/
def onChildren (naming : OrderedMap Int Text) (path : Option Text)
    (children : Option (List Text)) : OrderedMap Int Text :=
  if (path.bind List.head?) ≠ some '/' then naming
  else readChildren (children.getD [])

-- ── Numbers as `strtol` takes them ───────────────────────────────────────────

/-- The spellings of an integer: blanks, a sign if any, and digits. -/
inductive Spells : Text → Int → Prop where
  | bare {blanks ds : Text} : (∀ c ∈ blanks, isspace c = true) → ds ≠ [] →
      (∀ c ∈ ds, c.isDigit = true) → Spells (blanks ++ ds) (valueOf ds)
  | plus {blanks ds : Text} : (∀ c ∈ blanks, isspace c = true) → ds ≠ [] →
      (∀ c ∈ ds, c.isDigit = true) → Spells (blanks ++ '+' :: ds) (valueOf ds)
  | minus {blanks ds : Text} : (∀ c ∈ blanks, isspace c = true) → ds ≠ [] →
      (∀ c ∈ ds, c.isDigit = true) → Spells (blanks ++ '-' :: ds) (-valueOf ds)

/-- What is read of blanks, a sign and digits. -/
theorem strtol_of_sign (negative : Bool) (ds : Text)
    (hsign : takeSign (t.dropWhile isspace) = (negative, ds)) (hne : ds ≠ [])
    (hds : ∀ c ∈ ds, c.isDigit = true) :
    strtol t = (if negative then max (-(valueOf ds : Int)) (-2 ^ 63)
      else min (valueOf ds : Int) (2 ^ 63 - 1), []) := by
  simp only [strtol, hsign, List.takeWhile_eq_self_iff.mpr hds,
    List.dropWhile_eq_nil_iff.mpr hds, if_neg hne]

theorem dropWhile_blanks {c : Char} (hblanks : ∀ c ∈ blanks, isspace c = true)
    (hc : isspace c = false) : (blanks ++ c :: s).dropWhile isspace = c :: s := by
  rw [List.dropWhile_append_of_pos hblanks,
    List.dropWhile_cons_of_neg (by rw [hc]; decide)]

/-- **WHAT IS READ**: an integer that is spelled, cut off at the ends of `long`. -/
theorem strtol_of_spells (h : Spells t v) :
    strtol t = (max (min v (2 ^ 63 - 1)) (-2 ^ 63), []) := by
  cases h with
  | @bare blanks ds hblanks hne hds =>
      obtain ⟨c, cs, rfl⟩ := List.exists_cons_of_ne_nil hne
      have hc := hds c List.mem_cons_self
      rw [strtol_of_sign false (c :: cs) _ hne hds]
      · simp only [Bool.false_eq_true, if_false]
        congr 1
        omega
      · rw [dropWhile_blanks hblanks (not_isspace hc), takeSign_digit hc]
  | @plus blanks ds hblanks hne hds =>
      rw [strtol_of_sign false ds (by rw [dropWhile_blanks hblanks rfl]; rfl) hne hds]
      simp only [Bool.false_eq_true, if_false]
      congr 1
      omega
  | @minus blanks ds hblanks hne hds =>
      rw [strtol_of_sign true ds (by rw [dropWhile_blanks hblanks rfl]; rfl) hne hds]
      simp only [if_true]
      congr 1
      omega

/-- What is in front of a sign and of what is behind it. -/
theorem takeSign_cases {negative : Bool} (h : takeSign s = (negative, ds)) :
    negative = true ∧ s = '-' :: ds ∨ negative = false ∧ (s = '+' :: ds ∨ s = ds) := by
  unfold takeSign at h
  split at h
  · obtain ⟨rfl, rfl⟩ := Prod.mk.inj h
    exact .inl ⟨rfl, rfl⟩
  · obtain ⟨rfl, rfl⟩ := Prod.mk.inj h
    exact .inr ⟨rfl, .inl rfl⟩
  · obtain ⟨rfl, rfl⟩ := Prod.mk.inj h
    exact .inr ⟨rfl, .inr rfl⟩

/-- What is read to its end is an integer that is spelled. -/
theorem spells_of_strtol (hne : t ≠ []) (h : (strtol t).2 = []) : ∃ v, Spells t v := by
  rw [strtol] at h
  dsimp only at h
  split at h
  · exact absurd h hne
  next hdigits =>
    have hall := List.dropWhile_eq_nil_iff.mp h
    rw [List.takeWhile_eq_self_iff.mpr hall] at hdigits
    have hblanks : ∀ c ∈ t.takeWhile isspace, isspace c = true :=
      fun c hc => List.mem_takeWhile_imp hc
    cases hsign : takeSign (t.dropWhile isspace) with
    | mk negative ds =>
        rw [hsign] at hall hdigits
        rw [← List.takeWhile_append_dropWhile (p := isspace) (l := t)]
        rcases takeSign_cases hsign with ⟨-, hs⟩ | ⟨-, hs | hs⟩ <;> rw [hs]
        · exact ⟨_, .minus hblanks hdigits hall⟩
        · exact ⟨_, .plus hblanks hdigits hall⟩
        · exact ⟨_, .bare hblanks hdigits hall⟩

theorem Spells.ne_nil (h : Spells t v) : t ≠ [] := by
  cases h with
  | bare _ hne _ => exact fun heq => hne (List.append_eq_nil_iff.mp heq).2
  | plus => exact List.append_ne_nil_of_right_ne_nil _ (List.cons_ne_nil _ _)
  | minus => exact List.append_ne_nil_of_right_ne_nil _ (List.cons_ne_nil _ _)

/-- **`atoi32`**: an id is what is spelled and fits. -/
theorem atoi32_eq_iff (hv : 0 ≤ v) : atoi32 t = v ↔ Spells t v ∧ v ≤ 2147483647 := by
  constructor
  · intro h
    rw [atoi32] at h
    split at h
    · omega
    next hne =>
    dsimp only at h
    split at h
    · omega
    next hok =>
    have hend : (strtol t).2 = [] := by
      by_contra hrest
      exact hok (.inl hrest)
    obtain ⟨v', hspells⟩ := spells_of_strtol hne hend
    have hread := strtol_of_spells hspells
    rw [hread] at h hok
    obtain rfl : v' = v := by omega
    exact ⟨hspells, by omega⟩
  · rintro ⟨hspells, hle⟩
    have hread := strtol_of_spells hspells
    have hvalue : max (min v (2 ^ 63 - 1)) (-2 ^ 63) = v := by omega
    rw [atoi32, if_neg hspells.ne_nil, hread, hvalue]
    dsimp only
    rw [if_neg (by simp only [ne_eq, not_true_eq_false, false_or]; omega)]

-- ── Ten digits ───────────────────────────────────────────────────────────────

theorem valueOf_concat {c : Char} : valueOf (ds ++ [c]) = 10 * valueOf ds + (c.toNat - 48) := by
  rw [valueOf, valueOf, List.foldl_append]
  rfl

/-- As many digits of the same value are the same digits. -/
theorem valueOf_inj (hds : ∀ c ∈ ds, c.isDigit = true) (hds' : ∀ c ∈ ds', c.isDigit = true)
    (hlen : ds.length = ds'.length) (h : valueOf ds = valueOf ds') : ds = ds' := by
  induction ds using List.reverseRecOn generalizing ds' with
  | nil => exact (List.length_eq_zero_iff.mp hlen.symm).symm
  | append_singleton ds c ih =>
      rcases List.eq_nil_or_concat ds' with rfl | ⟨ds', c', rfl⟩
      · rw [List.length_append] at hlen
        exact absurd hlen (by simp)
      · rw [List.concat_eq_append] at *
        have hc := isDigit_toNat (hds c (List.mem_append_right _ List.mem_cons_self))
        have hc' := isDigit_toNat (hds' c' (List.mem_append_right _ List.mem_cons_self))
        rw [valueOf_concat, valueOf_concat] at h
        rw [List.length_append, List.length_append] at hlen
        rw [ih (fun x hx => hds x (List.mem_append_left _ hx))
            (fun x hx => hds' x (List.mem_append_left _ hx)) (Nat.add_right_cancel hlen)
            (by omega),
          Char.toNat_inj.mp (show c.toNat = c'.toNat by omega)]

/-- **TEN DIGITS ARE WRITTEN BACK** as they were read. -/
theorem setw10_valueOf (hds : ∀ c ∈ ds, c.isDigit = true) (hlen : ds.length = 10)
    (hle : valueOf ds ≤ 2147483647) : setw10 (valueOf ds) = ds := by
  have hvalid : ValidId (valueOf ds) := ⟨Int.natCast_nonneg _, by omega⟩
  refine valueOf_inj (fun c hc => setw10_isDigit hc) hds ?_ ?_
  · rw [setw10_length hvalid, hlen]
  · exact Int.natCast_inj.mp (valueOf_setw10 hvalid)

/-- Digits spell their value and nothing else. -/
theorem spells_digits (hne : ds ≠ []) (hds : ∀ c ∈ ds, c.isDigit = true)
    (hv : 0 ≤ v) (hle : v ≤ 2147483647) (h : Spells ds v) : v = valueOf ds := by
  have hread := (atoi32_eq_iff hv).mpr ⟨h, hle⟩
  have hbare : Spells ds (valueOf ds) := 
    .bare (show ∀ c ∈ ([] : Text), isspace c = true by simp) hne hds
  have heq := (strtol_of_spells h).symm.trans (strtol_of_spells hbare)
  have hcut := (Prod.mk.inj heq).1
  omega

-- ── Children ─────────────────────────────────────────────────────────────────

theorem findLastOf_ne_none {c : Char} (h : c ∈ s) : findLastOf c s ≠ none := by
  induction s with
  | nil => exact absurd h List.not_mem_nil
  | cons x xs ih =>
      rw [findLastOf]
      cases hxs : findLastOf c xs with
      | some pos => exact Option.some_ne_none _
      | none =>
          rcases List.mem_cons.mp h with rfl | hin
          · rw [if_pos rfl]
            exact Option.some_ne_none _
          · exact absurd hxs (ih hin)

/-- Where a character is last. -/
theorem findLastOf_eq_some {c : Char} {pos : Nat} :
    findLastOf c s = some pos ↔
      ∃ s₁ s₂, s = s₁ ++ c :: s₂ ∧ c ∉ s₂ ∧ s₁.length = pos := by
  constructor
  · intro h
    induction s generalizing pos with
    | nil => exact absurd h.symm (Option.some_ne_none _)
    | cons x xs ih =>
        rw [findLastOf] at h
        cases hxs : findLastOf c xs with
        | some pos' =>
            rw [hxs] at h
            obtain ⟨s₁, s₂, rfl, hnot, rfl⟩ := ih hxs
            exact ⟨x :: s₁, s₂, rfl, hnot, Option.some.inj h⟩
        | none =>
            rw [hxs] at h
            obtain ⟨rfl, hpos⟩ := Option.ite_none_right_eq_some.mp h
            refine ⟨[], xs, rfl, fun hin => ?_, Option.some.inj hpos⟩
            exact absurd hxs (findLastOf_ne_none hin)
  · rintro ⟨s₁, s₂, rfl, hnot, rfl⟩
    exact findLastOf_append hnot

/-- **A CHILD THAT IS ACCEPTED**: a name, an underscore, and ten characters that
    spell an id up to their first NUL. -/
theorem readChild_eq_some :
    readChild s = some (i, nodeName) ↔
      ∃ tail, s = nodeName ++ '_' :: tail ∧ nodeName ≠ [] ∧ tail.length = 10 ∧
        '_' ∉ tail ∧ Spells (cString tail) i ∧ 0 ≤ i ∧ i ≤ 2147483647 := by
  have hparts : ∀ {s₁ s₂ : Text}, (s₁ ++ '_' :: s₂).drop (s₁.length + 1) = s₂ := by
    intro s₁ s₂
    rw [List.drop_append]
    simp
  constructor
  · intro h
    rw [readChild] at h
    cases hpos : findLastOf '_' s with
    | none =>
        rw [hpos] at h
        exact absurd h.symm (Option.some_ne_none _)
    | some pos =>
        obtain ⟨s₁, s₂, rfl, hnot, rfl⟩ := findLastOf_eq_some.mp hpos
        rw [hpos] at h
        dsimp only at h
        obtain ⟨hshape, h⟩ := Option.ite_none_left_eq_some.mp h
        obtain ⟨hid, h⟩ := Option.ite_none_left_eq_some.mp h
        obtain ⟨rfl, rfl⟩ := Prod.mk.inj (Option.some.inj h)
        rw [hparts] at hid ⊢
        rw [List.take_left]
        rw [not_or, not_not, List.length_append, List.length_cons] at hshape
        have hspells := (atoi32_eq_iff (not_lt.mp hid)).mp rfl
        refine ⟨s₂, rfl, fun hnil => hshape.1 (List.length_eq_zero_iff.mpr hnil), ?_, hnot,
          hspells.1, not_lt.mp hid, hspells.2⟩
        omega
  · rintro ⟨tail, rfl, hne, hlen, hnot, hspells, hid, hle⟩
    have hpos : nodeName.length ≠ 0 := fun h0 => hne (List.length_eq_zero_iff.mp h0)
    have hread := (atoi32_eq_iff hid).mpr ⟨hspells, hle⟩
    rw [readChild, findLastOf_append hnot]
    dsimp only
    rw [if_neg, hparts, hread, if_neg (not_lt.mpr hid), List.take_left]
    rw [not_or, not_not, List.length_append, List.length_cons, hlen]
    exact ⟨hpos, rfl⟩

/-- A child whose ten characters spell an id, but not all with digits. -/
def OddlyNumbered (s : Text) : Prop :=
  ∃ nodeName tail i, s = nodeName ++ '_' :: tail ∧ nodeName ≠ [] ∧ tail.length = 10 ∧
    '_' ∉ tail ∧ Spells (cString tail) i ∧ 0 ≤ i ∧ i ≤ 2147483647 ∧
    ∃ c ∈ tail, c.isDigit = false

/-- What is read of ten digits is written back, and of nothing else. -/
theorem childName_eq_iff (h : readChild s = some (i, nodeName)) :
    childName nodeName i = s ↔ ¬OddlyNumbered s := by
  obtain ⟨tail, rfl, hne, hlen, hnot, hspells, hid, hle⟩ := readChild_eq_some.mp h
  constructor
  · rintro heq ⟨nodeName', tail', i', hs, -, hlen', -, -, -, -, c, hc, hdigit⟩
    have htail := (List.append_inj' hs (by rw [List.length_cons, List.length_cons, hlen, hlen'])).2
    obtain rfl := (List.cons.inj htail).2
    obtain rfl := (List.cons.inj (List.append_cancel_left heq)).2
    rw [setw10_isDigit hc] at hdigit
    exact Bool.false_ne_true hdigit.symm
  · intro hnotOdd
    have hdigits : ∀ c ∈ tail, c.isDigit = true := by
      intro c hc
      by_contra hdigit
      exact hnotOdd ⟨nodeName, tail, i, rfl, hne, hlen, hnot, hspells, hid, hle, c, hc,
        Bool.eq_false_iff.mpr hdigit⟩
    have hwhole : cString tail = tail := by
      refine List.takeWhile_eq_self_iff.mpr fun c hc => decide_eq_true ?_
      have hrange := isDigit_toNat (hdigits c hc)
      omega
    have hsome : tail ≠ [] := by
      rintro rfl
      exact absurd hlen (by decide)
    rw [hwhole] at hspells
    obtain rfl := spells_digits hsome hdigits hid hle hspells
    rw [childName, setw10_valueOf hdigits hlen (by omega)]

-- ── What is recorded ─────────────────────────────────────────────────────────

/-- Every entry is a child. -/
theorem mem_entries_readChildren {e : Int × Text} (h : e ∈ (readChildren children).entries) :
    ∃ s ∈ children, readChild s = some e := by
  induction children using List.reverseRecOn with
  | nil => exact absurd h List.not_mem_nil
  | append_singleton children s ih =>
      rw [readChildren, List.foldl_append, List.foldl_cons, List.foldl_nil] at h
      cases hs : readChild s with
      | none =>
          rw [hs] at h
          obtain ⟨s', hs', hread⟩ := ih h
          exact ⟨s', List.mem_append_left _ hs', hread⟩
      | some c =>
          rw [hs] at h
          rcases mem_insertEntry h with rfl | h
          · exact ⟨s, List.mem_append_right _ List.mem_cons_self, hs⟩
          · obtain ⟨s', hs', hread⟩ := ih h
            exact ⟨s', List.mem_append_left _ hs', hread⟩

/-- What is recorded of children leads back to them: a child that is accepted
    has the path that its id and its name make, what is recorded makes a child,
    and children of one id end in the same ten characters. -/
structure RoundTrips (children : List Text) (found : OrderedMap Int Text) : Prop where
  rebuilt : ∀ s ∈ children, ∀ i nodeName, readChild s = some (i, nodeName) →
    ∀ path, childPath path (childName nodeName i) = childPath path s
  recorded : ∀ e ∈ found.entries, childName e.2 e.1 ∈ children
  apart : ∀ s ∈ children, ∀ s' ∈ children, ∀ i nodeName nodeName',
    readChild s = some (i, nodeName) → readChild s' = some (i, nodeName') →
    s.drop (s.length - 10) = s'.drop (s'.length - 10)

/-- The ten characters of a child. -/
theorem drop_childName (h : ValidId i) :
    (childName nodeName i).drop ((childName nodeName i).length - 10) = setw10 i := by
  have hsplit : childName nodeName i = (nodeName ++ ['_']) ++ setw10 i :=
    List.append_cons _ _ _
  rw [hsplit, List.length_append, setw10_length h, Nat.add_sub_cancel, List.drop_left]

theorem roundTrips_iff :
    RoundTrips children (readChildren children) ↔ ∀ s ∈ children, ¬OddlyNumbered s := by
  constructor
  · intro h s hs hodd
    obtain ⟨nodeName, tail, i, hshape, hne, hlen, hnot, hspells, hid, hle, -⟩ := id hodd
    have hread : readChild s = some (i, nodeName) :=
      readChild_eq_some.mpr ⟨tail, hshape, hne, hlen, hnot, hspells, hid, hle⟩
    have hback := childPath_inj.mp (h.rebuilt s hs i nodeName hread [])
    exact (childName_eq_iff hread).mp hback hodd
  · intro h
    have hback : ∀ s ∈ children, ∀ i nodeName, readChild s = some (i, nodeName) →
        childName nodeName i = s :=
      fun s hs i nodeName hread => (childName_eq_iff hread).mpr (h s hs)
    refine ⟨fun s hs i nodeName hread path => ?_, fun e he => ?_, ?_⟩
    · rw [hback s hs i nodeName hread]
    · obtain ⟨s, hs, hread⟩ := mem_entries_readChildren he
      rw [hback s hs e.1 e.2 hread]
      exact hs
    · intro s hs s' hs' i nodeName nodeName' hread hread'
      obtain ⟨-, -, -, -, -, -, hid, hle⟩ := readChild_eq_some.mp hread
      rw [← hback s hs i nodeName hread, ← hback s' hs' i nodeName' hread',
        drop_childName ⟨hid, hle⟩, drop_childName ⟨hid, hle⟩]

/-- **WHEN CANDIDATES ROUND-TRIP**: both parsers lead back to the children they
    were given if and only if no child is oddly numbered. -/
theorem candidates_round_trip (children : List Text) :
    (RoundTrips children (getCandidates children) ↔
      ∀ s ∈ children, ¬OddlyNumbered s) ∧
    ∀ naming rest,
      (RoundTrips children (onChildren naming (some ('/' :: rest)) (some children)) ↔
        ∀ s ∈ children, ¬OddlyNumbered s) :=
  ⟨roundTrips_iff, fun _ _ => roundTrips_iff⟩

/-- A child with a blank among its ten characters, and one with ten digits. -/
def blank : Text := ['x', '_', ' ', '1', '2', '3', '4', '5', '6', '7', '8', '9']

def padded : Text := ['x', '_', '0', '1', '2', '3', '4', '5', '6', '7', '8', '9']

/-- **A BLANK FOR A ZERO**: both children are accepted under one id, and what is
    recorded of the first leads to the second. -/
theorem candidates_blank :
    readChild blank = some (123456789, ['x']) ∧ readChild padded = some (123456789, ['x']) ∧
      childName ['x'] 123456789 = padded ∧
      ¬RoundTrips [blank] (getCandidates [blank]) ∧
      ¬RoundTrips [blank] (onChildren .empty (some ['/', 'n']) (some [blank])) ∧
      blank.drop 2 ≠ padded.drop 2 := by
  have hread : readChild blank = some (123456789, ['x']) := by decide
  have hwritten : childName ['x'] 123456789 = padded := by decide
  have hlost : ∀ found, ¬RoundTrips [blank] found := by
    intro found h
    have hback := childPath_inj.mp (h.rebuilt blank List.mem_cons_self _ _ hread [])
    exact absurd (hwritten.symm.trans hback) (by decide)
  exact ⟨hread, by decide, hwritten, hlost _, hlost _, by decide⟩

-- ── Names without a NUL ──────────────────────────────────────────────────────

theorem readChild_eq_getCandidate (h : ∀ c ∈ s, c.toNat ≠ 0) :
    readChild s = getCandidate s := by
  have hwhole : ∀ n, cString (s.drop n) = s.drop n := fun n =>
    List.takeWhile_eq_self_iff.mpr fun c hc => decide_eq_true (h c (List.mem_of_mem_drop hc))
  rw [readChild, getCandidate]
  cases findLastOf '_' s with
  | none => rfl
  | some pos =>
      dsimp only
      rw [hwhole]
      split
      · rfl
      · rcases lt_or_ge (atoi32 (s.drop (pos + 1))) 0 with hlt | hge
        · rw [if_pos hlt, if_neg (not_le.mpr hlt)]
        · rw [if_neg (not_lt.mpr hge), if_pos hge]

/-- **C STRINGS**: of names that hold no NUL, as ZooKeeper lists them, the
    candidates are those of an election. -/
theorem getCandidates_eq (h : ∀ s ∈ children, ∀ c ∈ s, c.toNat ≠ 0) :
    getCandidates children = FlinterCouncil.getCandidates children := by
  rw [getCandidates, readChildren, FlinterCouncil.getCandidates]
  refine List.foldl_ext _ _ _ fun found s hs => ?_
  rewrite [readChild_eq_getCandidate (h s hs)]
  rfl

end FlinterCandidates
