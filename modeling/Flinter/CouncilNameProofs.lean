import Flinter.CouncilProofs
import Mathlib.Data.List.TakeWhile
import Mathlib.Data.Nat.Digits.Lemmas

/-! # The names of candidate nodes

    A name that ZooKeeper gives to a candidate node is read back as the id and
    the node name it was made of.  What `GetCandidates` makes of the children is
    therefore exactly the candidates among them, each under its own id. -/

namespace FlinterCouncil

open OrderedMaps

variable {id id' : Int} {nodeName nodeName' : Text} {text : Text}

-- ── Ten digits ───────────────────────────────────────────────────────────────

/-- An id of `int32_t`. -/
def ValidId (id : Int) : Prop := 0 ≤ id ∧ id ≤ 2147483647

theorem digitChar_isDigit {d : Nat} (h : d < 10) :
    (Nat.digitChar d).isDigit = true := by
  rw [Nat.isDigit_digitChar, decide_eq_true_eq]
  exact h

theorem setw10_isDigit {c : Char} (hc : c ∈ setw10 id) : c.isDigit = true := by
  rcases List.mem_append.mp hc with hc | hc
  · rw [List.eq_of_mem_replicate hc]
    rfl
  · obtain ⟨d, hd, rfl⟩ := List.mem_map.mp hc
    exact digitChar_isDigit
      (Nat.digits_lt_base (by decide) (List.mem_reverse.mp hd))

theorem setw10_length (h : ValidId id) : (setw10 id).length = 10 := by
  have hle : (Nat.digits 10 id.toNat).length ≤ 10 := by
    rw [Nat.digits_length_le_iff (by decide)]
    have hid := h.2
    omega
  rw [setw10, List.length_append, List.length_replicate, List.length_map,
    List.length_reverse]
  omega

/-- The digits of a number, read from the left. -/
theorem valueOf_digits {ds : List Nat} (h : ∀ d ∈ ds, d < 10) :
    valueOf (ds.reverse.map Nat.digitChar) = Nat.ofDigits 10 ds := by
  induction ds with
  | nil => rfl
  | cons d ds ih =>
      have hd := h d List.mem_cons_self
      have hds := ih fun d' hd' => h d' (List.mem_cons_of_mem d hd')
      rw [valueOf] at hds
      rw [valueOf, List.reverse_cons, List.map_append, List.foldl_append, hds,
        Nat.ofDigits_cons]
      simp only [List.map_cons, List.map_nil, List.foldl_cons, List.foldl_nil]
      rw [Nat.toNat_digitChar_of_lt_ten hd, Nat.add_sub_cancel_left, add_comm]

theorem valueOf_zeros (n : Nat) (ds : Text) :
    valueOf (List.replicate n '0' ++ ds) = valueOf ds := by
  induction n with
  | zero => rfl
  | succ n ih => exact ih

theorem valueOf_setw10 (h : ValidId id) : (valueOf (setw10 id) : Int) = id := by
  rw [setw10, valueOf_zeros,
    valueOf_digits fun d hd => Nat.digits_lt_base (by decide) hd,
    Nat.ofDigits_digits, Int.toNat_of_nonneg h.1]

-- ── Reading a number ─────────────────────────────────────────────────────────

theorem isDigit_toNat {c : Char} (h : c.isDigit = true) :
    48 ≤ c.toNat ∧ c.toNat ≤ 57 := by
  simpa [Char.isDigit, UInt32.le_iff_toNat_le] using h

theorem not_isspace {c : Char} (h : c.isDigit = true) : isspace c = false := by
  have hc := isDigit_toNat h
  have hne : c ≠ ' ' := by
    rintro rfl
    exact absurd h (by decide)
  simp [isspace, hne]
  omega

theorem takeSign_digit {c : Char} {cs : Text} (h : c.isDigit = true) :
    takeSign (c :: cs) = (false, c :: cs) := by
  unfold takeSign
  split
  case h_1 heq =>
      obtain ⟨rfl, -⟩ := List.cons.inj heq
      exact absurd h (by decide)
  case h_2 heq =>
      obtain ⟨rfl, -⟩ := List.cons.inj heq
      exact absurd h (by decide)
  case h_3 => rfl

/-- Digits and nothing else. -/
theorem strtol_digits {ds : Text} (hne : ds ≠ [])
    (h : ∀ c ∈ ds, c.isDigit = true) :
    strtol ds = (min (valueOf ds : Int) (2 ^ 63 - 1), []) := by
  obtain ⟨c, cs, rfl⟩ := List.exists_cons_of_ne_nil hne
  have hc := h c List.mem_cons_self
  have htake : (c :: cs).takeWhile Char.isDigit = c :: cs :=
    List.takeWhile_eq_self_iff.mpr h
  have hdrop : (c :: cs).dropWhile Char.isDigit = [] :=
    List.dropWhile_eq_nil_iff.mpr h
  have hspace : (c :: cs).dropWhile isspace = c :: cs :=
    List.dropWhile_cons_of_neg (by simp [not_isspace hc])
  simp only [strtol, hspace, takeSign_digit hc, htake, hdrop]
  rfl

/-- **AN ID IS READ BACK**: the ten digits of an id are that id. -/
theorem atoi32_setw10 (h : ValidId id) : atoi32 (setw10 id) = id := by
  have hne : setw10 id ≠ [] := by
    intro hnil
    have hlen := setw10_length h
    rw [hnil] at hlen
    exact absurd hlen (by decide)
  rw [atoi32, if_neg hne, strtol_digits hne fun c hc => setw10_isDigit hc,
    valueOf_setw10 h, min_eq_left (by have := h.2; omega)]
  have hle := h.2
  have hge := h.1
  simp only [ne_eq, not_true_eq_false, false_or]
  rw [if_neg (by omega)]

-- ── Reading a name ───────────────────────────────────────────────────────────

theorem findLastOf_eq_none {c : Char} {s : Text} (h : c ∉ s) :
    findLastOf c s = none := by
  induction s with
  | nil => rfl
  | cons x s ih =>
      rw [findLastOf, ih fun hs => h (List.mem_cons_of_mem x hs)]
      refine if_neg ?_
      rintro rfl
      exact h List.mem_cons_self

/-- The last one is the one with none behind it. -/
theorem findLastOf_append {c : Char} {s s' : Text} (h : c ∉ s') :
    findLastOf c (s ++ c :: s') = some s.length := by
  induction s with
  | nil =>
      rw [List.nil_append, findLastOf, findLastOf_eq_none h]
      exact if_pos rfl
  | cons x s ih =>
      rw [List.cons_append, findLastOf, ih]
      rfl

theorem not_mem_setw10 : '_' ∉ setw10 id := by
  intro h
  exact absurd (setw10_isDigit h) (by decide)

/-- **A CANDIDATE IS READ BACK**: the name made of a node name and an id is
    accepted, and gives both. -/
theorem getCandidate_childName (h : ValidId id) (hne : nodeName ≠ []) :
    getCandidate (childName nodeName id) = some (id, nodeName) := by
  have hpos : nodeName.length ≠ 0 := fun h0 => hne (List.length_eq_zero_iff.mp h0)
  have hlen : nodeName.length + 11 = (childName nodeName id).length := by
    rw [childName, List.length_append, List.length_cons, setw10_length h]
  have hdrop : (childName nodeName id).drop (nodeName.length + 1) =
      setw10 id := by
    rw [childName, List.drop_append]
    simp
  have htake : (childName nodeName id).take nodeName.length = nodeName := by
    rw [childName, List.take_left]
  rw [getCandidate, show findLastOf '_' (childName nodeName id) = _ from
    findLastOf_append not_mem_setw10]
  simp only [hpos, hlen, hdrop, htake, atoi32_setw10 h, ne_eq,
    not_true_eq_false, or_self, if_false, if_pos h.1]

/-- A node without a name is no candidate. -/
theorem getCandidate_nil : getCandidate (childName [] id) = none := by
  rw [getCandidate, show findLastOf '_' (childName [] id) = some 0 from
    findLastOf_append (s := []) not_mem_setw10]
  rfl

theorem childName_inj (h : ValidId id) (h' : ValidId id')
    (heq : childName nodeName id = childName nodeName' id') :
    nodeName = nodeName' ∧ id = id' := by
  have hlen : (setw10 id).length = (setw10 id').length := by
    rw [setw10_length h, setw10_length h']
  obtain ⟨hname, hid⟩ := List.append_inj' heq
    (by rw [List.length_cons, List.length_cons, hlen])
  refine ⟨hname, ?_⟩
  rw [← atoi32_setw10 h, ← atoi32_setw10 h', (List.cons.inj hid).2]

theorem childPath_inj {electionPath child child' : Text} :
    childPath electionPath child = childPath electionPath child' ↔
      child = child' := by
  rw [childPath, childPath, List.append_cancel_left_eq, List.cons_inj_right]

/-- A child has a longer path. -/
theorem ne_childPath {electionPath child : Text} :
    electionPath ≠ childPath electionPath child := by
  intro heq
  have hlen := congrArg List.length heq
  rw [childPath, List.length_append, List.length_cons] at hlen
  omega

theorem take_childPath {electionPath child : Text} :
    (childPath electionPath child).take electionPath.length = electionPath := by
  rw [childPath, List.take_left]

/-- A sequence number of `int32_t`. -/
theorem validId_natCast {n : Nat} (h : n < 2 ^ 31) : ValidId n :=
  ⟨Int.natCast_nonneg n, by omega⟩

/-- Children of different numbers have different names. -/
theorem childName_ne_of_lt {n n' : Nat} (h : n < n') (hbound : n' < 2 ^ 31) :
    childName nodeName n ≠ childName nodeName' n' := by
  intro heq
  have hid := (childName_inj (validId_natCast (Nat.lt_trans h hbound))
    (validId_natCast hbound) heq).2
  omega

-- ── The candidates ───────────────────────────────────────────────────────────

/-- The step of `GetCandidates`. -/
theorem getCandidates_append (children : List Text) (s : Text) :
    getCandidates (children ++ [s]) =
      match getCandidate s with
      | some (i, nodeName) => (getCandidates children).insertNew i nodeName
      | none => getCandidates children := by
  rw [getCandidates, List.foldl_append]
  rfl

/-- **THE CANDIDATES**: the ids are those of the children that are accepted. -/
theorem mem_keys_getCandidates {children : List Text} :
    id ∈ (getCandidates children).keys ↔
      ∃ s ∈ children, ∃ nodeName, getCandidate s = some (id, nodeName) := by
  induction children using List.reverseRecOn with
  | nil =>
      constructor
      · intro h
        exact absurd h (Finset.notMem_empty id)
      · rintro ⟨s, hs, -⟩
        exact absurd hs List.not_mem_nil
  | append_singleton children s ih =>
      rw [getCandidates_append]
      constructor
      · intro h
        cases hs : getCandidate s with
        | none =>
            rw [hs] at h
            obtain ⟨s', hs', hc⟩ := ih.mp h
            exact ⟨s', List.mem_append_left _ hs', hc⟩
        | some c =>
            rw [hs] at h
            rcases OrderedMap.mem_keys_insertNew.mp h with rfl | h
            · exact ⟨s, List.mem_append_right _ List.mem_cons_self, c.2, hs⟩
            · obtain ⟨s', hs', hc⟩ := ih.mp h
              exact ⟨s', List.mem_append_left _ hs', hc⟩
      · rintro ⟨s', hs', nodeName, hc⟩
        rcases List.mem_append.mp hs' with hs' | hs'
        · have hold := ih.mpr ⟨s', hs', nodeName, hc⟩
          cases getCandidate s with
          | none => exact hold
          | some c => exact OrderedMap.mem_keys_insertNew.mpr (.inr hold)
        · rw [← List.mem_singleton.mp hs', hc]
          exact OrderedMap.mem_keys_insertNew.mpr (.inl rfl)

/-- Every entry is a child. -/
theorem mem_entries_getCandidates {children : List Text} {e : Int × Text}
    (h : e ∈ (getCandidates children).entries) :
    ∃ s ∈ children, getCandidate s = some e := by
  induction children using List.reverseRecOn with
  | nil => exact absurd h List.not_mem_nil
  | append_singleton children s ih =>
      rw [getCandidates_append] at h
      cases hs : getCandidate s with
      | none =>
          rw [hs] at h
          obtain ⟨s', hs', hc⟩ := ih h
          exact ⟨s', List.mem_append_left _ hs', hc⟩
      | some c =>
          rw [hs] at h
          rcases mem_insertEntry h with rfl | h
          · exact ⟨s, List.mem_append_right _ List.mem_cons_self, hs⟩
          · obtain ⟨s', hs', hc⟩ := ih h
            exact ⟨s', List.mem_append_left _ hs', hc⟩

end FlinterCouncil
