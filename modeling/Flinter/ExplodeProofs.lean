import Mathlib.Data.Finset.Dedup
import Mathlib.Data.Finset.Lattice.Lemmas
import Mathlib.Data.Finset.Insert
import Flinter.SplittingProofs

/-! # Exploding and imploding

    `explode` cuts a string at each character of a set, `implode` puts strings
    together with glue in between.  With empty strings kept and one character for
    both, either takes back what the other did; there is always one string more
    than there are delimiters, also if the string is empty or ends in one. -/

namespace FlinterExplode

abbrev Text := List Char

variable {delim s rest : Text} {d : Char} {preserveNull : Bool}

-- ── The code ─────────────────────────────────────────────────────────────────

/-- `find_first_of`, from where it begins; `delim` are the characters of the
    C string. -/
def findFirstOf (delim rest : Text) : Option Nat := rest.findIdx? (· ∈ delim)

/-- `explode_internal`: the loop, where `rest` is what begins at `pos`. -/
def explodeInternal (delim : Text) (preserveNull : Bool) (rest : Text) : List Text :=
  if _hrest : rest = [] then if preserveNull then [[]] else []
  else
    match findFirstOf delim rest with
    | none => [rest]
    | some hit =>
        let next := explodeInternal delim preserveNull (rest.drop (hit + 1))
        if hit ≠ 0 ∨ preserveNull then rest.take hit :: next else next
termination_by rest.length
decreasing_by
  rw [List.length_drop]
  have := List.length_pos_of_ne_nil _hrest
  omega

/-- `explode`, to a vector or a list. -/
def explode (methods delim : Text) (preserveNull : Bool) : List Text :=
  explodeInternal delim preserveNull methods

/-- `explode`, to a set: the loop. -/
def explodeSetLoop (delim : Text) (result : Finset Text) (rest : Text) : Finset Text :=
  if _hrest : rest = [] then result
  else
    match findFirstOf delim rest with
    | none => insert rest result
    | some hit =>
        explodeSetLoop delim (if hit ≠ 0 then insert (rest.take hit) result else result)
          (rest.drop (hit + 1))
termination_by rest.length
decreasing_by
  rw [List.length_drop]
  have := List.length_pos_of_ne_nil _hrest
  omega

/-- `explode`, to a set. -/
def explodeSet (methods delim : Text) : Finset Text := explodeSetLoop delim ∅ methods

/-- `implode`. -/
def implode (glue : Text) : List Text → Text
  | [] => []
  | p :: rest => rest.foldl (fun result p => result ++ glue ++ p) p

-- ── One cut ──────────────────────────────────────────────────────────────────

theorem findFirstOf_none (h : ∀ c ∈ rest, c ∉ delim) : findFirstOf delim rest = none :=
  List.findIdx?_eq_none_iff.mpr fun c hc => decide_eq_false (h c hc)

theorem findFirstOf_some (h : ∀ c ∈ s, c ∉ delim) (hd : d ∈ delim) :
    findFirstOf delim (s ++ d :: rest) = some s.length := by
  rw [findFirstOf, List.findIdx?_append,
    List.findIdx?_eq_none_iff.mpr fun c hc => decide_eq_false (h c hc), Option.none_or,
    List.findIdx?_cons, if_pos (decide_eq_true hd), Option.map_some, Nat.zero_add]

/-- No delimiters are left. -/
theorem explodeInternal_none (h : ∀ c ∈ rest, c ∉ delim) (hrest : rest ≠ []) :
    explodeInternal delim preserveNull rest = [rest] := by
  rw [explodeInternal, dif_neg hrest, findFirstOf_none h]

/-- There is a next delimiter. -/
theorem explodeInternal_some (h : ∀ c ∈ s, c ∉ delim) (hd : d ∈ delim) :
    explodeInternal delim preserveNull (s ++ d :: rest) =
      (if s ≠ [] ∨ preserveNull then [s] else []) ++
        explodeInternal delim preserveNull rest := by
  have hdrop : (s ++ d :: rest).drop (s.length + 1) = rest := by
    rw [List.append_cons, List.drop_left' (by simp)]
  rw [explodeInternal, dif_neg (by simp), findFirstOf_some h hd]
  dsimp only
  rw [hdrop, List.take_left]
  cases s with
  | nil =>
      cases preserveNull with
      | false => rfl
      | true => rfl
  | cons c s =>
      rw [if_pos (.inl (Nat.succ_ne_zero _)), if_pos (.inl (List.cons_ne_nil c s))]
      rfl

theorem explodeSetLoop_none {result : Finset Text} (h : ∀ c ∈ rest, c ∉ delim)
    (hrest : rest ≠ []) : explodeSetLoop delim result rest = insert rest result := by
  rw [explodeSetLoop, dif_neg hrest, findFirstOf_none h]

theorem explodeSetLoop_some {result : Finset Text} (h : ∀ c ∈ s, c ∉ delim)
    (hd : d ∈ delim) :
    explodeSetLoop delim result (s ++ d :: rest) =
      explodeSetLoop delim (if s ≠ [] then insert s result else result) rest := by
  have hdrop : (s ++ d :: rest).drop (s.length + 1) = rest := by
    rw [List.append_cons, List.drop_left' (by simp)]
  rw [explodeSetLoop, dif_neg (by simp), findFirstOf_some h hd]
  dsimp only
  rw [hdrop, List.take_left]
  cases s with
  | nil => rfl
  | cons c s =>
      have hlength : (c :: s).length ≠ 0 := Nat.succ_ne_zero s.length
      rw [if_pos (List.cons_ne_nil c s), if_pos hlength]

/-- An induction that goes from one delimiter to the next. -/
theorem cut_induction {motive : Text → Prop} (delim : Text)
    (last : ∀ s, (∀ c ∈ s, c ∉ delim) → motive s)
    (cut : ∀ s d rest, (∀ c ∈ s, c ∉ delim) → d ∈ delim → motive rest →
      motive (s ++ d :: rest)) (s : Text) : motive s := by
  induction s using Splitting.cut_induction (· ∈ delim) with
  | last s hs => exact last s fun c hc => of_decide_eq_false (hs c hc)
  | cut s d rest hs hd ih =>
      exact cut s d rest (fun c hc => of_decide_eq_false (hs c hc))
        (of_decide_eq_true hd) ih

-- ── The whole string ─────────────────────────────────────────────────────────

/-- **THE PARTS OF A STRING**, with those that are empty. -/
theorem explode_preserved (s delim : Text) :
    explode s delim true = s.splitOnP (· ∈ delim) := by
  rw [explode]
  induction s using cut_induction delim with
  | last s hs =>
      rw [List.splitOnP_eq_singleton fun c hc => decide_eq_false (hs c hc)]
      by_cases hnil : s = []
      · rw [explodeInternal, dif_pos hnil, hnil]
        rfl
      · exact explodeInternal_none hs hnil
  | cut s d rest hs hd ih =>
      rw [explodeInternal_some hs hd, if_pos (.inr rfl), ih,
        List.splitOnP_append_cons_of_forall_mem (fun c hc => decide_eq_false (hs c hc)) d
          (decide_eq_true hd)]
      rfl

/-- **WITHOUT EMPTY STRINGS**: those are all that is missing. -/
theorem explode_dropped (s delim : Text) :
    explode s delim false = (explode s delim true).filter (· ≠ []) := by
  rw [explode, explode]
  induction s using cut_induction delim with
  | last s hs =>
      by_cases hnil : s = []
      · rw [explodeInternal, explodeInternal, dif_pos hnil, dif_pos hnil]
        rfl
      · rw [explodeInternal_none hs hnil, explodeInternal_none hs hnil]
        exact (List.filter_eq_self.mpr (by simpa using hnil)).symm
  | cut s d rest hs hd ih =>
      rw [explodeInternal_some hs hd, explodeInternal_some hs hd, List.filter_append, ih,
        if_pos (show s ≠ [] ∨ true = true from .inr rfl)]
      by_cases hnil : s = []
      · rw [if_neg (by simpa using hnil), hnil]
        rfl
      · have hkept : [s].filter (· ≠ []) = [s] :=
          List.filter_eq_self.mpr (by simpa using hnil)
        rw [if_pos (.inl hnil), hkept]

theorem explodeSetLoop_eq (delim s : Text) (result : Finset Text) :
    explodeSetLoop delim result s = result ∪ (explode s delim false).toFinset := by
  rw [explode]
  induction s using cut_induction delim generalizing result with
  | last s hs =>
      by_cases hnil : s = []
      · rw [explodeSetLoop, explodeInternal, dif_pos hnil, dif_pos hnil]
        exact (Finset.union_empty result).symm
      · rw [explodeSetLoop_none hs hnil, explodeInternal_none hs hnil,
          List.toFinset_cons, List.toFinset_nil, insert_empty_eq, Finset.union_comm]
        rfl
  | cut s d rest hs hd ih =>
      rw [explodeSetLoop_some hs hd, explodeInternal_some hs hd, ih]
      by_cases hnil : s = []
      · rw [if_neg (not_not.mpr hnil), if_neg (by simpa using hnil), List.nil_append]
      · rw [if_pos hnil, if_pos (.inl hnil), List.toFinset_append, List.toFinset_cons,
          List.toFinset_nil, insert_empty_eq, ← Finset.union_assoc, Finset.union_comm result]
        rfl

/-- **TO A SET.** -/
theorem explodeSet_eq (s delim : Text) :
    explodeSet s delim = (explode s delim false).toFinset := by
  rw [explodeSet, explodeSetLoop_eq, Finset.empty_union]

-- ── Putting together ─────────────────────────────────────────────────────────

/-- What `implode` makes is what comes before, and the rest with glue. -/
theorem foldl_glue (glue : Text) (p : Text) (ps : List Text) :
    ps.foldl (fun result p => result ++ glue ++ p) p = glue.intercalate (p :: ps) := by
  induction ps generalizing p with
  | nil => simp
  | cons q ps ih =>
      rw [List.foldl_cons, ih, List.intercalate_cons_cons]
      cases ps with
      | nil => simp
      | cons r ps => simp [List.intercalate_cons_cons]

theorem implode_eq (glue : Text) (ps : List Text) :
    implode glue ps = glue.intercalate ps := by
  cases ps with
  | nil => rfl
  | cons p ps => exact foldl_glue glue p ps

/-- One delimiter. -/
theorem explode_single (s : Text) (d : Char) :
    explode s [d] true = s.splitOn d := by
  rw [explode_preserved, List.splitOn_eq_splitOnP]
  congr 1
  funext c
  simp [beq_eq_decide]

/-- **EXPLODE AND IMPLODE**. -/
theorem explode_implode :
    (∀ (s : Text) (d : Char),
      (explode s [d] true).length = s.count d + 1 ∧
      (∀ part ∈ explode s [d] true, d ∉ part) ∧
      implode [d] (explode s [d] true) = s) ∧
    (∀ (d : Char) (parts : List Text), parts ≠ [] → (∀ part ∈ parts, d ∉ part) →
      explode (implode [d] parts) [d] true = parts) ∧
    ∀ s delim : Text,
      explode s delim false = (explode s delim true).filter (· ≠ []) ∧
      explodeSet s delim = (explode s delim false).toFinset := by
  refine ⟨fun s d => ⟨?_, ?_, ?_⟩, ?_, fun s delim => ⟨explode_dropped s delim,
    explodeSet_eq s delim⟩⟩
  · rw [explode_single, List.splitOn_eq_splitOnP, Splitting.length_splitOnP]
    rfl
  · intro part hpart hd
    rw [explode_single, List.splitOn_eq_splitOnP] at hpart
    exact ne_of_beq_false (Splitting.not_sep_of_mem hpart hd).2 rfl
  · rw [explode_single, implode_eq]
    exact List.intercalate_splitOn d
  · intro d parts hne hplain
    rw [explode_single, implode_eq]
    exact List.splitOn_intercalate d hplain hne

theorem explode_implode_two :
    explode (implode [','] [['a'], []]) [','] true = [['a'], []] :=
  explode_implode.2.1 ',' [['a'], []] (by decide) (by decide)

end FlinterExplode
