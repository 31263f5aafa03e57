import Mathlib.Data.List.DropRight
import Flinter.PlaceProofs
import Flinter.SplittingProofs

/-! # Cleaning paths

    `make_clean_path` works in two stages.  The first one makes one slash of
    slashes and backslashes and puts one at the end, the second one deals with `.`
    and `..`.

    If a name begins with a dot, and is not `.` or `..`, then the second stage
    copies it and goes on one character further, not behind it: it reads the rest
    of the name once more, as a name of its own.

    A pointer into a string is what is left of the string from there, a pointer
    into a buffer that is filled is what is in the buffer before it. -/

namespace FlinterCleanPath

open Places

abbrev Text := List Char

-- ── The code ─────────────────────────────────────────────────────────────────

/-- An access outside of a string or of a buffer. -/
inductive Fault where
  | read
  | write
deriving DecidableEq, Repr

/-- Characters are written into a buffer of `len` bytes. -/
def put (len : Nat) (r cs : Text) : Except Fault Text :=
  if r.length + cs.length ≤ len then .ok (r ++ cs) else .error .write

/-- The null character is written behind what is in the buffer. -/
def close (len : Nat) (r : Text) : Except Fault Text :=
  if r.length < len then .ok r else .error .write

def isBlank (c : Char) : Bool := c = ' ' ∨ c = '\t'

def isSlash (c : Char) : Bool := c = '/' ∨ c = '\\'

/-- `make_clean_path_stage_one`: stage 1.3. -/
def removeDuplicatedSlashes (len : Nat) : Text → Text → Except Fault Text
  | [], r => .ok r
  | c :: p, r =>
      if isSlash c then
        if r.getLast? ≠ some '/' then
          (put len r ['/']).bind (removeDuplicatedSlashes len p)
        else removeDuplicatedSlashes len p r
      else (put len r [c]).bind (removeDuplicatedSlashes len p)

/-- Stages 1.5 and 2.3. -/
def fixBlankInput (len : Nat) (r : Text) : Except Fault Text :=
  if r = [] then put len r ['.'] else .ok r

/-- Stage 1.6. -/
def addTrailingSlash (len : Nat) (r : Text) : Except Fault Text :=
  if r.getLast? ≠ some '/' then put len r ['/'] else .ok r

/-- `make_clean_path_stage_one`, where there is enough memory. -/
def makeCleanPathStageOne (path : Text) (trim : Bool) : Except Fault Text := do
  let len := path.length + 7
  let r ← removeDuplicatedSlashes len (if trim then path.dropWhile isBlank else path) []
  let r ← fixBlankInput len (if trim then r.rdropWhile isBlank else r)
  let r ← addTrailingSlash len r
  close len r

/-- `make_clean_path_stage_two`: how far `s` goes back. -/
def rewind (result : Text) : Nat → Nat
  | 0 => 0
  | s + 1 => if result[s]? ≠ some '/' then rewind result s else s + 1

/-- `make_clean_path_stage_two`, at `..`. -/
def parent (len : Nat) (r : Text) : Except Fault Text :=
  if r = [] then put len r ['.', '.', '/']
  else
    let s := rewind r (r.length - 1)
    if s = 0 ∧ r[s]? = some '/' then .ok r
    else if s = 0 ∧ r[s]? ≠ some '.' then .ok (r.take s)
    else if r.length - s = 3 ∧ r[s]? = some '.' ∧ r[s + 1]? = some '.' then
      put len r ['.', '.', '/']
    else .ok (r.take s)

/-- `make_clean_path_stage_two`: the loop, where `p` is what is left. -/
def parseStageInput (len : Nat) (p r : Text) : Except Fault Text :=
  match p with
  | [] => .ok r
  | c :: tail =>
      let token := (c :: tail).takeWhile (· ≠ '/') -- up to `q`
      if '/' ∉ c :: tail then .error .read
      else if c = '.' then
        if token.length = 2 ∧ tail.head? = some '.' then
          (parent len r).bind (parseStageInput len (tail.drop 2))
        else if token.length = 1 then parseStageInput len (tail.drop 1) r
        else ((put len r token).bind fun r => put len r ['/']).bind
          (parseStageInput len tail)
      else (put len r ((c :: tail).take (token.length + 1))).bind
        (parseStageInput len (tail.drop token.length))
termination_by p.length
decreasing_by
  all_goals simp only [List.length_cons, List.length_drop]; omega

/-- Stage 2.2. -/
def parseStage (len : Nat) (stage : Text) : Except Fault Text :=
  if stage.head? = some '/' then
    (put len [] ['/']).bind (parseStageInput len stage.tail)
  else parseStageInput len stage []

/-- Stage 2.4. -/
def removeTrailingSlash (r : Text) : Text :=
  if r.getLast? = some '/' ∧ r.length ≠ 1 then r.dropLast else r

/-- `make_clean_path_stage_two`, where there is enough memory. -/
def makeCleanPathStageTwo (stage : Text) : Except Fault Text := do
  let len := stage.length + 2 + 1
  let r ← parseStage len stage
  let r ← fixBlankInput len r
  close len (removeTrailingSlash r)

/-- `make_clean_path`. -/
def makeCleanPath (path : Text) (trim : Bool) : Except Fault Text := do
  let stage ← makeCleanPathStageOne path trim
  makeCleanPathStageTwo stage

-- ── What a path means ────────────────────────────────────────────────────────

variable {len : Nat} {trim : Bool} {path r s t x : Text} {c : Char} {cs : List Text}

/-- A path without blanks around it, if it is trimmed. -/
def trimmed (path : Text) (trim : Bool) : Text :=
  if trim then (path.dropWhile isBlank).rdropWhile isBlank else path

/-- What is between slashes. -/
def parts (s : Text) : List Text := (s.splitOnP isSlash).filter (· ≠ [])

/-- A path that begins with a slash. -/
def isRooted (s : Text) : Bool := s.head?.any isSlash

/-- The step that a part of a path stands for. -/
def steps (part : Text) : List (Step Text) :=
  if part = ['.'] then [] else if part = ['.', '.'] then [.up] else [.name part]

/-- Where a path leads. -/
def place (s : Text) : Place Text :=
  (Place.start (isRooted s)).walk ((parts s).flatMap steps)

/-- The parts of the path to a place. -/
def placeParts (p : Place Text) : List Text := List.replicate p.ups ['.', '.'] ++ p.names

def root (rooted : Bool) : Text := if rooted then ['/'] else []

/-- The path to a place: `.` if it would be empty. -/
def pathTo (p : Place Text) : Text :=
  let text := root p.rooted ++ ['/'].intercalate (placeParts p)
  if text = [] then ['.'] else text

/-- The lexical normal form. -/
def normalForm (s : Text) : Text := pathTo (place s)

-- ── Stage one ────────────────────────────────────────────────────────────────

/-- Parts with a slash behind each. -/
def slashed (cs : List Text) : Text := cs.flatMap (· ++ ['/'])

/-- The parts that are left of a path by stage one. -/
def stageParts (s : Text) : List Text :=
  if isRooted s = false ∧ parts s = [] then [['.']] else parts s

/-- What stage one makes. -/
def stageOf (s : Text) : Text := root (isRooted s) ++ slashed (stageParts s)

/-- Stage 1.3, behind a slash or not. -/
def squeezed : Bool → Text → Text
  | _, [] => []
  | behind, c :: p =>
      if isSlash c then if behind then squeezed true p else '/' :: squeezed true p
      else c :: squeezed false p

theorem put_ok (h : r.length + x.length ≤ len) : put len r x = .ok (r ++ x) := if_pos h

theorem slash_of_not (h : isSlash c = false) : c ≠ '/' := by
  rintro rfl
  exact absurd h (by decide)

/-- There is enough room. -/
theorem removeDuplicatedSlashes_eq (h : r.length + s.length ≤ len) :
    removeDuplicatedSlashes len s r =
      .ok (r ++ squeezed (r.getLast? == some '/') s) := by
  induction s generalizing r with
  | nil => rw [removeDuplicatedSlashes, squeezed, List.append_nil]
  | cons c s ih =>
      rw [List.length_cons] at h
      have hput : ∀ d : Char, (put len r [d]).bind (removeDuplicatedSlashes len s) =
          .ok (r ++ d :: squeezed (d == '/') s) := by
        intro d
        have hroom : (r ++ [d]).length + s.length ≤ len := by
          rw [List.length_append, List.length_singleton]
          omega
        rw [put_ok (by rw [List.length_singleton]; omega), Except.bind, ih hroom,
          List.append_assoc, List.getLast?_concat, Option.some_beq_some]
        rfl
      rw [removeDuplicatedSlashes, squeezed]
      split
      · split
        · next hlast =>
            rw [hput, if_neg (by simpa using hlast)]
            rfl
        · next hlast =>
            have hlast : r.getLast? = some '/' := not_not.mp hlast
            rw [ih (by omega), hlast, if_pos (by decide)]
            rfl
      · next hc =>
          rw [hput, beq_false_of_ne (slash_of_not (Bool.eq_false_iff.mpr hc))]

theorem squeezed_length_le (behind : Bool) : (squeezed behind s).length ≤ s.length := by
  induction s generalizing behind with
  | nil => exact Nat.le_refl 0
  | cons c s ih =>
      have htrue := ih true
      have hfalse := ih false
      rw [squeezed]
      split
      · split
        · exact Nat.le_succ_of_le htrue
        · exact Nat.succ_le_succ htrue
      · exact Nat.succ_le_succ hfalse

theorem slash_of_blank (h : isBlank c = true) : isSlash c = false := by
  rw [isBlank, decide_eq_true_eq] at h
  rcases h with rfl | rfl
  · decide
  · decide

/-- A blank at the end stays there. -/
theorem squeezed_blank (h : isBlank c = true) (behind : Bool) :
    squeezed behind (s ++ [c]) = squeezed behind s ++ [c] := by
  induction s generalizing behind with
  | nil => simp [squeezed, slash_of_blank h]
  | cons d s ih =>
      rw [List.cons_append, squeezed, squeezed, ih, ih]
      split
      · split
        · rfl
        · rfl
      · rfl

/-- And what is no blank does not become one. -/
theorem squeezed_not_blank (h : isBlank c = false) (behind : Bool) :
    (behind = true ∧ squeezed behind (s ++ [c]) = []) ∨
      ∃ x d, squeezed behind (s ++ [c]) = x ++ [d] ∧ isBlank d = false := by
  induction s generalizing behind with
  | nil =>
      rw [List.nil_append, squeezed, squeezed, squeezed]
      split
      · split
        · next hbehind => exact .inl ⟨hbehind, rfl⟩
        · exact .inr ⟨[], '/', rfl, by decide⟩
      · exact .inr ⟨[], c, rfl, h⟩
  | cons d s ih =>
      have hcons : ∀ (b : Bool) (e : Char), (b = true → isBlank e = false) →
          ∃ x d, e :: squeezed b (s ++ [c]) = x ++ [d] ∧ isBlank d = false := by
        intro b e he
        rcases ih b with ⟨hb, hnil⟩ | ⟨x, d, hx, hd⟩
        · exact ⟨[], e, by rw [hnil]; rfl, he hb⟩
        · exact ⟨e :: x, d, by rw [hx]; rfl, hd⟩
      rw [List.cons_append, squeezed]
      split
      · split
        · next hbehind =>
            rcases ih true with ⟨-, hnil⟩ | hx
            · exact .inl ⟨hbehind, hnil⟩
            · exact .inr hx
        · exact .inr (hcons true '/' fun _ => by decide)
      · exact .inr (hcons false d fun h => nomatch h)

/-- Blanks may be cut off before or after it. -/
theorem squeezed_rdropWhile (s : Text) :
    (squeezed false s).rdropWhile isBlank = squeezed false (s.rdropWhile isBlank) := by
  induction s using List.reverseRecOn with
  | nil => rfl
  | append_singleton s c ih =>
      cases hc : isBlank c with
      | true =>
          rw [squeezed_blank hc, List.rdropWhile_concat_pos _ _ _ hc,
            List.rdropWhile_concat_pos _ _ _ hc, ih]
      | false =>
          have hneg : ∀ {d}, isBlank d = false → ¬isBlank d = true :=
            fun h => Bool.eq_false_iff.mp h
          rw [List.rdropWhile_concat_neg _ _ _ (hneg hc)]
          rcases squeezed_not_blank (s := s) hc false with ⟨h, -⟩ | ⟨x, d, hx, hd⟩
          · cases h
          · rw [hx, List.rdropWhile_concat_neg _ _ _ (hneg hd)]

theorem parts_plain (h : ∀ c ∈ s, isSlash c = false) :
    parts s = if s = [] then [] else [s] := by
  rw [parts, List.splitOnP_eq_singleton h]
  by_cases hs : s = []
  · rw [if_pos hs, hs]
    rfl
  · rw [if_neg hs]
    exact List.filter_eq_self.mpr (by simpa using hs)

/-- A slash between parts. -/
theorem parts_cut (h : ∀ c ∈ s, isSlash c = false) (hc : isSlash c = true) :
    parts (s ++ c :: t) = parts s ++ parts t := by
  rw [parts, List.splitOnP_append_cons_of_forall_mem h c hc, parts,
    List.splitOnP_eq_singleton h, parts, ← List.filter_append]
  rfl

theorem parts_slash (hc : isSlash c = true) : parts (c :: t) = parts t :=
  parts_cut (s := []) (fun _ h => nomatch h) hc

/-- Parts are not empty, and have no slashes in them. -/
theorem parts_clean (h : x ∈ parts s) : x ≠ [] ∧ ∀ c ∈ x, isSlash c = false := by
  obtain ⟨hx, hne⟩ := List.mem_filter.mp h
  exact ⟨of_decide_eq_true hne, fun c hc => (Splitting.not_sep_of_mem hx hc).2⟩

theorem squeezed_append (h : ∀ c ∈ s, isSlash c = false) (behind : Bool) :
    squeezed behind (s ++ t) = s ++ squeezed (behind && s.isEmpty) t := by
  induction s generalizing behind with
  | nil => rw [List.nil_append, List.nil_append, List.isEmpty_nil, Bool.and_true]
  | cons c s ih =>
      obtain ⟨hc, h⟩ := List.forall_mem_cons.mp h
      rw [List.cons_append, squeezed, hc, if_neg Bool.false_ne_true, ih h,
        List.isEmpty_cons, Bool.and_false, Bool.false_and]
      rfl

/-- Stage 1.6, for what is not empty. -/
def closed (r : Text) : Text :=
  if r = [] then [] else if r.getLast? ≠ some '/' then r ++ ['/'] else r

theorem closed_append (s x : Text) : closed (s ++ '/' :: x) = s ++ '/' :: closed x := by
  have hne : s ++ '/' :: x ≠ [] := List.append_ne_nil_of_right_ne_nil s (List.cons_ne_nil _ x)
  rw [closed, if_neg hne, closed]
  by_cases hx : x = []
  · subst hx
    rw [if_pos rfl, List.getLast?_concat, if_neg (not_not.mpr rfl)]
  · have hlast : (s ++ '/' :: x).getLast? = x.getLast? := by
      rw [List.append_cons, List.getLast?_append_of_ne_nil _ hx]
    rw [if_neg hx, hlast]
    split
    · rw [List.append_assoc, List.cons_append]
    · rfl

theorem closed_squeezed (s : Text) : closed (squeezed true s) = slashed (parts s) := by
  induction s using Splitting.cut_induction isSlash with
  | last s hs =>
      have hsame : squeezed true s = s := by
        have h := squeezed_append (t := []) hs true
        rwa [List.append_nil, squeezed, List.append_nil] at h
      rw [hsame, parts_plain hs, closed]
      split
      · rfl
      · next hne =>
          have hlast : s.getLast? ≠ some '/' := fun h =>
            slash_of_not (hs '/' (List.mem_of_getLast? h)) rfl
          rw [if_pos hlast, slashed, List.flatMap_singleton]
  | cut s c rest hs hc ih =>
      rw [squeezed_append hs, squeezed, if_pos hc, parts_cut hs hc, parts_plain hs,
        slashed, List.flatMap_append]
      cases s with
      | nil => exact ih
      | cons d s =>
          rw [List.isEmpty_cons, Bool.and_false, if_neg Bool.false_ne_true,
            if_neg (List.cons_ne_nil d s), List.flatMap_singleton, closed_append, ih,
            List.append_assoc]
          rfl

/-- Stages 1.5 and 1.6. -/
theorem stageOf_eq (s : Text) :
    closed (if squeezed false s = [] then ['.'] else squeezed false s) = stageOf s := by
  cases s with
  | nil => decide
  | cons c s =>
      rw [stageOf, stageParts, isRooted, List.head?_cons, Option.any_some]
      cases hc : isSlash c with
      | true =>
          rw [squeezed, if_pos hc, if_neg Bool.false_ne_true, if_neg (List.cons_ne_nil _ _),
            if_neg (fun h => nomatch h.1), parts_slash hc]
          exact (closed_append [] _).trans (congrArg ('/' :: ·) (closed_squeezed s))
      | false =>
          have hsame : squeezed false (c :: s) = squeezed true (c :: s) := by
            rw [squeezed, squeezed, hc]
            rfl
          have hclosed := closed_squeezed (c :: s)
          have hsome : squeezed true (c :: s) ≠ [] := by
            rw [squeezed, hc]
            exact List.cons_ne_nil _ _
          have hparts : parts (c :: s) ≠ [] := by
            intro hnil
            rw [hnil, closed, if_neg hsome] at hclosed
            split at hclosed
            · exact List.concat_ne_nil _ _ hclosed
            · exact hsome hclosed
          rw [hsame, if_neg hsome, if_neg fun h => hparts h.2, hclosed]
          rfl

theorem fixBlankInput_eq (h : 0 < len) :
    fixBlankInput len r = .ok (if r = [] then ['.'] else r) := by
  rw [fixBlankInput]
  split
  · next hr =>
      subst hr
      exact put_ok h
  · rfl

theorem addTrailingSlash_eq (hr : r ≠ []) (h : r.length < len) :
    addTrailingSlash len r = .ok (closed r) := by
  rw [addTrailingSlash, closed, if_neg hr]
  split
  · exact put_ok h
  · rfl

theorem squeezed_trimmed (path : Text) (trim : Bool) :
    (if trim then
        (squeezed false (if trim then path.dropWhile isBlank else path)).rdropWhile isBlank
      else squeezed false (if trim then path.dropWhile isBlank else path)) =
      squeezed false (trimmed path trim) := by
  cases trim with
  | false => rfl
  | true => exact squeezed_rdropWhile _

/-- **STAGE ONE** stays inside its buffer. -/
theorem makeCleanPathStageOne_eq (path : Text) (trim : Bool) :
    makeCleanPathStageOne path trim = .ok (stageOf (trimmed path trim)) := by
  have hle : (if trim then path.dropWhile isBlank else path).length ≤ path.length := by
    split
    · exact (List.dropWhile_suffix _).length_le
    · exact Nat.le_refl _
  have htrim : (squeezed false (trimmed path trim)).length ≤ path.length := by
    refine Nat.le_trans (squeezed_length_le false) ?_
    cases trim with
    | false => exact Nat.le_refl _
    | true => exact Nat.le_trans (List.rdropWhile_prefix _ _).length_le hle
  -- What stage 1.5 makes, and with a slash at the end.
  obtain ⟨r, hr⟩ : ∃ r, (if squeezed false (trimmed path trim) = [] then ['.']
      else squeezed false (trimmed path trim)) = r := ⟨_, rfl⟩
  have hrne : r ≠ [] := by
    rw [← hr]
    split
    · exact List.cons_ne_nil _ _
    · next hne => exact hne
  have hrlen : r.length ≤ path.length + 1 := by
    rw [← hr]
    split
    · exact Nat.succ_le_succ (Nat.zero_le _)
    · exact Nat.le_succ_of_le htrim
  have hclosed : (closed r).length ≤ r.length + 1 := by
    rw [closed, if_neg hrne]
    split
    · exact Nat.le_of_eq List.length_append
    · exact Nat.le_succ _
  rw [makeCleanPathStageOne,
    removeDuplicatedSlashes_eq (by rw [List.length_nil]; omega)]
  change (fixBlankInput _ _).bind _ = _
  rw [List.getLast?_nil, List.nil_append]
  change (fixBlankInput _ (if trim then (squeezed false _).rdropWhile isBlank
    else squeezed false _)).bind _ = _
  rw [squeezed_trimmed, fixBlankInput_eq (Nat.succ_pos _), hr]
  change (addTrailingSlash _ r).bind _ = _
  rw [addTrailingSlash_eq hrne (by omega), ← stageOf_eq, hr]
  exact if_pos (by omega)

end FlinterCleanPath
