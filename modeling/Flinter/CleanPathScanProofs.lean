import Flinter.CleanPathProofs

/-! # What stage two makes of a path

    A name that begins with a dot is read as itself, and then as each of its own
    ends in turn.  What stage two makes is the path to the place where these names
    lead, as long as what it keeps on the way fits into the buffer.

    That is the lexical normal form exactly if the names lead to the same place
    without their ends. -/

namespace FlinterCleanPath

open Places

-- ── Names ────────────────────────────────────────────────────────────────────

variable {len : Nat} {trim : Bool} {path s t x a : Text} {c : Char}
variable {cs : List Text} {p p' : Place Text} {way : List (Step Text)} {st : Step Text}

/-- The steps that a part of a path stands for in stage two. -/
def scanned : Text → List (Step Text)
  | [] => []
  | c :: tail =>
      if c = '.' then
        if tail = ['.'] then [.up]
        else if tail = [] then []
        else .name (c :: tail) :: scanned tail
      else [.name (c :: tail)]

/-- Where stage two is led. -/
def scannedPlace (s : Text) : Place Text :=
  (Place.start (isRooted s)).walk ((parts s).flatMap scanned)

/-- What is in the buffer at a place. -/
def inBuffer (p : Place Text) : Text := root p.rooted ++ slashed (placeParts p)

/-- Every place on the way fits into a buffer. -/
def Fits (len : Nat) (p : Place Text) (way : List (Step Text)) : Prop :=
  ∀ pre, pre <+: way → (inBuffer (p.walk pre)).length ≤ len

/-- The buffer of stage two is large enough. -/
def HasRoom (s : Text) : Prop :=
  Fits ((stageOf s).length + 3) (.start (isRooted s)) ((parts s).flatMap scanned)

/-- A part of a path. -/
def Proper (a : Text) : Prop := a ≠ [] ∧ ∀ c ∈ a, isSlash c = false

theorem Proper.not_mem (h : Proper a) : '/' ∉ a :=
  fun hc => slash_of_not (h.2 '/' hc) rfl

theorem proper_dot : Proper ['.'] :=
  ⟨List.cons_ne_nil _ _, List.forall_mem_singleton.mpr (by decide)⟩

theorem proper_dots : Proper ['.', '.'] :=
  ⟨List.cons_ne_nil _ _, List.forall_mem_cons.mpr ⟨by decide, proper_dot.2⟩⟩

/-- A part of a path that is a name. -/
def Named (a : Text) : Prop := Proper a ∧ a ≠ ['.'] ∧ a ≠ ['.', '.']

theorem proper_part (h : a ∈ parts s) : Proper a := parts_clean h

theorem Proper.tail {tail : Text} (h : Proper (c :: tail)) (htail : tail ≠ []) :
    Proper tail := ⟨htail, fun d hd => h.2 d (List.mem_cons_of_mem c hd)⟩

theorem named_scanned (hx : Proper x) (h : .name a ∈ scanned x) : Named a := by
  induction x with
  | nil => cases h
  | cons c tail ih =>
      rw [scanned] at h
      split at h
      · next hc =>
          subst hc
          split at h
          · cases List.mem_singleton.mp h
          · next hdots =>
              split at h
              · cases h
              · next htail =>
                  rcases List.mem_cons.mp h with h | h
                  · cases h
                    refine ⟨hx, fun heq => htail ?_, fun heq => hdots ?_⟩
                    · exact (List.cons.inj heq).2
                    · exact (List.cons.inj heq).2
                  · exact ih (hx.tail htail) h
      · next hc =>
          cases List.mem_singleton.mp h
          refine ⟨hx, fun heq => hc ?_, fun heq => hc ?_⟩
          · exact (List.cons.inj heq).1
          · exact (List.cons.inj heq).1

theorem named_steps (hx : Proper x) (h : .name a ∈ steps x) : Named a := by
  rw [steps] at h
  split at h
  · cases h
  · next hdot =>
      split at h
      · cases List.mem_singleton.mp h
      · next hdots =>
          cases List.mem_singleton.mp h
          exact ⟨hx, hdot, hdots⟩

/-- All names of a place are. -/
def AllNamed (p : Place Text) : Prop := ∀ a ∈ p.names, Named a

/-- All names on a way are. -/
def NamedWay (way : List (Step Text)) : Prop := ∀ a, .name a ∈ way → Named a

theorem AllNamed.walk (h : AllNamed p) (hway : NamedWay way) : AllNamed (p.walk way) :=
  fun a ha => (Place.mem_walk_names ha).elim (h a) (hway a)

theorem AllNamed.step (h : AllNamed p) (hst : ∀ a, st = .name a → Named a) :
    AllNamed (p.step st) := by
  have hway : NamedWay [st] := fun a ha => hst a (List.mem_singleton.mp ha).symm
  exact h.walk hway

theorem allNamed_start (rooted : Bool) : AllNamed (.start rooted) :=
  fun _ h => nomatch h

theorem namedWay_scanned (h : ∀ x ∈ cs, Proper x) : NamedWay (cs.flatMap scanned) := by
  intro a ha
  obtain ⟨x, hx, ha⟩ := List.mem_flatMap.mp ha
  exact named_scanned (h x hx) ha

theorem namedWay_steps (h : ∀ x ∈ cs, Proper x) : NamedWay (cs.flatMap steps) := by
  intro a ha
  obtain ⟨x, hx, ha⟩ := List.mem_flatMap.mp ha
  exact named_steps (h x hx) ha

theorem allNamed_scannedPlace (s : Text) : AllNamed (scannedPlace s) :=
  (allNamed_start _).walk (namedWay_scanned fun _ => proper_part)

theorem allNamed_place (s : Text) : AllNamed (place s) :=
  (allNamed_start _).walk (namedWay_steps fun _ => proper_part)

-- ── One step ─────────────────────────────────────────────────────────────────

theorem slashed_concat : slashed (cs ++ [x]) = slashed cs ++ (x ++ ['/']) := by
  rw [slashed, List.flatMap_append, List.flatMap_singleton, ← slashed]

theorem inBuffer_name : inBuffer (p.step (.name a)) = inBuffer p ++ (a ++ ['/']) := by
  have hparts : placeParts (p.step (.name a)) = placeParts p ++ [a] :=
    (List.append_assoc _ _ _).symm
  rw [inBuffer, hparts, slashed_concat, ← List.append_assoc, Place.step_rooted, ← inBuffer]

/-- `s` goes back to the beginning of a part. -/
theorem rewind_eq {pre tail : Text} (hpre : pre = [] ∨ pre.getLast? = some '/')
    (ha : '/' ∉ a) : rewind (pre ++ (a ++ tail)) (pre.length + a.length) = pre.length := by
  have hback : ∀ k, k ≤ a.length →
      rewind (pre ++ (a ++ tail)) (pre.length + k) = pre.length := by
    intro k hk
    induction k with
    | zero =>
        rcases hpre with rfl | hlast
        · rfl
        · obtain ⟨pre, rfl⟩ := List.getLast?_eq_some_iff.mp hlast
          rw [List.length_append, List.length_singleton, Nat.add_zero, rewind, if_neg]
          rw [not_not, List.append_assoc, List.getElem?_append_right (Nat.le_refl _),
            Nat.sub_self]
          rfl
    | succ k ih =>
        have hchar : (pre ++ (a ++ tail))[pre.length + k]? = a[k]? := by
          rw [List.getElem?_append_right (Nat.le_add_right _ _), Nat.add_sub_cancel_left,
            List.getElem?_append_left (by omega)]
        rw [← Nat.add_assoc, rewind, hchar, if_pos]
        · exact ih (by omega)
        · exact fun h => ha (List.mem_of_getElem? h)
  exact hback a.length (Nat.le_refl _)

/-- What comes before a part in the buffer. -/
theorem slash_before (rooted : Bool) (cs : List Text) :
    root rooted ++ slashed cs = [] ∨ (root rooted ++ slashed cs).getLast? = some '/' := by
  rcases List.eq_nil_or_concat' cs with rfl | ⟨cs, x, rfl⟩
  · cases rooted with
    | true => exact .inr rfl
    | false => exact .inl rfl
  · rw [slashed_concat, ← List.append_assoc, ← List.append_assoc, List.getLast?_concat]
    exact .inr rfl

/-- `..` behind a part. -/
theorem parent_concat {pre : Text} (hpre : pre = [] ∨ pre.getLast? = some '/')
    (ha : Proper a) : parent len (pre ++ (a ++ ['/'])) =
      if a = ['.', '.'] then put len (pre ++ (a ++ ['/'])) ['.', '.', '/']
      else .ok pre := by
  have hne : pre ++ (a ++ ['/']) ≠ [] :=
    List.append_ne_nil_of_right_ne_nil _ (List.concat_ne_nil _ _)
  have hlen : (pre ++ (a ++ ['/'])).length = pre.length + (a.length + 1) := by
    rw [List.length_append, List.length_append, List.length_singleton]
  have hs : rewind (pre ++ (a ++ ['/'])) ((pre ++ (a ++ ['/'])).length - 1) =
      pre.length := by
    rw [hlen, ← Nat.add_assoc, Nat.add_sub_cancel]
    exact rewind_eq hpre ha.not_mem
  have hget : ∀ k, (pre ++ (a ++ ['/']))[pre.length + k]? = (a ++ ['/'])[k]? := by
    intro k
    rw [List.getElem?_append_right (Nat.le_add_right _ _), Nat.add_sub_cancel_left]
  have hfirst := hget 0
  rw [Nat.add_zero] at hfirst
  have htake : (pre ++ (a ++ ['/'])).take pre.length = pre := List.take_left
  rw [parent, if_neg hne]
  dsimp only
  rw [hs, htake, hlen, hfirst, hget 1, Nat.add_sub_cancel_left]
  cases a with
  | nil => exact absurd rfl ha.1
  | cons c tail =>
      have hc : c ≠ '/' := fun h => ha.not_mem (h ▸ List.mem_cons_self)
      have hhead : ((c :: tail) ++ ['/'])[0]? = some c := rfl
      rw [hhead, if_neg fun h => hc (Option.some.inj h.2)]
      by_cases hdots : c :: tail = ['.', '.']
      · rw [if_pos hdots]
        obtain ⟨rfl, rfl⟩ := List.cons.inj hdots
        rw [if_neg fun h => h.2 rfl, if_pos ⟨rfl, rfl, rfl⟩]
      · rw [if_neg hdots]
        split
        · rfl
        · refine if_neg ?_
          rintro ⟨hthree, hdot, hsecond⟩
          obtain ⟨d, rfl⟩ := List.length_eq_one_iff.mp
            (show tail.length = 1 by rw [List.length_cons] at hthree; omega)
          cases Option.some.inj hdot
          cases Option.some.inj hsecond
          exact hdots rfl

theorem inBuffer_concat {names : List Text} (h : p.names = names ++ [a]) :
    inBuffer p = inBuffer { p with names := names } ++ (a ++ ['/']) := by
  rw [inBuffer, placeParts, h, ← List.append_assoc, slashed_concat, ← List.append_assoc]
  rfl

/-- A place is kept if it fits. -/
def store (len : Nat) (p : Place Text) : Except Fault Text :=
  if (inBuffer p).length ≤ len then .ok (inBuffer p) else .error .write

theorem put_eq (h : inBuffer p' = inBuffer p ++ x) : put len (inBuffer p) x = store len p' := by
  rw [put, store, h, List.length_append]

theorem inBuffer_slash (p : Place Text) :
    inBuffer p = [] ∨ (inBuffer p).getLast? = some '/' := slash_before _ _

theorem inBuffer_ups {n : Nat} {h : false = true → n = 0} {h' : false = true → n + 1 = 0} :
    inBuffer ⟨false, n + 1, [], h'⟩ =
      inBuffer ⟨false, n, [], h⟩ ++ (['.', '.'] ++ ['/']) := by
  rw [inBuffer, placeParts, List.append_nil, List.replicate_succ', slashed_concat,
    ← List.append_assoc, inBuffer, placeParts, List.append_nil]

/-- Both writes fit, or the second one does not. -/
theorem put_put {r y : Text} :
    ((put len r x).bind fun r => put len r y) = put len r (x ++ y) := by
  rw [put, put, List.length_append]
  split
  · rw [Except.bind, put, List.length_append, List.append_assoc, Nat.add_assoc]
  · rw [if_neg (by omega)]
    rfl

/-- **DOWN** -/
theorem put_name (len : Nat) (p : Place Text) (a : Text) :
    put len (inBuffer p) (a ++ ['/']) = store len (p.step (.name a)) :=
  put_eq inBuffer_name

/-- **UP** -/
theorem parent_eq (hp : AllNamed p) (hlen : (inBuffer p).length ≤ len) :
    parent len (inBuffer p) = store len (p.step .up) := by
  rcases List.eq_nil_or_concat' p.names with hnil | ⟨names, a, hnames⟩
  · rw [Place.step_up_nil hnil]
    obtain ⟨rooted, ups, names, hups⟩ := p
    obtain rfl : names = [] := hnil
    cases rooted with
    | true =>
        obtain rfl : ups = 0 := hups rfl
        exact (if_pos hlen).symm
    | false =>
        have habove : Place.above ⟨false, ups, [], hups⟩ =
            (⟨false, ups + 1, [], fun h => nomatch h⟩ : Place Text) := rfl
        rw [habove, ← put_eq (inBuffer_ups (h := hups))]
        cases ups with
        | zero => rfl
        | succ ups =>
            have hfree : false = true → ups = 0 := fun h => absurd h Bool.false_ne_true
            rw [inBuffer_ups (h := hfree), parent_concat (inBuffer_slash _) proper_dots,
              if_pos rfl]
            rfl
  · have ha : Named a := hp a (hnames ▸ List.mem_concat_self)
    have hless : (inBuffer { p with names := names }).length ≤ len := by
      rw [inBuffer_concat hnames, List.length_append] at hlen
      omega
    rw [Place.step_up_concat hnames, inBuffer_concat hnames,
      parent_concat (inBuffer_slash _) ha.1, if_neg ha.2.2, store, if_pos hless]

-- ── A way ────────────────────────────────────────────────────────────────────

/-- The places on a way, as long as they fit. -/
def stored (len : Nat) : Place Text → List (Step Text) → Except Fault (Place Text)
  | p, [] => .ok p
  | p, st :: way =>
      if (inBuffer (p.step st)).length ≤ len then stored len (p.step st) way
      else .error .write

theorem stored_append {way' : List (Step Text)} :
    stored len p (way ++ way') = (stored len p way).bind fun p => stored len p way' := by
  induction way generalizing p with
  | nil => rfl
  | cons st way ih =>
      rw [List.cons_append, stored, stored]
      split
      · exact ih
      · rfl

theorem fits_cons (hlen : (inBuffer p).length ≤ len) : Fits len p (st :: way) ↔
    (inBuffer (p.step st)).length ≤ len ∧ Fits len (p.step st) way := by
  constructor
  · intro h
    refine ⟨h [st] ⟨way, rfl⟩, fun pre hpre => ?_⟩
    exact h (st :: pre) (List.cons_prefix_cons.mpr ⟨rfl, hpre⟩)
  · rintro ⟨-, h⟩ pre hpre
    cases pre with
    | nil => exact hlen
    | cons st' pre =>
        obtain ⟨rfl, hrest⟩ := List.cons_prefix_cons.mp hpre
        exact h pre hrest

/-- **A WAY THAT FITS** leads to its place, and any other one out of the buffer. -/
theorem stored_eq (way : List (Step Text)) (hlen : (inBuffer p).length ≤ len) :
    (Fits len p way → stored len p way = .ok (p.walk way)) ∧
      (¬Fits len p way → stored len p way = .error .write) := by
  induction way generalizing p with
  | nil =>
      refine ⟨fun _ => rfl, fun h => absurd ?_ h⟩
      intro pre hpre
      rw [List.prefix_nil.mp hpre]
      exact hlen
  | cons st way ih =>
      rw [fits_cons hlen, stored]
      by_cases hstep : (inBuffer (p.step st)).length ≤ len
      · rw [if_pos hstep, and_iff_right hstep]
        exact ih hstep
      · rw [if_neg hstep]
        exact ⟨fun h => absurd h.1 hstep, fun _ => rfl⟩

/-- A place with names, that fits. -/
structure Good (len : Nat) (p : Place Text) : Prop where
  named : AllNamed p
  fits : (inBuffer p).length ≤ len

/-- What goes on from good places only has to be the same for them. -/
theorem stored_bind {β : Type} {f g : Place Text → Except Fault β} (hp : Good len p)
    (hway : NamedWay way) (h : ∀ p, Good len p → f p = g p) :
    (stored len p way).bind f = (stored len p way).bind g := by
  induction way generalizing p with
  | nil => exact h p hp
  | cons st way ih =>
      rw [stored]
      split
      · next hfits =>
          refine ih ⟨?_, hfits⟩ fun a ha => hway a (List.mem_cons_of_mem _ ha)
          exact hp.named.step fun a ha => hway a (ha ▸ List.mem_cons_self)
      · rfl

-- ── Stage two ────────────────────────────────────────────────────────────────

/-- **A PART** is read with its ends. -/
theorem parseStageInput_part (hx : Proper x) (hp : Good len p) :
    parseStageInput len (x ++ '/' :: t) (inBuffer p) =
      (stored len p (scanned x)).bind fun p => parseStageInput len t (inBuffer p) := by
  induction x generalizing p with
  | nil => exact absurd rfl hx.1
  | cons c tail ih =>
      have htoken : ((c :: tail) ++ '/' :: t).takeWhile (· ≠ '/') = c :: tail := by
        have hplain : ∀ d ∈ c :: tail, decide (d ≠ '/') = true :=
          fun d hd => decide_eq_true fun h => hx.not_mem (h ▸ hd)
        rw [List.takeWhile_append_of_pos hplain, List.takeWhile_cons_of_neg (by decide),
          List.append_nil]
      have hslash : '/' ∈ (c :: tail) ++ '/' :: t := by simp
      rw [List.cons_append] at htoken hslash ⊢
      rw [parseStageInput, htoken, if_neg (not_not.mpr hslash), scanned]
      by_cases hc : c = '.'
      · subst hc
        rw [if_pos rfl, if_pos rfl]
        by_cases hdots : tail = ['.']
        · subst hdots
          rw [if_pos rfl, if_pos ⟨rfl, rfl⟩, parent_eq hp.named hp.fits, store, stored]
          split
          · rfl
          · rfl
        · have hlength : ¬(('.' :: tail).length = 2 ∧
              (tail ++ '/' :: t).head? = some '.') := by
            rintro ⟨htwo, hhead⟩
            obtain ⟨d, rfl⟩ := List.length_eq_one_iff.mp (Nat.succ.inj htwo)
            exact hdots (congrArg (fun c => [c]) (Option.some.inj hhead))
          rw [if_neg hdots, if_neg hlength]
          by_cases htail : tail = []
          · subst htail
            rfl
          · have hone : ('.' :: tail).length ≠ 1 := fun h =>
              htail (List.eq_nil_of_length_eq_zero (Nat.succ.inj h))
            rw [if_neg htail, if_neg hone, put_put, put_name, store, stored]
            split
            · next hfits =>
                refine ih (hx.tail htail) ⟨?_, hfits⟩
                refine hp.named.step fun a ha => ?_
                cases ha
                exact ⟨hx, fun h => htail (List.cons.inj h).2,
                  fun h => hdots (List.cons.inj h).2⟩
            · rfl
      · have htake : (c :: (tail ++ '/' :: t)).take ((c :: tail).length + 1) =
            (c :: tail) ++ ['/'] := by
          rw [← List.cons_append, List.append_cons, List.take_left' (by simp)]
        have hdrop : (tail ++ '/' :: t).drop (c :: tail).length = t := by
          rw [List.append_cons, List.drop_left' (by simp)]
        rw [if_neg hc, if_neg hc, htake, hdrop, put_name, store, stored]
        split
        · rfl
        · rfl

/-- **PARTS** are read one after the other. -/
theorem parseStageInput_slashed (hcs : ∀ x ∈ cs, Proper x) (hp : Good len p) :
    parseStageInput len (slashed cs) (inBuffer p) =
      (stored len p (cs.flatMap scanned)).bind fun p => .ok (inBuffer p) := by
  induction cs generalizing p with
  | nil => rw [slashed, List.flatMap_nil, parseStageInput]; rfl
  | cons x cs ih =>
      obtain ⟨hx, hcs⟩ := List.forall_mem_cons.mp hcs
      have hslashed : slashed (x :: cs) = x ++ '/' :: slashed cs := by
        rw [slashed, List.flatMap_cons, ← slashed, List.append_assoc]
        rfl
      have hway : NamedWay (scanned x) := fun a => named_scanned hx
      rw [hslashed, parseStageInput_part hx hp, stored_bind hp hway fun p hp => ih hcs hp,
        List.flatMap_cons, stored_append]
      cases stored len p (scanned x) with
      | ok p => rfl
      | error e => rfl

/-- Parts with slashes in between, and one at the end. -/
theorem slashed_eq (hcs : cs ≠ []) : slashed cs = ['/'].intercalate cs ++ ['/'] := by
  induction cs with
  | nil => exact absurd rfl hcs
  | cons x cs ih =>
      rw [slashed, List.flatMap_cons, ← slashed]
      cases cs with
      | nil => rw [List.intercalate_singleton]; exact List.append_nil _
      | cons y cs =>
          rw [ih (List.cons_ne_nil y cs), List.intercalate_cons_cons, List.append_assoc,
            List.append_assoc, List.append_assoc]

theorem proper_placeParts (hp : AllNamed p) (h : a ∈ placeParts p) : Proper a := by
  rcases List.mem_append.mp h with h | h
  · rw [List.eq_of_mem_replicate h]
    exact proper_dots
  · exact (hp a h).1

/-- Stages 2.3 and 2.4. -/
theorem finish_eq (hp : AllNamed p) :
    removeTrailingSlash (if inBuffer p = [] then ['.'] else inBuffer p) = pathTo p := by
  by_cases hparts : placeParts p = []
  · rw [inBuffer, pathTo, hparts]
    cases p.rooted with
    | true => rfl
    | false => rfl
  · have hne : inBuffer p ≠ [] := by
      rw [inBuffer, slashed_eq hparts, ← List.append_assoc]
      exact List.concat_ne_nil _ _
    have htext : root p.rooted ++ ['/'].intercalate (placeParts p) ≠ [] := by
      intro hnil
      obtain ⟨x, parts, hcons⟩ := List.exists_cons_of_ne_nil hparts
      have hx := (proper_placeParts hp (hcons ▸ List.mem_cons_self)).1
      rw [hcons] at hnil
      have hjoin := (List.append_eq_nil_iff.mp hnil).2
      cases parts with
      | nil => exact hx (List.intercalate_singleton.symm.trans hjoin)
      | cons y parts =>
          rw [List.intercalate_cons_cons] at hjoin
          exact hx (List.append_eq_nil_iff.mp (List.append_eq_nil_iff.mp hjoin).1).1
    have hbuffer : inBuffer p =
        (root p.rooted ++ ['/'].intercalate (placeParts p)) ++ ['/'] := by
      rw [inBuffer, slashed_eq hparts, List.append_assoc]
    rw [if_neg hne, hbuffer, pathTo, if_neg htext, removeTrailingSlash,
      List.getLast?_concat, List.dropLast_concat, if_pos]
    refine ⟨rfl, ?_⟩
    rw [List.length_append, List.length_singleton]
    have := List.length_pos_of_ne_nil htext
    omega

theorem proper_stageParts (h : x ∈ stageParts s) : Proper x := by
  rw [stageParts] at h
  split at h
  · rw [List.mem_singleton.mp h]
    exact proper_dot
  · exact proper_part h

/-- The dot that stands for an empty path leads nowhere. -/
theorem scanned_stageParts (s : Text) :
    (stageParts s).flatMap scanned = (parts s).flatMap scanned := by
  rw [stageParts]
  split
  · next h => rw [h.2]; rfl
  · rfl

theorem length_inBuffer_start (rooted : Bool) (len : Nat) :
    Good (len + 1) (Place.start rooted : Place Text) := by
  refine ⟨allNamed_start rooted, ?_⟩
  cases rooted with
  | true => exact Nat.le_add_left 1 len
  | false => exact Nat.zero_le _

/-- What stage one makes goes through stage 2.2. -/
theorem parse_stageOf (hlen : 0 < len) :
    parseStage len (stageOf s) =
      (stored len (.start (isRooted s)) ((parts s).flatMap scanned)).bind
        fun p => .ok (inBuffer p) := by
  obtain ⟨len, rfl⟩ := Nat.exists_eq_succ_of_ne_zero hlen.ne'
  have hstart := length_inBuffer_start (isRooted s) len
  have hparse := parseStageInput_slashed (fun x => proper_stageParts (s := s)) hstart
  rw [← scanned_stageParts, ← hparse, parseStage, stageOf]
  cases hrooted : isRooted s with
  | true =>
      have hput : put (len + 1) [] ['/'] = .ok ['/'] := put_ok (Nat.le_add_left 1 len)
      have hhead : (root true ++ slashed (stageParts s)).head? = some '/' := rfl
      rw [if_pos hhead, Nat.succ_eq_add_one, hput]
      rfl
  | false =>
      have hhead : (root false ++ slashed (stageParts s)).head? ≠ some '/' := by
        have hne : stageParts s ≠ [] := by
          rw [stageParts]
          split
          · exact List.cons_ne_nil _ _
          · next h => exact fun hnil => h ⟨hrooted, hnil⟩
        obtain ⟨x, cs, hcons⟩ := List.exists_cons_of_ne_nil hne
        have hx : Proper x := proper_stageParts (hcons ▸ List.mem_cons_self)
        rw [hcons]
        cases x with
        | nil => exact absurd rfl hx.1
        | cons c x => exact fun h => hx.not_mem (Option.some.inj h ▸ List.mem_cons_self)
      rw [if_neg hhead]
      rfl

theorem removeTrailingSlash_lt {r : Text} (hlast : r.getLast? = some '/')
    (hr : r.length ≤ len) (hlen : 1 < len) : (removeTrailingSlash r).length < len := by
  rw [removeTrailingSlash]
  by_cases hone : r.length = 1
  · rw [if_neg fun h => h.2 hone, hone]
    exact hlen
  · have hpos : 0 < r.length :=
      List.length_pos_of_ne_nil fun h => by rw [h] at hlast; cases hlast
    rw [if_pos ⟨hlast, hone⟩, List.length_dropLast]
    omega

/-- **STAGE TWO** leads where the scanned names lead, if it has room. -/
theorem makeCleanPathStageTwo_eq (s : Text) :
    (HasRoom s → makeCleanPathStageTwo (stageOf s) = .ok (pathTo (scannedPlace s))) ∧
      (¬HasRoom s → makeCleanPathStageTwo (stageOf s) = .error .write) := by
  have hpos : 0 < (stageOf s).length + 2 + 1 := Nat.succ_pos _
  have hgood := length_inBuffer_start (isRooted s) ((stageOf s).length + 2)
  have hrun : makeCleanPathStageTwo (stageOf s) =
      ((stored ((stageOf s).length + 2 + 1) (.start (isRooted s))
        ((parts s).flatMap scanned)).bind fun p => .ok (inBuffer p)).bind fun r =>
          (fixBlankInput ((stageOf s).length + 2 + 1) r).bind fun r =>
            close ((stageOf s).length + 2 + 1) (removeTrailingSlash r) := by
    rw [← parse_stageOf hpos]
    rfl
  rw [hrun]
  have hstored := stored_eq ((parts s).flatMap scanned) hgood.fits
  refine ⟨fun hroom => ?_, fun hroom => ?_⟩
  · have hfits : (inBuffer (scannedPlace s)).length ≤ (stageOf s).length + 2 + 1 :=
      hroom _ (List.prefix_refl _)
    have hlength : (pathTo (scannedPlace s)).length < (stageOf s).length + 2 + 1 := by
      rw [← finish_eq (allNamed_scannedPlace s)]
      split
      · have hone : (removeTrailingSlash ['.']).length = 1 := by decide
        omega
      · next hne =>
          exact removeTrailingSlash_lt ((inBuffer_slash _).resolve_left hne) hfits
            (by omega)
    rw [hstored.1 hroom, Except.bind, Except.bind, fixBlankInput_eq hpos, Except.bind,
      ← scannedPlace, finish_eq (allNamed_scannedPlace s)]
    exact if_pos hlength
  · rw [hstored.2 hroom]
    rfl

/-- **THE WHOLE FUNCTION** -/
theorem makeCleanPath_eq (path : Text) (trim : Bool) :
    (HasRoom (trimmed path trim) →
      makeCleanPath path trim = .ok (pathTo (scannedPlace (trimmed path trim)))) ∧
    (¬HasRoom (trimmed path trim) → makeCleanPath path trim = .error .write) := by
  rw [makeCleanPath, makeCleanPathStageOne_eq]
  exact makeCleanPathStageTwo_eq (trimmed path trim)

-- ── Paths to places ──────────────────────────────────────────────────────────

theorem parts_intercalate (hcs : ∀ x ∈ cs, Proper x) :
    parts (['/'].intercalate cs) = cs := by
  induction cs with
  | nil => decide
  | cons x cs ih =>
      obtain ⟨hx, hcs⟩ := List.forall_mem_cons.mp hcs
      have hone : parts x = [x] := by rw [parts_plain hx.2, if_neg hx.1]
      cases cs with
      | nil => rw [List.intercalate_singleton, hone]
      | cons y cs =>
          rw [List.intercalate_cons_cons, List.append_assoc, List.singleton_append,
            parts_cut hx.2 (by decide), hone, ih hcs]
          rfl

theorem isRooted_intercalate (hcs : ∀ x ∈ cs, Proper x) :
    isRooted (['/'].intercalate cs) = false := by
  cases cs with
  | nil => rfl
  | cons x cs =>
      have hx := hcs x List.mem_cons_self
      cases x with
      | nil => exact absurd rfl hx.1
      | cons c x =>
          have hc : isSlash c = false := hx.2 c List.mem_cons_self
          cases cs with
          | nil => rw [List.intercalate_singleton]; exact hc
          | cons y cs => rw [List.intercalate_cons_cons]; exact hc

/-- The parts of the path to a place are the shortest way. -/
theorem steps_placeParts (hp : AllNamed p) : (placeParts p).flatMap steps = p.shortest := by
  have hups : ∀ n, (List.replicate n ['.', '.']).flatMap steps =
      List.replicate n .up := by
    intro n
    induction n with
    | zero => rfl
    | succ n ih => rw [List.replicate_succ, List.flatMap_cons, ih]; rfl
  have hnames : ∀ names : List Text, (∀ a ∈ names, Named a) →
      names.flatMap steps = names.map .name := by
    intro names h
    induction names with
    | nil => rfl
    | cons a names ih =>
        obtain ⟨ha, h⟩ := List.forall_mem_cons.mp h
        rw [List.flatMap_cons, ih h, steps, if_neg ha.2.1, if_neg ha.2.2]
        rfl
  rw [placeParts, List.flatMap_append, hups, hnames _ hp, Place.shortest]

/-- The parts of the path to a place, which may be a dot alone. -/
theorem pathTo_parts (hp : AllNamed p) : isRooted (pathTo p) = p.rooted ∧
    (parts (pathTo p) = placeParts p ∨
      placeParts p = [] ∧ parts (pathTo p) = [['.']]) := by
  have hparts := fun x => proper_placeParts (a := x) hp
  have hjoin := parts_intercalate hparts
  rw [pathTo]
  cases p.rooted with
  | true =>
      have htext : root true ++ ['/'].intercalate (placeParts p) =
          '/' :: ['/'].intercalate (placeParts p) := rfl
      rw [htext, if_neg (List.cons_ne_nil _ _), parts_slash (by decide)]
      exact ⟨rfl, .inl hjoin⟩
  | false =>
      rw [root, if_neg Bool.false_ne_true, List.nil_append]
      split
      · next hnil =>
          rw [hnil] at hjoin
          exact ⟨rfl, .inr ⟨hjoin.symm, rfl⟩⟩
      · exact ⟨isRooted_intercalate hparts, .inl hjoin⟩

/-- **THE PATH TO A PLACE** leads there. -/
theorem place_pathTo (hp : AllNamed p) : place (pathTo p) = p := by
  have hway : (Place.start p.rooted).walk ((placeParts p).flatMap steps) = p := by
    rw [steps_placeParts hp, Place.walk_shortest]
  obtain ⟨hroot, hparts | ⟨hnil, hdot⟩⟩ := pathTo_parts hp
  · rw [place, hroot, hparts, hway]
  · rw [hnil] at hway
    rw [place, hroot, hdot]
    exact hway

theorem pathTo_inj (hp : AllNamed p) (hp' : AllNamed p') :
    pathTo p = pathTo p' ↔ p = p' := by
  refine ⟨fun h => ?_, congrArg pathTo⟩
  rw [← place_pathTo hp, h, place_pathTo hp']

-- ── What comes of a path ─────────────────────────────────────────────────────

/-- Both stages stay inside of their buffers, and come to an end. -/
def Inside (path : Text) (trim : Bool) : Prop :=
  ∃ stage, makeCleanPathStageOne path trim = .ok stage ∧
    ∃ result, makeCleanPathStageTwo stage = .ok result

/-- The result is the normal form, and is cleaned to itself. -/
structure Normalised (path : Text) (trim : Bool) : Prop where
  normal : makeCleanPath path trim = .ok (normalForm (trimmed path trim))
  again : ∀ result, makeCleanPath path trim = .ok result →
    makeCleanPath result trim = .ok result

/-- The ends of names that begin with a dot do no harm: there is room for them, and
    with them a path leads to the place. -/
def Unharmed (s : Text) (p : Place Text) : Prop := HasRoom s ∧ scannedPlace s = p

theorem makeCleanPath_iff (hp : AllNamed p) :
    makeCleanPath path trim = .ok (pathTo p) ↔ Unharmed (trimmed path trim) p := by
  have hrun := makeCleanPath_eq path trim
  by_cases hroom : HasRoom (trimmed path trim)
  · rw [hrun.1 hroom, Except.ok.injEq, pathTo_inj (allNamed_scannedPlace _) hp]
    exact (and_iff_right hroom).symm
  · rw [hrun.2 hroom]
    exact ⟨fun h => (by cases h), fun h => absurd h.1 hroom⟩

theorem normalised_iff : Normalised path trim ↔
    Unharmed (trimmed path trim) (place (trimmed path trim)) ∧
      Unharmed (trimmed (normalForm (trimmed path trim)) trim)
        (place (trimmed path trim)) := by
  have hplace := allNamed_place (trimmed path trim)
  rw [← makeCleanPath_iff hplace, ← makeCleanPath_iff hplace, ← normalForm]
  constructor
  · intro h
    exact ⟨h.normal, h.again _ h.normal⟩
  · rintro ⟨hnormal, hagain⟩
    refine ⟨hnormal, fun result hresult => ?_⟩
    rw [hnormal, Except.ok.injEq] at hresult
    rw [← hresult, hagain]

/-- A name that begins with a dot. -/
def Dotted (a : Text) : Prop := a.head? = some '.' ∧ a ≠ ['.'] ∧ a ≠ ['.', '.']

instance (a : Text) : Decidable (Dotted a) := inferInstanceAs (Decidable (_ ∧ _ ∧ _))

theorem scanned_plain (h : ¬Dotted a) (ha : a ≠ []) : scanned a = steps a := by
  cases a with
  | nil => exact absurd rfl ha
  | cons c tail =>
      rw [scanned, steps]
      by_cases hc : c = '.'
      · subst hc
        rw [if_pos rfl]
        by_cases hdots : tail = ['.']
        · subst hdots
          rfl
        · by_cases hnil : tail = []
          · subst hnil
            rfl
          · refine absurd ⟨rfl, fun h => hnil ?_, fun h => hdots ?_⟩ h
            · exact (List.cons.inj h).2
            · exact (List.cons.inj h).2
      · rw [if_neg hc, if_neg fun h => hc (List.cons.inj h).1,
          if_neg fun h => hc (List.cons.inj h).1]

/-- How much longer a step can make what is in the buffer. -/
def growth : Step Text → Nat
  | .up => 3
  | .name a => a.length + 1

/-- And a way. -/
def wayGrowth : List (Step Text) → Nat
  | [] => 0
  | st :: way => growth st + wayGrowth way

theorem wayGrowth_append (way way' : List (Step Text)) :
    wayGrowth (way ++ way') = wayGrowth way + wayGrowth way' := by
  induction way with
  | nil => exact (Nat.zero_add _).symm
  | cons st way ih => rw [List.cons_append, wayGrowth, wayGrowth, ih, Nat.add_assoc]

theorem length_step_le (p : Place Text) (st : Step Text) :
    (inBuffer (p.step st)).length ≤ (inBuffer p).length + growth st := by
  cases st with
  | name a =>
      rw [inBuffer_name, List.length_append, List.length_append, List.length_singleton,
        growth]
  | up =>
      rcases List.eq_nil_or_concat' p.names with hnil | ⟨names, a, hnames⟩
      · rw [Place.step_up_nil hnil]
        obtain ⟨rooted, ups, names, hups⟩ := p
        obtain rfl : names = [] := hnil
        cases rooted with
        | true => exact Nat.le_add_right _ _
        | false =>
            have habove : Place.above ⟨false, ups, [], hups⟩ =
                (⟨false, ups + 1, [], fun h => nomatch h⟩ : Place Text) := rfl
            rw [habove, inBuffer_ups, List.length_append]
            exact Nat.le_refl _
      · rw [Place.step_up_concat hnames, inBuffer_concat hnames, List.length_append]
        omega

theorem length_walk_le (p : Place Text) (way : List (Step Text)) :
    (inBuffer (p.walk way)).length ≤ (inBuffer p).length + wayGrowth way := by
  induction way generalizing p with
  | nil => exact Nat.le_refl _
  | cons st way ih =>
      have hstep := length_step_le p st
      have hway := ih (p.step st)
      rw [Place.walk_cons, wayGrowth]
      omega

theorem growth_steps (cs : List Text) :
    wayGrowth (cs.flatMap steps) ≤ (slashed cs).length := by
  have hone : ∀ x : Text, wayGrowth (steps x) ≤ x.length + 1 := by
    intro x
    rw [steps]
    split
    · exact Nat.zero_le _
    · split
      · next hdots =>
          rw [hdots]
          decide
      · exact Nat.le_refl _
  induction cs with
  | nil => exact Nat.le_refl 0
  | cons x cs ih =>
      have hx := hone x
      rw [List.flatMap_cons, wayGrowth_append, slashed, List.flatMap_cons, ← slashed,
        List.length_append, List.length_append, List.length_singleton]
      omega

/-- **WITHOUT DOTTED NAMES** there is room, and no end of a name is read. -/
theorem unharmed_plain (h : ∀ a ∈ parts s, ¬Dotted a) : Unharmed s (place s) := by
  have hscanned : (parts s).flatMap scanned = (parts s).flatMap steps :=
    List.flatMap_congr fun a ha => scanned_plain (h a ha) (proper_part ha).1
  refine ⟨?_, by rw [scannedPlace, hscanned, place]⟩
  rw [HasRoom, hscanned]
  rintro pre ⟨rest, hrest⟩
  have hwalk := length_walk_le (.start (isRooted s)) pre
  have hgrowth := growth_steps (parts s)
  rw [← hrest, wayGrowth_append] at hgrowth
  have hstage : (inBuffer (.start (isRooted s))).length + (slashed (parts s)).length ≤
      (stageOf s).length := by
    have hempty : inBuffer (.start (isRooted s)) = root (isRooted s) :=
      List.append_nil _
    rw [hempty, stageOf, List.length_append, stageParts]
    split
    · next hnil =>
        rw [hnil.2]
        exact Nat.add_le_add_left (Nat.zero_le _) _
    · exact Nat.le_refl _
  omega

/-- **WITHOUT DOTTED NAMES** a path is normalised, if its normal form has no blanks
    around it that would be cut off. -/
theorem normalised_plain (h : ∀ a ∈ parts (trimmed path trim), ¬Dotted a)
    (htrim : trimmed (normalForm (trimmed path trim)) trim =
      normalForm (trimmed path trim)) : Normalised path trim := by
  have hplace := allNamed_place (trimmed path trim)
  have hback : place (normalForm (trimmed path trim)) = place (trimmed path trim) :=
    place_pathTo hplace
  have hparts : ∀ a ∈ placeParts (place (trimmed path trim)), ¬Dotted a := by
    intro a ha
    rcases List.mem_append.mp ha with ha | ha
    · rw [List.eq_of_mem_replicate ha]
      exact fun hdotted => hdotted.2.2 rfl
    · rcases Place.mem_walk_names ha with ha | ha
      · cases ha
      · obtain ⟨x, hx, ha⟩ := List.mem_flatMap.mp ha
        rw [steps] at ha
        split at ha
        · cases ha
        · split at ha
          · cases List.mem_singleton.mp ha
          · cases List.mem_singleton.mp ha
            exact h a hx
  refine normalised_iff.mpr ⟨unharmed_plain h, ?_⟩
  rw [htrim, ← hback]
  refine unharmed_plain fun a ha => ?_
  rcases (pathTo_parts hplace).2 with hsame | ⟨-, hdot⟩
  · exact hparts a (hsame ▸ ha)
  · rw [normalForm, hdot, List.mem_singleton] at ha
    rw [ha]
    exact fun hdotted => hdotted.2.1 rfl

/-- **A PATH IS NORMALISED** exactly if the names of it that begin with a dot do no
    harm, and those of its normal form; and if there are none, as long as no blanks
    are cut off from the normal form. -/
theorem clean_path_iff (path : Text) (trim : Bool) :
    (Normalised path trim ↔
      Unharmed (trimmed path trim) (place (trimmed path trim)) ∧
        Unharmed (trimmed (normalForm (trimmed path trim)) trim)
          (place (trimmed path trim))) ∧
    ((∀ a ∈ parts (trimmed path trim), ¬Dotted a) →
      trimmed (normalForm (trimmed path trim)) trim =
        normalForm (trimmed path trim) →
      Normalised path trim) :=
  ⟨normalised_iff, normalised_plain⟩

theorem clean_path_five : Normalised " //a/b///c/".toList true :=
  (clean_path_iff " //a/b///c/".toList true).2 (by decide) (by decide)

/-- `.h` becomes `.h/h`. -/
theorem dotted_twice : ¬∀ (path : Text) (trim : Bool), Normalised path trim := by
  intro h
  have hnormal := (h ".h".toList false).normal
  have hplace := ((makeCleanPath_iff (allNamed_place _)).mp hnormal).2
  revert hplace
  decide

/-- **BOTH STAGES STAY INSIDE** of their buffers exactly if there is room for the
    names with their ends, and so whenever no name but `.` and `..` begins with a dot;
    nothing is read outside, and stage one is never at fault. -/
theorem inside_iff (path : Text) (trim : Bool) :
    (Inside path trim ↔ HasRoom (trimmed path trim)) ∧
      ((∀ a ∈ parts (trimmed path trim), ¬Dotted a) → Inside path trim) ∧
      ∃ stage, makeCleanPathStageOne path trim = .ok stage ∧
        makeCleanPathStageTwo stage ≠ .error .read := by
  have hone := makeCleanPathStageOne_eq path trim
  have htwo := makeCleanPathStageTwo_eq (trimmed path trim)
  have hinside : HasRoom (trimmed path trim) → Inside path trim := fun hroom =>
    ⟨_, hone, _, htwo.1 hroom⟩
  refine ⟨⟨fun h => ?_, hinside⟩, fun h => hinside (unharmed_plain h).1, _, hone, ?_⟩
  · by_contra hroom
    obtain ⟨stage, hstage, result, hresult⟩ := h
    rw [hone, Except.ok.injEq] at hstage
    rw [← hstage, htwo.2 hroom] at hresult
    cases hresult
  · by_cases hroom : HasRoom (trimmed path trim)
    · rw [htwo.1 hroom]
      exact fun h => nomatch h
    · rw [htwo.2 hroom]
      exact fun h => nomatch h

/-- `.abcdefghi` is written twice, into 14 bytes. -/
theorem written_outside : ¬∀ (path : Text) (trim : Bool), Inside path trim := by
  intro h
  obtain ⟨stage, hstage, result, hresult⟩ := h ".abcdefghi".toList false
  rw [makeCleanPathStageOne_eq, Except.ok.injEq] at hstage
  have hroom : ¬HasRoom (trimmed ".abcdefghi".toList false) := by
    intro hroom
    have hfits := hroom _ (List.prefix_refl _)
    revert hfits
    decide
  rw [← hstage, (makeCleanPathStageTwo_eq _).2 hroom] at hresult
  cases hresult

end FlinterCleanPath
