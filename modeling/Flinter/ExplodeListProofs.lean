import Mathlib.Data.List.TakeWhile
import Flinter.ExplodeProofs
import Flinter.NumeralProofs

/-! # Lists of numbers

    `explode_list` reads numbers and ranges with commas in between, and
    `explode_lists` reads lists of them with semicolons in between, by one scanner
    of five states.

    The scanner stops at a semicolon, and `explode_list` does not look at what is
    left then.  It puts the numbers of a range into the list by a loop that counts
    one past the last of them, which overflows if that is the greatest `int`. -/

namespace FlinterExplode

open Numerals

-- ── The code ─────────────────────────────────────────────────────────────────

def intMax : Nat := 2147483647

def ulongMax : Nat := 18446744073709551615

/-- What comes of a call: it fails, an `int` overflows, or it is done. -/
inductive Scan (α : Type) where
  | fail
  | overflow
  | done (a : α)
deriving DecidableEq, Repr

def Scan.bind {α β : Type} : Scan α → (α → Scan β) → Scan β
  | .fail, _ => .fail
  | .overflow, _ => .overflow
  | .done a, f => f a

theorem Scan.bind_eq_done {α β : Type} {x : Scan α} {f : α → Scan β} {b : β} :
    x.bind f = .done b ↔ ∃ a, x = .done a ∧ f a = .done b := by
  cases x with
  | fail => simp [bind]
  | overflow => simp [bind]
  | done a => simp [bind]

theorem Scan.bind_eq_overflow {α β : Type} {x : Scan α} {f : α → Scan β} :
    x.bind f = .overflow ↔ x = .overflow ∨ ∃ a, x = .done a ∧ f a = .overflow := by
  cases x with
  | fail => simp [bind]
  | overflow => simp [bind]
  | done a => simp [bind]

theorem Scan.fail_ne_overflow {α : Type} : (fail : Scan α) ≠ overflow :=
  fun h => nomatch h

theorem Scan.done_ne_overflow {α : Type} {a : α} : done a ≠ overflow :=
  fun h => nomatch h

theorem Scan.bind_bind {α β γ : Type} {x : Scan α} {f : α → Scan β} {g : β → Scan γ} :
    (x.bind f).bind g = x.bind fun a => (f a).bind g := by
  cases x with
  | fail => rfl
  | overflow => rfl
  | done a => rfl

/-- `explode_list_internal`: what was read last. -/
inductive Last where
  | none
  | dash
  | comma
  | digit
  | range
deriving DecidableEq, Repr

/-- `explode_list_internal`: the variables. -/
structure Scanner where
  last : Last
  digit : Int
  o : List Int
deriving DecidableEq, Repr

/-- `explode_list_internal`, before it reads anything. -/
def Scanner.start : Scanner := ⟨.none, -1, []⟩

/-- `explode_list_internal`: the loop that pushes a range. -/
def pushRange (i now : Int) (o : List Int) : Scan (List Int) :=
  if i ≤ now then
    if i = intMax then .overflow -- `++i`
    else pushRange (i + 1) now (o ++ [i])
  else .done o
termination_by (now + 1 - i).toNat
decreasing_by omega

/-- `explode_list_internal`, with a number. -/
def Scanner.number (max n : Nat) (c : Scanner) : Scan Scanner :=
  if c.last ≠ .comma ∧ c.last ≠ .dash ∧ c.last ≠ .none then .fail
  else if n > max then .fail
  else if c.last = .dash then
    if c.digit > n then .fail
    else (pushRange c.digit n c.o).bind fun o => .done ⟨.range, c.digit, o⟩
  else .done ⟨.digit, n, c.o⟩

/-- `explode_list_internal`, with a comma. -/
def Scanner.comma (c : Scanner) : Scan Scanner :=
  if c.last ≠ .digit ∧ c.last ≠ .range then .fail
  else .done ⟨.comma, c.digit, if c.last = .digit then c.o ++ [c.digit] else c.o⟩

/-- `explode_list_internal`, with a dash. -/
def Scanner.dash (c : Scanner) : Scan Scanner :=
  if c.last ≠ .digit then .fail else .done { c with last := .dash }

/-- `explode_list_internal`, with a semicolon or at the end. -/
def Scanner.finish (c : Scanner) : Scan (List Int) :=
  if c.last = .digit then .done (c.o ++ [c.digit])
  else if c.last ≠ .range ∧ c.last ≠ .none then .fail
  else .done c.o

/-- `strtoul`, of what begins with a digit. -/
def strtoul (s : Text) : Nat × Text :=
  (min (number (s.takeWhile Char.isDigit)) ulongMax, s.dropWhile Char.isDigit)

theorem strtoul_shorter {ch : Char} {rest : Text} (h : ch.isDigit) :
    (strtoul (ch :: rest)).2.length < (ch :: rest).length := by
  rw [strtoul, List.dropWhile_cons_of_pos h, List.length_cons]
  exact Nat.lt_succ_of_le (List.dropWhile_suffix _).length_le

/-- `explode_list_internal`: the loop.  What is left is `none` past the null
    character at the end. -/
def explodeListLoop (max : Nat) (c : Scanner) (s : Text) :
    Scan (Option Text × List Int) :=
  match s with
  | [] => c.finish.bind fun o => .done (none, o)
  | ch :: rest =>
      if _hdigit : ch.isDigit then
        let n := strtoul (ch :: rest)
        (c.number max n.1).bind fun c => explodeListLoop max c n.2
      else if ch = ',' then c.comma.bind fun c => explodeListLoop max c rest
      else if ch = '-' then c.dash.bind fun c => explodeListLoop max c rest
      else if ch = ' ' ∨ ch = '\t' then explodeListLoop max c rest
      else if ch = ';' ∨ ch = '\x00' then c.finish.bind fun o => .done (some rest, o)
      else .fail
termination_by s.length
decreasing_by
  · exact strtoul_shorter _hdigit
  all_goals exact Nat.lt_succ_self _

/-- `std::unique`. -/
def unique : List Int → List Int
  | [] => []
  | [a] => [a]
  | a :: b :: rest => if a = b then unique (b :: rest) else a :: unique (b :: rest)

/-- `explode_list_internal`. -/
def explodeListInternal (s : Text) (max : Nat) : Scan (Option Text × List Int) :=
  (explodeListLoop max .start s).bind fun r =>
    .done (r.1, unique (r.2.mergeSort (· ≤ ·)))

/-- `explode_list`. -/
def explodeList (input : Text) (max : Int) : Scan (List Int) :=
  if max < 0 then .fail
  else (explodeListInternal input max.toNat).bind fun r => .done r.2

/-- What is left is shorter. -/
theorem explodeListLoop_shorter {max : Nat} {c : Scanner} {s rest : Text} {o : List Int}
    (h : explodeListLoop max c s = .done (some rest, o)) : rest.length < s.length := by
  fun_induction explodeListLoop max c s with
  | case1 c =>
      obtain ⟨o, -, h⟩ := Scan.bind_eq_done.mp h
      cases h
  | case2 c ch left hdigit n ih =>
      obtain ⟨c', -, h⟩ := Scan.bind_eq_done.mp h
      exact Nat.lt_trans (ih c' h) (strtoul_shorter hdigit)
  | case3 c left hdigit ih =>
      obtain ⟨c', -, h⟩ := Scan.bind_eq_done.mp h
      exact Nat.lt_succ_of_lt (ih c' h)
  | case4 c left hdigit hcomma ih =>
      obtain ⟨c', -, h⟩ := Scan.bind_eq_done.mp h
      exact Nat.lt_succ_of_lt (ih c' h)
  | case5 c ch left hdigit hcomma hdash hch ih => exact Nat.lt_succ_of_lt (ih h)
  | case6 c ch left hdigit hcomma hdash hblank hch =>
      obtain ⟨o, -, h⟩ := Scan.bind_eq_done.mp h
      cases h
      exact Nat.lt_succ_self _
  | case7 => cases h

/-- `explode_lists`: the loop, which ends past the null character at the end. -/
def explodeListsLoop (max : Nat) (output : List (List Int)) (s : Text) :
    Scan (List (List Int)) :=
  match _h : explodeListInternal s max with
  | .fail => .fail
  | .overflow => .overflow
  | .done (none, one) => .done (output ++ [one])
  | .done (some rest, one) => explodeListsLoop max (output ++ [one]) rest
termination_by s.length
decreasing_by
  obtain ⟨r, hr, heq⟩ := Scan.bind_eq_done.mp _h
  obtain ⟨rest', o⟩ := r
  obtain rfl : rest' = some rest := congrArg Prod.fst (Scan.done.inj heq)
  exact explodeListLoop_shorter hr

/-- `explode_lists`. -/
def explodeLists (input : Text) (max : Int) : Scan (List (List Int)) :=
  if max < 0 then .fail else explodeListsLoop max.toNat [] input

-- ── The grammar ──────────────────────────────────────────────────────────────

/-- Blanks and tabs are no tokens, and digits in a row are one. -/
inductive Token where
  | number (n : Nat)
  | comma
  | dash
  | other
deriving DecidableEq, Repr

def Token.of (ch : Char) : Token :=
  if ch = ',' then .comma else if ch = '-' then .dash else .other

/-- The tokens of a string. -/
def tokens (s : Text) : List Token :=
  match s with
  | [] => []
  | ch :: rest =>
      if _hdigit : ch.isDigit then
        .number (number ((ch :: rest).takeWhile Char.isDigit)) ::
          tokens ((ch :: rest).dropWhile Char.isDigit)
      else if ch = ' ' ∨ ch = '\t' then tokens rest
      else .of ch :: tokens rest
termination_by s.length
decreasing_by
  · exact strtoul_shorter _hdigit
  all_goals exact Nat.lt_succ_self _

/-- A number or a range. -/
inductive Item where
  | number (n : Nat)
  | range (a b : Nat)
deriving DecidableEq, Repr

def Item.tokens : Item → List Token
  | .number n => [.number n]
  | .range a b => [.number a, .dash, .number b]

def Item.Valid (max : Nat) : Item → Prop
  | .number n => n ≤ max
  | .range a b => a ≤ b ∧ b ≤ max

instance (max : Nat) (i : Item) : Decidable (i.Valid max) := by
  cases i with
  | number n => exact inferInstanceAs (Decidable (n ≤ max))
  | range a b => exact inferInstanceAs (Decidable (a ≤ b ∧ b ≤ max))

def Item.Contains (x : Int) : Item → Prop
  | .number n => x = n
  | .range a b => a ≤ x ∧ x ≤ b

/-- Items with commas in between. -/
def render (items : List Item) : List Token :=
  [Token.comma].intercalate (items.map Item.tokens)

/-- A string is a list of numbers and ranges, that are all up to `max`. -/
def IsList (max : Nat) (s : Text) (items : List Item) : Prop :=
  tokens s = render items ∧ ∀ i ∈ items, i.Valid max

/-- What the items contain. -/
def Holds (items : List Item) (o : List Int) : Prop :=
  ∀ x, x ∈ o ↔ ∃ i ∈ items, i.Contains x

/-- The union of items, in order and without duplicates. -/
def SortedUnion (items : List Item) (o : List Int) : Prop :=
  o.Pairwise (· < ·) ∧ Holds items o

/-- A string is a list, and these are its numbers. -/
def ReadAs (max : Nat) (s : Text) (o : List Int) : Prop :=
  ∃ items, IsList max s items ∧ SortedUnion items o

/-- What `explode_list` should make of a string. -/
structure ListRead (max : Nat) (s : Text) (answer : Scan (List Int)) : Prop where
  safe : answer ≠ .overflow
  accepts : (∃ o, answer = .done o) ↔ ∃ items, IsList max s items
  output : ∀ o, answer = .done o → ReadAs max s o

/-- What `explode_lists` should make of a string. -/
structure ListsRead (max : Nat) (s : Text) (answer : Scan (List (List Int))) :
    Prop where
  safe : answer ≠ .overflow
  accepts : (∃ os, answer = .done os) ↔
    ∀ part ∈ s.splitOn ';', ∃ items, IsList max part items
  output : ∀ os, answer = .done os → os.length = s.count ';' + 1 ∧
    List.Forall₂ (ReadAs max) (s.splitOn ';') os

/-- A list up to a range that ends in the greatest `int`, and maybe something after
    it. -/
def Reaches (max : Nat) (s : Text) : Prop :=
  ∃ items a, (∀ i ∈ items ++ [.range a intMax], i.Valid max) ∧
    render (items ++ [.range a intMax]) <+: tokens s

-- ── Tokens ───────────────────────────────────────────────────────────────────

variable {max n : Nat} {c c' : Scanner} {part s t : Text} {o : List Int} {now x : Int}
variable {i : Item} {items : List Item} {tok : Token} {toks read rest : List Token}

/-- `explode_list_internal`, with a token. -/
def Scanner.token (max : Nat) (c : Scanner) : Token → Scan Scanner
  | .number n => c.number max n
  | .comma => c.comma
  | .dash => c.dash
  | .other => .fail

/-- `explode_list_internal`, with the tokens up to the end. -/
def run (max : Nat) (c : Scanner) : List Token → Scan (List Int)
  | [] => c.finish
  | tok :: rest => (c.token max tok).bind fun c => run max c rest

/-- Digits end where something else begins. -/
theorem digits_append (part : Text) (ht : t.takeWhile Char.isDigit = []) :
    (part ++ t).takeWhile Char.isDigit = part.takeWhile Char.isDigit ∧
      (part ++ t).dropWhile Char.isDigit = part.dropWhile Char.isDigit ++ t := by
  induction part with
  | nil =>
      refine ⟨ht, ?_⟩
      rw [List.nil_append, List.dropWhile_nil, List.nil_append]
      conv_rhs => rw [← List.takeWhile_append_dropWhile (p := Char.isDigit) (l := t), ht]
      rfl
  | cons ch part ih =>
      rw [List.cons_append]
      cases hch : ch.isDigit with
      | true =>
          rw [List.takeWhile_cons_of_pos hch, List.takeWhile_cons_of_pos hch,
            List.dropWhile_cons_of_pos hch, List.dropWhile_cons_of_pos hch, ih.1, ih.2]
          exact ⟨rfl, rfl⟩
      | false =>
          have hneg : ¬ch.isDigit = true := by rw [hch]; exact Bool.false_ne_true
          rw [List.takeWhile_cons_of_neg hneg, List.takeWhile_cons_of_neg hneg,
            List.dropWhile_cons_of_neg hneg, List.dropWhile_cons_of_neg hneg]
          exact ⟨rfl, rfl⟩

/-- `strtoul` says `ULONG_MAX` for what is too much, which is as good as any. -/
theorem number_clamped (hmax : max ≤ intMax) :
    c.number max (min n ulongMax) = c.number max n := by
  by_cases hn : n ≤ ulongMax
  · rw [Nat.min_eq_left hn]
  · have hbig : intMax < ulongMax := by decide
    rw [Nat.min_eq_right (by omega), Scanner.number, Scanner.number,
      if_pos (show ulongMax > max by omega), if_pos (show n > max by omega)]

/-- **THE SCANNER** goes by tokens, up to a semicolon or the end. -/
theorem explodeListLoop_tokens (hmax : max ≤ intMax) (hsemicolon : ';' ∉ part)
    (hnull : '\x00' ∉ part) (ht : ∀ ch ∈ t.head?, ch = ';') :
    explodeListLoop max c (part ++ t) =
      (run max c (tokens part)).bind fun o => .done (t.tail?, o) := by
  induction part using tokens.induct generalizing c with
  | case1 =>
      rw [List.nil_append, tokens, run]
      cases t with
      | nil => rw [explodeListLoop, List.tail?_nil]
      | cons ch t =>
          obtain rfl := ht ch rfl
          rw [explodeListLoop, dif_neg (by decide), if_neg (by decide),
            if_neg (by decide), if_neg (by decide), if_pos (.inl rfl), List.tail?_cons]
  | case2 ch rest hdigit ih =>
      have hstop : t.takeWhile Char.isDigit = [] := by
        cases t with
        | nil => rfl
        | cons ch t =>
            obtain rfl := ht ch rfl
            exact List.takeWhile_cons_of_neg (by decide)
      have hcut := digits_append (ch :: rest) hstop
      have hsub := (List.dropWhile_suffix Char.isDigit (l := ch :: rest)).subset
      have hnext : ∀ c, explodeListLoop max c
          ((ch :: rest).dropWhile Char.isDigit ++ t) = _ := fun c =>
        ih (c := c) (fun h => hsemicolon (hsub h)) (fun h => hnull (hsub h))
      rw [List.cons_append, explodeListLoop, dif_pos hdigit, ← List.cons_append, tokens,
        dif_pos hdigit, run, Scanner.token, strtoul, hcut.1, hcut.2]
      dsimp only
      rw [number_clamped hmax, Scan.bind_bind]
      exact congrArg _ (funext hnext)
  | case3 ch rest hdigit hblank ih =>
      rw [List.mem_cons, not_or] at hsemicolon hnull
      have hcomma : ch ≠ ',' := by rcases hblank with rfl | rfl <;> decide
      have hdash : ch ≠ '-' := by rcases hblank with rfl | rfl <;> decide
      rw [List.cons_append, explodeListLoop, dif_neg hdigit, if_neg hcomma, if_neg hdash,
        if_pos hblank, tokens, dif_neg hdigit, if_pos hblank]
      exact ih hsemicolon.2 hnull.2
  | case4 ch rest hdigit hblank ih =>
      rw [List.mem_cons, not_or] at hsemicolon hnull
      have hnext : ∀ c, explodeListLoop max c (rest ++ t) = _ := fun c =>
        ih (c := c) hsemicolon.2 hnull.2
      have hend : ¬(ch = ';' ∨ ch = '\x00') :=
        not_or.mpr ⟨Ne.symm hsemicolon.1, Ne.symm hnull.1⟩
      rw [List.cons_append, explodeListLoop, dif_neg hdigit, if_neg hblank, if_neg hend,
        tokens, dif_neg hdigit, if_neg hblank, run, Token.of]
      split
      · rw [Scanner.token, Scan.bind_bind]
        exact congrArg _ (funext hnext)
      · split
        · rw [Scanner.token, Scan.bind_bind]
          exact congrArg _ (funext hnext)
        · rfl

/-- A semicolon is not in a list. -/
theorem other_mem_tokens (h : ';' ∈ s) : .other ∈ tokens s := by
  induction s using tokens.induct with
  | case1 => cases h
  | case2 ch rest hdigit ih =>
      rw [tokens, dif_pos hdigit]
      refine List.mem_cons_of_mem _ (ih ?_)
      rw [← List.takeWhile_append_dropWhile (p := Char.isDigit) (l := ch :: rest)] at h
      rcases List.mem_append.mp h with h | h
      · exact absurd (List.mem_takeWhile_imp h) (by decide)
      · exact h
  | case3 ch rest hdigit hblank ih =>
      rw [tokens, dif_neg hdigit, if_pos hblank]
      rcases List.mem_cons.mp h with rfl | h
      · exact absurd hblank (by decide)
      · exact ih h
  | case4 ch rest hdigit hblank ih =>
      rw [tokens, dif_neg hdigit, if_neg hblank]
      rcases List.mem_cons.mp h with rfl | h
      · exact List.mem_cons_self
      · exact List.mem_cons_of_mem _ (ih h)

/-- Items, each with a comma behind it. -/
def before (items : List Item) : List Token :=
  items.flatMap fun i => i.tokens ++ [.comma]

theorem render_concat : render (items ++ [i]) = before items ++ i.tokens := by
  induction items with
  | nil => simp [render, before]
  | cons j items ih =>
      rw [before, List.flatMap_cons, ← before, List.append_assoc, ← ih, render,
        List.cons_append, List.map_cons, List.intercalate_cons_of_ne_nil (by simp)]
      simp [render]

theorem other_not_mem_render : .other ∉ render items := by
  induction items using List.reverseRecOn with
  | nil => exact List.not_mem_nil
  | append_singleton items i ih =>
      have htokens : ∀ i : Item, .other ∉ i.tokens := by
        intro i
        cases i with
        | number n => simp [Item.tokens]
        | range a b => simp [Item.tokens]
      rw [render_concat, before, List.mem_append, List.mem_flatMap]
      rintro (⟨j, -, hj⟩ | hi)
      · rcases List.mem_append.mp hj with hj | hj
        · exact htokens j hj
        · cases List.mem_singleton.mp hj
      · exact htokens i hi

theorem not_isList (h : ';' ∈ s) : ¬IsList max s items := by
  intro hlist
  have hother := other_mem_tokens h
  rw [hlist.1] at hother
  exact other_not_mem_render hother

-- ── The scanner's states ─────────────────────────────────────────────────────

/-- A range is pushed, unless it ends in the greatest `int`. -/
theorem pushRange_cases (i : Int) (o : List Int) (hnow : now ≤ intMax) :
    (i ≤ now ∧ now = intMax ∧ pushRange i now o = .overflow) ∨
      ¬(i ≤ now ∧ now = intMax) ∧ ∃ o', pushRange i now o = .done o' ∧
        ∀ x, x ∈ o' ↔ x ∈ o ∨ i ≤ x ∧ x ≤ now := by
  fun_induction pushRange i now o with
  | case1 o hle => exact .inl ⟨hle, by omega, rfl⟩
  | case2 i o hle hne ih =>
      rcases ih with ⟨hle', heq, h⟩ | ⟨hnot, o', h, hmem⟩
      · exact .inl ⟨hle, heq, h⟩
      · refine .inr ⟨by omega, o', h, fun x => ?_⟩
        rw [hmem, List.mem_append, List.mem_singleton, or_assoc]
        exact or_congr_right (by omega)
  | case3 i o hlt =>
      refine .inr ⟨by omega, o, rfl, fun x => ?_⟩
      rw [or_iff_left (show ¬(i ≤ x ∧ x ≤ now) by omega)]

/-- What the scanner knows of the tokens that it has read. -/
inductive Read (max : Nat) : List Token → Scanner → Prop where
  | none {digit : Int} {o : List Int} : Holds [] o → Read max [] ⟨.none, digit, o⟩
  | comma {items : List Item} {digit : Int} {o : List Int} : items ≠ [] →
      (∀ i ∈ items, i.Valid max) → Holds items o →
      Read max (before items) ⟨.comma, digit, o⟩
  | digit {items : List Item} {n : Nat} {o : List Int} :
      (∀ i ∈ items, i.Valid max) → n ≤ max → Holds items o →
      Read max (before items ++ [.number n]) ⟨.digit, n, o⟩
  | dash {items : List Item} {n : Nat} {o : List Int} :
      (∀ i ∈ items, i.Valid max) → n ≤ max → Holds items o →
      Read max (before items ++ [.number n, .dash]) ⟨.dash, n, o⟩
  | range {items : List Item} {a b : Nat} {digit : Int} {o : List Int} :
      (∀ i ∈ items, i.Valid max) → a ≤ b → b ≤ max →
      Holds (items ++ [.range a b]) o →
      Read max (before items ++ [.number a, .dash, .number b]) ⟨.range, digit, o⟩

theorem valid_concat (h : ∀ i ∈ items, i.Valid max) (hi : i.Valid max) :
    ∀ j ∈ items ++ [i], j.Valid max := by
  intro j hj
  rcases List.mem_append.mp hj with hj | hj
  · exact h j hj
  · exact List.mem_singleton.mp hj ▸ hi

theorem Holds.concat {o' : List Int} (h : Holds items o)
    (ho : ∀ x, x ∈ o' ↔ x ∈ o ∨ i.Contains x) : Holds (items ++ [i]) o' := by
  intro x
  rw [ho, h x]
  simp [or_and_right, exists_or]

theorem Holds.number (h : Holds items o) :
    Holds (items ++ [.number n]) (o ++ [(n : Int)]) :=
  h.concat fun _ => List.mem_append.trans (or_congr_right List.mem_singleton)

theorem before_concat : before (items ++ [i]) = before items ++ i.tokens ++ [.comma] := by
  simp [before]

/-- A number at the beginning of an item. -/
theorem number_first (hlast : c.last = .none ∨ c.last = .comma) :
    c.number max n = if n > max then .fail else .done ⟨.digit, n, c.o⟩ := by
  have hstate : ¬(c.last ≠ .comma ∧ c.last ≠ .dash ∧ c.last ≠ .none) :=
    fun h => hlast.elim h.2.2 h.1
  have hdash : c.last ≠ .dash := by
    rcases hlast with hlast | hlast <;> rw [hlast] <;> decide
  rw [Scanner.number, if_neg hstate, if_neg hdash]

theorem number_second {digit : Int} : Scanner.number max n ⟨.dash, digit, o⟩ =
    if n > max then .fail
    else if digit > n then .fail
    else (pushRange digit n o).bind fun o => .done ⟨.range, digit, o⟩ :=
  if_neg fun h => h.2.1 rfl

/-- A number after a dash, if it is not too great. -/
theorem number_range {m : Nat} (hmax : max ≤ intMax) (hm : m ≤ max) :
    (¬(n ≤ m ∧ m = intMax) ∧
      ((m < n ∧ Scanner.number max m ⟨.dash, n, o⟩ = .fail) ∨
        n ≤ m ∧ ∃ o', Scanner.number max m ⟨.dash, n, o⟩ = .done ⟨.range, n, o'⟩ ∧
          ∀ x, x ∈ o' ↔ x ∈ o ∨ (Item.range n m).Contains x)) ∨
      (n ≤ m ∧ m = intMax) ∧ Scanner.number max m ⟨.dash, n, o⟩ = .overflow := by
  rw [number_second, if_neg (by omega)]
  by_cases hlt : (n : Int) > m
  · rw [if_pos hlt]
    exact .inl ⟨by omega, .inl ⟨by omega, rfl⟩⟩
  · rw [if_neg hlt]
    rcases pushRange_cases n o (show (m : Int) ≤ intMax by omega)
      with ⟨hle, heq, h⟩ | ⟨hnot, o', h, hmem⟩
    · rw [h]
      exact .inr ⟨⟨by omega, by omega⟩, rfl⟩
    · rw [h]
      exact .inl ⟨by omega, .inr ⟨by omega, o', rfl, hmem⟩⟩

theorem number_ne_fail {digit : Int}
    (h : Scanner.number max n ⟨.dash, digit, o⟩ ≠ .fail) : n ≤ max := by
  by_contra hgt
  rw [number_second, if_pos (by omega)] at h
  exact h rfl

/-- **A NUMBER** begins an item or ends a range. -/
theorem Read.step_number (h : Read max read c) (hmax : max ≤ intMax)
    (hc : c.number max n = .done c') : Read max (read ++ [.number n]) c' := by
  cases h with
  | none ho =>
      rw [number_first (.inl rfl)] at hc
      split at hc
      · cases hc
      · cases hc
        rw [← show before [] = [] from rfl]
        exact .digit (List.forall_mem_nil _) (by omega) ho
  | comma hne hvalid ho =>
      rw [number_first (.inr rfl)] at hc
      split at hc
      · cases hc
      · cases hc
        exact .digit hvalid (by omega) ho
  | digit hvalid hn ho => cases hc
  | range hvalid hab hb ho => cases hc
  | dash hvalid hm ho =>
      have hle : n ≤ max := number_ne_fail (by rw [hc]; exact fun h => nomatch h)
      rw [List.append_assoc]
      rcases number_range hmax hle
        with ⟨hnot, ⟨hlt, hfail⟩ | ⟨hmn, o', hdone, hmem⟩⟩ | ⟨hreach, hover⟩
      · rw [hfail] at hc
        cases hc
      · rw [hdone] at hc
        cases hc
        exact .range hvalid hmn hle (ho.concat hmem)
      · rw [hover] at hc
        cases hc

theorem Read.overflow (h : Read max read c) (hmax : max ≤ intMax)
    (hc : c.token max tok = .overflow) :
    ∃ items a, (∀ i ∈ items ++ [.range a intMax], i.Valid max) ∧
      render (items ++ [.range a intMax]) = read ++ [tok] := by
  cases tok with
  | comma => rw [Scanner.token, Scanner.comma] at hc; split at hc <;> cases hc
  | dash => rw [Scanner.token, Scanner.dash] at hc; split at hc <;> cases hc
  | other => cases hc
  | number n =>
      rw [Scanner.token] at hc
      cases h with
      | none ho => rw [number_first (.inl rfl)] at hc; split at hc <;> cases hc
      | comma hne hvalid ho =>
          rw [number_first (.inr rfl)] at hc
          split at hc <;> cases hc
      | digit hvalid hn ho => cases hc
      | range hvalid hab hb ho => cases hc
      | @dash items m o hvalid hm ho =>
          have hle : n ≤ max := number_ne_fail (by rw [hc]; exact fun h => nomatch h)
          rcases number_range hmax hle
            with ⟨hnot, ⟨hlt, hfail⟩ | ⟨hmn, o', hdone, hmem⟩⟩ | ⟨⟨hmn, rfl⟩, hover⟩
          · rw [hfail] at hc
            cases hc
          · rw [hdone] at hc
            cases hc
          · refine ⟨items, m, valid_concat hvalid ⟨hmn, hle⟩, ?_⟩
            rw [render_concat, List.append_assoc]
            rfl

theorem Read.step_comma (h : Read max read c) (hc : c.comma = .done c') :
    Read max (read ++ [.comma]) c' := by
  cases h with
  | none ho => cases hc
  | comma hne hvalid ho => cases hc
  | dash hvalid hn ho => cases hc
  | @digit items n o hvalid hn ho =>
      cases hc
      have hread : before (items ++ [.number n]) =
          before items ++ [.number n] ++ [.comma] := before_concat
      rw [← hread]
      exact .comma (List.concat_ne_nil _ _) (valid_concat hvalid hn) (Holds.number ho)
  | @range items a b digit o hvalid hab hb ho =>
      cases hc
      have hread : before (items ++ [.range a b]) =
          before items ++ [.number a, .dash, .number b] ++ [.comma] := before_concat
      rw [← hread]
      exact .comma (List.concat_ne_nil _ _) (valid_concat hvalid ⟨hab, hb⟩) ho

theorem Read.step_dash (h : Read max read c) (hc : c.dash = .done c') :
    Read max (read ++ [.dash]) c' := by
  cases h with
  | none ho => cases hc
  | comma hne hvalid ho => cases hc
  | dash hvalid hn ho => cases hc
  | range hvalid hab hb ho => cases hc
  | digit hvalid hn ho =>
      cases hc
      rw [List.append_assoc]
      exact .dash hvalid hn ho

/-- **AT THE END** the tokens are items. -/
theorem Read.finish (h : Read max read c) (hc : c.finish = .done o) :
    ∃ items, read = render items ∧ (∀ i ∈ items, i.Valid max) ∧ Holds items o := by
  cases h with
  | none ho =>
      cases hc
      exact ⟨[], rfl, List.forall_mem_nil _, ho⟩
  | comma hne hvalid ho => cases hc
  | dash hvalid hn ho => cases hc
  | @digit items n o hvalid hn ho =>
      cases hc
      exact ⟨items ++ [.number n], (render_concat (i := .number n)).symm,
        valid_concat (i := .number n) hvalid hn, Holds.number ho⟩
  | @range items a b digit o hvalid hab hb ho =>
      cases hc
      exact ⟨items ++ [.range a b], (render_concat (i := .range a b)).symm,
        valid_concat (i := .range a b) hvalid ⟨hab, hb⟩, ho⟩

theorem finish_ne_overflow : c.finish ≠ .overflow := by
  rw [Scanner.finish]
  split
  · exact fun h => nomatch h
  · split <;> exact fun h => nomatch h

/-- **WHAT IS ACCEPTED** is a list, and what overflows is one that reaches the
    greatest `int`. -/
theorem Read.run (h : Read max read c) (hmax : max ≤ intMax) (toks : List Token) :
    (∀ o, run max c toks = .done o → ∃ items, read ++ toks = render items ∧
      (∀ i ∈ items, i.Valid max) ∧ Holds items o) ∧
    (FlinterExplode.run max c toks = .overflow → ∃ items a,
      (∀ i ∈ items ++ [.range a intMax], i.Valid max) ∧
        render (items ++ [.range a intMax]) <+: read ++ toks) := by
  induction toks generalizing read c with
  | nil =>
      rw [List.append_nil]
      exact ⟨fun o ho => h.finish ho, fun ho => absurd ho finish_ne_overflow⟩
  | cons tok toks ih =>
      have hstep : ∀ c', c.token max tok = .done c' → Read max (read ++ [tok]) c' := by
        intro c' hc
        cases tok with
        | number n => exact h.step_number hmax hc
        | comma => exact h.step_comma hc
        | dash => exact h.step_dash hc
        | other => cases hc
      rw [List.append_cons]
      constructor
      · intro o ho
        obtain ⟨c', hc, hrun⟩ := Scan.bind_eq_done.mp ho
        exact (ih (hstep c' hc)).1 o hrun
      · intro ho
        rcases Scan.bind_eq_overflow.mp ho with hc | ⟨c', hc, hrun⟩
        · obtain ⟨items, a, hvalid, heq⟩ := h.overflow hmax hc
          exact ⟨items, a, hvalid, heq ▸ List.prefix_append _ _⟩
        · exact (ih (hstep c' hc)).2 hrun

-- ── What is in the grammar ───────────────────────────────────────────────────

/-- An item may come, or has just been read. -/
def Scanner.Ready (c : Scanner) : Prop := c.last = .none ∨ c.last = .comma

def Scanner.Full (c : Scanner) : Prop := c.last = .digit ∨ c.last = .range

theorem run_number (hc : c.Ready) (hn : n ≤ max) :
    run max c (.number n :: rest) = run max ⟨.digit, n, c.o⟩ rest := by
  rw [run, Scanner.token, number_first hc, if_neg (by omega)]
  rfl

/-- **AN ITEM** is read, unless it is a range to the greatest `int`. -/
theorem run_item (rest : List Token) (hc : c.Ready) (hi : i.Valid max) (hmax : max ≤ intMax) :
    run max c (i.tokens ++ rest) = .overflow ∨
      (∀ a, i ≠ .range a intMax) ∧
        ∃ c', c'.Full ∧ run max c (i.tokens ++ rest) = run max c' rest := by
  cases i with
  | number n =>
      exact .inr ⟨fun a h => (by cases h), _, .inl rfl, run_number hc hi⟩
  | range a b =>
      obtain ⟨hab, hb⟩ := hi
      rw [Item.tokens, List.cons_append, run_number hc (by omega), List.cons_append,
        List.singleton_append, run, Scanner.token, Scanner.dash, if_neg (by simp),
        Scan.bind, run, Scanner.token]
      rcases number_range (o := c.o) (n := a) hmax hb
        with ⟨hnot, ⟨hlt, -⟩ | ⟨-, o', hdone, -⟩⟩ | ⟨-, hover⟩
      · omega
      · rw [hdone]
        refine .inr ⟨fun a' h => ?_, _, .inr rfl, rfl⟩
        cases h
        exact hnot ⟨hab, rfl⟩
      · rw [hover]
        exact .inl rfl

theorem run_comma (max : Nat) (rest : List Token) (hc : c.Full) :
    ∃ c', c'.Ready ∧ run max c (.comma :: rest) = run max c' rest := by
  have hstate : ¬(c.last ≠ .digit ∧ c.last ≠ .range) := fun h => hc.elim h.1 h.2
  rw [run, Scanner.token, Scanner.comma, if_neg hstate]
  exact ⟨_, .inr rfl, rfl⟩

/-- Items with commas behind them are read, unless something overflows. -/
theorem run_before (rest : List Token) (hc : c.Ready)
    (hvalid : ∀ i ∈ items, i.Valid max) (hmax : max ≤ intMax) :
    run max c (before items ++ rest) = .overflow ∨
      ∃ c', c'.Ready ∧ run max c (before items ++ rest) = run max c' rest := by
  induction items generalizing c with
  | nil => exact .inr ⟨c, hc, rfl⟩
  | cons i items ih =>
      obtain ⟨hi, hvalid⟩ := List.forall_mem_cons.mp hvalid
      rw [before, List.flatMap_cons, ← before, List.append_assoc, List.append_assoc]
      rcases run_item _ hc hi hmax with hover | ⟨-, c', hfull, hrun⟩
      · exact .inl hover
      · obtain ⟨c'', hready, hcomma⟩ := run_comma max (before items ++ rest) hfull
        rw [hrun, List.singleton_append, hcomma]
        exact ih hready hvalid

theorem start_ready : Scanner.start.Ready := .inl rfl

/-- **A LIST** is accepted, unless something overflows. -/
theorem run_render (hvalid : ∀ i ∈ items, i.Valid max) (hmax : max ≤ intMax) :
    run max .start (render items) = .overflow ∨
      ∃ o, run max .start (render items) = .done o := by
  rcases List.eq_nil_or_concat' items with rfl | ⟨items, i, rfl⟩
  · exact .inr ⟨[], rfl⟩
  · have hi : i.Valid max := hvalid i List.mem_concat_self
    have hitems : ∀ i ∈ items, i.Valid max :=
      fun j hj => hvalid j (List.mem_append_left [i] hj)
    rw [render_concat]
    rcases run_before i.tokens start_ready hitems hmax
      with hover | ⟨c, hc, hrun⟩
    · exact .inl hover
    · rw [hrun, ← List.append_nil i.tokens]
      rcases run_item [] hc hi hmax with hover | ⟨-, c', hfull, hitem⟩
      · exact .inl hover
      · rw [hitem, run, Scanner.finish]
        rcases hfull with hlast | hlast
        · rw [if_pos hlast]
          exact .inr ⟨_, rfl⟩
        · rw [if_neg (by rw [hlast]; decide), if_neg (fun h => h.1 hlast)]
          exact .inr ⟨_, rfl⟩

/-- **THE GREATEST `int`** at the end of a range overflows. -/
theorem run_reaches {a : Nat} (hmax : max ≤ intMax)
    (hvalid : ∀ i ∈ items ++ [.range a intMax], i.Valid max) :
    run max .start (render (items ++ [.range a intMax]) ++ rest) = .overflow := by
  have hi := hvalid _ List.mem_concat_self
  rw [render_concat, List.append_assoc]
  rcases run_before ((Item.range a intMax).tokens ++ rest) start_ready
    (fun j hj => hvalid j (List.mem_append_left _ hj)) hmax with hover | ⟨c, hc, hrun⟩
  · exact hover
  · rw [hrun]
    rcases run_item rest hc hi hmax with hover | ⟨hne, -⟩
    · exact hover
    · exact absurd rfl (hne a)

/-- **THE SCANNER** overflows for what reaches the greatest `int`, and accepts what
    else is a list. -/
theorem run_start (hmax : max ≤ intMax) (s : Text) :
    (run max .start (tokens s) = .overflow ↔ Reaches max s) ∧
    (∀ o, run max .start (tokens s) = .done o →
      ∃ items, IsList max s items ∧ Holds items o) ∧
    ∀ items, IsList max s items → run max .start (tokens s) ≠ .fail := by
  have hread : Read max [] .start :=
    .none fun x => ⟨fun h => (by cases h), fun ⟨i, hi, _⟩ => (by cases hi)⟩
  have hrun := hread.run hmax (tokens s)
  refine ⟨⟨fun h => hrun.2 h, ?_⟩, fun o ho => ?_, fun items hlist hfail => ?_⟩
  · rintro ⟨items, a, hvalid, rest, hrest⟩
    rw [← hrest]
    exact run_reaches hmax hvalid
  · obtain ⟨items, htokens, hvalid, ho⟩ := hrun.1 o ho
    exact ⟨items, ⟨htokens, hvalid⟩, ho⟩
  · rw [hlist.1] at hfail
    rcases run_render hlist.2 hmax with h | ⟨o, h⟩
    · rw [h] at hfail
      cases hfail
    · rw [h] at hfail
      cases hfail

end FlinterExplode
