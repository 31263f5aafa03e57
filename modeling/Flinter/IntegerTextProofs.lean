import Mathlib.Data.List.TakeWhile

/-! # Integers in print

    How C writes an integer: blanks, a sign, then a decimal constant, an octal one
    after `0`, or a hexadecimal one after `0x`.  `Denotes` says what is of that form,
    `scan` reads as much as it can; they agree on a text that is read as a whole. -/

namespace IntegerText

abbrev Text := List Char

-- ── Digits ───────────────────────────────────────────────────────────────────

/-- `isspace` of the C locale. -/
def isspace (c : Char) : Bool := c == ' ' || (9 ≤ c.toNat && c.toNat ≤ 13)

/-- What a digit stands for, with letters for those from ten on. -/
def digitValue (c : Char) : Nat :=
  if '0' ≤ c ∧ c ≤ '9' then c.toNat - '0'.toNat
  else if 'a' ≤ c ∧ c ≤ 'z' then c.toNat - 'a'.toNat + 10
  else if 'A' ≤ c ∧ c ≤ 'Z' then c.toNat - 'A'.toNat + 10
  else 36

def isDigitOf (base : Nat) (c : Char) : Bool := decide (digitValue c < base)

/-- What digits stand for. -/
def number (base : Nat) (ds : Text) : Nat :=
  ds.foldl (fun n c => base * n + digitValue c) 0

-- ── The form ─────────────────────────────────────────────────────────────────

/-- An integer constant. -/
inductive Constant : Text → Nat → Prop
  | decimal {c : Char} {ds : Text} (hc : c ≠ '0') (hds : ∀ d ∈ c :: ds, isDigitOf 10 d) :
      Constant (c :: ds) (number 10 (c :: ds))
  | octal {ds : Text} (hds : ∀ d ∈ '0' :: ds, isDigitOf 8 d) :
      Constant ('0' :: ds) (number 8 ('0' :: ds))
  | hexadecimal {x d : Char} {ds : Text} (hx : x = 'x' ∨ x = 'X')
      (hds : ∀ c ∈ d :: ds, isDigitOf 16 c) :
      Constant ('0' :: x :: d :: ds) (number 16 (d :: ds))

/-- The integer that a text stands for. -/
inductive Denotes : Text → Int → Prop
  | bare {blanks ds : Text} {n : Nat} (hblanks : ∀ c ∈ blanks, isspace c)
      (hds : Constant ds n) : Denotes (blanks ++ ds) n
  | plus {blanks ds : Text} {n : Nat} (hblanks : ∀ c ∈ blanks, isspace c)
      (hds : Constant ds n) : Denotes (blanks ++ '+' :: ds) n
  | minus {blanks ds : Text} {n : Nat} (hblanks : ∀ c ∈ blanks, isspace c)
      (hds : Constant ds n) : Denotes (blanks ++ '-' :: ds) (-n)

-- ── The scanner ──────────────────────────────────────────────────────────────

/-- The sign: whether it is negative, and the text behind it. -/
def takeSign : Text → Bool × Text
  | '-' :: rest => (true, rest)
  | '+' :: rest => (false, rest)
  | rest => (false, rest)

/-- Whether `0x` and a digit are in front. -/
def isHexadecimal : Text → Bool
  | '0' :: x :: d :: _ => (x == 'x' || x == 'X') && isDigitOf 16 d
  | _ => false

/-- The base, and the text from the first digit on. -/
def radix (s : Text) : Nat × Text :=
  if isHexadecimal s then (16, s.drop 2)
  else if s.head? = some '0' then (8, s)
  else (10, s)

/-- What was read: the sign, the digits, and the text behind them. -/
structure Scanned where
  negative : Bool
  magnitude : Nat
  rest : Text

def Scanned.value (r : Scanned) : Int := if r.negative then -r.magnitude else r.magnitude

/-- The longest number in front. -/
def scan (s : Text) : Option Scanned :=
  let sign := takeSign (s.dropWhile isspace)
  let base := (radix sign.2).1
  let digits := (radix sign.2).2
  if digits.takeWhile (isDigitOf base) = [] then none
  else
    some ⟨sign.1, number base (digits.takeWhile (isDigitOf base)),
      digits.dropWhile (isDigitOf base)⟩

example : (scan " -0x1Fg".toList).map Scanned.value = some (-31) := by decide

-- ── The scanner reads the form ───────────────────────────────────────────────

variable {c d x : Char} {s ds blanks : Text} {n : Nat} {v w : Int}

theorem radix_hexadecimal (hx : x = 'x' ∨ x = 'X') (hd : isDigitOf 16 d = true) :
    radix ('0' :: x :: d :: ds) = (16, d :: ds) := by
  have hhex : isHexadecimal ('0' :: x :: d :: ds) = true := by
    rcases hx with rfl | rfl <;> exact hd
  rw [radix, if_pos hhex]
  rfl

theorem isHexadecimal_iff : isHexadecimal s = true ↔
    ∃ x d ds, s = '0' :: x :: d :: ds ∧ (x = 'x' ∨ x = 'X') ∧ isDigitOf 16 d = true := by
  constructor
  · intro h
    unfold isHexadecimal at h
    split at h
    · next x d ds =>
        simp only [Bool.and_eq_true, Bool.or_eq_true, beq_iff_eq] at h
        exact ⟨x, d, ds, rfl, h⟩
    · cases h
  · rintro ⟨x, d, ds, rfl, rfl | rfl, hd⟩ <;> exact hd

theorem radix_octal (hhex : ¬ isHexadecimal ('0' :: ds)) :
    radix ('0' :: ds) = (8, '0' :: ds) := by
  rw [radix, if_neg hhex]
  rfl

theorem radix_decimal (hs : s.head? ≠ some '0') : radix s = (10, s) := by
  have hhex : ¬ isHexadecimal s := by
    intro hhex
    obtain ⟨x, d, ds, rfl, -⟩ := isHexadecimal_iff.mp hhex
    exact hs rfl
  rw [radix, if_neg hhex, if_neg hs]

/-- No `x` is an octal digit. -/
theorem not_isHexadecimal (h : ∀ d ∈ s, isDigitOf 8 d) : ¬ isHexadecimal s := by
  intro hhex
  obtain ⟨x, d, ds, rfl, hx, -⟩ := isHexadecimal_iff.mp hhex
  have hdigit := h x (List.mem_cons_of_mem _ List.mem_cons_self)
  rcases hx with rfl | rfl <;> exact absurd hdigit (by decide)

/-- A constant is digits of its base, and at least one of them. -/
theorem constant_iff : Constant s n ↔ (radix s).2 ≠ [] ∧
    (∀ c ∈ (radix s).2, isDigitOf (radix s).1 c) ∧ n = number (radix s).1 (radix s).2 := by
  constructor
  · rintro (⟨hc, hds⟩ | hds | ⟨hx, hds⟩)
    · rw [radix_decimal (s := _ :: _) (fun h => hc (Option.some.inj h))]
      exact ⟨List.cons_ne_nil _ _, hds, rfl⟩
    · rw [radix_octal (not_isHexadecimal hds)]
      exact ⟨List.cons_ne_nil _ _, hds, rfl⟩
    · rw [radix_hexadecimal hx (hds _ List.mem_cons_self)]
      exact ⟨List.cons_ne_nil _ _, hds, rfl⟩
  · rintro ⟨hne, hds, rfl⟩
    by_cases hzero : s.head? = some '0'
    · obtain ⟨ds, rfl⟩ := List.head?_eq_some_iff.mp hzero
      by_cases hhex : isHexadecimal ('0' :: ds)
      · obtain ⟨x, d, rest, heq, hx, hd⟩ := isHexadecimal_iff.mp hhex
        rw [heq, radix_hexadecimal hx hd] at hds ⊢
        exact Constant.hexadecimal hx hds
      · rw [radix_octal hhex] at hds ⊢
        exact Constant.octal hds
    · rw [radix_decimal hzero] at hne hds ⊢
      obtain ⟨c, ds, rfl⟩ := List.exists_cons_of_ne_nil hne
      exact Constant.decimal (fun h => hzero (congrArg some h)) hds

/-- A constant begins with a digit. -/
theorem Constant.head (h : Constant s n) : ∃ c ds, s = c :: ds ∧ isDigitOf 10 c = true := by
  cases h with
  | decimal hc hds => exact ⟨_, _, rfl, hds _ List.mem_cons_self⟩
  | octal hds => exact ⟨_, _, rfl, rfl⟩
  | hexadecimal hx hds => exact ⟨_, _, rfl, rfl⟩

theorem isDigit_range (h : isDigitOf 10 c = true) : 48 ≤ c.toNat ∧ c.toNat ≤ 57 := by
  have hvalue : digitValue c < 10 := of_decide_eq_true h
  rw [digitValue] at hvalue
  split at hvalue
  · next hrange => exact hrange
  · split at hvalue
    · omega
    · split at hvalue <;> omega

/-- A digit is neither a blank nor a sign. -/
theorem isDigit_other (h : isDigitOf 10 c = true) : isspace c = false ∧ c ≠ '+' ∧ c ≠ '-' := by
  obtain ⟨hlow, hhigh⟩ := isDigit_range h
  refine ⟨?_, ?_, ?_⟩
  · have hspace : c ≠ ' ' := by
      rintro rfl
      exact absurd hlow (by decide)
    simp only [isspace, beq_eq_false_iff_ne.mpr hspace, Bool.false_or, Bool.and_eq_false_iff,
      decide_eq_false_iff_not]
    omega
  · rintro rfl
    exact absurd hlow (by decide)
  · rintro rfl
    exact absurd hlow (by decide)

theorem takeSign_other (hplus : c ≠ '+') (hminus : c ≠ '-') :
    takeSign (c :: s) = (false, c :: s) := by
  rw [takeSign]
  · rintro rest h
    exact hminus (List.cons.inj h).1
  · rintro rest h
    exact hplus (List.cons.inj h).1

theorem dropWhile_blanks (hblanks : ∀ c ∈ blanks, isspace c) (hc : isspace c = false) :
    (blanks ++ c :: s).dropWhile isspace = c :: s := by
  rw [List.dropWhile_append_of_pos hblanks, List.dropWhile_cons_of_neg (by rw [hc]; decide)]

/-- What is read of a sign and a constant. -/
theorem scan_of_constant (negative : Bool)
    (hsign : takeSign (s.dropWhile isspace) = (negative, ds))
    (hds : Constant ds n) : scan s = some ⟨negative, n, []⟩ := by
  obtain ⟨hne, hall, rfl⟩ := constant_iff.mp hds
  rw [scan, hsign]
  dsimp only
  rw [List.takeWhile_eq_self_iff.mpr hall, List.dropWhile_eq_nil_iff.mpr hall, if_neg hne]

/-- What is read to the end is a sign and a constant. -/
theorem constant_of_scan {r : Scanned} (h : scan s = some r) (hrest : r.rest = []) :
    ∃ ds, takeSign (s.dropWhile isspace) = (r.negative, ds) ∧ Constant ds r.magnitude := by
  rw [scan] at h
  split at h
  · cases h
  · next hne =>
      obtain rfl := Option.some.inj h
      have hall := List.dropWhile_eq_nil_iff.mp hrest
      rw [List.takeWhile_eq_self_iff.mpr hall] at hne ⊢
      exact ⟨_, rfl, constant_iff.mpr ⟨hne, hall, rfl⟩⟩

/-- What is in front of a sign and of what is behind it. -/
theorem takeSign_cases {negative : Bool} (h : takeSign s = (negative, ds)) :
    negative = true ∧ s = '-' :: ds ∨ negative = false ∧ (s = '+' :: ds ∨ s = ds) := by
  unfold takeSign at h
  split at h
  · obtain ⟨rfl, rfl⟩ := Prod.mk.inj h
    exact Or.inl ⟨rfl, rfl⟩
  · obtain ⟨rfl, rfl⟩ := Prod.mk.inj h
    exact Or.inr ⟨rfl, Or.inl rfl⟩
  · obtain ⟨rfl, rfl⟩ := Prod.mk.inj h
    exact Or.inr ⟨rfl, Or.inr rfl⟩

/-- **THE SCANNER READS THE FORM**: a text stands for an integer if it is read as that
    integer, and nothing of it is left. -/
theorem denotes_iff : Denotes s v ↔ ∃ r, scan s = some r ∧ r.rest = [] ∧ r.value = v := by
  constructor
  · rintro (⟨hblanks, hds⟩ | ⟨hblanks, hds⟩ | ⟨hblanks, hds⟩)
    · obtain ⟨c, ds, rfl, hc⟩ := hds.head
      obtain ⟨hspace, hplus, hminus⟩ := isDigit_other hc
      refine ⟨_, scan_of_constant false ?_ hds, rfl, rfl⟩
      rw [dropWhile_blanks hblanks hspace, takeSign_other hplus hminus]
    · refine ⟨_, scan_of_constant false ?_ hds, rfl, rfl⟩
      rw [dropWhile_blanks hblanks rfl]
      rfl
    · refine ⟨_, scan_of_constant true ?_ hds, rfl, rfl⟩
      rw [dropWhile_blanks hblanks rfl]
      rfl
  · rintro ⟨r, hscan, hrest, rfl⟩
    obtain ⟨ds, hsign, hds⟩ := constant_of_scan hscan hrest
    have hblanks : ∀ c ∈ s.takeWhile isspace, isspace c := fun c hc => List.mem_takeWhile_imp hc
    rw [← List.takeWhile_append_dropWhile (p := isspace) (l := s)]
    rcases takeSign_cases hsign with ⟨hneg, hs⟩ | ⟨hneg, hs | hs⟩ <;>
      rw [hs, Scanned.value, hneg]
    · exact Denotes.minus hblanks hds
    · exact Denotes.plus hblanks hds
    · exact Denotes.bare hblanks hds

theorem Denotes.unique (hv : Denotes s v) (hw : Denotes s w) : v = w := by
  obtain ⟨r, hr, -, rfl⟩ := denotes_iff.mp hv
  obtain ⟨r', hr', -, rfl⟩ := denotes_iff.mp hw
  rw [hr] at hr'
  rw [Option.some.inj hr']

end IntegerText
