import Mathlib.Algebra.Field.Rat
import Mathlib.Data.List.Induction
import Mathlib.Tactic.FieldSimp
import Mathlib.Tactic.Positivity
import Mathlib.Tactic.Ring

/-! # Decimal numerals

    How a number looks in print: an optional minus sign, digits, and maybe a
    point with digits behind it.  A numeral stands for one number; the zeros
    before its digits and the ones at its end make no difference to it. -/

namespace Numerals

-- ── Digits ───────────────────────────────────────────────────────────────────

variable {c : Char} {cs ds : List Char} {k n z : Nat}

/-- The number that digits stand for. -/
def number (cs : List Char) : Nat := Nat.ofDigitChars 10 cs 0

theorem number_append :
    number (cs ++ ds) = 10 ^ ds.length * number cs + number ds := by
  rw [number, Nat.ofDigitChars_append, Nat.ofDigitChars_eq_ofDigitChars_zero]
  rfl

theorem number_zeros : number (List.replicate k '0') = 0 := by
  rw [number, Nat.ofDigitChars_replicate_zero, Nat.mul_zero]

theorem number_concat : number (cs ++ [c]) = 10 * number cs + number [c] := by
  rw [number_append, List.length_singleton, pow_one]

@[simp] theorem number_toDigits : number (Nat.toDigits 10 n) = n :=
  Nat.ofDigitChars_ten_toDigits

theorem number_singleton : number [c] = c.toNat - 48 := by
  rw [number, Nat.ofDigitChars_cons, Nat.ofDigitChars_nil, Nat.mul_zero, Nat.zero_add]
  rfl

theorem digit_range (h : c.isDigit = true) : 48 ≤ c.toNat ∧ c.toNat ≤ 57 := by
  rw [Char.isDigit, Bool.and_eq_true, decide_eq_true_eq, decide_eq_true_eq] at h
  exact ⟨h.1, h.2⟩

/-- A digit other than zero stands for something. -/
theorem number_digit (hdigit : c.isDigit = true) (hc : c ≠ '0') :
    number [c] % 10 ≠ 0 := by
  have hrange := digit_range hdigit
  have hzero : c.toNat ≠ 48 := fun h => hc (Char.toNat_inj.mp h)
  rw [number_singleton]
  omega

theorem number_lt (hdigits : ∀ c ∈ cs, c.isDigit = true) :
    number cs < 10 ^ cs.length := by
  induction cs using List.reverseRecOn with
  | nil => exact Nat.one_pos
  | append_singleton cs c ih =>
      have hc := digit_range (hdigits c (List.mem_append_right cs List.mem_cons_self))
      have hcs := ih fun d hd => hdigits d (List.mem_append_left [c] hd)
      rw [number_concat, number_singleton, List.length_append, List.length_singleton,
        Nat.pow_succ]
      omega

/-- **THE ORDER OF DIGITS** is that of the numbers, if there are as many of them,
    whatever comes after them. -/
theorem lt_of_number_lt {xs ys : List Char} (hcs : ∀ c ∈ cs, c.isDigit = true)
    (hds : ∀ c ∈ ds, c.isDigit = true) (hlen : cs.length = ds.length)
    (h : number cs < number ds) : cs ++ xs < ds ++ ys := by
  induction cs generalizing ds with
  | nil =>
      obtain rfl := List.eq_nil_of_length_eq_zero hlen.symm
      exact absurd h (Nat.lt_irrefl _)
  | cons c cs ih =>
      cases ds with
      | nil => cases hlen
      | cons d ds =>
          obtain ⟨hc, hcs⟩ := List.forall_mem_cons.mp hcs
          obtain ⟨hd, hds⟩ := List.forall_mem_cons.mp hds
          have hlen : cs.length = ds.length := Nat.succ.inj hlen
          rw [← List.singleton_append (l := cs), ← List.singleton_append (l := ds),
            number_append, number_append, number_singleton, number_singleton, hlen] at h
          rw [List.cons_append, List.cons_append, List.cons_lt_cons_iff]
          have hbound := number_lt hds
          rcases Nat.lt_trichotomy c.toNat d.toNat with hlt | heq | hgt
          · exact Or.inl hlt
          · rw [heq] at h
            exact Or.inr ⟨Char.toNat_inj.mp heq, ih hcs hds hlen (by omega)⟩
          · -- What is left of `ds` cannot make up for a smaller digit.
            have hstep : d.toNat - 48 + 1 ≤ c.toNat - 48 := by
              have := (digit_range hd).1
              omega
            have hmul := Nat.mul_le_mul_left (10 ^ ds.length) hstep
            rw [Nat.mul_add, Nat.mul_one] at hmul
            omega

/-- A number above zero is not printed with a zero in front. -/
theorem head_toDigits (hn : 0 < n) : (Nat.toDigits 10 n).head? ≠ some '0' := by
  induction n using Nat.strongRecOn with
  | ind n ih =>
      rcases Nat.lt_or_ge n 10 with hlt | hge
      · rw [Nat.toDigits_of_lt_base hlt, List.head?_cons]
        intro h
        exact hn.ne' (Nat.digitChar_eq_zero.mp (Option.some.inj h))
      · rw [Nat.toDigits_of_base_le (by decide) hge,
          List.head?_append_of_ne_nil _ Nat.toDigits_ne_nil]
        exact ih (n / 10) (by omega) (by omega)

/-- What is printed of a number, with zeros around it, is digits. -/
theorem padded_digits (z n k : Nat) :
    ∀ c ∈ List.replicate z '0' ++ Nat.toDigits 10 n ++ List.replicate k '0',
      c.isDigit = true := by
  intro c hc
  have hzero : ∀ {k}, c ∈ List.replicate k '0' → c.isDigit = true := by
    intro k hc
    rw [List.eq_of_mem_replicate hc]
    rfl
  rcases List.mem_append.mp hc with hc | hc
  · rcases List.mem_append.mp hc with hc | hc
    · exact hzero hc
    · exact Nat.isDigit_of_mem_toDigits (by decide) (by decide) hc
  · exact hzero hc

/-- Only zeros stand for zero. -/
theorem number_eq_zero (hdigits : ∀ c ∈ cs, c.isDigit = true) :
    number cs = 0 ↔ ∀ c ∈ cs, c = '0' := by
  constructor
  · intro hzero c hc
    by_contra hne
    obtain ⟨pre, post, rfl⟩ := List.append_of_mem hc
    have hdigit := number_digit (hdigits c hc) hne
    rw [List.append_cons, number_append, number_concat] at hzero
    have hpos : 0 < 10 ^ post.length := Nat.pow_pos (Nat.zero_lt_succ 9)
    have hprod := (Nat.add_eq_zero_iff.mp hzero).1
    rcases Nat.mul_eq_zero.mp hprod with hten | hhead
    · omega
    · omega
  · intro hzeros
    rw [List.eq_replicate_of_mem hzeros, number_zeros]

-- ── Zeros at the end ─────────────────────────────────────────────────────────

/-- How many zeros are at the end, counted while reading. -/
def zeros (cs : List Char) : Nat :=
  cs.foldl (fun z c => if c = '0' then z + 1 else 0) 0

theorem zeros_concat :
    zeros (cs ++ [c]) = if c = '0' then zeros cs + 1 else 0 := by
  rw [zeros, List.foldl_append]
  rfl

theorem zeros_le : zeros cs ≤ cs.length := by
  induction cs using List.reverseRecOn with
  | nil => exact le_refl 0
  | append_singleton cs c ih =>
      rw [zeros_concat, List.length_append, List.length_singleton]
      split
      · omega
      · omega

/-- They can be cut off and put back. -/
theorem take_append_zeros (h : z ≤ zeros cs) :
    cs.take (cs.length - z) ++ List.replicate z '0' = cs := by
  induction cs using List.reverseRecOn generalizing z with
  | nil =>
      have hz : z = 0 := Nat.le_zero.mp h
      rw [hz]
      rfl
  | append_singleton cs c ih =>
      rw [zeros_concat] at h
      rw [List.length_append, List.length_singleton]
      cases z with
      | zero =>
          rw [Nat.sub_zero, List.replicate_zero, List.append_nil]
          exact List.take_of_length_le (by simp)
      | succ z =>
          by_cases hc : c = '0'
          · rw [if_pos hc] at h
            have hle : z ≤ zeros cs := by omega
            have hcut : cs.length + 1 - (z + 1) ≤ cs.length := by omega
            rw [List.take_append_of_le_length hcut, List.replicate_succ',
              ← List.append_assoc, Nat.add_sub_add_right, ih hle, hc]
          · rw [if_neg hc] at h
            omega

theorem number_all_zeros (h : zeros cs = cs.length) : number cs = 0 := by
  have hcut := take_append_zeros h.ge
  rw [Nat.sub_self, List.take_zero, List.nil_append] at hcut
  rw [← hcut, number_zeros]

/-- Once all are cut off, the last digit is not a zero. -/
theorem number_take_zeros (hdigits : ∀ c ∈ cs, c.isDigit = true)
    (h : zeros cs < cs.length) :
    number (cs.take (cs.length - zeros cs)) % 10 ≠ 0 := by
  induction cs using List.reverseRecOn with
  | nil => cases h
  | append_singleton cs c ih =>
      have hhead : ∀ c ∈ cs, c.isDigit = true := fun d hd =>
        hdigits d (List.mem_append_left _ hd)
      have hlast := hdigits c (List.mem_append_right _ (List.mem_singleton_self c))
      rw [zeros_concat] at h ⊢
      rw [List.length_append, List.length_singleton] at h ⊢
      by_cases hc : c = '0'
      · rw [if_pos hc] at h ⊢
        rw [Nat.add_sub_add_right, List.take_append_of_le_length (by omega)]
        exact ih hhead (by omega)
      · rw [if_neg hc, Nat.sub_zero, List.take_of_length_le (by simp),
          number_concat]
        have hdigit := number_digit hlast hc
        omega

-- ── Numerals ─────────────────────────────────────────────────────────────────

/-- A numeral, by its parts. -/
structure Numeral where
  negative : Bool
  whole : List Char
  fraction : Option (List Char)
  digits_only : ∀ c ∈ whole ++ fraction.getD [], c.isDigit = true

namespace Numeral

variable {m : Numeral} {v : Int} {s : Nat}

def digits (m : Numeral) : List Char := m.whole ++ m.fraction.getD []

/-- How many digits are behind the point. -/
def places (m : Numeral) : Nat := (m.fraction.getD []).length

/-- What is written after the sign. -/
def body (m : Numeral) : List Char :=
  m.whole ++ match m.fraction with
    | none => []
    | some f => '.' :: f

def text (m : Numeral) : List Char :=
  (if m.negative then ['-'] else []) ++ m.body

def signed (negative : Bool) (k : Nat) : Int := if negative then -k else k

/-- The number a numeral stands for. -/
def value (m : Numeral) : ℚ := signed m.negative (number m.digits) / 10 ^ m.places

/-- At least one digit before the point, and no superfluous zero. -/
def Plain (m : Numeral) : Prop :=
  m.whole ≠ [] ∧ (m.whole.head? = some '0' → m.whole = ['0'])

/-- `k` digits behind the point, and a point only for those. -/
def Shaped (m : Numeral) (k : Nat) : Prop :=
  (m.fraction = none ↔ k = 0) ∧ m.places = k

theorem digits_integer (h : m.fraction = none) : m.digits = m.whole := by
  rw [digits, h, Option.getD_none, List.append_nil]

theorem text_integer (h : m.fraction = none) :
    m.text = (if m.negative then ['-'] else []) ++ m.whole := by
  rw [text, body, h, List.append_nil]

theorem text_point {f : List Char} (h : m.fraction = some f) :
    m.text = (if m.negative then ['-'] else []) ++ m.whole ++ '.' :: f := by
  rw [text, body, h, List.append_assoc]

/-- The digits are those in the text. -/
theorem mem_digits : c ∈ m.digits ↔ c ∈ m.text ∧ c.isDigit = true := by
  have hdot : ¬Char.isDigit '.' = true := by decide
  have hminus : ¬Char.isDigit '-' = true := by decide
  constructor
  · intro hc
    refine ⟨List.mem_append_right _ ?_, m.digits_only c hc⟩
    rcases List.mem_append.mp hc with hc | hc
    · exact List.mem_append_left _ hc
    · refine List.mem_append_right _ ?_
      cases hf : m.fraction with
      | none =>
          rw [hf] at hc
          cases hc
      | some f =>
          rw [hf] at hc
          exact List.mem_cons_of_mem _ hc
  · rintro ⟨hc, hdigit⟩
    rcases List.mem_append.mp hc with hc | hc
    · split at hc
      · rw [List.mem_singleton.mp hc] at hdigit
        exact absurd hdigit hminus
      · cases hc
    · rcases List.mem_append.mp hc with hc | hc
      · exact List.mem_append_left _ hc
      · refine List.mem_append_right _ ?_
        cases hf : m.fraction with
        | none =>
            rw [hf] at hc
            cases hc
        | some f =>
            rw [hf] at hc
            rcases List.mem_cons.mp hc with rfl | hc
            · exact absurd hdigit hdot
            · exact hc

theorem places_le : m.places ≤ m.digits.length := by
  rw [places, digits, List.length_append]
  omega

theorem signed_natAbs : signed (decide (v < 0)) v.natAbs = v := by
  rw [signed]
  split
  · next h =>
      have hlt := of_decide_eq_true h
      omega
  · next h =>
      have hge := of_decide_eq_false (Bool.not_eq_true _ ▸ h)
      omega

theorem signed_mul (negative : Bool) (j k : Nat) :
    signed negative (j * k) = j * signed negative k := by
  cases negative with
  | false => exact Nat.cast_mul j k
  | true =>
      rw [signed, signed, if_pos rfl, if_pos rfl, Nat.cast_mul, mul_neg]

/-- The text tells whether a numeral stands for zero. -/
theorem value_eq_zero :
    m.value = 0 ↔ ∀ c ∈ m.text, c.isDigit = true → c = '0' := by
  have hpow : (10 : ℚ) ^ m.places ≠ 0 := by positivity
  have hsigned : signed m.negative (number m.digits) = 0 ↔
      number m.digits = 0 := by
    rw [signed]
    split <;> omega
  have hnumber : number m.digits = 0 ↔ ∀ c ∈ m.digits, c = '0' :=
    number_eq_zero m.digits_only
  rw [value, div_eq_zero_iff, or_iff_left hpow, Int.cast_eq_zero, hsigned, hnumber]
  constructor
  · exact fun h c hc hdigit => h c (mem_digits.mpr ⟨hc, hdigit⟩)
  · exact fun h c hc => h c (mem_digits.mp hc).1 (mem_digits.mp hc).2

/-- **PADDING**: a numeral whose digits are those of an integer, with zeros
    before them and `k` behind, stands for that integer over `10 ^ s` if it has
    `s + k` digits behind the point. -/
theorem value_padded (hsign : m.negative = decide (v < 0))
    (hdigits : m.digits = List.replicate z '0' ++ Nat.toDigits 10 v.natAbs ++
      List.replicate k '0')
    (hplaces : m.places = s + k) : m.value = v / 10 ^ s := by
  have hnumber : number m.digits = 10 ^ k * v.natAbs := by
    rw [hdigits, number_append, number_append, number_zeros, number_zeros,
      number_toDigits, List.length_replicate, Nat.mul_zero, Nat.zero_add,
      Nat.add_zero]
  have hpow : (10 : ℚ) ^ k ≠ 0 := by positivity
  rw [value, hsign, hnumber, signed_mul, signed_natAbs, hplaces, pow_add,
    mul_comm ((10 : ℚ) ^ s)]
  push_cast
  rw [mul_div_mul_left _ _ hpow]

/-- **TRIMMING**: zeros at the end may go, as far as the point. -/
theorem value_trimmed (hz : z ≤ zeros m.digits) (hplaces : z ≤ m.places) :
    m.value = signed m.negative (number (m.digits.take (m.digits.length - z))) /
      10 ^ (m.places - z) := by
  have hnumber : number m.digits =
      10 ^ z * number (m.digits.take (m.digits.length - z)) := by
    calc number m.digits
        = number (m.digits.take (m.digits.length - z) ++
            List.replicate z '0') := by rw [take_append_zeros hz]
      _ = _ := by rw [number_append, number_zeros, List.length_replicate,
            Nat.add_zero]
  have hpow : (10 : ℚ) ^ z ≠ 0 := by positivity
  have hsum : m.places = z + (m.places - z) := by omega
  rw [value, hnumber, signed_mul, hsum, pow_add, Nat.add_sub_cancel_left]
  push_cast
  rw [mul_div_mul_left _ _ hpow]

end Numeral

end Numerals
