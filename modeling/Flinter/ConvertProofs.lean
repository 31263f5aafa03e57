import Flinter.IntegerTextProofs
import Mathlib.Algebra.Order.Field.Rat
import Mathlib.Tactic.Linarith
import Mathlib.Tactic.NormNum
import Mathlib.Tactic.Positivity

/-! # Text to numbers

    `convert` is made by three macros that differ in the library function and in what
    they compare.  `strtoull` wraps a negative number around, and what it returns is
    all that `DEFINE_U` compares.  `DEFINE_D` takes `FLT_MIN` and the like for the
    least number of the type, which they are for the integer types only.

    `long` has 64 bits and `char` is signed. -/

namespace FlinterConvert

open IntegerText

-- ── The library ──────────────────────────────────────────────────────────────

/-- What `strtoll` and the like return, the text behind it, and whether `errno` is set. -/
structure Strto (R : Type) where
  value : R
  rest : Text
  errno : Bool

def LLONG_MIN : Int := -2 ^ 63
def LLONG_MAX : Int := 2 ^ 63 - 1
def ULLONG_MAX : Int := 2 ^ 64 - 1

/-- `strtoll` in base 0. -/
def strtoll (nptr : Text) : Strto Int :=
  match scan nptr with
  | none => ⟨0, nptr, false⟩
  | some r =>
      if r.value < LLONG_MIN then ⟨LLONG_MIN, r.rest, true⟩
      else if r.value > LLONG_MAX then ⟨LLONG_MAX, r.rest, true⟩
      else ⟨r.value, r.rest, false⟩

/-- `strtoull` in base 0.  The sign negates the unsigned number. -/
def strtoull (nptr : Text) : Strto Int :=
  match scan nptr with
  | none => ⟨0, nptr, false⟩
  | some r =>
      if (r.magnitude : Int) > ULLONG_MAX then ⟨ULLONG_MAX, r.rest, true⟩
      else ⟨r.value % 2 ^ 64, r.rest, false⟩

-- ── The code ─────────────────────────────────────────────────────────────────

section Macros

variable {R T : Type}

/-- What the three macros share: what is returned, and `*valid`. -/
def DEFINE (strto : Text → Strto R) (outside : R → Bool) (static_cast : R → T)
    (text : Text) (defval : T) : T × Bool :=
  if text = [] then (defval, false)
  else if (strto text).errno ∨ (strto text).rest ≠ [] then (defval, false)
  else if outside (strto text).value then (defval, false)
  else (static_cast (strto text).value, true)

end Macros

/-- `DEFINE_S`. -/
def DEFINE_S (bits : Nat) (min max : Int) : Text → Int → Int × Bool :=
  DEFINE strtoll (fun r => r < min || r > max) (Int.bmod · (2 ^ bits))

/-- `DEFINE_U`. -/
def DEFINE_U (bits : Nat) (max : Int) : Text → Int → Int × Bool :=
  DEFINE strtoull (fun r => r > max) (· % 2 ^ bits)

/-- The types that are integers. -/
inductive IntegerType
  | char
  | short
  | int
  | long
  | longLong
  | unsignedChar
  | unsignedShort
  | unsignedInt
  | unsignedLong
  | unsignedLongLong
deriving DecidableEq

def SCHAR_MIN : Int := -128
def SCHAR_MAX : Int := 127
def SHRT_MIN : Int := -32768
def SHRT_MAX : Int := 32767
def INT_MIN : Int := -2147483648
def INT_MAX : Int := 2147483647
def LONG_MIN : Int := -9223372036854775808
def LONG_MAX : Int := 9223372036854775807
def UCHAR_MAX : Int := 255
def USHRT_MAX : Int := 65535
def UINT_MAX : Int := 4294967295
def ULONG_MAX : Int := 18446744073709551615

/-- `convert` to an integer type. -/
def convert : IntegerType → Text → Int → Int × Bool
  | .char => DEFINE_S 8 SCHAR_MIN SCHAR_MAX
  | .short => DEFINE_S 16 SHRT_MIN SHRT_MAX
  | .int => DEFINE_S 32 INT_MIN INT_MAX
  | .long => DEFINE_S 64 LONG_MIN LONG_MAX
  | .longLong => DEFINE_S 64 LLONG_MIN LLONG_MAX
  | .unsignedChar => DEFINE_U 8 UCHAR_MAX
  | .unsignedShort => DEFINE_U 16 USHRT_MAX
  | .unsignedInt => DEFINE_U 32 UINT_MAX
  | .unsignedLong => DEFINE_U 64 ULONG_MAX
  | .unsignedLongLong => DEFINE_U 64 ULLONG_MAX

-- ── What is converted ────────────────────────────────────────────────────────

namespace IntegerType

variable (T : IntegerType)

def bits : IntegerType → Nat
  | char | unsignedChar => 8
  | short | unsignedShort => 16
  | int | unsignedInt => 32
  | long | longLong | unsignedLong | unsignedLongLong => 64

def isUnsigned : IntegerType → Bool
  | char | short | int | long | longLong => false
  | unsignedChar | unsignedShort | unsignedInt | unsignedLong | unsignedLongLong => true

/-- The numbers of the type. -/
def InRange (v : Int) : Prop :=
  if T.isUnsigned then 0 ≤ v ∧ v < 2 ^ T.bits
  else -2 ^ (T.bits - 1) ≤ v ∧ v < 2 ^ (T.bits - 1)

end IntegerType

/-- A text that stands for a number of the type is converted to that number, and any
    other to the default. -/
def Exact (T : IntegerType) (text : Text) (defval : Int) : Prop :=
  (∀ v, Denotes text v → T.InRange v → convert T text defval = (v, true)) ∧
    ((¬ ∃ v, Denotes text v ∧ T.InRange v) → convert T text defval = (defval, false))

/-- The text of a negative number that is one of the type once it is wrapped around. -/
def WrapsInto (T : IntegerType) (text : Text) : Prop :=
  T.isUnsigned ∧ ∃ v, Denotes text v ∧ -2 ^ 64 < v ∧ v < 0 ∧ v + 2 ^ 64 < 2 ^ T.bits

theorem bits_cases (T : IntegerType) :
    T.bits = 8 ∨ T.bits = 16 ∨ T.bits = 32 ∨ T.bits = 64 := by
  cases T <;> decide

/-- The limits are those of the type. -/
theorem convert_eq (T : IntegerType) : convert T =
    if T.isUnsigned then DEFINE_U T.bits (2 ^ T.bits - 1)
    else DEFINE_S T.bits (-2 ^ (T.bits - 1)) (2 ^ (T.bits - 1) - 1) := by
  cases T <;> rfl

-- ── What is consumed ─────────────────────────────────────────────────────────

section Consumed

variable {R F : Type} {strto : Text → Strto R} {outside : R → Bool} {static_cast : R → F}
  {text : Text} {r : R}

/-- The function converts all of the text, without error.  It converts nothing of an
    empty one. -/
def Consumes (strto : Text → Strto R) (text : Text) (r : R) : Prop :=
  text ≠ [] ∧ (strto text).rest = [] ∧ (strto text).errno = false ∧ (strto text).value = r

theorem define_of_consumes (h : Consumes strto text r) (defval : F) :
    DEFINE strto outside static_cast text defval =
      if outside r then (defval, false) else (static_cast r, true) := by
  obtain ⟨hne, hrest, herrno, rfl⟩ := h
  rw [DEFINE, if_neg hne, if_neg]
  rintro (h | h)
  · exact Bool.false_ne_true (herrno.symm.trans h)
  · exact h hrest

theorem define_of_not_consumes (h : ¬ ∃ r, Consumes strto text r) (defval : F) :
    DEFINE strto outside static_cast text defval = (defval, false) := by
  rw [DEFINE]
  split
  · rfl
  · next hne =>
      rw [if_pos]
      by_contra hnot
      rw [not_or, not_not, Bool.not_eq_true] at hnot
      exact h ⟨_, hne, hnot.2, hnot.1, rfl⟩

end Consumed

variable {text : Text} {v r : Int}

theorem denotes_ne_nil (h : Denotes text v) : text ≠ [] := by
  rintro rfl
  obtain ⟨r, hscan, -⟩ := denotes_iff.mp h
  cases hscan

/-- `strtoll` converts the numbers that it can return. -/
theorem consumes_strtoll_iff :
    Consumes strtoll text v ↔ Denotes text v ∧ LLONG_MIN ≤ v ∧ v ≤ LLONG_MAX := by
  constructor
  · rintro ⟨hne, hrest, herrno, rfl⟩
    unfold strtoll at hrest herrno ⊢
    cases hscan : scan text with
    | none =>
        rw [hscan] at hrest
        exact absurd hrest hne
    | some s =>
        simp only [hscan] at hrest herrno ⊢
        split at herrno
        · cases herrno
        · next hlow =>
            rw [if_neg hlow] at hrest ⊢
            split at herrno
            · cases herrno
            · next hhigh =>
                rw [if_neg hhigh] at hrest ⊢
                exact ⟨denotes_iff.mpr ⟨s, hscan, hrest, rfl⟩, not_lt.mp hlow, not_lt.mp hhigh⟩
  · rintro ⟨hdenotes, hlow, hhigh⟩
    obtain ⟨s, hscan, hrest, rfl⟩ := denotes_iff.mp hdenotes
    have heq : strtoll text = ⟨s.value, s.rest, false⟩ := by
      rw [strtoll, hscan]
      exact (if_neg (not_lt.mpr hlow)).trans (if_neg (not_lt.mpr hhigh))
    rw [Consumes, heq]
    exact ⟨denotes_ne_nil hdenotes, hrest, rfl, rfl⟩

theorem abs_value (s : Scanned) : (s.magnitude : Int) ≤ ULLONG_MAX ↔
    -2 ^ 64 < s.value ∧ s.value < 2 ^ 64 := by
  rw [Scanned.value, ULLONG_MAX]
  split <;> omega

/-- `strtoull` converts the numbers whose size it can return, wrapped around. -/
theorem consumes_strtoull_iff : Consumes strtoull text r ↔
    ∃ v, Denotes text v ∧ -2 ^ 64 < v ∧ v < 2 ^ 64 ∧ r = v % 2 ^ 64 := by
  constructor
  · rintro ⟨hne, hrest, herrno, rfl⟩
    unfold strtoull at hrest herrno ⊢
    cases hscan : scan text with
    | none =>
        rw [hscan] at hrest
        exact absurd hrest hne
    | some s =>
        simp only [hscan] at hrest herrno ⊢
        split at herrno
        · cases herrno
        · next hsize =>
            rw [if_neg hsize] at hrest ⊢
            obtain ⟨hlow, hhigh⟩ := (abs_value s).mp (not_lt.mp hsize)
            exact ⟨s.value, denotes_iff.mpr ⟨s, hscan, hrest, rfl⟩, hlow, hhigh, rfl⟩
  · rintro ⟨v, hdenotes, hlow, hhigh, rfl⟩
    obtain ⟨s, hscan, hrest, rfl⟩ := denotes_iff.mp hdenotes
    have heq : strtoull text = ⟨s.value % 2 ^ 64, s.rest, false⟩ := by
      rw [strtoull, hscan]
      exact if_neg (not_lt.mpr ((abs_value s).mpr ⟨hlow, hhigh⟩))
    rw [Consumes, heq]
    exact ⟨denotes_ne_nil hdenotes, hrest, rfl, rfl⟩

-- ── Integers ─────────────────────────────────────────────────────────────────

theorem bits_pow (T : IntegerType) : (2 : Int) ^ T.bits = 2 * 2 ^ (T.bits - 1) ∧
    0 < (2 : Int) ^ (T.bits - 1) ∧ (2 : Int) ^ (T.bits - 1) ≤ 2 ^ 63 := by
  rcases bits_cases T with h | h | h | h <;> rw [h] <;> decide

theorem bmod_of_inRange {T : IntegerType} (hlow : -2 ^ (T.bits - 1) ≤ v)
    (hhigh : v < 2 ^ (T.bits - 1)) : v.bmod (2 ^ T.bits) = v := by
  have hpow := (bits_pow T).1
  refine Int.bmod_eq_of_le ?_ ?_ <;> push_cast <;> omega

/-- `DEFINE_S` is exact. -/
theorem exact_signed {T : IntegerType} (hT : T.isUnsigned = false) (text : Text) (defval : Int) :
    Exact T text defval := by
  have hrange : ∀ v, T.InRange v ↔ -2 ^ (T.bits - 1) ≤ v ∧ v < 2 ^ (T.bits - 1) := by
    intro v
    rw [IntegerType.InRange, hT, if_neg Bool.false_ne_true]
  have hpow := bits_pow T
  rw [Exact, convert_eq, hT, if_neg Bool.false_ne_true, DEFINE_S]
  constructor
  · intro v hdenotes hv
    obtain ⟨hlow, hhigh⟩ := (hrange v).mp hv
    have hconsumes : Consumes strtoll text v := by
      rw [consumes_strtoll_iff, LLONG_MIN, LLONG_MAX]
      exact ⟨hdenotes, by omega, by omega⟩
    rw [define_of_consumes hconsumes, if_neg, bmod_of_inRange hlow hhigh]
    simp only [Bool.or_eq_true, decide_eq_true_eq]
    omega
  · intro hnot
    by_cases hconsumes : ∃ r, Consumes strtoll text r
    · obtain ⟨r, hr⟩ := hconsumes
      have hout : ¬ T.InRange r := fun h => hnot ⟨r, (consumes_strtoll_iff.mp hr).1, h⟩
      rw [hrange] at hout
      rw [define_of_consumes hr, if_pos]
      simp only [Bool.or_eq_true, decide_eq_true_eq]
      omega
    · exact define_of_not_consumes hconsumes defval

/-- `DEFINE_U` is exact but for what wraps around into the type. -/
theorem exact_unsigned_iff {T : IntegerType} (hT : T.isUnsigned = true) (text : Text)
    (defval : Int) : Exact T text defval ↔ ¬ WrapsInto T text := by
  have hrange : ∀ v, T.InRange v ↔ 0 ≤ v ∧ v < 2 ^ T.bits := by
    intro v
    rw [IntegerType.InRange, if_pos hT]
  have hpow := bits_pow T
  rw [Exact, convert_eq, if_pos hT, DEFINE_U]
  constructor
  · rintro ⟨-, hinvalid⟩ ⟨-, v, hdenotes, hlow, hneg, hhigh⟩
    have hmod : v % 2 ^ 64 = v + 2 ^ 64 := by omega
    have hconsumes : Consumes strtoull text (v + 2 ^ 64) :=
      consumes_strtoull_iff.mpr ⟨v, hdenotes, hlow, by omega, hmod.symm⟩
    have hnot : ¬ ∃ w, Denotes text w ∧ T.InRange w := by
      rintro ⟨w, hw, hin⟩
      rw [hrange, hw.unique hdenotes] at hin
      omega
    have hvalid := hinvalid hnot
    rw [define_of_consumes hconsumes, if_neg] at hvalid
    · cases hvalid
    · rw [decide_eq_true_eq]
      omega
  · intro hwraps
    constructor
    · intro v hdenotes hv
      obtain ⟨hlow, hhigh⟩ := (hrange v).mp hv
      have hconsumes : Consumes strtoull text v :=
        consumes_strtoull_iff.mpr ⟨v, hdenotes, by omega, by omega, by omega⟩
      rw [define_of_consumes hconsumes, if_neg, Int.emod_eq_of_lt hlow hhigh]
      rw [decide_eq_true_eq]
      omega
    · intro hnot
      by_cases hconsumes : ∃ r, Consumes strtoull text r
      · obtain ⟨r, hr⟩ := hconsumes
        obtain ⟨v, hdenotes, hlow, hhigh, rfl⟩ := consumes_strtoull_iff.mp hr
        have hout : ¬ T.InRange v := fun h => hnot ⟨v, hdenotes, h⟩
        rw [hrange] at hout
        rw [define_of_consumes hr, if_pos]
        rw [decide_eq_true_eq]
        by_cases hneg : v < 0
        · -- Wrapped around, it is above all numbers of the type.
          have habove : ¬ v + 2 ^ 64 < 2 ^ T.bits :=
            fun h => hwraps ⟨hT, v, hdenotes, hlow, hneg, h⟩
          omega
        · omega
      · exact define_of_not_consumes hconsumes defval

/-- **EXACT, IF NOTHING WRAPS AROUND.**  A text is converted to the number of the type
    that it stands for, and to the default if it stands for none, unless it is the text
    of a negative number that is one of an unsigned type once it is wrapped around. -/
theorem convert_exact_iff (T : IntegerType) (text : Text) (defval : Int) :
    Exact T text defval ↔ ¬ WrapsInto T text := by
  cases hT : T.isUnsigned with
  | false =>
      refine iff_of_true (exact_signed hT text defval) ?_
      rintro ⟨h, -⟩
      rw [hT] at h
      exact Bool.false_ne_true h
  | true => exact exact_unsigned_iff hT text defval

/-- Minus one is `ULONG_MAX`, and is said to be valid. -/
theorem minus_one_is_valid : convert .unsignedLong ['-', '1'] 0 = (ULONG_MAX, true) ∧
    ¬ Exact .unsignedLong ['-', '1'] 0 := by
  have hvalid : convert .unsignedLong ['-', '1'] 0 = (ULONG_MAX, true) := by decide
  refine ⟨hvalid, ?_⟩
  rintro ⟨-, hinvalid⟩
  have hnot : ¬ ∃ v, Denotes ['-', '1'] v ∧ IntegerType.unsignedLong.InRange v := by
    rintro ⟨v, hv, hin⟩
    have hminus : Denotes ['-', '1'] (-1) := denotes_iff.mpr ⟨⟨true, 1, []⟩, rfl, rfl, rfl⟩
    rw [hv.unique hminus] at hin
    exact absurd hin.1 (by decide)
  have heq := hvalid.symm.trans (hinvalid hnot)
  cases heq

-- ── Floating point ───────────────────────────────────────────────────────────

/-- A `long double`, as an exact number. -/
inductive LongDouble
  | finite (r : ℚ)
  | inf (negative : Bool)
  | nan

namespace LongDouble

/-- `<` with a finite number. -/
def lt : LongDouble → ℚ → Bool
  | finite r, q => r < q
  | inf negative, _ => negative
  | nan, _ => false

/-- `>` with a finite number. -/
def gt : LongDouble → ℚ → Bool
  | finite r, q => r > q
  | inf negative, _ => !negative
  | nan, _ => false

end LongDouble

/-- `DEFINE_D`. -/
def DEFINE_D {F : Type} (min max : ℚ) (strtold : Text → Strto LongDouble)
    (static_cast : LongDouble → F) : Text → F → F × Bool :=
  DEFINE strtold (fun r => r.lt min || r.gt max) static_cast

/-- The types that are not. -/
inductive FloatingType
  | float
  | double
  | longDouble
deriving DecidableEq

def FLT_MIN : ℚ := 1 / 2 ^ 126
def FLT_MAX : ℚ := (2 ^ 24 - 1) * 2 ^ 104
def DBL_MIN : ℚ := 1 / 2 ^ 1022
def DBL_MAX : ℚ := (2 ^ 53 - 1) * 2 ^ 971
def LDBL_MIN : ℚ := 1 / 2 ^ 16382
def LDBL_MAX : ℚ := (2 ^ 64 - 1) * 2 ^ 16320

namespace FloatingType

/-- The least positive number that is not subnormal. -/
def min : FloatingType → ℚ
  | float => FLT_MIN
  | double => DBL_MIN
  | longDouble => LDBL_MIN

/-- The largest finite number. -/
def max : FloatingType → ℚ
  | float => FLT_MAX
  | double => DBL_MAX
  | longDouble => LDBL_MAX

end FloatingType

/-- `convert` to a floating type. -/
def convertFloating {F : Type} (T : FloatingType) : (Text → Strto LongDouble) →
    (LongDouble → F) → Text → F → F × Bool :=
  DEFINE_D T.min T.max

section Floating

variable {F : Type} (T : FloatingType) (strtold : Text → Strto LongDouble)
  (static_cast : LongDouble → F) (text : Text) (defval : F)

/-- A text of a number between minus and plus the largest of the type is converted to
    that number, and any other to the default. -/
def ExactFloating : Prop :=
  (∀ r, Consumes strtold text (.finite r) → -T.max ≤ r → r ≤ T.max →
    convertFloating T strtold static_cast text defval = (static_cast (.finite r), true)) ∧
  ((¬ ∃ r, Consumes strtold text (.finite r) ∧ -T.max ≤ r ∧ r ≤ T.max) →
    convertFloating T strtold static_cast text defval = (defval, false))

/-- The text of a number that is below the least normal one, or of no number. -/
def IsLost : Prop :=
  Consumes strtold text .nan ∨
    ∃ r, Consumes strtold text (.finite r) ∧ -T.max ≤ r ∧ r < T.min

theorem min_pos : 0 < T.min := by
  cases T <;> simp only [FloatingType.min, FLT_MIN, DBL_MIN, LDBL_MIN] <;> positivity

theorem inv_pow_le_one (k : Nat) : 1 / (2 : ℚ) ^ k ≤ 1 :=
  div_le_one_of_le₀ (one_le_pow₀ one_le_two) (by positivity)

theorem one_le_mul_pow {m : ℚ} (hm : 1 ≤ m) (k : Nat) : 1 ≤ m * 2 ^ k :=
  one_le_mul_of_one_le_of_one_le hm (one_le_pow₀ one_le_two)

/-- One is between the two. -/
theorem min_le_one_le_max : T.min ≤ 1 ∧ 1 ≤ T.max := by
  cases T with
  | float => exact ⟨inv_pow_le_one 126, one_le_mul_pow (by norm_num) 104⟩
  | double => exact ⟨inv_pow_le_one 1022, one_le_mul_pow (by norm_num) 971⟩
  | longDouble => exact ⟨inv_pow_le_one 16382, one_le_mul_pow (by norm_num) 16320⟩

/-- **THE WHOLE RANGE, IF IT WERE POSITIVE.**  A text is converted to the number of the
    type that it stands for, and to the default if it stands for none, unless that
    number is below the least normal one, or it is not a number and said to be valid. -/
theorem convert_floating_exact_iff :
    ExactFloating T strtold static_cast text defval ↔ ¬ IsLost T strtold text := by
  have hmin := min_pos T
  obtain ⟨hone, hmax⟩ := min_le_one_le_max T
  rw [ExactFloating, convertFloating, DEFINE_D]
  constructor
  · rintro ⟨hvalid, hinvalid⟩ (hnan | ⟨r, hr, hlow, hhigh⟩)
    · have hnot : ¬ ∃ r, Consumes strtold text (.finite r) ∧ -T.max ≤ r ∧ r ≤ T.max := by
        rintro ⟨r, hr, -⟩
        have heq := hr.2.2.2.symm.trans hnan.2.2.2
        cases heq
      have heq := hinvalid hnot
      rw [define_of_consumes hnan, if_neg (by exact Bool.false_ne_true)] at heq
      exact Bool.false_ne_true (congrArg Prod.snd heq).symm
    · have hout : (LongDouble.lt (.finite r) T.min || LongDouble.gt (.finite r) T.max) = true := by
        rw [LongDouble.lt, decide_eq_true hhigh, Bool.true_or]
      have heq := hvalid r hr hlow (by linarith)
      rw [define_of_consumes hr, if_pos hout] at heq
      exact Bool.false_ne_true (congrArg Prod.snd heq)
  · intro hlost
    constructor
    · intro r hr hlow hhigh
      have habove : ¬ r < T.min := fun h => hlost (Or.inr ⟨r, hr, hlow, h⟩)
      rw [define_of_consumes hr, if_neg]
      rw [LongDouble.lt, LongDouble.gt, decide_eq_false habove,
        decide_eq_false (not_lt.mpr hhigh)]
      decide
    · intro hnot
      by_cases hconsumes : ∃ r, Consumes strtold text r
      · obtain ⟨r, hr⟩ := hconsumes
        rw [define_of_consumes hr, if_pos]
        cases r with
        | finite r =>
            by_cases hhigh : r ≤ T.max
            · have hlow : ¬ -T.max ≤ r := fun h => hnot ⟨r, hr, h, hhigh⟩
              have hbelow : r < T.min := by linarith
              rw [LongDouble.lt, decide_eq_true hbelow, Bool.true_or]
            · rw [LongDouble.gt, decide_eq_true (not_le.mp hhigh), Bool.or_true]
        | inf negative => cases negative <;> rfl
        | nan => exact absurd (Or.inl hr) hlost
      · exact define_of_not_consumes hconsumes defval

end Floating

/-- `strtold`, of what is an integer in print. -/
def strtoldInteger (nptr : Text) : Strto LongDouble :=
  match scan nptr with
  | none => ⟨.finite 0, nptr, false⟩
  | some r => ⟨.finite r.value, r.rest, false⟩

/-- Zero is below `DBL_MIN`, and is said to be invalid. -/
theorem zero_is_lost :
    convertFloating .double strtoldInteger id ['0'] (.finite 1) = (.finite 1, false) ∧
      ¬ ExactFloating .double strtoldInteger id ['0'] (.finite 1) := by
  have hzero : Consumes strtoldInteger ['0'] (.finite 0) :=
    ⟨List.cons_ne_nil _ _, rfl, rfl, rfl⟩
  have hlost : convertFloating .double strtoldInteger id ['0'] (.finite 1) =
      (.finite 1, false) := by
    rw [convertFloating, DEFINE_D, define_of_consumes hzero, if_pos]
    rw [LongDouble.lt, decide_eq_true (min_pos .double), Bool.true_or]
  refine ⟨hlost, ?_⟩
  rintro ⟨hvalid, -⟩
  have hmax := (min_le_one_le_max .double).2
  have heq := hvalid 0 hzero (by linarith) (by linarith)
  exact Bool.false_ne_true (congrArg Prod.snd (hlost.symm.trans heq))

end FlinterConvert
