import Flinter.DecimalProofs

/-! # Sums, differences, products and comparisons of decimals

    `Add`, `Sub` and `compare` bring both operands to the larger scale first,
    the object itself or a copy of the other; `Add`, `Sub` and `Mul` clean up
    behind.  The scale has no bound here, so nothing is lost on the way: what
    they leave is exact, and in canonical form. -/

namespace FlinterDecimal

namespace Decimal

variable {a b d : Decimal} {k : Nat}

-- ── The code ─────────────────────────────────────────────────────────────────

/-- `Upscale`: the integer and the scale afterwards. -/
def upscale (d : Decimal) (s : Nat) : Int × Nat := (d.v * 10 ^ s, d.scale + s)

/-- `mpz_cmp`, of which the sign counts. -/
def mpzCmp (v w : Int) : Int := (v - w).sign

/-- `Add`. -/
def add (a : Decimal) (o : Operand) : Decimal :=
  let b := o.get a
  if a.scale < b.scale then
    let (v, scale) := a.upscale (b.scale - a.scale)
    a.assign (v + b.v) scale
  else if a.scale > b.scale then
    let (v, _) := b.copy.upscale (a.scale - b.scale)
    a.assign (a.v + v) a.scale
  else
    a.assign (a.v + b.v) a.scale

/-- `Sub`. -/
def sub (a : Decimal) : Operand → Decimal
  | .itself => a.assign 0 0
  | .other b =>
    if a.scale < b.scale then
      let (v, scale) := a.upscale (b.scale - a.scale)
      a.assign (v - b.v) scale
    else if a.scale > b.scale then
      let (v, _) := b.copy.upscale (a.scale - b.scale)
      a.assign (a.v - v) a.scale
    else
      a.assign (a.v - b.v) a.scale

/-- `Mul`. -/
def mul (a : Decimal) (o : Operand) : Decimal :=
  a.assign (a.v * (o.get a).v) (a.scale + (o.get a).scale)

/-- A number and its negation end with zeros alike. -/
theorem canonical_neg (d : Decimal) : d.scale = 0 ∨ -d.v % 10 ≠ 0 :=
  d.canonical.imp_right fun h => by omega

/-- `operator -`, of one operand. -/
def neg (d : Decimal) : Decimal :=
  { d.copy with
    v := -d.v
    canonical := canonical_neg d }

/-- `compare`. -/
def compare (a : Decimal) : Operand → Int
  | .itself => 0
  | .other b =>
    if a.scale = b.scale then mpzCmp a.v b.v
    else if a.scale < b.scale then
      mpzCmp (a.copy.upscale (b.scale - a.scale)).1 b.v
    else
      mpzCmp a.v (b.copy.upscale (a.scale - b.scale)).1

/-- `operator >`. -/
def gt (a : Decimal) (o : Operand) : Bool := a.compare o > 0

/-- `operator <`. -/
def lt (a : Decimal) (o : Operand) : Bool := a.compare o < 0

/-- `operator ==`. -/
def eq (a : Decimal) (o : Operand) : Bool := a.compare o = 0

/-- `operator !=`. -/
def ne (a : Decimal) (o : Operand) : Bool := a.compare o ≠ 0

/-- `operator >=`. -/
def ge (a : Decimal) (o : Operand) : Bool := a.compare o ≥ 0

/-- `operator <=`. -/
def le (a : Decimal) (o : Operand) : Bool := a.compare o ≤ 0

/-- Scale 0, or no zero at the end. -/
def Canonical (d : Decimal) : Prop := d.scale = 0 ∨ d.v % 10 ≠ 0

-- ── Bringing two scales together ─────────────────────────────────────────────

@[simp] theorem copy_v : d.copy.v = d.v := rfl
@[simp] theorem copy_scale : d.copy.scale = d.scale := rfl

theorem pow_ne_zero (k : Nat) : (10 : ℚ) ^ k ≠ 0 := by positivity

/-- At a larger scale the same number has a larger integer. -/
theorem value_upscale (h : d.scale ≤ k) :
    ((d.upscale (k - d.scale)).1 : ℚ) / 10 ^ k = d.value := by
  obtain ⟨j, rfl⟩ := Nat.exists_eq_add_of_le h
  rw [upscale, value, Nat.add_sub_cancel_left]
  push_cast
  rw [pow_add, mul_div_mul_right _ _ (pow_ne_zero j)]

theorem upscale_scale (h : d.scale ≤ k) : (d.upscale (k - d.scale)).2 = k :=
  Nat.add_sub_cancel' h

/-- Integers of one scale compare as the numbers do. -/
theorem mpzCmp_value {v w : Int} {x y : ℚ} (hx : (v : ℚ) / 10 ^ k = x)
    (hy : (w : ℚ) / 10 ^ k = y) :
    mpzCmp v w = (SignType.sign (x - y) : ℤ) := by
  have hpos : (0 : ℚ) < 10 ^ k := by positivity
  have hdiff : ((v - w : Int) : ℚ) = (x - y) * 10 ^ k := by
    rw [← hx, ← hy, ← sub_div, div_mul_cancel₀ _ (pow_ne_zero k)]
    push_cast
    rfl
  have hsign : SignType.sign ((v - w : Int) : ℚ) = SignType.sign (x - y) := by
    rw [hdiff, sign_mul, sign_pos hpos, mul_one]
  rw [mpzCmp, ← hsign]
  rcases lt_trichotomy (v - w) 0 with h | h | h
  · rw [Int.sign_eq_neg_one_of_neg h, sign_neg (Int.cast_lt_zero.mpr h)]
    rfl
  · rw [h, Int.cast_zero, sign_zero]
    rfl
  · rw [Int.sign_eq_one_of_pos h, sign_pos (Int.cast_pos.mpr h)]
    rfl

-- ── Exactness ────────────────────────────────────────────────────────────────

theorem add_value (a : Decimal) (o : Operand) :
    (a.add o).value = a.value + (o.get a).value := by
  rw [add]
  dsimp only
  split
  · next hlt =>
      rw [assign_value, upscale_scale hlt.le, Int.cast_add, add_div,
        value_upscale hlt.le]
      rfl
  · split
    · next hgt =>
        rw [assign_value, Int.cast_add, add_div]
        exact congrArg (a.value + ·) (value_upscale (d := (o.get a).copy) hgt.le)
    · have heq : a.scale = (o.get a).scale := by omega
      rw [assign_value, Int.cast_add, add_div, value, value, ← heq]

theorem sub_value (a : Decimal) (o : Operand) :
    (a.sub o).value = a.value - (o.get a).value := by
  cases o with
  | itself =>
      rw [sub, assign_value, Int.cast_zero, zero_div, Operand.get, sub_self]
  | other b =>
      rw [sub, Operand.get]
      split
      · next hlt =>
          dsimp only
          rw [assign_value, upscale_scale hlt.le, Int.cast_sub, sub_div,
            value_upscale hlt.le]
          rfl
      · split
        · next hgt =>
            dsimp only
            rw [assign_value, Int.cast_sub, sub_div]
            exact congrArg (a.value - ·) (value_upscale (d := b.copy) hgt.le)
        · have heq : a.scale = b.scale := by omega
          rw [assign_value, Int.cast_sub, sub_div, value, value, ← heq]

theorem mul_value (a : Decimal) (o : Operand) :
    (a.mul o).value = a.value * (o.get a).value := by
  rw [mul, assign_value, value, value, div_mul_div_comm, pow_add, Int.cast_mul]

theorem neg_value (d : Decimal) : d.neg.value = -d.value := by
  rw [neg, value, value, Int.cast_neg, neg_div]
  rfl

theorem compare_value (a : Decimal) (o : Operand) :
    a.compare o = (SignType.sign (a.value - (o.get a).value) : ℤ) := by
  cases o with
  | itself =>
      rw [compare, Operand.get, sub_self, sign_zero]
      rfl
  | other b =>
      rw [compare, Operand.get]
      split
      · next heq => exact mpzCmp_value (k := b.scale) (by rw [← heq]; rfl) rfl
      · split
        · next hlt => exact mpzCmp_value (value_upscale (d := a.copy) hlt.le) rfl
        · have hle : b.scale ≤ a.scale := by omega
          exact mpzCmp_value rfl (value_upscale (d := b.copy) hle)

/-- What holds of the result of `compare` holds of the numbers. -/
theorem compare_iff (a : Decimal) (o : Operand) :
    (a.compare o < 0 ↔ a.value < (o.get a).value) ∧
      (a.compare o = 0 ↔ a.value = (o.get a).value) ∧
      (a.compare o > 0 ↔ a.value > (o.get a).value) := by
  rw [compare_value]
  generalize (o.get a).value = y
  rcases lt_trichotomy a.value y with h | h | h
  · rw [sign_neg (sub_neg.mpr h)]
    exact ⟨iff_of_true (by decide) h, iff_of_false (by decide) h.ne,
      iff_of_false (by decide) h.asymm⟩
  · rw [h, sub_self, sign_zero]
    exact ⟨iff_of_false (by decide) (lt_irrefl y), iff_of_true rfl rfl,
      iff_of_false (by decide) (lt_irrefl y)⟩
  · rw [sign_pos (sub_pos.mpr h)]
    exact ⟨iff_of_false (by decide) h.asymm, iff_of_false (by decide) h.ne',
      iff_of_true (by decide) h⟩

end Decimal

open Decimal

/-- **ARITHMETIC IS EXACT**, with another object or with itself, and leaves what
    is canonical; `compare` and the six operators order decimals as the numbers
    that they stand for. -/
theorem arithmetic_exact (a : Decimal) (o : Operand) :
    ((a.add o).value = a.value + (o.get a).value ∧ (a.add o).Canonical) ∧
    ((a.sub o).value = a.value - (o.get a).value ∧ (a.sub o).Canonical) ∧
    ((a.mul o).value = a.value * (o.get a).value ∧ (a.mul o).Canonical) ∧
    (a.neg.value = -a.value ∧ a.neg.Canonical) ∧
    a.compare o = (SignType.sign (a.value - (o.get a).value) : ℤ) ∧
    (a.lt o = true ↔ a.value < (o.get a).value) ∧
    (a.gt o = true ↔ a.value > (o.get a).value) ∧
    (a.le o = true ↔ a.value ≤ (o.get a).value) ∧
    (a.ge o = true ↔ a.value ≥ (o.get a).value) ∧
    (a.eq o = true ↔ a.value = (o.get a).value) ∧
    (a.ne o = true ↔ a.value ≠ (o.get a).value) := by
  obtain ⟨hlt, heq, hgt⟩ := compare_iff a o
  refine ⟨⟨add_value a o, (a.add o).canonical⟩, ⟨sub_value a o, (a.sub o).canonical⟩,
    ⟨mul_value a o, (a.mul o).canonical⟩, ⟨neg_value a, a.neg.canonical⟩,
    compare_value a o, ?_, ?_, ?_, ?_, ?_, ?_⟩
  · rw [lt, decide_eq_true_eq, hlt]
  · rw [gt, decide_eq_true_eq, hgt]
  · rw [le, decide_eq_true_eq, ← not_lt, ← not_lt]
    exact not_congr hgt
  · rw [ge, decide_eq_true_eq, ge_iff_le, ← not_lt, hlt, ge_iff_le, not_lt]
  · rw [eq, decide_eq_true_eq, heq]
  · rw [ne, decide_eq_true_eq, ne_eq, heq]

end FlinterDecimal
