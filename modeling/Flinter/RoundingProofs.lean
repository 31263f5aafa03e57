import Mathlib.Algebra.Order.Field.Basic
import Mathlib.Algebra.Order.Field.Rat
import Mathlib.Algebra.Order.Ring.Cast
import Mathlib.Algebra.Ring.Int.Parity
import Mathlib.Data.Int.Order.Lemmas
import Mathlib.Data.Sign.Basic
import Mathlib.Tactic.FieldSimp
import Mathlib.Tactic.Linarith
import Mathlib.Tactic.Ring

/-! # Rounding to an integer

    Five ways to round a rational number to an integer: to the nearest one, with
    ties to the even one or away from zero, or in a direction.  Each singles out
    one integer.

    An algorithm that rounds a quotient has it truncated first: the integer part
    is at most one too near to zero, by a fraction that the remainder tells.
    Whatever is done about the fraction is then one of the lemmas here. -/

namespace Roundings

inductive Mode where
  | tiesToEven
  | tiesAwayFromZero
  | towardsZero
  | upward
  | downward
deriving DecidableEq, Repr

/-- `q` is `x` rounded. -/
def Rounds : Mode → ℚ → ℤ → Prop
  | .tiesToEven, x, q => |x - q| < 1 / 2 ∨ |x - q| = 1 / 2 ∧ Even q
  | .tiesAwayFromZero, x, q => |x - q| < 1 / 2 ∨ |x - q| = 1 / 2 ∧ |x| < |(q : ℚ)|
  | .towardsZero, x, q => |x - q| < 1 ∧ |(q : ℚ)| ≤ |x| ∧ 0 ≤ x * q
  | .upward, x, q => x ≤ q ∧ (q : ℚ) < x + 1
  | .downward, x, q => (q : ℚ) ≤ x ∧ x < q + 1

variable {m : Mode} {x f : ℚ} {q q' dir : ℤ}

-- ── One result ───────────────────────────────────────────────────────────────

/-- Two integers less than one apart are equal. -/
theorem eq_of_abs_sub_lt (h : |(q : ℚ) - q'| < 1) : q = q' := by
  have hcast : ((|q - q'| : ℤ) : ℚ) < (1 : ℤ) := by
    push_cast
    exact h
  have hlt : |q - q'| < 1 := Int.cast_lt.mp hcast
  exact sub_eq_zero.mp (Int.abs_lt_one_iff.mp hlt)

/-- Of two that are as near as can be, either they are one or both are a half
    away. -/
theorem eq_or_halves (h : |x - q| ≤ 1 / 2) (h' : |x - q'| ≤ 1 / 2) :
    q = q' ∨ |q - q'| = 1 ∧ |x - q| = 1 / 2 ∧ |x - q'| = 1 / 2 := by
  have hle : |(q : ℚ) - q'| ≤ |x - q| + |x - q'| := by
    have heq : (q : ℚ) - q' = -(x - q) + (x - q') := by ring
    rw [heq]
    exact (abs_add_le _ _).trans_eq (by rw [abs_neg])
  rcases lt_or_eq_of_le (hle.trans (add_le_add h h')) with hlt | heq
  · exact .inl (eq_of_abs_sub_lt (hlt.trans_eq (by norm_num)))
  · have hone : ((|q - q'| : ℤ) : ℚ) = (1 : ℤ) := by
      push_cast
      rw [heq]
      norm_num
    exact .inr ⟨Int.cast_inj.mp hone, by linarith, by linarith⟩

/-- **ONE RESULT**: a number is rounded to one integer. -/
theorem Rounds.unique (h : Rounds m x q) (h' : Rounds m x q') : q = q' := by
  cases m with
  | tiesToEven =>
      have hle : ∀ {q : ℤ}, Rounds .tiesToEven x q → |x - q| ≤ 1 / 2 := by
        rintro q (hlt | ⟨heq, -⟩)
        · exact hlt.le
        · exact heq.le
      rcases eq_or_halves (hle h) (hle h') with heq | ⟨hone, hhalf, hhalf'⟩
      · exact heq
      · have heven : Even q := (h.resolve_left (not_lt.mpr hhalf.ge)).2
        have heven' : Even q' := (h'.resolve_left (not_lt.mpr hhalf'.ge)).2
        obtain ⟨k, hk⟩ := heven.sub heven'
        rw [hk] at hone
        rcases (abs_eq (by norm_num)).mp hone with hone | hone
        · omega
        · omega
  | tiesAwayFromZero =>
      have hle : ∀ {q : ℤ}, Rounds .tiesAwayFromZero x q → |x - q| ≤ 1 / 2 := by
        rintro q (hlt | ⟨heq, -⟩)
        · exact hlt.le
        · exact heq.le
      rcases eq_or_halves (hle h) (hle h') with heq | ⟨hone, hhalf, hhalf'⟩
      · exact heq
      · have haway := (h.resolve_left (not_lt.mpr hhalf.ge)).2
        have haway' := (h'.resolve_left (not_lt.mpr hhalf'.ge)).2
        -- the middle of two neighbours is not nearer to zero than both
        exfalso
        have hmiddle : 2 * x = q + q' := by
          rcases abs_cases (x - q) with ⟨h₁, -⟩ | ⟨h₁, -⟩
          · rcases abs_cases (x - q') with ⟨h₂, -⟩ | ⟨h₂, -⟩
            · have heq : (q : ℚ) = q' := by linarith
              rw [Int.cast_inj.mp heq, sub_self, abs_zero] at hone
              cases hone
            · linarith
          · rcases abs_cases (x - q') with ⟨h₂, -⟩ | ⟨h₂, -⟩
            · linarith
            · have heq : (q : ℚ) = q' := by linarith
              rw [Int.cast_inj.mp heq, sub_self, abs_zero] at hone
              cases hone
        have hdouble : |(q : ℚ) + q'| < 2 * |(q : ℚ)| := by
          rw [← hmiddle, abs_mul, abs_of_pos (by norm_num)]
          linarith
        have hdouble' : |(q : ℚ) + q'| < 2 * |(q' : ℚ)| := by
          rw [← hmiddle, abs_mul, abs_of_pos (by norm_num)]
          linarith
        have hz : |q + q'| < 2 * |q| := by exact_mod_cast hdouble
        have hz' : |q + q'| < 2 * |q'| := by exact_mod_cast hdouble'
        rw [Int.abs_eq_natAbs] at hone hz hz'
        rw [Int.abs_eq_natAbs] at hz hz'
        omega
  | towardsZero =>
      obtain ⟨hlt, hin, hsign⟩ := h
      obtain ⟨hlt', hin', hsign'⟩ := h'
      refine eq_of_abs_sub_lt (abs_lt.mpr ?_)
      obtain ⟨h₁, h₂⟩ := abs_lt.mp hlt
      obtain ⟨h₃, h₄⟩ := abs_lt.mp hlt'
      rcases lt_trichotomy x 0 with hneg | hzero | hpos
      · have hq := nonpos_of_mul_nonneg_right hsign hneg
        have hq' := nonpos_of_mul_nonneg_right hsign' hneg
        rw [abs_of_neg hneg, abs_of_nonpos hq] at hin
        rw [abs_of_neg hneg, abs_of_nonpos hq'] at hin'
        constructor <;> linarith
      · rw [hzero, abs_zero] at hin hin'
        rw [abs_nonpos_iff.mp hin, abs_nonpos_iff.mp hin']
        constructor <;> norm_num
      · have hq := nonneg_of_mul_nonneg_right hsign hpos
        have hq' := nonneg_of_mul_nonneg_right hsign' hpos
        rw [abs_of_pos hpos, abs_of_nonneg hq] at hin
        rw [abs_of_pos hpos, abs_of_nonneg hq'] at hin'
        constructor <;> linarith
  | upward =>
      refine eq_of_abs_sub_lt (abs_lt.mpr ?_)
      constructor <;> linarith [h.1, h.2, h'.1, h'.2]
  | downward =>
      refine eq_of_abs_sub_lt (abs_lt.mpr ?_)
      constructor <;> linarith [h.1, h.2, h'.1, h'.2]

/-- An integer is rounded to itself. -/
theorem rounds_self (m : Mode) (q : ℤ) : Rounds m q q := by
  have hhalf : |(q : ℚ) - q| < 1 / 2 := by rw [sub_self, abs_zero]; norm_num
  have hone : |(q : ℚ) - q| < 1 := by rw [sub_self, abs_zero]; norm_num
  cases m with
  | tiesToEven => exact .inl hhalf
  | tiesAwayFromZero => exact .inl hhalf
  | towardsZero => exact ⟨hone, le_refl _, mul_self_nonneg _⟩
  | upward => exact ⟨le_refl _, lt_add_one _⟩
  | downward => exact ⟨le_refl _, lt_add_one _⟩

/-- `y` is `x` rounded to `k` digits behind the point. -/
def RoundedTo (m : Mode) (k : ℕ) (x y : ℚ) : Prop :=
  ∃ q : ℤ, Rounds m (x * 10 ^ k) q ∧ y = q / 10 ^ k

theorem RoundedTo.unique {k : ℕ} {y y' : ℚ} (h : RoundedTo m k x y)
    (h' : RoundedTo m k x y') : y = y' := by
  obtain ⟨q, hq, hy⟩ := h
  obtain ⟨q', hq', hy'⟩ := h'
  rw [hy, hy', hq.unique hq']

-- ── Truncation ───────────────────────────────────────────────────────────────

/-- `q` is `x` without the fraction `f`; `dir` is the direction away from
    zero. -/
structure Truncates (x : ℚ) (q dir : ℤ) (f : ℚ) : Prop where
  eq : x = q + dir * f
  unit : dir = 1 ∨ dir = -1
  outward : 0 ≤ dir * q
  nonneg : 0 ≤ f
  lt_one : f < 1

/-- The direction in which a quotient lies. -/
def direction (n d : ℤ) : ℤ := if n.sign = d.sign then 1 else -1

variable {n d : ℤ}

theorem direction_eq (hn : n ≠ 0) (hd : d ≠ 0) :
    direction n d = n.sign * d.sign := by
  rcases lt_or_gt_of_ne hn with hn | hn
  · rcases lt_or_gt_of_ne hd with hd | hd
    · rw [direction, Int.sign_eq_neg_one_of_neg hn,
        Int.sign_eq_neg_one_of_neg hd]; rfl
    · rw [direction, Int.sign_eq_neg_one_of_neg hn,
        Int.sign_eq_one_of_pos hd]; rfl
  · rcases lt_or_gt_of_ne hd with hd | hd
    · rw [direction, Int.sign_eq_one_of_pos hn,
        Int.sign_eq_neg_one_of_neg hd]; rfl
    · rw [direction, Int.sign_eq_one_of_pos hn, Int.sign_eq_one_of_pos hd]; rfl

theorem direction_unit : direction n d = 1 ∨ direction n d = -1 := by
  unfold direction
  split
  · exact .inl rfl
  · exact .inr rfl

/-- The truncated quotient lies there, if it lies anywhere. -/
theorem tdiv_outward (hn : n ≠ 0) (hd : d ≠ 0) :
    0 ≤ direction n d * n.tdiv d := by
  rw [← Int.sign_nonneg_iff, Int.sign_mul, Int.sign_tdiv,
    ← direction_eq hn hd]
  rcases direction_unit (n := n) (d := d) with h | h
  · rw [h]
    split <;> decide
  · rw [h]
    split <;> decide

/-- The remainder lies on the dividend's side, so its quotient lies there too. -/
theorem tmod_outward (hn : n ≠ 0) (hd : d ≠ 0) :
    0 ≤ direction n d * (n.tmod d * d) := by
  have hrem : (n.tmod d).sign = 0 ∨ (n.tmod d).sign = n.sign := by
    rw [Int.sign_tmod]
    split
    · exact .inl rfl
    · exact .inr rfl
  rw [← Int.sign_nonneg_iff, Int.sign_mul, Int.sign_mul]
  rcases hrem with h | h
  · rw [h, zero_mul, mul_zero]
  · rw [h, ← direction_eq hn hd]
    rcases direction_unit (n := n) (d := d) with h | h
    · rw [h]; decide
    · rw [h]; decide

theorem abs_tmod_lt (hd : d ≠ 0) : |n.tmod d| < |d| := by
  rw [Int.abs_eq_natAbs, Int.abs_eq_natAbs, Int.natAbs_tmod]
  exact Int.ofNat_lt.mpr (Nat.mod_lt _ (Int.natAbs_pos.mpr hd))

/-- A quotient of integers, from the truncated one and the remainder. -/
theorem truncates_tdiv (hn : n ≠ 0) (hd : d ≠ 0) :
    Truncates (n / d) (n.tdiv d) (direction n d)
      ((|n.tmod d| : ℤ) / (|d| : ℤ)) := by
  have hd' : (d : ℚ) ≠ 0 := Int.cast_ne_zero.mpr hd
  have hpos : (0 : ℚ) < (|d| : ℤ) := Int.cast_pos.mpr (abs_pos.mpr hd)
  have hsum : (n : ℚ) / d = n.tdiv d + n.tmod d / d := by
    have hdiv : ((n.tdiv d * d + n.tmod d : ℤ) : ℚ) = n := by
      rw [Int.tdiv_mul_add_tmod]
    push_cast at hdiv
    rw [← hdiv, add_div, mul_div_assoc, div_self hd', mul_one]
  have hside : (n.tmod d : ℚ) / d =
      direction n d * ((|n.tmod d| : ℤ) / (|d| : ℤ)) := by
    have hcross : n.tmod d * |d| = direction n d * |n.tmod d| * d := by
      have hout := tmod_outward hn hd
      rcases direction_unit (n := n) (d := d) with h | h
      · rw [h, one_mul] at hout
        rw [h, one_mul]
        rcases lt_or_gt_of_ne hd with hd | hd
        · rw [abs_of_neg hd, abs_of_nonpos (nonpos_of_mul_nonneg_left hout hd)]
          ring
        · rw [abs_of_pos hd, abs_of_nonneg (nonneg_of_mul_nonneg_left hout hd)]
      · rw [h, neg_one_mul, Left.nonneg_neg_iff] at hout
        rw [h]
        rcases lt_or_gt_of_ne hd with hd | hd
        · rw [abs_of_neg hd, abs_of_nonneg (nonneg_of_mul_nonpos_left hout hd)]
          ring
        · rw [abs_of_pos hd, abs_of_nonpos (nonpos_of_mul_nonpos_left hout hd)]
          ring
    rw [← mul_div_assoc, div_eq_div_iff hd' hpos.ne']
    exact_mod_cast hcross
  refine ⟨?_, direction_unit, tdiv_outward hn hd, ?_, ?_⟩
  · rw [hsum, hside]
  · exact div_nonneg (Int.cast_nonneg (abs_nonneg _)) hpos.le
  · rw [div_lt_one hpos]
    exact Int.cast_lt.mpr (abs_tmod_lt hd)

-- ── What is done about the fraction ──────────────────────────────────────────

namespace Truncates

variable (h : Truncates x q dir f)
include h

theorem cases : (dir : ℚ) = 1 ∧ 0 ≤ q ∨ (dir : ℚ) = -1 ∧ q ≤ 0 := by
  have hout := h.outward
  rcases h.unit with hdir | hdir
  · rw [hdir] at hout ⊢
    exact .inl ⟨Int.cast_one, by omega⟩
  · rw [hdir] at hout ⊢
    exact .inr ⟨by norm_num, by omega⟩

/-- What is kept is too near to zero. -/
theorem sign_kept (hf : 0 < f) :
    (SignType.sign ((q : ℚ) - x) : ℤ) = -dir := by
  have hx := h.eq
  rcases h.unit with hdir | hdir
  · rw [hdir, Int.cast_one, one_mul] at hx
    rw [hdir, sign_neg (by linarith)]
    rfl
  · rw [hdir, Int.cast_neg, Int.cast_one, neg_one_mul] at hx
    rw [hdir, sign_pos (by linarith)]
    rfl

/-- What is one further is too far from it. -/
theorem sign_bumped : (SignType.sign (((q + dir : ℤ) : ℚ) - x) : ℤ) = dir := by
  have hx := h.eq
  have hlt := h.lt_one
  rw [Int.cast_add]
  rcases h.unit with hdir | hdir
  · rw [hdir, Int.cast_one, one_mul] at hx
    rw [hdir, Int.cast_one, sign_pos (by linarith)]
    rfl
  · rw [hdir, Int.cast_neg, Int.cast_one, neg_one_mul] at hx
    rw [hdir, Int.cast_neg, Int.cast_one, sign_neg (by linarith)]
    rfl

theorem distance_kept : |x - q| = f := by
  have hx := h.eq
  have hnonneg := h.nonneg
  rcases h.cases with ⟨hdir, -⟩ | ⟨hdir, -⟩
  · rw [hdir, one_mul] at hx
    rw [abs_of_nonneg (by linarith)]
    linarith
  · rw [hdir, neg_one_mul] at hx
    rw [abs_of_nonpos (by linarith)]
    linarith

theorem distance_bumped : |x - (q + dir : ℤ)| = 1 - f := by
  have hx := h.eq
  have hlt := h.lt_one
  rw [Int.cast_add]
  rcases h.cases with ⟨hdir, -⟩ | ⟨hdir, -⟩
  · rw [hdir, one_mul] at hx
    rw [hdir, abs_of_neg (by linarith)]
    linarith
  · rw [hdir, neg_one_mul] at hx
    rw [hdir, abs_of_pos (by linarith)]
    linarith

theorem exact (hf : f = 0) : x = q := by
  rw [h.eq, hf, mul_zero, add_zero]

theorem towardsZero : Rounds .towardsZero x q := by
  have hx := h.eq
  have hnonneg := h.nonneg
  refine ⟨h.distance_kept.trans_lt h.lt_one, ?_⟩
  rcases h.cases with ⟨hdir, hq⟩ | ⟨hdir, hq⟩
  · have hq : (0 : ℚ) ≤ q := Int.cast_nonneg hq
    rw [hdir, one_mul] at hx
    have hx0 : 0 ≤ x := by linarith
    refine ⟨?_, mul_nonneg hx0 hq⟩
    rw [abs_of_nonneg hq, abs_of_nonneg hx0]
    linarith
  · have hq : (q : ℚ) ≤ 0 := Int.cast_nonpos.mpr hq
    rw [hdir, neg_one_mul] at hx
    have hx0 : x ≤ 0 := by linarith
    refine ⟨?_, mul_nonneg_of_nonpos_of_nonpos hx0 hq⟩
    rw [abs_of_nonpos hq, abs_of_nonpos hx0]
    linarith

theorem upward_bumped (hf : 0 < f) (hdir : dir = 1) :
    Rounds .upward x (q + 1) := by
  have hx := h.eq
  have hlt := h.lt_one
  rw [hdir, Int.cast_one, one_mul] at hx
  rw [Rounds, Int.cast_add, Int.cast_one]
  constructor <;> linarith

theorem upward_kept (hdir : dir = -1) : Rounds .upward x q := by
  have hx := h.eq
  have hnonneg := h.nonneg
  have hlt := h.lt_one
  rw [hdir, Int.cast_neg, Int.cast_one, neg_one_mul] at hx
  constructor <;> linarith

theorem downward_bumped (hf : 0 < f) (hdir : dir = -1) :
    Rounds .downward x (q - 1) := by
  have hx := h.eq
  have hlt := h.lt_one
  rw [hdir, Int.cast_neg, Int.cast_one, neg_one_mul] at hx
  rw [Rounds, Int.cast_sub, Int.cast_one]
  constructor <;> linarith

theorem downward_kept (hdir : dir = 1) : Rounds .downward x q := by
  have hx := h.eq
  have hnonneg := h.nonneg
  have hlt := h.lt_one
  rw [hdir, Int.cast_one, one_mul] at hx
  constructor <;> linarith

theorem tiesToEven_kept (hf : f < 1 / 2 ∨ f = 1 / 2 ∧ Even q) :
    Rounds .tiesToEven x q := by
  rw [Rounds, h.distance_kept]
  exact hf

theorem tiesToEven_bumped (hf : 1 / 2 < f ∨ f = 1 / 2 ∧ ¬Even q) :
    Rounds .tiesToEven x (q + dir) := by
  rw [Rounds, h.distance_bumped]
  rcases hf with hf | ⟨hf, hodd⟩
  · exact .inl (by linarith)
  · have hdir : Odd dir := by
      rcases h.unit with hdir | hdir
      · rw [hdir]; exact odd_one
      · rw [hdir]; exact odd_neg_one
    exact .inr ⟨by linarith, (Int.not_even_iff_odd.mp hodd).add_odd hdir⟩

theorem tiesAwayFromZero_kept (hf : f < 1 / 2) :
    Rounds .tiesAwayFromZero x q := by
  rw [Rounds, h.distance_kept]
  exact .inl hf

theorem tiesAwayFromZero_bumped (hf : 1 / 2 ≤ f) :
    Rounds .tiesAwayFromZero x (q + dir) := by
  rw [Rounds, h.distance_bumped]
  rcases lt_or_eq_of_le hf with hf | hf
  · exact .inl (by linarith)
  · refine .inr ⟨by linarith, ?_⟩
    have hx := h.eq
    rw [Int.cast_add]
    rcases h.cases with ⟨hdir, hq⟩ | ⟨hdir, hq⟩
    · have hq : (0 : ℚ) ≤ q := Int.cast_nonneg hq
      rw [hdir, one_mul] at hx
      rw [hdir, abs_of_nonneg (by linarith), abs_of_nonneg (by linarith)]
      linarith
    · have hq : (q : ℚ) ≤ 0 := Int.cast_nonpos.mpr hq
      rw [hdir, neg_one_mul] at hx
      rw [hdir, abs_of_nonpos (by linarith), abs_of_nonpos (by linarith)]
      linarith

end Truncates

end Roundings
