import Mathlib.Tactic.Positivity
import Flinter.RoundingProofs

/-! # Decimal numbers

    A decimal is an integer and a scale, the number of its digits that stand
    behind the point; in canonical form the last of those is not a zero.  It
    also keeps the scale and the rounding that its operators and `str` fall back
    on.

    `Div` brings the two scales and the wanted one together, truncates and then
    decides by the remainder whether to bump the last digit.  What it leaves is
    the quotient rounded in the wanted mode, and what it returns tells on which
    side of it.  A scale is an `int` in the source and has no bound here. -/

namespace FlinterDecimal

open Roundings

/-- `Decimal::Rounding`. -/
inductive Rounding where
  | kRoundingTiesToEven
  | kRoundingTiesAwayFromZero
  | kRoundingTowardsZero
  | kRoundingTowardsPositiveInfinity
  | kRoundingTowardsNegativeInfinity
deriving DecidableEq, Repr

/-- What each of them says it does. -/
def Rounding.mode : Rounding → Mode
  | .kRoundingTiesToEven => .tiesToEven
  | .kRoundingTiesAwayFromZero => .tiesAwayFromZero
  | .kRoundingTowardsZero => .towardsZero
  | .kRoundingTowardsPositiveInfinity => .upward
  | .kRoundingTowardsNegativeInfinity => .downward

/-- `Decimal::Context`. -/
structure Decimal where
  v : Int
  scale : Nat
  dscale : Int
  rounding : Rounding
  canonical : scale = 0 ∨ v % 10 ≠ 0
deriving DecidableEq

namespace Decimal

/-- The number a decimal stands for. -/
def value (d : Decimal) : ℚ := d.v / 10 ^ d.scale

/-- `Decimal(int)`. -/
def ofInt (s : Int) : Decimal :=
  { v := s, scale := 0, dscale := -1, rounding := .kRoundingTiesToEven,
    canonical := .inl rfl }

/-- The copy constructor. -/
def copy (o : Decimal) : Decimal := { o with rounding := .kRoundingTiesToEven }

end Decimal

variable {a b d o : Decimal} {v n w : Int} {s k : Nat} {rounding : Rounding}

-- ── Cleaning up ──────────────────────────────────────────────────────────────

/-- `Cleanup`: the loop. -/
def cleanup (v : Int) : Nat → Int × Nat
  | 0 => (v, 0)
  | s + 1 => if v % 10 ≠ 0 then (v, s + 1) else cleanup (v / 10) s

theorem cleanup_canonical (v : Int) (s : Nat) :
    (cleanup v s).2 = 0 ∨ (cleanup v s).1 % 10 ≠ 0 := by
  induction s generalizing v with
  | zero => exact .inl rfl
  | succ s ih =>
      rw [cleanup]
      split
      · next hrem => exact .inr hrem
      · exact ih (v / 10)

theorem cleanup_le (v : Int) (s : Nat) : (cleanup v s).2 ≤ s := by
  induction s generalizing v with
  | zero => exact le_refl 0
  | succ s ih =>
      rw [cleanup]
      split
      · exact le_refl _
      · exact (ih (v / 10)).trans (Nat.le_succ s)

theorem cleanup_value (v : Int) (s : Nat) :
    ((cleanup v s).1 : ℚ) / 10 ^ (cleanup v s).2 = v / 10 ^ s := by
  induction s generalizing v with
  | zero => rfl
  | succ s ih =>
      rw [cleanup]
      split
      · rfl
      · next hrem =>
          have hdvd : (10 : ℤ) ∣ v := Int.dvd_of_emod_eq_zero (not_not.mp hrem)
          have hv : ((v / 10 : ℤ) : ℚ) = v / 10 :=
            Int.cast_div hdvd (by norm_num)
          rw [ih, hv, pow_succ, div_div, mul_comm (10 : ℚ)]

namespace Decimal

/-- An object is given a value and cleaned up. -/
def assign (d : Decimal) (v : Int) (s : Nat) : Decimal :=
  { d with
    v := (cleanup v s).1
    scale := (cleanup v s).2
    canonical := cleanup_canonical v s }

@[simp] theorem assign_value : (d.assign v s).value = v / 10 ^ s :=
  cleanup_value v s

theorem assign_scale_le : (d.assign v s).scale ≤ s := cleanup_le v s

@[simp] theorem copy_value : d.copy.value = d.value := rfl
@[simp] theorem ofInt_value : (ofInt v).value = v := by
  rw [value, ofInt, pow_zero, div_one]

theorem value_eq_zero : d.value = 0 ↔ d.v = 0 := by
  have hpow : (10 : ℚ) ^ d.scale ≠ 0 := by positivity
  rw [value, div_eq_zero_iff, or_iff_left hpow, Int.cast_eq_zero]

end Decimal

-- ── Division ─────────────────────────────────────────────────────────────────

/-- What `Div` divides by: an object may be divided by itself. -/
inductive Operand where
  | itself
  | other (o : Decimal)
deriving DecidableEq

/-- The object behind the reference. -/
def Operand.get (a : Decimal) : Operand → Decimal
  | .itself => a
  | .other o => o

/-- `Div`: `qdir`. -/
def qdir (v d : Int) : Int := if v.sign = d.sign then 1 else -1

/-- `Div`: whether the last digit is bumped when rounding to the nearest. -/
def bump (rounding : Rounding) (q r d : Int) : Bool :=
  let cmp := compare |2 * r| |d|
  if cmp = .eq then
    if rounding = .kRoundingTiesToEven then q % 2 ≠ 0 else true
  else if cmp = .lt then false
  else true

/-- `Div`: the result and the quotient, from the truncated quotient, the
    remainder and the divisor. -/
def adjust (rounding : Rounding) (qdir q r d : Int) : Int × Int :=
  if r ≠ 0 then
    if rounding = .kRoundingTowardsPositiveInfinity then
      (1, if 0 < qdir then q + 1 else q)
    else if rounding = .kRoundingTowardsNegativeInfinity then
      (-1, if qdir < 0 then q - 1 else q)
    else if rounding = .kRoundingTowardsZero then
      (-qdir, q)
    else if bump rounding q r d then
      (qdir, if 0 < qdir then q + 1 else q - 1)
    else
      (-qdir, q)
  else
    (0, q)

/-- `Div`: what is divided and by what, once the scales are brought
    together, where `scale - diff` fits an `int`. -/
def align (a o : Decimal) (scale : Int) : Int × Int :=
  let diff : Int := a.scale - o.scale
  if diff < scale then (a.v * 10 ^ (scale - diff).toNat, o.v)
  else if diff > scale then (a.v, o.v * 10 ^ (diff - scale).toNat)
  else (a.v, o.v)

/-- `Div`: what it throws or returns, and the object afterwards, where what it
    computes from the scales fits its type; `divInt` is with that. -/
def div (a : Decimal) (o : Operand) (scale : Int) (rounding : Rounding) :
    Except String Int × Decimal :=
  if scale < 0 then
    (.error "must specify scale", a)
  else if (o.get a).v = 0 then
    (.error "devided by zero", a)
  else
    match o with
    | .itself => (.ok 0, { a with v := 1, scale := 0, canonical := .inl rfl })
    | .other o =>
        if a.v = 0 then (.ok 0, a)
        else
          let (n, d) := align a o scale
          let (result, q) :=
            adjust rounding (qdir a.v d) (n.tdiv d) (n.tmod d) d
          (.ok result, a.assign q scale.toNat)

-- ── Rounding the quotient ────────────────────────────────────────────────────

/-- What a rounded result is: an integer the mode rounds to, and the side on
    which it lies. -/
def Rounded (rounding : Rounding) (x : ℚ) (result q : Int) : Prop :=
  Rounds rounding.mode x q ∧ (SignType.sign ((q : ℚ) - x) : ℤ) = result

theorem rounded_exact {x : ℚ} {q : Int} (h : x = q) :
    Rounded rounding x 0 q := by
  refine ⟨h ▸ rounds_self _ q, ?_⟩
  rw [h, sub_self, sign_zero]
  rfl

theorem bump_true {q r d : Int} (h : bump rounding q r d = true) :
    |d| < |2 * r| ∨
      |2 * r| = |d| ∧ (rounding = .kRoundingTiesToEven → ¬Even q) := by
  unfold bump at h
  rcases hcmp : compare |2 * r| |d| with _ | _ | _
  · rw [hcmp] at h
    cases h
  · rw [hcmp] at h
    refine .inr ⟨compare_eq_iff_eq.mp hcmp, fun hmode => ?_⟩
    rw [if_pos rfl, if_pos hmode, decide_eq_true_eq] at h
    rwa [Int.even_iff]
  · exact .inl (compare_gt_iff_gt.mp hcmp)

theorem bump_false {q r d : Int} (h : bump rounding q r d = false) :
    |2 * r| < |d| ∨
      |2 * r| = |d| ∧ rounding = .kRoundingTiesToEven ∧ Even q := by
  unfold bump at h
  rcases hcmp : compare |2 * r| |d| with _ | _ | _
  · exact .inl (compare_lt_iff_lt.mp hcmp)
  · rw [hcmp, if_pos rfl] at h
    by_cases hmode : rounding = .kRoundingTiesToEven
    · rw [if_pos hmode, decide_eq_false_iff_not, not_not] at h
      exact .inr ⟨compare_eq_iff_eq.mp hcmp, hmode, Int.even_iff.mpr h⟩
    · rw [if_neg hmode] at h
      cases h
  · rw [hcmp] at h
    cases h

/-- **THE LAST DIGIT**: the truncated quotient is adjusted to the rounded one. -/
theorem adjust_rounded (rounding : Rounding) {n d : Int} (hn : n ≠ 0) (hd : d ≠ 0) :
    Rounded rounding (n / d)
      (adjust rounding (qdir n d) (n.tdiv d) (n.tmod d) d).1
      (adjust rounding (qdir n d) (n.tdiv d) (n.tmod d) d).2 := by
  have htrunc := truncates_tdiv hn hd
  have hdir : direction n d = qdir n d := rfl
  have hpos : (0 : ℚ) < (|d| : ℤ) := Int.cast_pos.mpr (abs_pos.mpr hd)
  rw [hdir] at htrunc
  unfold adjust
  by_cases hr : n.tmod d = 0
  · rw [if_neg (not_not.mpr hr)]
    have hexact : (n : ℚ) / d = (n.tdiv d : ℤ) :=
      htrunc.exact (by rw [hr, abs_zero, Int.cast_zero, zero_div])
    exact rounded_exact hexact
  rw [if_pos hr]
  have hfrac : (0 : ℚ) < (|n.tmod d| : ℤ) / (|d| : ℤ) :=
    div_pos (Int.cast_pos.mpr (abs_pos.mpr hr)) hpos
  -- the fraction and the half, as the remainder is compared with the divisor
  have hhalf : ∀ {r : Int}, ((|r| : ℤ) : ℚ) / (|d| : ℤ) = 1 / 2 ↔
      |2 * r| = |d| := by
    intro r
    rw [div_eq_div_iff hpos.ne' two_ne_zero, abs_mul, abs_two, mul_comm,
      one_mul]
    norm_cast
  have hless : ∀ {r : Int}, ((|r| : ℤ) : ℚ) / (|d| : ℤ) < 1 / 2 ↔
      |2 * r| < |d| := by
    intro r
    rw [div_lt_div_iff₀ hpos two_pos, abs_mul, abs_two, mul_comm, one_mul]
    norm_cast
  have hmore : ∀ {r : Int}, 1 / 2 < ((|r| : ℤ) : ℚ) / (|d| : ℤ) ↔
      |d| < |2 * r| := by
    intro r
    rw [div_lt_div_iff₀ two_pos hpos, abs_mul, abs_two, one_mul,
      mul_comm (2 : ℤ)]
    norm_cast
  have hstep : (if 0 < qdir n d then n.tdiv d + 1 else n.tdiv d - 1) =
      n.tdiv d + qdir n d := by
    rcases htrunc.unit with h | h
    · rw [h]; rfl
    · rw [h]; rfl
  rw [hstep]
  have hkept := htrunc.sign_kept hfrac
  have hbumped := htrunc.sign_bumped
  cases rounding with
  | kRoundingTowardsPositiveInfinity =>
      rcases htrunc.unit with h | h
      · rw [h] at hbumped ⊢
        exact ⟨htrunc.upward_bumped hfrac h, hbumped⟩
      · rw [h] at hkept ⊢
        exact ⟨htrunc.upward_kept h, hkept⟩
  | kRoundingTowardsNegativeInfinity =>
      rcases htrunc.unit with h | h
      · rw [h] at hkept ⊢
        exact ⟨htrunc.downward_kept h, hkept⟩
      · rw [h] at hbumped ⊢
        exact ⟨htrunc.downward_bumped hfrac h, hbumped⟩
  | kRoundingTowardsZero => exact ⟨htrunc.towardsZero, hkept⟩
  | kRoundingTiesToEven =>
      by_cases hbump : bump .kRoundingTiesToEven (n.tdiv d) (n.tmod d) d = true
      · rw [if_neg (by decide), if_neg (by decide), if_neg (by decide),
          if_pos hbump]
        refine ⟨htrunc.tiesToEven_bumped ?_, hbumped⟩
        rcases bump_true hbump with hgt | ⟨heq, hodd⟩
        · exact .inl (hmore.mpr hgt)
        · exact .inr ⟨hhalf.mpr heq, hodd rfl⟩
      · rw [if_neg (by decide), if_neg (by decide), if_neg (by decide),
          if_neg hbump]
        refine ⟨htrunc.tiesToEven_kept ?_, hkept⟩
        rcases bump_false (Bool.not_eq_true _ ▸ hbump) with hlt | ⟨heq, -, heven⟩
        · exact .inl (hless.mpr hlt)
        · exact .inr ⟨hhalf.mpr heq, heven⟩
  | kRoundingTiesAwayFromZero =>
      by_cases hbump :
          bump .kRoundingTiesAwayFromZero (n.tdiv d) (n.tmod d) d = true
      · rw [if_neg (by decide), if_neg (by decide), if_neg (by decide),
          if_pos hbump]
        refine ⟨htrunc.tiesAwayFromZero_bumped ?_, hbumped⟩
        rcases bump_true hbump with hgt | ⟨heq, -⟩
        · exact (hmore.mpr hgt).le
        · exact (hhalf.mpr heq).ge
      · rw [if_neg (by decide), if_neg (by decide), if_neg (by decide),
          if_neg hbump]
        refine ⟨htrunc.tiesAwayFromZero_kept ?_, hkept⟩
        rcases bump_false (Bool.not_eq_true _ ▸ hbump) with hlt | ⟨-, heq, -⟩
        · exact hless.mpr hlt
        · cases heq

-- ── The quotient ─────────────────────────────────────────────────────────────

/-- One of the two is scaled up, by what is missing. -/
theorem align_cases (a o : Decimal) (scale : Int) :
    ∃ i j : Nat, align a o scale = (a.v * 10 ^ i, o.v * 10 ^ j) ∧
      scale + o.scale + j = i + a.scale := by
  unfold align
  dsimp only
  split
  · refine ⟨(scale - (a.scale - o.scale)).toNat, 0, ?_, by omega⟩
    rw [pow_zero, mul_one]
  · split
    · refine ⟨0, (a.scale - o.scale - scale).toNat, ?_, by omega⟩
      rw [pow_zero, mul_one]
    · refine ⟨0, 0, ?_, by omega⟩
      rw [pow_zero, mul_one, mul_one]

/-- What is divided in the end has the wanted quotient. -/
theorem ratio_eq {i j : Nat} (h : k + o.scale + j = i + a.scale) :
    ((a.v * 10 ^ i : Int) : ℚ) / (o.v * 10 ^ j : Int) =
      a.value / o.value * 10 ^ k := by
  have hpow : ∀ k : Nat, (10 : ℚ) ^ k ≠ 0 := fun k => by positivity
  rw [Decimal.value, Decimal.value, div_div_div_eq, div_mul_eq_mul_div]
  push_cast
  rw [← mul_div_mul_right _ _ (hpow a.scale), mul_assoc, ← pow_add, ← h,
    ← mul_div_mul_right (_ * _ * _) _ (hpow j), pow_add, pow_add]
  ring_nf

/-- A rounded result is the object's new value. -/
theorem Rounded.spec {x : ℚ} {result q : Int}
    (h : Rounded rounding (x * 10 ^ k) result q) {y : ℚ}
    (hy : y = q / 10 ^ k) :
    RoundedTo rounding.mode k x y ∧
      (SignType.sign (y - x) : ℤ) = result := by
  obtain ⟨hrounds, hsign⟩ := h
  have hpow : (0 : ℚ) < 10 ^ k := by positivity
  refine ⟨⟨q, hrounds, hy⟩, ?_⟩
  have hscaled : (q : ℚ) - x * 10 ^ k = (y - x) * 10 ^ k := by
    rw [hy, sub_mul, div_mul_cancel₀ _ hpow.ne']
  rw [hscaled, sign_mul, sign_pos hpow, mul_one] at hsign
  exact hsign

/-- **DIVISION**: what `Div` leaves and returns, when it does not throw. -/
theorem div_rounded {o : Operand} {scale : Int} (hscale : 0 ≤ scale)
    (hzero : (o.get a).v ≠ 0) (rounding : Rounding) :
    ∃ result a', div a o scale rounding = (.ok result, a') ∧
      RoundedTo rounding.mode scale.toNat (a.value / (o.get a).value)
        a'.value ∧
      (SignType.sign (a'.value - a.value / (o.get a).value) : ℤ) = result ∧
      a'.scale ≤ scale.toNat := by
  unfold div
  rw [if_neg (not_lt.mpr hscale), if_neg hzero]
  have hpow : (10 : ℚ) ^ scale.toNat ≠ 0 := by positivity
  cases o with
  | itself =>
      have hself : a.value / (Operand.itself.get a).value = 1 :=
        div_self (Decimal.value_eq_zero.not.mpr hzero)
      have hone : (1 : ℚ) = ((10 ^ scale.toNat : Int) : ℚ) / 10 ^ scale.toNat := by
        push_cast
        rw [div_self hpow]
      have hexact : Rounded rounding (1 * 10 ^ scale.toNat) 0
          (10 ^ scale.toNat) := rounded_exact (by push_cast; rw [one_mul])
      have hspec := hexact.spec hone
      have hvalue : Decimal.value
          { a with v := 1, scale := 0, canonical := .inl rfl } = 1 := by
        rw [Decimal.value, pow_zero, Int.cast_one, div_one]
      refine ⟨0, _, rfl, ?_⟩
      rw [hself, hvalue]
      exact ⟨hspec.1, hspec.2, Nat.zero_le _⟩
  | other o =>
      by_cases hnil : a.v = 0
      · have hvalue : a.value = 0 := Decimal.value_eq_zero.mpr hnil
        have hexact : Rounded rounding (0 * 10 ^ scale.toNat) 0 0 :=
          rounded_exact (by rw [zero_mul, Int.cast_zero])
        have hspec := hexact.spec (y := 0) (by rw [Int.cast_zero, zero_div])
        have hflat : a.scale = 0 :=
          a.canonical.resolve_right fun h => h (by rw [hnil]; rfl)
        refine ⟨0, a, if_pos hnil, ?_⟩
        rw [hvalue, zero_div]
        exact ⟨hspec.1, hspec.2, hflat ▸ Nat.zero_le _⟩
      · obtain ⟨i, j, halign, hsum⟩ := align_cases a o scale
        have hten : ∀ k : Nat, (0 : Int) < 10 ^ k := fun k => by positivity
        have hsign : (a.v * 10 ^ i).sign = a.v.sign := by
          rw [Int.sign_mul, Int.sign_eq_one_of_pos (hten i), mul_one]
        have hdir : qdir a.v (o.v * 10 ^ j) =
            qdir (a.v * 10 ^ i) (o.v * 10 ^ j) := by rw [qdir, qdir, hsign]
        have hdivisor : o.v * 10 ^ j ≠ 0 := mul_ne_zero hzero (hten j).ne'
        have hround := adjust_rounded rounding
          (mul_ne_zero hnil (hten i).ne') hdivisor
        have hratio : (((a.v * 10 ^ i : Int) : ℚ) / (o.v * 10 ^ j : Int)) =
            a.value / o.value * 10 ^ scale.toNat := ratio_eq (by omega)
        rw [hratio, ← hdir] at hround
        have hspec := hround.spec (a.assign_value (s := scale.toNat))
        refine ⟨_, _, ?_, hspec.1, hspec.2, Decimal.assign_scale_le⟩
        refine (if_neg hnil).trans ?_
        rw [halign]

/-- `Div` throws for a negative scale or a zero divisor
    and leaves the object as it was.  Otherwise the object becomes the exact
    quotient rounded to `scale` digits in the wanted mode, and what is returned
    tells on which side of it. -/
theorem div_correctly_rounded (a : Decimal) (o : Operand) (scale : Int)
    (rounding : Rounding) :
    (scale < 0 ∨ (o.get a).value = 0 →
      ∃ message, div a o scale rounding = (.error message, a)) ∧
    (0 ≤ scale ∧ (o.get a).value ≠ 0 →
      ∃ result a', div a o scale rounding = (.ok result, a') ∧
        (∀ y, RoundedTo rounding.mode scale.toNat
          (a.value / (o.get a).value) y ↔ y = a'.value) ∧
        (SignType.sign (a'.value - a.value / (o.get a).value) : ℤ) = result ∧
        (result = 0 ↔ a'.value = a.value / (o.get a).value)) := by
  constructor
  · intro h
    unfold div
    by_cases hscale : scale < 0
    · exact ⟨_, if_pos hscale⟩
    · have hzero := Decimal.value_eq_zero.mp (h.resolve_left hscale)
      rw [if_neg hscale, if_pos hzero]
      exact ⟨_, rfl⟩
  · rintro ⟨hscale, hvalue⟩
    obtain ⟨result, a', hdiv, hround, hsign, -⟩ :=
      div_rounded hscale (Decimal.value_eq_zero.not.mp hvalue) rounding
    refine ⟨result, a', hdiv, ?_, hsign, ?_⟩
    · intro y
      constructor
      · intro hy
        exact hy.unique hround
      · rintro rfl
        exact hround
    · have hcoe : ∀ t : SignType, (t : ℤ) = 0 ↔ t = 0 := by decide
      rw [← hsign, hcoe, sign_eq_zero_iff, sub_eq_zero]

example : div (.ofInt (-7)) (.other (.ofInt 2)) 0 .kRoundingTiesToEven =
    (.ok (-1), .ofInt (-4)) := by decide

end FlinterDecimal
