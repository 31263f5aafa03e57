import Flinter.DecimalParseProofs

/-! # Copies of decimals

    Both the copy constructor and `operator =` take over the value, the scale
    and the default scale, and set the rounding to ties-to-even.  So a copy
    divides and prints like its original only if that rounds so itself, or is
    zero.  `operator /` divides a copy, in the original's rounding, and leaves
    a copy behind. -/

namespace FlinterDecimal

open Roundings Numerals

variable {a b d e : Decimal} {o : Operand} {n : Int} {rounding : Rounding}

-- ── The code ─────────────────────────────────────────────────────────────────

/-- `operator =`, of another object. -/
def Decimal.become (_ : Decimal) (o : Decimal) : Decimal where
  rounding := .kRoundingTiesToEven
  dscale := o.dscale
  scale := o.scale
  v := o.v
  canonical := o.canonical

/-- `operator /` and `operator /=`: the scale that they divide to. -/
def quotientScale (a b : Decimal) : Int :=
  if a.dscale ≥ 0 then a.dscale else max 6 ((a.scale : Int) - b.scale)

/-- What `Div` leaves, or throws. -/
def left : Except String Int × Decimal → Except String Decimal
  | (.ok _, a) => .ok a
  | (.error message, _) => .error message

/-- `operator /=`. -/
def divideBy (a : Decimal) (o : Operand) : Except String Decimal :=
  left (div a o (quotientScale a (o.get a)) a.rounding)

/-- `operator /`. -/
def quotient (a b : Decimal) : Except String Decimal :=
  left (div a.copy (.other b) (quotientScale a b) a.rounding)

-- ── What is seen of a decimal ────────────────────────────────────────────────

/-- What is done with a decimal, to go on with the result. -/
inductive Use where
  | divideBy (o : Operand)
  | quotient (o : Operand)
  | copy

def Use.apply (d : Decimal) : Use → Except String Decimal
  | .divideBy o => FlinterDecimal.divideBy d o
  | .quotient o => FlinterDecimal.quotient d (o.get d)
  | .copy => .ok d.copy

/-- What is printed in the end. -/
def observe (d : Decimal) (uses : List Use) (n : Int) :
    Except String (List Char) :=
  (uses.foldlM Use.apply d).bind fun d' => str d' n

/-- Two decimals that cannot be told apart. -/
def Alike (d e : Decimal) : Prop := ∀ uses n, observe d uses n = observe e uses n

/-- Two results that cannot be. -/
inductive AlikeResults : Except String Decimal → Except String Decimal → Prop where
  | error (message : String) : AlikeResults (.error message) (.error message)
  | ok {d e : Decimal} (h : Alike d e) : AlikeResults (.ok d) (.ok e)

/-- Copies are like the decimal, and `/` is like `/=`. -/
structure Copied (d : Decimal) : Prop where
  copy : Alike d d.copy
  become : ∀ e : Decimal, Alike d (e.become d)
  quotient : ∀ o : Operand, AlikeResults (quotient d (o.get d)) (divideBy d o)

theorem observe_cons {use : Use} {uses : List Use} :
    observe d (use :: uses) n = (use.apply d).bind fun d' => observe d' uses n := by
  rw [observe, List.foldlM_cons]
  cases use.apply d with
  | error message => rfl
  | ok d' => rfl

/-- A relation that uses and `str` respect. -/
theorem alike_of_related {R : Decimal → Decimal → Prop}
    (hstr : ∀ d e n, R d e → str d n = str e n)
    (huse : ∀ d e (use : Use), R d e →
      (∃ message, use.apply d = .error message ∧ use.apply e = .error message) ∨
      ∃ d' e', use.apply d = .ok d' ∧ use.apply e = .ok e' ∧ R d' e')
    (h : R d e) : Alike d e := by
  intro uses n
  induction uses generalizing d e with
  | nil => exact hstr d e n h
  | cons use uses ih =>
      rw [observe_cons, observe_cons]
      rcases huse d e use h with ⟨message, hd, he⟩ | ⟨d', e', hd, he, h'⟩
      · rw [hd, he]
      · rw [hd, he]
        exact ih h'

theorem Alike.refl (d : Decimal) : Alike d d := fun _ _ => rfl

-- ── What division leaves ─────────────────────────────────────────────────────

/-- `Div` leaves the default scale and the rounding as they are. -/
theorem div_defaults (a : Decimal) (o : Operand) (scale : Int)
    (rounding : Rounding) :
    (div a o scale rounding).2.dscale = a.dscale ∧
      (div a o scale rounding).2.rounding = a.rounding := by
  unfold div
  split
  · exact ⟨rfl, rfl⟩
  · split
    · exact ⟨rfl, rfl⟩
    · cases o with
      | itself => exact ⟨rfl, rfl⟩
      | other o =>
          dsimp only
          split
          · exact ⟨rfl, rfl⟩
          · exact ⟨rfl, rfl⟩

theorem quotientScale_nonneg (a b : Decimal) : 0 ≤ quotientScale a b := by
  rw [quotientScale]
  split
  · assumption
  · exact le_max_of_le_left (by decide)

/-- What `/=` leaves. -/
theorem divideBy_rounded (hzero : (o.get a).v ≠ 0) :
    ∃ a', divideBy a o = .ok a' ∧ a'.dscale = a.dscale ∧ a'.rounding = a.rounding ∧
      RoundedTo a.rounding.mode (quotientScale a (o.get a)).toNat
        (a.value / (o.get a).value) a'.value := by
  obtain ⟨result, a', hdiv, hround, -, -⟩ :=
    div_rounded (quotientScale_nonneg a (o.get a)) hzero a.rounding
  obtain ⟨hdscale, hrounding⟩ :=
    div_defaults a o (quotientScale a (o.get a)) a.rounding
  rw [hdiv] at hdscale hrounding
  exact ⟨a', by rw [divideBy, hdiv]; rfl, hdscale, hrounding, hround⟩

/-- An integer of so many digits is not rounded. -/
theorem roundedTo_exact {m : Mode} {k : Nat} {x y : ℚ} {q : Int}
    (hx : x = q / 10 ^ k) (h : RoundedTo m k x y) : y = x := by
  refine h.unique ⟨q, ?_, hx⟩
  rw [hx, div_mul_cancel₀ _ (by positivity)]
  exact rounds_self m q

/-- What is divided by its own value becomes one. -/
theorem divideBy_equal (hd : d.v ≠ 0) (ho : (o.get d).value = d.value) :
    ∃ d', divideBy d o = .ok d' ∧ d'.dscale = d.dscale ∧
      d'.rounding = d.rounding ∧ d'.v = 1 ∧ d'.scale = 0 := by
  have hvalue : d.value ≠ 0 := Decimal.value_eq_zero.not.mpr hd
  have hzero : (o.get d).v ≠ 0 := by
    refine Decimal.value_eq_zero.not.mp ?_
    rw [ho]
    exact hvalue
  obtain ⟨d', hdivide, hdscale, hrounding, hround⟩ := divideBy_rounded hzero
  rw [ho, div_self hvalue] at hround
  have hone : d'.value = (Decimal.ofInt 1).value := by
    have hten : (10 : ℚ) ^ (quotientScale d (o.get d)).toNat ≠ 0 := by positivity
    rw [Decimal.ofInt_value, Int.cast_one]
    refine roundedTo_exact (q := 10 ^ (quotientScale d (o.get d)).toNat) ?_ hround
    push_cast
    rw [div_self hten]
  exact ⟨d', hdivide, hdscale, hrounding, eq_of_value hone⟩

-- ── Copies that are like the original ────────────────────────────────────────

/-- Zero is divided and printed in one way. -/
inductive SameZero : Decimal → Decimal → Prop where
  | refl (d : Decimal) : SameZero d d
  | zero {d e : Decimal} (hd : d.v = 0) (he : e.v = 0)
      (hdscale : d.dscale = e.dscale) : SameZero d e

theorem scale_zero (hd : d.v = 0) : d.scale = 0 :=
  d.canonical.resolve_right fun h => h (by rw [hd]; rfl)

theorem str_zero (hd : d.v = 0) (he : e.v = 0) (hdscale : d.dscale = e.dscale)
    (n : Int) : str d n = str e n := by
  have hfits : ∀ {d : Decimal} {s : Int}, d.v = 0 → 0 ≤ s →
      serialize d s d.rounding = serializeWithAppending d s := by
    intro d s hd hs
    rw [serialize, if_neg fun h => absurd h.1 (not_lt.mpr hs)]
    dsimp only
    rw [if_pos hs, if_pos (by rw [scale_zero hd]; omega)]
  rw [str, str, ← hdscale]
  generalize (if n ≥ 0 then n else d.dscale) = s
  rcases lt_or_ge s 0 with hneg | hs
  · rw [serialize, serialize, if_pos ⟨hneg, hd⟩, if_pos ⟨hneg, he⟩]
  · rw [hfits hd hs, hfits he hs, serializeWithAppending, serializeWithAppending,
      hd, he, scale_zero hd, scale_zero he]

/-- A zero that is divided throws, or stays. -/
theorem div_zero (hd : d.v = 0) {scale : Int} (hscale : 0 ≤ scale) (o : Decimal)
    (rounding : Rounding) :
    div d (.other o) scale rounding =
      if o.v = 0 then (.error "devided by zero", d) else (.ok 0, d) := by
  rw [div, if_neg (not_lt.mpr hscale)]
  exact if_congr Iff.rfl rfl (if_pos hd)

theorem divideBy_zero (hd : d.v = 0) (o : Operand) :
    divideBy d o =
      if (o.get d).v = 0 then .error "devided by zero" else .ok d := by
  have hscale := quotientScale_nonneg d (o.get d)
  cases o with
  | itself =>
      have hself : (Operand.itself.get d).v = 0 := hd
      rw [divideBy, div, if_neg (not_lt.mpr hscale), if_pos hself, if_pos hself]
      rfl
  | other o =>
      rw [divideBy, div_zero hd hscale, Operand.get]
      by_cases hzero : o.v = 0
      · rw [if_pos hzero, if_pos hzero]
        rfl
      · rw [if_neg hzero, if_neg hzero]
        rfl

theorem quotient_zero (hd : d.v = 0) (b : Decimal) :
    quotient d b = if b.v = 0 then .error "devided by zero" else .ok d.copy := by
  rw [quotient, div_zero (d := d.copy) hd (quotientScale_nonneg d b)]
  by_cases hzero : b.v = 0
  · rw [if_pos hzero, if_pos hzero]
    rfl
  · rw [if_neg hzero, if_neg hzero]
    rfl

/-- What is divided by is zero for both, or for neither. -/
theorem SameZero.get (h : SameZero d e) (o : Operand) :
    (o.get d).v = 0 ↔ (o.get e).v = 0 := by
  cases h with
  | refl => exact Iff.rfl
  | zero hd he =>
      cases o with
      | itself => exact iff_of_true hd he
      | other => exact Iff.rfl

theorem SameZero.alike (h : SameZero d e) : Alike d e := by
  refine alike_of_related (R := SameZero) ?_ ?_ h
  · intro d e n h
    cases h with
    | refl => rfl
    | zero hd he hdscale => exact str_zero hd he hdscale n
  · intro d e use h
    have hboth := h
    cases h with
    | refl =>
        cases hresult : use.apply d with
        | error message => exact .inl ⟨message, rfl, rfl⟩
        | ok d' => exact .inr ⟨d', d', rfl, rfl, .refl d'⟩
    | zero hd he hdscale =>
        cases use with
        | copy => exact .inr ⟨_, _, rfl, rfl, .zero hd he hdscale⟩
        | divideBy o =>
            by_cases hzero : (o.get d).v = 0
            · have hzero' := (hboth.get o).mp hzero
              exact .inl ⟨_, (divideBy_zero hd o).trans (if_pos hzero),
                (divideBy_zero he o).trans (if_pos hzero')⟩
            · have hzero' := (hboth.get o).not.mp hzero
              exact .inr ⟨d, e, (divideBy_zero hd o).trans (if_neg hzero),
                (divideBy_zero he o).trans (if_neg hzero'), hboth⟩
        | quotient o =>
            by_cases hzero : (o.get d).v = 0
            · have hzero' := (hboth.get o).mp hzero
              exact .inl ⟨_, (quotient_zero hd _).trans (if_pos hzero),
                (quotient_zero he _).trans (if_pos hzero')⟩
            · have hzero' := (hboth.get o).not.mp hzero
              exact .inr ⟨d.copy, e.copy,
                (quotient_zero hd _).trans (if_neg hzero),
                (quotient_zero he _).trans (if_neg hzero'),
                .zero hd he hdscale⟩

/-- Copies of zero are like it. -/
theorem copied_of_zero (hd : d.v = 0) : Copied d where
  copy := (SameZero.zero (e := d.copy) hd hd rfl).alike
  become e := (SameZero.zero (e := e.become d) hd hd rfl).alike
  quotient o := by
    rw [quotient_zero hd, divideBy_zero hd]
    split
    · exact .error _
    · exact .ok (SameZero.zero (d := d.copy) hd hd rfl).alike

/-- Rounding to even, a copy is the same. -/
theorem copied_of_even (hrounding : d.rounding = .kRoundingTiesToEven) :
    Copied d := by
  have hcopy : d.copy = d := by
    rw [Decimal.copy, ← hrounding]
  have hbecome : ∀ e : Decimal, e.become d = d := fun e => by
    rw [Decimal.become, ← hrounding]
  have hquotient : ∀ b, quotient d b = divideBy d (.other b) := fun b => by
    rw [quotient, hcopy]
    rfl
  have hrefl : ∀ r, AlikeResults r r := by
    rintro (message | d')
    · exact .error message
    · exact .ok (Alike.refl d')
  refine ⟨?_, ?_, ?_⟩
  · rw [hcopy]
    exact Alike.refl d
  · intro e
    rw [hbecome]
    exact Alike.refl d
  · intro o
    by_cases hd : d.v = 0
    · exact (copied_of_zero hd).quotient o
    cases o with
    | other b =>
        rw [hquotient]
        exact hrefl _
    | itself =>
        -- an object that is divided by itself and one that is divided by an
        -- equal one both become one
        obtain ⟨d₁, h₁, hs₁, hr₁, hv₁, hscale₁⟩ :=
          divideBy_equal (o := .other d) hd rfl
        obtain ⟨d₂, h₂, hs₂, hr₂, hv₂, hscale₂⟩ :=
          divideBy_equal (o := .itself) hd rfl
        have hsame : d₁ = d₂ := by
          cases d₁
          cases d₂
          simp_all
        rw [hquotient, h₂, ← hsame]
        exact h₁ ▸ hrefl _

-- ── Copies that are not ──────────────────────────────────────────────────────

/-- What one is divided by, over the last digit that is kept, so that a mode
    does not round like ties-to-even: a half, a third or two thirds of the
    digit are left. -/
def Rounding.probe : Rounding → Int × Nat
  | .kRoundingTiesToEven => (1, 0)
  | .kRoundingTiesAwayFromZero => (2, 0)
  | .kRoundingTowardsPositiveInfinity => (3, 0)
  | .kRoundingTowardsZero => (15, 1)
  | .kRoundingTowardsNegativeInfinity => (15, 1)

/-- One of the two rounds to zero and the other does not. -/
theorem probe_rounds (h : rounding ≠ .kRoundingTiesToEven) :
    ∃ q q' : Int, Rounds rounding.mode (10 ^ rounding.probe.2 / rounding.probe.1) q ∧
      Rounds .tiesToEven (10 ^ rounding.probe.2 / rounding.probe.1) q' ∧
      ¬(q = 0 ↔ q' = 0) := by
  cases rounding with
  | kRoundingTiesToEven => exact absurd rfl h
  | kRoundingTiesAwayFromZero =>
      refine ⟨1, 0, .inr ?_, .inr ?_, by decide⟩
      · norm_num [Rounding.probe, abs_of_pos, abs_of_neg]
      · norm_num [Rounding.probe, abs_of_pos]
  | kRoundingTowardsPositiveInfinity =>
      refine ⟨1, 0, ?_, .inl ?_, by decide⟩
      · constructor <;> norm_num [Rounding.probe]
      · norm_num [Rounding.probe, abs_of_pos]
  | kRoundingTowardsZero =>
      refine ⟨0, 1, ⟨?_, ?_, ?_⟩, .inl ?_, by decide⟩ <;>
        norm_num [Rounding.probe, abs_of_pos, abs_of_neg]
  | kRoundingTowardsNegativeInfinity =>
      refine ⟨0, 1, ⟨?_, ?_⟩, .inl ?_, by decide⟩ <;>
        norm_num [Rounding.probe, abs_of_pos, abs_of_neg]

/-- The scale that one is divided to. -/
def probeScale (dscale : Int) : Int := if dscale ≥ 0 then dscale else 6

/-- What one is divided by. -/
def probe (rounding : Rounding) (dscale : Int) : Decimal :=
  (Decimal.ofInt 0).assign (rounding.probe.1 * 10 ^ (probeScale dscale).toNat)
    rounding.probe.2

theorem probeScale_nonneg (dscale : Int) : 0 ≤ probeScale dscale := by
  rw [probeScale]
  split <;> omega

theorem quotientScale_probe (hv : d.scale = 0) (rounding : Rounding) :
    quotientScale d (probe rounding d.dscale) = probeScale d.dscale := by
  rw [quotientScale, probeScale, hv]
  split
  · rfl
  · omega

theorem probe_ne_zero (rounding : Rounding) : rounding.probe.1 ≠ 0 := by
  cases rounding <;> decide

theorem probe_value (rounding : Rounding) (dscale : Int) :
    (probe rounding dscale).value =
      rounding.probe.1 * 10 ^ (probeScale dscale).toNat /
        10 ^ rounding.probe.2 := by
  rw [probe, Decimal.assign_value]
  push_cast
  rfl

/-- A decimal that is printed to as many digits as it was rounded to. -/
theorem str_rounded {q s : Int} (hs : 0 ≤ s) (h : d.value = q / 10 ^ s.toNat) :
    ∃ m : Numeral, str d s = .ok m.text ∧ (m.value = 0 ↔ q = 0) := by
  have hpow : (10 : ℚ) ^ s.toNat ≠ 0 := by positivity
  obtain ⟨result, m, hserialize, -, -, hrounded, -⟩ :=
    serialize_correctly_rounded d s d.rounding
  have hself : RoundedTo d.rounding.mode s.toNat d.value d.value := by
    refine ⟨q, ?_, h⟩
    rw [h, div_mul_cancel₀ _ hpow]
    exact rounds_self _ q
  have hvalue : d.value = m.value := ((hrounded hs).2 _).mp hself
  refine ⟨m, ?_, ?_⟩
  · rw [str, if_pos hs, hserialize]
  · rw [← hvalue, h, div_eq_zero_iff, or_iff_left hpow, Int.cast_eq_zero]

/-- One that is divided by the probe, and printed. -/
theorem observe_probe {q : Int} (hv : d.v = 1) (hscale : d.scale = 0)
    (hround : Rounds d.rounding.mode
      (10 ^ rounding.probe.2 / rounding.probe.1) q) :
    ∃ m : Numeral, observe d [.divideBy (.other (probe rounding d.dscale))]
      (probeScale d.dscale) = .ok m.text ∧ (m.value = 0 ↔ q = 0) := by
  have hpow : ∀ k : Nat, (10 : ℚ) ^ k ≠ 0 := fun k => by positivity
  have hprobe : (rounding.probe.1 : ℚ) ≠ 0 :=
    Int.cast_ne_zero.mpr (probe_ne_zero rounding)
  have hone : d.value = 1 := by
    rw [Decimal.value, hv, hscale, pow_zero, Int.cast_one, div_one]
  have hnonzero : (probe rounding d.dscale).value ≠ 0 := by
    rw [probe_value]
    exact div_ne_zero (mul_ne_zero hprobe (hpow _)) (hpow _)
  obtain ⟨d', hdivide, -, -, hrounded⟩ := divideBy_rounded (a := d)
    (o := .other (probe rounding d.dscale)) (Decimal.value_eq_zero.not.mp hnonzero)
  rw [Operand.get, quotientScale_probe hscale, hone, probe_value] at hrounded
  have hvalue : d'.value = q / 10 ^ (probeScale d.dscale).toNat := by
    refine hrounded.unique ⟨q, ?_, rfl⟩
    rw [one_div_div, div_mul_eq_mul_div, mul_div_mul_right _ _ (hpow _)]
    exact hround
  rw [observe_cons, Use.apply, hdivide]
  exact str_rounded (probeScale_nonneg d.dscale) hvalue

/-- A copy that is told apart from its original: each is divided by the original
    and then by the probe. -/
theorem not_alike (hd : d.v ≠ 0) (hrounding : d.rounding ≠ .kRoundingTiesToEven) :
    ¬Alike d d.copy := by
  intro halike
  obtain ⟨d₁, hdivide₁, hdscale₁, hrounding₁, hv₁, hscale₁⟩ :=
    divideBy_equal (o := .other d) hd rfl
  obtain ⟨d₂, hdivide₂, hdscale₂, hrounding₂, hv₂, hscale₂⟩ :=
    divideBy_equal (d := d.copy) (o := .other d) hd rfl
  obtain ⟨q₁, q₂, hq₁, hq₂, hdiffer⟩ := probe_rounds hrounding
  rw [← hrounding₁] at hq₁
  have heven : d₂.rounding = .kRoundingTiesToEven := hrounding₂
  obtain ⟨m₁, hprint₁, hzero₁⟩ := observe_probe hv₁ hscale₁ hq₁
  have hrounds : Rounds d₂.rounding.mode
      (10 ^ d.rounding.probe.2 / d.rounding.probe.1) q₂ := by
    rw [heven]
    exact hq₂
  obtain ⟨m₂, hprint₂, hzero₂⟩ := observe_probe hv₂ hscale₂ hrounds
  have hsame := halike [.divideBy (.other d),
    .divideBy (.other (probe d.rounding d.dscale))] (probeScale d.dscale)
  have hdscale : d₂.dscale = d.dscale := hdscale₂
  rw [hdscale₁, hrounding₁] at hprint₁
  rw [hdscale] at hprint₂
  rw [observe_cons, observe_cons, Use.apply, Use.apply, hdivide₁, hdivide₂]
    at hsame
  have htext : m₁.text = m₂.text :=
    Except.ok.inj (hprint₁.symm.trans (hsame.trans hprint₂))
  refine hdiffer ?_
  rw [← hzero₁, ← hzero₂, Numeral.value_eq_zero, Numeral.value_eq_zero, htext]

/-- **COPIES**: a copy, constructed or assigned, is like its original, and `/`
    like `/=`, exactly if the original rounds to even or is zero. -/
theorem copied_iff (d : Decimal) :
    Copied d ↔ d.rounding = .kRoundingTiesToEven ∨ d.v = 0 := by
  constructor
  · intro h
    by_contra hnot
    obtain ⟨hrounding, hd⟩ := not_or.mp hnot
    exact not_alike hd hrounding h.copy
  · rintro (hrounding | hd)
    · exact copied_of_even hrounding
    · exact copied_of_zero hd

/-- One that rounds up, and its copy: a third is one, or nothing. -/
theorem not_copied_upward :
    ¬Copied { Decimal.ofInt 1 with
      dscale := 0, rounding := .kRoundingTowardsPositiveInfinity } := by
  intro h
  have hsame := h.copy [.divideBy (.other (.ofInt 3))] 0
  revert hsame
  decide

end FlinterDecimal
