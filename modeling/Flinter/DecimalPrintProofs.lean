import Flinter.DecimalProofs
import Flinter.NumeralProofs

/-! # Printing a decimal

    `Serialize` has the integer printed and puts a point into it: with zeros
    appended if more digits are wanted than there are, after a division by one
    if fewer are.  What comes out is a plain numeral with as many digits behind
    the point as were asked for, and it stands for the decimal rounded to
    them. -/

namespace FlinterDecimal

open Roundings Numerals

variable {d : Decimal} {v scale : Int} {extra : Nat} {sign : List Char}

-- ── The code ─────────────────────────────────────────────────────────────────

/-- `mpz_get_str` in base ten. -/
def mpzGetStr (v : Int) : List Char :=
  if v < 0 then '-' :: Nat.toDigits 10 v.natAbs else Nat.toDigits 10 v.natAbs

/-- `std::string::insert`. -/
def insertAt (s : List Char) (p : Nat) (t : List Char) : List Char :=
  s.take p ++ t ++ s.drop p

/-- `PrintZero`. -/
def printZero (scale : Nat) : List Char :=
  if scale = 0 then ['0'] else (List.replicate (scale + 2) '0').set 1 '.'

/-- `SerializeWithAppending`: the point. -/
def placePoint (scale extra : Nat) (s : List Char) : List Char :=
  let p := if s.head? = some '-' then 1 else 0
  let len := s.length - p
  if scale ≠ 0 then
    if scale ≥ len then
      let more := scale - len
      let s := insertAt s p (List.replicate (more + 2) '0')
      if s.head? = some '-' then s.set 2 '.' else s.set 1 '.'
    else
      insertAt s (p + (len - scale)) ['.']
  else if extra > 0 then
    s ++ ['.']
  else
    s

/-- `SerializeWithAppending`, with the assertion that fails. -/
def serializeWithAppending (d : Decimal) (scale : Int) :
    Except String (Int × List Char) :=
  if scale < 0 then
    .error "scale >= 0"
  else
    let extra := scale - d.scale
    if extra < 0 then
      .error "extra >= 0"
    else
      .ok (0, placePoint d.scale extra.toNat (mpzGetStr d.v) ++
        List.replicate extra.toNat '0')

/-- `SerializeWithRounding`. -/
def serializeWithRounding (d : Decimal) (scale : Int) (rounding : Rounding) :
    Except String (Int × List Char) :=
  if scale < 0 then
    .error "scale >= 0"
  else
    match div d.copy (.other (.ofInt 1)) scale rounding with
    | (.error message, _) => .error message
    | (.ok ret, m) =>
        match serializeWithAppending m scale with
        | .error message => .error message
        | .ok (_, s) => .ok (ret, s)

/-- `Serialize`. -/
def serialize (d : Decimal) (scale : Int) (rounding : Rounding) :
    Except String (Int × List Char) :=
  if scale < 0 ∧ d.v = 0 then
    .ok (0, printZero 0)
  else
    let ns : Int := if scale ≥ 0 then scale else d.scale
    let extra := ns - d.scale
    if extra ≥ 0 then serializeWithAppending d ns
    else serializeWithRounding d ns rounding

/-- `str`. -/
def str (d : Decimal) (scale : Int) : Except String (List Char) :=
  match serialize d (if scale ≥ 0 then scale else d.dscale) d.rounding with
  | .error message => .error message
  | .ok (_, s) => .ok s

-- ── Placing the point ────────────────────────────────────────────────────────

/-- The sign that is printed. -/
def signOf (v : Int) : List Char := if v < 0 then ['-'] else []

theorem mpzGetStr_eq : mpzGetStr v = signOf v ++ Nat.toDigits 10 v.natAbs := by
  rw [mpzGetStr, signOf]
  split <;> rfl

/-- Digits do not begin with a sign, so the code finds it. -/
theorem sign_found {cs : List Char} (hdigits : ∀ c ∈ cs, c.isDigit = true) :
    (signOf v ++ cs).head? = some '-' ↔ v < 0 := by
  rw [signOf]
  split
  · next h => exact ⟨fun _ => h, fun _ => rfl⟩
  · next h =>
      refine ⟨fun hhead => ?_, fun hv => absurd hv h⟩
      have hmem : '-' ∈ cs := List.mem_of_mem_head? hhead
      have hdigit := hdigits _ hmem
      cases hdigit

theorem signOf_length : (signOf v).length = if v < 0 then 1 else 0 := by
  rw [signOf]
  split <;> rfl

theorem insertAt_length (k : Nat) (cs ds t : List Char) (hk : cs.length = k) :
    insertAt (cs ++ ds) k t = cs ++ t ++ ds := by
  rw [insertAt, ← hk, List.take_left, List.drop_left]

/-- What is printed, as far as the zeros that are appended. -/
theorem placePoint_eq {cs : List Char}
    (hdigits : ∀ c ∈ cs, c.isDigit = true) (scale extra : Nat) :
    placePoint scale extra (signOf v ++ cs) =
      if scale ≠ 0 then
        if scale ≥ cs.length then
          signOf v ++ '0' :: '.' :: (List.replicate (scale - cs.length) '0' ++ cs)
        else
          signOf v ++ cs.take (cs.length - scale) ++
            '.' :: cs.drop (cs.length - scale)
      else if extra > 0 then signOf v ++ cs ++ ['.']
      else signOf v ++ cs := by
  have hsign : (if (signOf v ++ cs).head? = some '-' then 1 else 0) =
      (signOf v).length := by
    rw [signOf_length]
    exact if_congr (sign_found hdigits) rfl rfl
  unfold placePoint
  dsimp only
  rw [hsign, List.length_append, Nat.add_sub_cancel_left]
  split
  · split
    · rw [insertAt_length _ _ _ _ rfl]
      have hzeros : List.replicate (scale - cs.length + 2) '0' =
          '0' :: '0' :: List.replicate (scale - cs.length) '0' := rfl
      rw [hzeros, signOf]
      split
      · rfl
      · rfl
    · next hlt =>
        have hsplit : signOf v ++ cs = (signOf v ++
            cs.take (cs.length - scale)) ++ cs.drop (cs.length - scale) := by
          rw [List.append_assoc, List.take_append_drop]
        have hlength : (signOf v ++ cs.take (cs.length - scale)).length =
            (signOf v).length + (cs.length - scale) := by
          rw [List.length_append, List.length_take, Nat.min_eq_left (by omega)]
        rw [hsplit, insertAt_length _ _ _ _ hlength, List.append_assoc _ ['.'],
          List.singleton_append]
  · rfl

-- ── The numeral ──────────────────────────────────────────────────────────────

/-- What is printed of `d` with `extra` zeros appended. -/
def Prints (d : Decimal) (extra : Nat) (m : Numeral) : Prop :=
  placePoint d.scale extra (mpzGetStr d.v) ++ List.replicate extra '0' = m.text ∧
    m.Plain ∧ m.Shaped (d.scale + extra) ∧ m.value = d.value

theorem signOf_eq : signOf v = if decide (v < 0) then ['-'] else [] := by
  rw [signOf]
  exact if_congr (decide_eq_true_iff).symm rfl rfl

/-- An integer's digits are plain: only zero begins with a zero. -/
theorem plain_toDigits {n : Nat} :
    (Nat.toDigits 10 n).head? = some '0' → Nat.toDigits 10 n = ['0'] := by
  intro h
  rcases Nat.eq_zero_or_pos n with hn | hn
  · rw [hn]
    rfl
  · exact absurd h (head_toDigits hn)

/-- An integer is followed by zeros behind a point, if there are any. -/
theorem prints_integer (hscale : d.scale = 0) (extra : Nat) :
    ∃ m, Prints d extra m := by
  have hdigits := padded_digits 0 d.v.natAbs extra
  rw [List.replicate_zero, List.nil_append] at hdigits
  have hwhole : ∀ c ∈ Nat.toDigits 10 d.v.natAbs, c.isDigit = true :=
    fun c hc => hdigits c (List.mem_append_left _ hc)
  rcases Nat.eq_zero_or_pos extra with hextra | hextra
  · refine ⟨⟨decide (d.v < 0), Nat.toDigits 10 d.v.natAbs, none, ?_⟩, ?_, ?_, ?_, ?_⟩
    · rw [Option.getD_none, List.append_nil]
      exact hwhole
    · rw [hscale, hextra, mpzGetStr_eq, placePoint_eq hwhole,
        if_neg (not_not.mpr rfl), if_neg (by decide), List.replicate_zero,
        List.append_nil, signOf_eq, Numeral.text_integer rfl]
    · exact ⟨Nat.toDigits_ne_nil, plain_toDigits⟩
    · rw [hscale, hextra]
      exact ⟨⟨fun _ => rfl, fun _ => rfl⟩, rfl⟩
    · refine Numeral.value_padded (z := 0) (k := 0) rfl ?_ (by rw [hscale]; rfl)
      refine (Numeral.digits_integer rfl).trans ?_
      rw [List.replicate_zero, List.nil_append]
      exact (List.append_nil _).symm
  · refine ⟨⟨decide (d.v < 0), Nat.toDigits 10 d.v.natAbs,
      some (List.replicate extra '0'), hdigits⟩, ?_, ?_, ?_, ?_⟩
    · rw [hscale, mpzGetStr_eq, placePoint_eq hwhole,
        if_neg (not_not.mpr rfl), if_pos hextra, signOf_eq,
        Numeral.text_point rfl, List.append_assoc _ ['.']]
      rfl
    · exact ⟨Nat.toDigits_ne_nil, plain_toDigits⟩
    · refine ⟨⟨fun h => (by cases h), fun h => ?_⟩, ?_⟩
      · omega
      · rw [Numeral.places, Option.getD_some, List.length_replicate, hscale,
          Nat.zero_add]
    · refine Numeral.value_padded (z := 0) (k := extra) rfl ?_ ?_
      · rw [Numeral.digits, Option.getD_some, List.replicate_zero,
          List.nil_append]
      · rw [Numeral.places, Option.getD_some, List.length_replicate, hscale,
          Nat.zero_add]

/-- Below one, zeros are put between the point and the digits. -/
theorem prints_below_one (hscale : d.scale ≠ 0)
    (hge : (Nat.toDigits 10 d.v.natAbs).length ≤ d.scale) (extra : Nat) :
    ∃ m, Prints d extra m := by
  have hwhole : ∀ c ∈ Nat.toDigits 10 d.v.natAbs, c.isDigit = true :=
    fun c hc => Nat.isDigit_of_mem_toDigits (by decide) (by decide) hc
  have hdigits := padded_digits
    (d.scale - (Nat.toDigits 10 d.v.natAbs).length + 1) d.v.natAbs extra
  have hplaces : (List.replicate
      (d.scale - (Nat.toDigits 10 d.v.natAbs).length) '0' ++
        Nat.toDigits 10 d.v.natAbs ++ List.replicate extra '0').length =
      d.scale + extra := by
    rw [List.length_append, List.length_append, List.length_replicate,
      List.length_replicate]
    omega
  refine ⟨⟨decide (d.v < 0), ['0'], some (List.replicate
    (d.scale - (Nat.toDigits 10 d.v.natAbs).length) '0' ++
      Nat.toDigits 10 d.v.natAbs ++ List.replicate extra '0'), ?_⟩,
    ?_, ?_, ?_, ?_⟩
  · exact hdigits
  · rw [mpzGetStr_eq, placePoint_eq hwhole, if_pos hscale, if_pos hge,
      signOf_eq, Numeral.text_point rfl, List.append_assoc, List.append_assoc]
    rfl
  · exact ⟨by simp, fun _ => rfl⟩
  · exact ⟨⟨fun h => (by cases h), fun h => by omega⟩, hplaces⟩
  · exact Numeral.value_padded (z := d.scale -
      (Nat.toDigits 10 d.v.natAbs).length + 1) rfl rfl hplaces

/-- Otherwise the point goes between the digits. -/
theorem prints_above_one (hscale : d.scale ≠ 0)
    (hlt : d.scale < (Nat.toDigits 10 d.v.natAbs).length) (extra : Nat) :
    ∃ m, Prints d extra m := by
  have hwhole : ∀ c ∈ Nat.toDigits 10 d.v.natAbs, c.isDigit = true :=
    fun c hc => Nat.isDigit_of_mem_toDigits (by decide) (by decide) hc
  have hdigits := padded_digits 0 d.v.natAbs extra
  rw [List.replicate_zero, List.nil_append] at hdigits
  generalize hcs : Nat.toDigits 10 d.v.natAbs = cs at hlt hwhole hdigits
  have hjoin : cs.take (cs.length - d.scale) ++
      (cs.drop (cs.length - d.scale) ++ List.replicate extra '0') =
      cs ++ List.replicate extra '0' := by
    rw [← List.append_assoc, List.take_append_drop]
  have hplaces : (cs.drop (cs.length - d.scale) ++
      List.replicate extra '0').length = d.scale + extra := by
    rw [List.length_append, List.length_drop, List.length_replicate]
    omega
  -- the last digit is not a zero, so the number is not and the first is not
  have hpos : 0 < d.v.natAbs := by
    have hlast := d.canonical.resolve_left hscale
    omega
  refine ⟨⟨decide (d.v < 0), cs.take (cs.length - d.scale),
    some (cs.drop (cs.length - d.scale) ++ List.replicate extra '0'), ?_⟩,
    ?_, ?_, ?_, ?_⟩
  · rw [Option.getD_some, hjoin]
    exact hdigits
  · rw [mpzGetStr_eq, hcs, placePoint_eq hwhole, if_pos hscale,
      if_neg (by omega), signOf_eq, Numeral.text_point rfl, List.append_assoc]
    rfl
  · refine ⟨fun h => ?_, fun h => ?_⟩
    · have hlength := congrArg List.length h
      rw [List.length_take, List.length_nil] at hlength
      omega
    · rw [List.head?_take, if_neg (by omega), ← hcs] at h
      exact absurd h (head_toDigits hpos)
  · exact ⟨⟨fun h => (by cases h), fun h => by omega⟩, hplaces⟩
  · refine Numeral.value_padded (z := 0) rfl ?_ hplaces
    rw [List.replicate_zero, List.nil_append, hcs]
    exact hjoin

/-- **THE DIGITS**: with zeros appended, a decimal is printed as it is. -/
theorem prints (d : Decimal) (extra : Nat) : ∃ m, Prints d extra m := by
  by_cases hscale : d.scale = 0
  · exact prints_integer hscale extra
  · rcases Nat.lt_or_ge d.scale (Nat.toDigits 10 d.v.natAbs).length with hlt | hge
    · exact prints_above_one hscale hlt extra
    · exact prints_below_one hscale hge extra

theorem serializeWithAppending_eq (h : (d.scale : Int) ≤ scale) :
    ∃ m : Numeral, serializeWithAppending d scale = .ok (0, m.text) ∧ m.Plain ∧
      m.Shaped scale.toNat ∧ m.value = d.value := by
  obtain ⟨m, htext, hplain, hshaped, hvalue⟩ :=
    prints d (scale - d.scale).toNat
  have hsum : d.scale + (scale - d.scale).toNat = scale.toNat := by omega
  rw [hsum] at hshaped
  refine ⟨m, ?_, hplain, hshaped, hvalue⟩
  rw [serializeWithAppending, if_neg (by omega)]
  dsimp only
  rw [if_neg (by omega), htext]

/-- **ROUNDED IN PRINT**: what `Serialize` prints is a plain numeral with as many
    digits behind the point as were asked for; it stands for the decimal rounded
    to them, and what is returned tells on which side.  With a negative scale it
    stands for the decimal itself. -/
theorem serialize_correctly_rounded (d : Decimal) (scale : Int)
    (rounding : Rounding) :
    ∃ result, ∃ m : Numeral, serialize d scale rounding = .ok (result, m.text) ∧
      m.Plain ∧ (SignType.sign (m.value - d.value) : ℤ) = result ∧
      (0 ≤ scale → m.Shaped scale.toNat ∧
        ∀ y, RoundedTo rounding.mode scale.toNat d.value y ↔ y = m.value) ∧
      (scale < 0 → m.value = d.value ∧ result = 0) := by
  have hexact : ∀ {x y : ℚ}, x = y → (SignType.sign (x - y) : ℤ) = 0 := by
    rintro x _ rfl
    rw [sub_self, sign_zero]
    rfl
  unfold serialize
  by_cases hneg : scale < 0
  · -- as it is: zero on a path of its own
    have hreal : ∀ {m : Numeral}, m.value = d.value →
        (0 ≤ scale → m.Shaped scale.toNat ∧
          ∀ y, RoundedTo rounding.mode scale.toNat d.value y ↔ y = m.value) ∧
        (scale < 0 → m.value = d.value ∧ (0 : Int) = 0) := fun hvalue =>
      ⟨fun h => absurd hneg (not_lt.mpr h), fun _ => ⟨hvalue, rfl⟩⟩
    by_cases hzero : d.v = 0
    · have hscale : d.scale = 0 :=
        d.canonical.resolve_right fun h => h (by rw [hzero]; rfl)
      obtain ⟨m, htext, hplain, -, hvalue⟩ := prints d 0
      rw [hscale, hzero] at htext
      refine ⟨0, m, ?_, hplain, hexact hvalue, hreal hvalue⟩
      rw [if_pos ⟨hneg, hzero⟩, ← htext]
      rfl
    · obtain ⟨m, hprint, hplain, -, hvalue⟩ :=
        serializeWithAppending_eq (d := d) (le_refl (d.scale : Int))
      refine ⟨0, m, ?_, hplain, hexact hvalue, hreal hvalue⟩
      rw [if_neg fun h => hzero h.2]
      dsimp only
      rw [if_neg (not_le.mpr hneg), if_pos (by omega), hprint]
  · have hscale : 0 ≤ scale := not_lt.mp hneg
    rw [if_neg fun h => hneg h.1]
    dsimp only
    rw [if_pos hscale]
    by_cases hfits : (d.scale : Int) ≤ scale
    · obtain ⟨m, hprint, hplain, hshaped, hvalue⟩ :=
        serializeWithAppending_eq hfits
      have hwhole : d.value * 10 ^ scale.toNat =
          (d.v * 10 ^ (scale.toNat - d.scale) : Int) := by
        have hsum : scale.toNat = d.scale + (scale.toNat - d.scale) := by omega
        rw [Decimal.value, hsum, pow_add, ← mul_assoc,
          div_mul_cancel₀ _ (by positivity), Nat.add_sub_cancel_left]
        push_cast
        rfl
      have hround : RoundedTo rounding.mode scale.toNat d.value m.value := by
        refine (Rounded.spec (rounded_exact hwhole) ?_).1
        rw [hvalue, ← hwhole, mul_div_assoc, div_self (by positivity), mul_one]
      refine ⟨0, m, ?_, hplain, hexact hvalue, fun _ => ⟨hshaped, fun y => ?_⟩,
        fun h => absurd h hneg⟩
      · rw [if_pos (by omega), hprint]
      · exact ⟨fun hy => hy.unique hround, fun hy => hy ▸ hround⟩
    · have hone : ((Operand.other (.ofInt 1)).get d.copy).v ≠ 0 :=
        one_ne_zero
      obtain ⟨result, a', hdiv, hround, hsign, hle⟩ :=
        div_rounded hscale hone rounding
      have hquotient : d.copy.value / ((Operand.other (.ofInt 1)).get d.copy).value
          = d.value := by
        rw [Operand.get, Decimal.ofInt_value, Int.cast_one, div_one,
          Decimal.copy_value]
      rw [hquotient] at hround hsign
      have hfit : (a'.scale : Int) ≤ scale := by omega
      obtain ⟨m, hprint, hplain, hshaped, hvalue⟩ :=
        serializeWithAppending_eq hfit
      rw [← hvalue] at hround hsign
      refine ⟨result, m, ?_, hplain, hsign, fun _ => ⟨hshaped, fun y => ?_⟩,
        fun h => absurd h hneg⟩
      · rw [if_neg (by omega), serializeWithRounding, if_neg hneg, hdiv]
        dsimp only
        rw [hprint]
      · exact ⟨fun hy => hy.unique hround, fun hy => hy ▸ hround⟩

end FlinterDecimal
