import Flinter.DecimalPrintProofs

/-! # Parsing a decimal

    `Parse` reads a string once, copies its sign and digits into a buffer and
    counts the digits, those behind the point and the zeros it has last seen.
    It accepts what looks like a numeral, and the counters are enough to drop
    the zeros at the end: the object becomes what the numeral stands for, in
    canonical form.  What is printed exactly is read back. -/

namespace FlinterDecimal

open Roundings Numerals

variable {negative : Bool} {whole f cs : List Char} {c : Char}

-- ── The code ─────────────────────────────────────────────────────────────────

/-- `Parse`: the buffer as far as `pos`, and the counters. -/
structure Scan where
  buffer : List Char
  digits : Nat
  scale : Int
  zdigits : Nat
deriving DecidableEq, Repr

/-- `Parse`: the loop's body. -/
def Scan.step (σ : Scan) (c : Char) : Option Scan :=
  if c.isDigit then
    some {
      buffer := σ.buffer ++ [c]
      digits := σ.digits + 1
      scale := if σ.scale ≥ 0 then σ.scale + 1 else σ.scale
      zdigits := if c = '0' then σ.zdigits + 1 else 0 }
  else if c = '.' then
    if σ.scale ≥ 0 then none else some { σ with scale := 0 }
  else
    none

/-- `Parse`: the sign and the loop. -/
def scan (s : List Char) : Option Scan :=
  if s.head? = some '-' then s.tail.foldlM Scan.step ⟨['-'], 0, -1, 0⟩
  else s.foldlM Scan.step ⟨[], 0, -1, 0⟩

/-- `mpz_set_str` in base ten, of a string without blanks. -/
def mpzSetStr (s : List Char) : Option Int :=
  let digits := if s.head? = some '-' then s.tail else s
  if digits ≠ [] ∧ digits.all Char.isDigit then
    some (if s.head? = some '-' then -(number digits : Int) else number digits)
  else
    none

/-- `Parse`: the integer and the scale, of a string that it accepts. -/
def accept (s : List Char) : Option (Int × Nat) :=
  if s = [] ∨ s.length ≥ 1024 then none
  else
    match scan s with
    | none => none
    | some σ =>
        if σ.digits = 0 then none
        else if σ.zdigits = σ.digits then some (0, 0)
        else
          let zdigits : Int := if σ.scale > 0 then min σ.zdigits σ.scale else 0
          let buffer := σ.buffer.take (σ.buffer.length - zdigits.toNat)
          match mpzSetStr buffer with
          | none => none
          | some v => some (v, (max 0 (σ.scale - zdigits)).toNat)

-- ── The loop ─────────────────────────────────────────────────────────────────

def signText (negative : Bool) : List Char := if negative then ['-'] else []

/-- What the loop has after a sign, some digits, and maybe a point with more of
    them. -/
def scanned (negative : Bool) (whole : List Char) : Option (List Char) → Scan
  | none => ⟨signText negative ++ whole, whole.length, -1, zeros whole⟩
  | some f => ⟨signText negative ++ (whole ++ f), (whole ++ f).length, f.length,
      zeros (whole ++ f)⟩

theorem step_whole (hc : c.isDigit = true) :
    (scanned negative whole none).step c =
      some (scanned negative (whole ++ [c]) none) := by
  rw [Scan.step, if_pos hc]
  simp only [scanned, List.append_assoc, List.length_append, zeros_concat]
  rfl

theorem step_fraction (hc : c.isDigit = true) :
    (scanned negative whole (some f)).step c =
      some (scanned negative whole (some (f ++ [c]))) := by
  have hscale : ((f.length : Int) ≥ 0) := Int.natCast_nonneg _
  rw [Scan.step, if_pos hc]
  simp only [scanned]
  simp only [← List.append_assoc, zeros_concat, List.length_append,
    List.length_singleton]
  rfl

theorem step_point :
    (scanned negative whole none).step '.' =
      some (scanned negative whole (some [])) := by
  simp only [scanned, List.append_nil]
  rfl

theorem step_second_point :
    (scanned negative whole (some f)).step '.' = none := by
  have hscale : ((f.length : Int) ≥ 0) := Int.natCast_nonneg _
  rw [Scan.step, if_neg (by decide), if_pos rfl]
  exact if_pos hscale

theorem step_other {σ : Scan} (hc : ¬c.isDigit = true) (hp : c ≠ '.') :
    σ.step c = none := by
  rw [Scan.step, if_neg hc, if_neg hp]

/-- Behind the point only digits are taken. -/
theorem run_fraction :
    cs.foldlM Scan.step (scanned negative whole (some f)) =
      if cs.all Char.isDigit then some (scanned negative whole (some (f ++ cs)))
      else none := by
  induction cs generalizing f with
  | nil => rw [List.append_nil]; rfl
  | cons c cs ih =>
      rw [List.foldlM_cons, List.all_cons]
      by_cases hc : c.isDigit = true
      · rw [step_fraction hc, hc, Bool.true_and, Option.bind_eq_bind,
          Option.bind_some, ih, List.append_assoc]
        rfl
      · have hnone : (scanned negative whole (some f)).step c = none := by
          by_cases hp : c = '.'
          · rw [hp]
            exact step_second_point
          · exact step_other hc hp
        rw [hnone, Bool.eq_false_iff.mpr hc]
        rfl

/-- Before it, digits are taken. -/
theorem run_whole (hcs : ∀ c ∈ cs, c.isDigit = true) :
    cs.foldlM Scan.step (scanned negative whole none) =
      some (scanned negative (whole ++ cs) none) := by
  induction cs generalizing whole with
  | nil => rw [List.append_nil]; rfl
  | cons c cs ih =>
      rw [List.foldlM_cons, step_whole (hcs c List.mem_cons_self),
        Option.bind_eq_bind, Option.bind_some,
        ih fun d hd => hcs d (List.mem_cons_of_mem _ hd), List.append_assoc]
      rfl

/-- What the loop gets through is digits, or digits around a point. -/
theorem run_parts {σ : Scan}
    (h : cs.foldlM Scan.step (scanned negative whole none) = some σ) :
    ∃ ds : List Char, (∀ c ∈ ds, c.isDigit = true) ∧
      (cs = ds ∧ σ = scanned negative (whole ++ ds) none ∨
        ∃ f, (∀ c ∈ f, c.isDigit = true) ∧ cs = ds ++ '.' :: f ∧
          σ = scanned negative (whole ++ ds) (some f)) := by
  induction cs generalizing whole with
  | nil =>
      refine ⟨[], by simp, .inl ⟨rfl, ?_⟩⟩
      rw [List.append_nil]
      exact (Option.some.inj h).symm
  | cons c cs ih =>
      rw [List.foldlM_cons] at h
      by_cases hc : c.isDigit = true
      · rw [step_whole hc, Option.bind_eq_bind, Option.bind_some] at h
        obtain ⟨ds, hds, hparts⟩ := ih h
        have hcons : ∀ d ∈ c :: ds, d.isDigit = true := by
          intro d hd
          rcases List.mem_cons.mp hd with rfl | hd
          · exact hc
          · exact hds d hd
        refine ⟨c :: ds, hcons, ?_⟩
        rw [List.append_assoc] at hparts
        rcases hparts with ⟨rfl, hσ⟩ | ⟨f, hf, rfl, hσ⟩
        · exact .inl ⟨rfl, hσ⟩
        · exact .inr ⟨f, hf, rfl, hσ⟩
      · by_cases hp : c = '.'
        · rw [hp, step_point, Option.bind_eq_bind, Option.bind_some,
            run_fraction] at h
          split at h
          · next hall =>
              refine ⟨[], by simp, .inr ⟨cs, List.all_eq_true.mp hall, ?_, ?_⟩⟩
              · rw [hp]
                rfl
              · rw [List.append_nil]
                exact (Option.some.inj h).symm
          · cases h
        · rw [step_other hc hp] at h
          cases h

-- ── Numerals ─────────────────────────────────────────────────────────────────

variable {m : Numeral} {s : List Char} {d : Decimal}

theorem text_eq : m.text = signText m.negative ++ m.body := rfl

theorem body_head (hbody : m.body.head? = some '-') : False := by
  have hmem : '-' ∈ m.body := List.mem_of_mem_head? hbody
  rw [Numeral.body] at hmem
  rcases List.mem_append.mp hmem with hmem | hmem
  · cases m.digits_only _ (List.mem_append_left _ hmem)
  · cases hf : m.fraction with
    | none =>
        rw [hf] at hmem
        cases hmem
    | some f =>
        rw [hf] at hmem
        rcases List.mem_cons.mp hmem with heq | hmem
        · cases heq
        · refine absurd (m.digits_only '-' (List.mem_append_right _ ?_)) (by decide)
          rw [hf]
          exact hmem

theorem run_body : m.body.foldlM Scan.step (scanned m.negative [] none) =
    some (scanned m.negative m.whole m.fraction) := by
  have hwhole : ∀ c ∈ m.whole, c.isDigit = true := fun c hc =>
    m.digits_only c (List.mem_append_left _ hc)
  rw [Numeral.body, List.foldlM_append, run_whole hwhole, List.nil_append,
    Option.bind_eq_bind, Option.bind_some]
  cases hf : m.fraction with
  | none => rfl
  | some f =>
      have hfraction : f.all Char.isDigit = true := by
        refine List.all_eq_true.mpr fun c hc =>
          m.digits_only c (List.mem_append_right _ ?_)
        rw [hf]
        exact hc
      dsimp only
      rw [List.foldlM_cons, step_point, Option.bind_eq_bind, Option.bind_some,
        run_fraction, if_pos hfraction, List.nil_append]

/-- **EVERY NUMERAL**: the loop gets through a numeral. -/
theorem scan_text :
    scan m.text = some (scanned m.negative m.whole m.fraction) := by
  rw [scan, text_eq, ← run_body]
  cases m.negative with
  | true => rfl
  | false => exact if_neg body_head

/-- **ONLY NUMERALS**: what it gets through is one. -/
theorem text_of_scan {σ : Scan} (h : scan s = some σ) :
    ∃ m : Numeral, m.text = s := by
  have hparts : ∀ negative {cs},
      cs.foldlM Scan.step (scanned negative [] none) = some σ →
      ∃ m : Numeral, m.text = signText negative ++ cs := by
    intro negative cs h
    obtain ⟨ds, hds, ⟨rfl, -⟩ | ⟨f, hf, rfl, -⟩⟩ := run_parts h
    · refine ⟨⟨negative, cs, none, ?_⟩, Numeral.text_integer rfl⟩
      rw [Option.getD_none, List.append_nil]
      exact hds
    · refine ⟨⟨negative, ds, some f, ?_⟩, ?_⟩
      · intro c hc
        exact (List.mem_append.mp hc).elim (hds c) (hf c)
      · rw [Numeral.text_point rfl, List.append_assoc]
        rfl
  rw [scan] at h
  split at h
  · next hsign =>
      obtain ⟨m, hm⟩ := hparts true h
      refine ⟨m, ?_⟩
      rw [hm, signText, if_pos rfl, List.singleton_append]
      exact List.cons_head?_tail hsign
  · obtain ⟨m, hm⟩ := hparts false h
    exact ⟨m, hm⟩

-- ── The integer and the scale ────────────────────────────────────────────────

theorem mpzSetStr_digits (hcs : ∀ c ∈ cs, c.isDigit = true) (hne : cs ≠ []) :
    mpzSetStr (signText negative ++ cs) =
      some (Numeral.signed negative (number cs)) := by
  have hall : cs.all Char.isDigit = true := List.all_eq_true.mpr hcs
  unfold mpzSetStr
  cases negative with
  | true => exact if_pos ⟨hne, hall⟩
  | false =>
      have hsign : ¬((signText false ++ cs).head? = some '-') := by
        intro h
        have hdigit := hcs _ (List.mem_of_mem_head? h)
        cases hdigit
      dsimp only
      rw [if_neg hsign, if_neg hsign]
      exact if_pos (And.intro hne hall)

/-- A numeral with a digit is accepted, for what it stands for. -/
theorem accept_numeral (hdigits : m.digits ≠ []) (hlength : m.text.length < 1024) :
    ∃ v scale, accept m.text = some (v, scale) ∧
      (v : ℚ) / 10 ^ scale = m.value ∧ (scale = 0 ∨ v % 10 ≠ 0) := by
  have hne : m.text ≠ [] := by
    intro h
    rw [text_eq] at h
    have hbody := (List.append_eq_nil_iff.mp h).2
    rw [Numeral.body] at hbody
    obtain ⟨hwhole, hrest⟩ := List.append_eq_nil_iff.mp hbody
    refine hdigits ?_
    rw [Numeral.digits, hwhole]
    cases hf : m.fraction with
    | none => rfl
    | some f =>
        rw [hf] at hrest
        cases hrest
  -- the counters, as the numeral has them
  have hscanned : scanned m.negative m.whole m.fraction =
      ⟨signText m.negative ++ m.digits, m.digits.length,
        match m.fraction with | none => -1 | some f => f.length,
        zeros m.digits⟩ := by
    rw [Numeral.digits]
    cases m.fraction with
    | none => rw [Option.getD_none, List.append_nil]; rfl
    | some f => rfl
  have hpos : 0 < m.digits.length := List.length_pos_iff.mpr hdigits
  unfold accept
  rw [if_neg (by rintro (h | h); exacts [hne h, by omega]), scan_text, hscanned]
  dsimp only
  rw [if_neg hpos.ne']
  by_cases hzeros : zeros m.digits = m.digits.length
  · rw [if_pos hzeros]
    refine ⟨0, 0, rfl, ?_, .inl rfl⟩
    have hsigned : Numeral.signed m.negative 0 = 0 := by
      cases m.negative <;> rfl
    rw [Numeral.value, number_all_zeros hzeros, hsigned, Int.cast_zero,
      zero_div, zero_div]
  · rw [if_neg hzeros]
    have hle := @zeros_le m.digits
    have hplaces := m.places_le
    -- zeros are dropped as far as the point
    have hdrop : ∀ n : Int,
        n = (match m.fraction with | none => -1 | some f => (f.length : Int)) →
        (if n > 0 then min (zeros m.digits : Int) n else 0) =
            (min (zeros m.digits) m.places : Nat) ∧
          (max 0 (n - (min (zeros m.digits) m.places : Nat))).toNat =
            m.places - min (zeros m.digits) m.places := by
      rintro _ rfl
      rw [Numeral.places]
      cases m.fraction with
      | none => exact ⟨by simp, by simp⟩
      | some f =>
          dsimp only [Option.getD_some]
          constructor
          · split <;> omega
          · omega
    obtain ⟨hz, hscale⟩ := hdrop _ rfl
    rw [hz, hscale, Int.toNat_natCast]
    generalize hmin : min (zeros m.digits) m.places = z
    have hbuffer : (signText m.negative ++ m.digits).take
        ((signText m.negative ++ m.digits).length - z) =
        signText m.negative ++ m.digits.take (m.digits.length - z) := by
      have hcut : (signText m.negative ++ m.digits).length - z =
          (signText m.negative).length + (m.digits.length - z) := by
        rw [List.length_append]
        omega
      rw [hcut, List.take_append, List.take_of_length_le (by omega),
        Nat.add_sub_cancel_left]
    have hkept : m.digits.take (m.digits.length - z) ≠ [] := by
      intro h
      have hnil := congrArg List.length h
      rw [List.length_take, List.length_nil] at hnil
      omega
    have hdigit : ∀ c ∈ m.digits.take (m.digits.length - z),
        c.isDigit = true := fun c hc =>
      m.digits_only c (List.mem_of_mem_take hc)
    rw [hbuffer, mpzSetStr_digits hdigit hkept]
    refine ⟨_, _, rfl, ?_, ?_⟩
    · exact (m.value_trimmed (by omega) (by omega)).symm
    · rcases Nat.lt_or_ge (zeros m.digits) m.places with hlt | hge
      · have hall : z = zeros m.digits := by omega
        have hfew : zeros m.digits < m.digits.length :=
          lt_of_le_of_ne hle hzeros
        have hlast : number (m.digits.take (m.digits.length - zeros m.digits)) %
            10 ≠ 0 := number_take_zeros m.digits_only hfew
        refine .inr ?_
        rw [hall]
        cases m.negative with
        | true =>
            rw [Numeral.signed, if_pos rfl]
            omega
        | false =>
            rw [Numeral.signed, if_neg (by decide)]
            omega
      · exact .inl (by omega)

/-- Only numerals with a digit are. -/
theorem numeral_of_accept {r : Int × Nat} (h : accept s = some r) :
    s.length < 1024 ∧ ∃ m : Numeral, m.text = s ∧ m.digits ≠ [] := by
  unfold accept at h
  split at h
  · cases h
  · next hlength =>
      split at h
      · cases h
      · next σ hσ =>
          split at h
          · cases h
          · next hdigits =>
              refine ⟨by omega, ?_⟩
              obtain ⟨m, rfl⟩ := text_of_scan hσ
              refine ⟨m, rfl, fun hnil => hdigits ?_⟩
              rw [scan_text] at hσ
              have hlength : m.whole = [] ∧ m.fraction.getD [] = [] :=
                List.append_eq_nil_iff.mp hnil
              rw [← Option.some.inj hσ, hlength.1]
              cases hf : m.fraction with
              | none => rfl
              | some f =>
                  rw [hf] at hlength
                  have hfnil : f = [] := hlength.2
                  rw [hfnil]
                  rfl

theorem accept_canonical {r : Int × Nat} (h : accept s = some r) :
    r.2 = 0 ∨ r.1 % 10 ≠ 0 := by
  obtain ⟨hlength, m, rfl, hdigits⟩ := numeral_of_accept h
  obtain ⟨v, scale, haccept, -, hcanonical⟩ := accept_numeral hdigits hlength
  rw [haccept] at h
  rw [← Option.some.inj h]
  exact hcanonical

/-- `Parse`: what it returns, and the object afterwards. -/
def parse (d : Decimal) (s : List Char) : Bool × Decimal :=
  match h : accept s with
  | none => (false, d)
  | some r =>
      (true, { d with v := r.1, scale := r.2, canonical := accept_canonical h })

theorem parse_none (h : accept s = none) : parse d s = (false, d) := by
  unfold parse
  split
  · rfl
  · next h' =>
      rw [h] at h'
      cases h'

theorem parse_some {r : Int × Nat} (h : accept s = some r) :
    parse d s = (true, { d with
      v := r.1, scale := r.2, canonical := accept_canonical h }) := by
  unfold parse
  split
  · next h' =>
      rw [h] at h'
      cases h'
  · next r' h' =>
      have heq : r = r' := by
        rw [h] at h'
        exact Option.some.inj h'
      subst heq
      rfl

-- ── Reading back ─────────────────────────────────────────────────────────────

/-- In canonical form a number is written in one way. -/
theorem eq_of_value {a b : Decimal} (h : a.value = b.value) :
    a.v = b.v ∧ a.scale = b.scale := by
  have hcross : a.v * 10 ^ b.scale = b.v * 10 ^ a.scale := by
    have hpow : ∀ k : Nat, (10 : ℚ) ^ k ≠ 0 := fun k => by positivity
    rw [Decimal.value, Decimal.value, div_eq_div_iff (hpow _) (hpow _)] at h
    exact_mod_cast h
  have hle : ∀ {a b : Decimal}, a.v * 10 ^ b.scale = b.v * 10 ^ a.scale →
      b.scale ≤ a.scale := by
    intro a b hcross
    by_contra hgt
    obtain ⟨k, hk⟩ := Nat.exists_eq_add_of_lt (not_le.mp hgt)
    have hten : (10 : Int) ^ a.scale ≠ 0 := by positivity
    rw [hk, add_assoc, pow_add, mul_comm ((10 : Int) ^ a.scale), ← mul_assoc]
      at hcross
    have hv := mul_right_cancel₀ hten hcross
    rw [pow_succ, ← mul_assoc] at hv
    have hlast := b.canonical.resolve_left (by omega)
    omega
  have hscale : a.scale = b.scale :=
    le_antisymm (hle hcross.symm) (hle hcross)
  rw [hscale] at hcross
  exact ⟨mul_right_cancel₀ (by positivity) hcross, hscale⟩

/-- **PARSING**: the strings that `Parse` accepts are the numerals of fewer than
    1024 characters with a digit; the object becomes what the numeral stands
    for, in canonical form, or is left alone; and what `str` prints exactly is
    read back. -/
theorem parse_exact (d : Decimal) (s : List Char) :
    ((parse d s).1 = true ↔
      s.length < 1024 ∧ ∃ m : Numeral, m.text = s ∧ m.digits ≠ []) ∧
    (∀ m : Numeral, m.text = s → (parse d s).1 = true →
      (parse d s).2.value = m.value) ∧
    ((parse d s).2.scale = 0 ∨ (parse d s).2.v % 10 ≠ 0) ∧
    ((parse d s).2.value = 0 → (parse d s).2.scale = 0) ∧
    ((parse d s).1 = false → (parse d s).2 = d) ∧
    ∀ e : Decimal, e.dscale < 0 → ∃ printed, str e (-1) = .ok printed ∧
      (printed.length < 1024 → (parse d printed).1 = true ∧
        (parse d printed).2.v = e.v ∧ (parse d printed).2.scale = e.scale) := by
  have hvalue : ∀ {m : Numeral}, m.digits ≠ [] → m.text.length < 1024 →
      (parse d m.text).1 = true ∧ (parse d m.text).2.value = m.value := by
    intro m hdigits hlength
    obtain ⟨v, scale, haccept, heq, -⟩ := accept_numeral hdigits hlength
    rw [parse_some haccept]
    exact ⟨rfl, heq⟩
  have haccepted : ∀ {s}, (parse d s).1 = true →
      s.length < 1024 ∧ ∃ m : Numeral, m.text = s ∧ m.digits ≠ [] := by
    intro s h
    cases haccept : accept s with
    | none =>
        rw [parse_none haccept] at h
        cases h
    | some r => exact numeral_of_accept haccept
  refine ⟨⟨haccepted, ?_⟩, ?_, (parse d s).2.canonical, ?_, ?_, ?_⟩
  · rintro ⟨hlength, m, rfl, hdigits⟩
    exact (hvalue hdigits hlength).1
  · rintro m rfl h
    obtain ⟨hlength, m', htext, hdigits⟩ := haccepted h
    obtain ⟨c, hc⟩ := List.exists_mem_of_ne_nil _ hdigits
    rw [Numeral.mem_digits, htext, ← Numeral.mem_digits] at hc
    exact (hvalue (List.ne_nil_of_mem hc) hlength).2
  · intro hzero
    refine (parse d s).2.canonical.resolve_right fun h => h ?_
    rw [Decimal.value_eq_zero.mp hzero]
    rfl
  · intro h
    cases haccept : accept s with
    | none => rw [parse_none haccept]
    | some r =>
        rw [parse_some haccept] at h
        cases h
  · intro e hscale
    obtain ⟨result, m, hserialize, hplain, -, -, hexact⟩ :=
      serialize_correctly_rounded e e.dscale e.rounding
    refine ⟨m.text, ?_, fun hlength => ?_⟩
    · rw [str, if_neg (by decide), hserialize]
    · have hdigits : m.digits ≠ [] := fun h =>
        hplain.1 (List.append_eq_nil_iff.mp h).1
      obtain ⟨haccept, hvalue⟩ := hvalue hdigits hlength
      rw [(hexact hscale).1] at hvalue
      exact ⟨haccept, eq_of_value hvalue⟩

end FlinterDecimal
