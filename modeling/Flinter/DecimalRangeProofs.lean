import Flinter.DecimalArithmeticProofs
import Flinter.DecimalCopyProofs
import Flinter.RunProofs

/-! # The range of the scale

    A scale is an `int`, and no operation checks what it adds to it.  Beside
    each operation stands the list of what it computes from scales, in the
    integers; an operation goes wrong where one of them does not fit its type.

    Only two of them can.  `Mul` adds two scales, so that squaring doubles one,
    and `Div` subtracts a negative difference from the wanted scale.  Where the
    two keep to the range, all the others do, over any run. -/

namespace FlinterDecimal

open Runs Roundings

variable {a b d : Decimal} {v : Int} {s t : Nat} {o : Operand}

-- ── What is computed ─────────────────────────────────────────────────────────

def intMax : Int := 2147483647
def intMin : Int := -2147483648
def ulongMax : Int := 18446744073709551615

/-- An `int`. -/
structure CInt where
  val : Int
  lower : intMin ≤ val
  upper : val ≤ intMax

/-- A value computed from a scale, with what it has to fit: a type, or the
    length of the string that it is a position in. -/
inductive Computation where
  | int (x : Int)
  | unsignedLong (x : Int)
  | position (x : Int) (length : Nat)
deriving DecidableEq, Repr

def Computation.Fits : Computation → Prop
  | .int x => intMin ≤ x ∧ x ≤ intMax
  | .unsignedLong x => 0 ≤ x ∧ x ≤ ulongMax
  | .position x length => 0 ≤ x ∧ x ≤ length

/-- Nothing leaves its type. -/
def AllFit (cs : List Computation) : Prop := ∀ c ∈ cs, c.Fits

/-- `Upscale`, of a decimal of scale `scale`. -/
def upscaleScales (scale s : Int) : List Computation :=
  [.int s, .unsignedLong s, .int (scale + s)]

/-- `Cleanup`: the scale each time that it is counted down. -/
def cleanupScales (v : Int) : Nat → List Computation
  | 0 => []
  | s + 1 => if v % 10 ≠ 0 then [] else .int s :: cleanupScales (v / 10) s

/-- `Parse`: the local scale after each character, and what is left of it
    without the zeros. -/
def parseScales (s : List Char) : List Computation :=
  if s = [] ∨ s.length ≥ 1024 then []
  else
    (s.inits.filterMap scan).map (fun σ => .int σ.scale) ++
      match scan s with
      | none => []
      | some σ =>
          let zdigits : Int := if σ.scale > 0 then min σ.zdigits σ.scale else 0
          [.int (σ.scale - zdigits), .int (max 0 (σ.scale - zdigits))]

/-- `Add`. -/
def addScales (a : Decimal) (o : Operand) : List Computation :=
  let b := o.get a
  if a.scale < b.scale then
    let (v, scale) := a.upscale (b.scale - a.scale)
    upscaleScales a.scale (b.scale - a.scale) ++ cleanupScales (v + b.v) scale
  else if a.scale > b.scale then
    let (v, _) := b.copy.upscale (a.scale - b.scale)
    upscaleScales b.scale (a.scale - b.scale) ++ cleanupScales (a.v + v) a.scale
  else
    cleanupScales (a.v + b.v) a.scale

/-- `Sub`. -/
def subScales (a : Decimal) : Operand → List Computation
  | .itself => cleanupScales 0 0
  | .other b =>
    if a.scale < b.scale then
      let (v, scale) := a.upscale (b.scale - a.scale)
      upscaleScales a.scale (b.scale - a.scale) ++ cleanupScales (v - b.v) scale
    else if a.scale > b.scale then
      let (v, _) := b.copy.upscale (a.scale - b.scale)
      upscaleScales b.scale (a.scale - b.scale) ++ cleanupScales (a.v - v) a.scale
    else
      cleanupScales (a.v - b.v) a.scale

/-- `Mul`. -/
def mulScales (a : Decimal) (o : Operand) : List Computation :=
  .int (a.scale + (o.get a).scale) ::
    cleanupScales (a.v * (o.get a).v) (a.scale + (o.get a).scale)

/-- `compare`. -/
def compareScales (a : Decimal) : Operand → List Computation
  | .itself => []
  | .other b =>
    if a.scale = b.scale then []
    else if a.scale < b.scale then upscaleScales a.scale (b.scale - a.scale)
    else upscaleScales b.scale (a.scale - b.scale)

/-- `Div`. -/
def divScales (a : Decimal) (o : Operand) (scale : Int) (rounding : Rounding) :
    List Computation :=
  if scale < 0 then []
  else if (o.get a).v = 0 then []
  else
    match o with
    | .itself => []
    | .other o =>
        if a.v = 0 then []
        else
          let diff : Int := a.scale - o.scale
          let shift : List Computation :=
            if diff < scale then
              [.int (scale - diff), .unsignedLong (scale - diff)]
            else if diff > scale then
              [.int (diff - scale), .unsignedLong (diff - scale)]
            else []
          let (n, d) := align a o scale
          let (_, q) := adjust rounding (qdir a.v d) (n.tdiv d) (n.tmod d) d
          .int diff :: shift ++ cleanupScales q scale.toNat

/-- `SerializeWithAppending`: the point. -/
def pointScales (scale : Nat) (s : List Char) : List Computation :=
  let p := if s.head? = some '-' then 1 else 0
  let len := s.length - p
  if scale ≠ 0 then
    if scale ≥ len then
      [.unsignedLong scale, .unsignedLong (scale - len),
        .unsignedLong (scale - len + 2)]
    else [.unsignedLong scale, .position (len - scale) len]
  else []

/-- `SerializeWithAppending`. -/
def appendingScales (d : Decimal) (scale : Int) : List Computation :=
  if scale < 0 then []
  else
    .int (scale - d.scale) ::
      if scale - d.scale < 0 then [] else pointScales d.scale (mpzGetStr d.v)

/-- `SerializeWithRounding`. -/
def roundingScales (d : Decimal) (scale : Int) (rounding : Rounding) :
    List Computation :=
  divScales d.copy (.other (.ofInt 1)) scale rounding ++
    appendingScales (div d.copy (.other (.ofInt 1)) scale rounding).2 scale

/-- `Serialize`. -/
def serializeScales (d : Decimal) (scale : Int) (rounding : Rounding) :
    List Computation :=
  if scale < 0 ∧ d.v = 0 then []
  else
    let ns : Int := if scale ≥ 0 then scale else d.scale
    .int (ns - d.scale) ::
      if ns - d.scale ≥ 0 then appendingScales d ns
      else roundingScales d ns rounding

-- ── Runs ─────────────────────────────────────────────────────────────────────

/-- The objects of a program. -/
abbrev Objects := Nat → Decimal

/-- An operation on the objects named. -/
inductive Operation where
  | parse (i : Nat) (s : List Char)
  | add (i j : Nat)
  | sub (i j : Nat)
  | mul (i j : Nat)
  | div (i j : Nat) (scale : CInt) (rounding : Rounding)
  | copy (i j : Nat)
  | compare (i j : Nat)
  | serialize (i : Nat) (scale : CInt) (rounding : Rounding)

/-- The right-hand side, which may be the object itself. -/
def operand (σ : Objects) (i j : Nat) : Operand :=
  if i = j then .itself else .other (σ j)

/-- `operator =`, which leaves the object alone if it is the other. -/
def assigned (a : Decimal) : Operand → Decimal
  | .itself => a
  | .other o => a.become o

/-- The objects afterwards. -/
def perform (σ : Objects) : Operation → Objects
  | .parse i s => Function.update σ i (parse (σ i) s).2
  | .add i j => Function.update σ i ((σ i).add (operand σ i j))
  | .sub i j => Function.update σ i ((σ i).sub (operand σ i j))
  | .mul i j => Function.update σ i ((σ i).mul (operand σ i j))
  | .div i j scale rounding =>
      Function.update σ i (div (σ i) (operand σ i j) scale.val rounding).2
  | .copy i j => Function.update σ i (assigned (σ i) (operand σ i j))
  | .compare _ _ => σ
  | .serialize _ _ _ => σ

/-- What is computed from scales on the way. -/
def scales (σ : Objects) : Operation → List Computation
  | .parse _ s => parseScales s
  | .add i j => addScales (σ i) (operand σ i j)
  | .sub i j => subScales (σ i) (operand σ i j)
  | .mul i j => mulScales (σ i) (operand σ i j)
  | .div i j scale rounding =>
      divScales (σ i) (operand σ i j) scale.val rounding
  | .copy _ _ => []
  | .compare i j => compareScales (σ i) (operand σ i j)
  | .serialize i scale rounding => serializeScales (σ i) scale.val rounding

/-- `Decimal(const std::string &)`. -/
def ofString (s : List Char) : Option Decimal :=
  let (ok, d) := parse (.ofInt 0) s
  if ok then some d else none

/-- A program that works on decimals parsed from strings. -/
def program : System Objects Operation where
  init := fun σ => ∀ i, ∃ s, ofString s = some (σ i)
  step := fun σ op σ' => σ' = perform σ op

-- ── What fits ────────────────────────────────────────────────────────────────

theorem allFit_nil : AllFit [] := List.forall_mem_nil _

theorem allFit_cons {c : Computation} {cs : List Computation} :
    AllFit (c :: cs) ↔ c.Fits ∧ AllFit cs := List.forall_mem_cons

theorem allFit_append {cs ds : List Computation} :
    AllFit (cs ++ ds) ↔ AllFit cs ∧ AllFit ds := List.forall_mem_append

/-- A number of digits up to the largest `int` fits both types. -/
theorem int_fits {x : Int} (h0 : 0 ≤ x) (hmax : x ≤ intMax) :
    (Computation.int x).Fits := by
  simp only [Computation.Fits, intMin, intMax] at *
  omega

theorem unsignedLong_fits {x : Int} (h0 : 0 ≤ x) (hmax : x ≤ intMax + 2) :
    (Computation.unsignedLong x).Fits := by
  simp only [Computation.Fits, ulongMax, intMax] at *
  omega

/-- The smaller of two scales is brought to the larger. -/
theorem upscaleScales_fit {x y : Int} (hx : 0 ≤ x) (hle : x ≤ y)
    (hmax : y ≤ intMax) : AllFit (upscaleScales x (y - x)) := by
  refine allFit_cons.mpr ⟨int_fits (by omega) (by omega), ?_⟩
  refine allFit_cons.mpr ⟨unsignedLong_fits (by omega) (by omega), ?_⟩
  exact allFit_cons.mpr ⟨int_fits (by omega) (by omega), allFit_nil⟩

theorem cleanupScales_fit (hmax : (s : Int) ≤ intMax) :
    AllFit (cleanupScales v s) := by
  induction s generalizing v with
  | zero => exact allFit_nil
  | succ s ih =>
      rw [cleanupScales]
      split
      · exact allFit_nil
      · exact allFit_cons.mpr ⟨int_fits (by omega) (by omega), ih (by omega)⟩

/-- `Add` and `Sub` bring both to one scale, whatever is made of them then. -/
theorem aligned_fit {b : Decimal} (u v w : Int) (ha : (a.scale : Int) ≤ intMax)
    (hb : (b.scale : Int) ≤ intMax) :
    AllFit (if a.scale < b.scale then
        upscaleScales a.scale (b.scale - a.scale) ++
          cleanupScales u (a.upscale (b.scale - a.scale)).2
      else if a.scale > b.scale then
        upscaleScales b.scale (a.scale - b.scale) ++ cleanupScales v a.scale
      else cleanupScales w a.scale) := by
  split
  · refine allFit_append.mpr ⟨upscaleScales_fit (by omega) (by omega) hb, ?_⟩
    refine cleanupScales_fit ?_
    rw [Decimal.upscale]
    omega
  · split
    · exact allFit_append.mpr
        ⟨upscaleScales_fit (by omega) (by omega) ha, cleanupScales_fit ha⟩
    · exact cleanupScales_fit ha

theorem addScales_fit (ha : (a.scale : Int) ≤ intMax)
    (hb : ((o.get a).scale : Int) ≤ intMax) : AllFit (addScales a o) :=
  aligned_fit _ _ _ ha hb

theorem subScales_fit (ha : (a.scale : Int) ≤ intMax)
    (hb : ((o.get a).scale : Int) ≤ intMax) : AllFit (subScales a o) := by
  cases o with
  | itself => exact allFit_nil
  | other b => exact aligned_fit _ _ _ ha hb

theorem compareScales_fit (ha : (a.scale : Int) ≤ intMax)
    (hb : ((o.get a).scale : Int) ≤ intMax) : AllFit (compareScales a o) := by
  cases o with
  | itself => exact allFit_nil
  | other b =>
      rw [Operand.get] at hb
      unfold compareScales
      dsimp only
      split
      · exact allFit_nil
      · split
        · exact upscaleScales_fit (by omega) (by omega) hb
        · exact upscaleScales_fit (by omega) (by omega) ha

/-- `Mul`: the sum fits, or does not. -/
theorem mulScales_fit_iff :
    AllFit (mulScales a o) ↔ (a.scale : Int) + (o.get a).scale ≤ intMax := by
  rw [mulScales, allFit_cons]
  constructor
  · exact fun h => h.1.2
  · intro h
    exact ⟨int_fits (by omega) h, cleanupScales_fit (by push_cast; exact h)⟩

/-- `Div`: it throws or has nothing to divide, or there is room for the scale
    that it brings the dividend to. -/
def DivRoom (a : Decimal) (o : Operand) (scale : Int) : Prop :=
  scale < 0 ∨ (o.get a).v = 0 ∨ o = .itself ∨ a.v = 0 ∨
    scale - (a.scale - (o.get a).scale) ≤ intMax

theorem divScales_fit_iff {scale : Int} {rounding : Rounding}
    (ha : (a.scale : Int) ≤ intMax) (hb : ((o.get a).scale : Int) ≤ intMax)
    (hscale : scale ≤ intMax) :
    AllFit (divScales a o scale rounding) ↔ DivRoom a o scale := by
  unfold divScales DivRoom
  by_cases hneg : scale < 0
  · rw [if_pos hneg]
    exact iff_of_true allFit_nil (.inl hneg)
  rw [if_neg hneg, or_iff_right hneg]
  by_cases hzero : (o.get a).v = 0
  · rw [if_pos hzero]
    exact iff_of_true allFit_nil (.inl hzero)
  rw [if_neg hzero, or_iff_right hzero]
  cases o with
  | itself => exact iff_of_true allFit_nil (.inl rfl)
  | other o =>
      have hother : ¬(Operand.other o = .itself) := by simp
      rw [or_iff_right hother]
      dsimp only [Operand.get] at hb ⊢
      by_cases hnil : a.v = 0
      · rw [if_pos hnil]
        exact iff_of_true allFit_nil (.inl hnil)
      rw [if_neg hnil, or_iff_right hnil, List.cons_append, allFit_cons,
        allFit_append]
      have hdiff : (Computation.int (a.scale - o.scale)).Fits := by
        simp only [Computation.Fits, intMin, intMax] at *
        omega
      have hclean : ∀ q, AllFit (cleanupScales q scale.toNat) := fun q =>
        cleanupScales_fit (by omega)
      rw [and_iff_right hdiff, and_iff_left (hclean _)]
      split
      · next hlt =>
          constructor
          · exact fun h => (allFit_cons.mp h).1.2
          · intro h
            refine allFit_cons.mpr ⟨int_fits (by omega) h, ?_⟩
            exact allFit_cons.mpr
              ⟨unsignedLong_fits (by omega) (by omega), allFit_nil⟩
      · next hge =>
          refine iff_of_true ?_ (by omega)
          split
          · refine allFit_cons.mpr ⟨int_fits (by omega) (by omega), ?_⟩
            exact allFit_cons.mpr
              ⟨unsignedLong_fits (by omega) (by omega), allFit_nil⟩
          · exact allFit_nil

theorem pointScales_fit {cs : List Char} (hmax : (s : Int) ≤ intMax) :
    AllFit (pointScales s cs) := by
  unfold pointScales
  extract_lets p len
  have hsize : (Computation.unsignedLong s).Fits :=
    unsignedLong_fits (by omega) (by omega)
  split
  · split
    · refine allFit_cons.mpr ⟨hsize, allFit_cons.mpr ⟨?_, ?_⟩⟩
      · exact unsignedLong_fits (by omega) (by omega)
      · exact allFit_cons.mpr
          ⟨unsignedLong_fits (by omega) (by omega), allFit_nil⟩
    · refine allFit_cons.mpr ⟨hsize, allFit_cons.mpr ⟨?_, allFit_nil⟩⟩
      rw [Computation.Fits]
      omega
  · exact allFit_nil

theorem appendingScales_fit {scale : Int} (hd : (d.scale : Int) ≤ intMax)
    (hscale : scale ≤ intMax) : AllFit (appendingScales d scale) := by
  unfold appendingScales
  split
  · exact allFit_nil
  · refine allFit_cons.mpr ⟨?_, ?_⟩
    · simp only [Computation.Fits, intMin, intMax] at *
      omega
    · split
      · exact allFit_nil
      · exact pointScales_fit hd

/-- `Div` leaves the scale that it is given, or less, or what was. -/
theorem div_scale_le (a : Decimal) (o : Operand) (scale : Int)
    (rounding : Rounding) :
    (div a o scale rounding).2.scale ≤ max a.scale scale.toNat := by
  unfold div
  split
  · exact le_max_left _ _
  · split
    · exact le_max_left _ _
    · cases o with
      | itself => exact Nat.zero_le _
      | other o =>
          dsimp only
          split
          · exact le_max_left _ _
          · exact le_max_of_le_right Decimal.assign_scale_le

theorem serializeScales_fit {scale : Int} {rounding : Rounding}
    (hd : (d.scale : Int) ≤ intMax) (hscale : scale ≤ intMax) :
    AllFit (serializeScales d scale rounding) := by
  unfold serializeScales
  split
  · exact allFit_nil
  · dsimp only
    generalize hns : (if scale ≥ 0 then scale else (d.scale : Int)) = ns
    have hrange : 0 ≤ ns ∧ ns ≤ intMax := by
      rw [← hns]
      split <;> omega
    refine allFit_cons.mpr ⟨?_, ?_⟩
    · simp only [Computation.Fits, intMin, intMax] at *
      omega
    · split
      · exact appendingScales_fit hd hrange.2
      · refine allFit_append.mpr ⟨?_, ?_⟩
        · -- one has no scale, and fewer digits are wanted than there are
          have hone : (((Operand.other (.ofInt 1)).get d.copy).scale : Int) = 0 := rfl
          refine (divScales_fit_iff (a := d.copy) hd (by rw [hone]; decide)
            hrange.2).mpr ?_
          refine .inr (.inr (.inr (.inr ?_)))
          rw [hone, Decimal.copy_scale]
          omega
        · refine appendingScales_fit ?_ hrange.2
          have hle := div_scale_le d.copy (.other (.ofInt 1)) ns rounding
          rw [Decimal.copy_scale] at hle
          omega

/-- The local scale of `Parse` goes up by one a character, if at all. -/
theorem scale_run {cs : List Char} {σ σ' : Scan} (hlow : -1 ≤ σ.scale)
    (h : cs.foldlM Scan.step σ = some σ') :
    σ.scale ≤ σ'.scale ∧ σ'.scale ≤ σ.scale + cs.length := by
  induction cs generalizing σ with
  | nil =>
      obtain rfl := Option.some.inj h
      exact ⟨le_refl _, by simp⟩
  | cons c cs ih =>
      rw [List.foldlM_cons, Option.bind_eq_bind] at h
      obtain ⟨σ₁, hstep, hrest⟩ := Option.bind_eq_some_iff.mp h
      have hscale : σ.scale ≤ σ₁.scale ∧ σ₁.scale ≤ σ.scale + 1 := by
        unfold Scan.step at hstep
        split at hstep
        · obtain rfl := Option.some.inj hstep
          dsimp only
          split <;> omega
        · split at hstep
          · split at hstep
            · cases hstep
            · obtain rfl := Option.some.inj hstep
              dsimp only
              omega
          · cases hstep
      have hle := ih (by omega) hrest
      rw [List.length_cons]
      push_cast
      omega

theorem scan_scale {cs : List Char} {σ : Scan} (h : scan cs = some σ) :
    -1 ≤ σ.scale ∧ σ.scale ≤ cs.length := by
  unfold scan at h
  split at h
  · have hrun := scale_run (le_refl (-1)) h
    have hlength := List.length_tail (l := cs)
    dsimp only at hrun
    omega
  · have hrun := scale_run (le_refl (-1)) h
    dsimp only at hrun
    omega

theorem parseScales_fit {cs : List Char} : AllFit (parseScales cs) := by
  have hfits : ∀ {x : Int}, -1 ≤ x → x ≤ 1024 → (Computation.int x).Fits := by
    intro x hlow hhigh
    simp only [Computation.Fits, intMin, intMax]
    omega
  unfold parseScales
  split
  · exact allFit_nil
  · next hlength =>
      have hshort : cs.length < 1024 := not_le.mp (not_or.mp hlength).2
      refine allFit_append.mpr ⟨?_, ?_⟩
      · intro c hc
        obtain ⟨σ, hσ, rfl⟩ := List.mem_map.mp hc
        obtain ⟨part, hpart, hscan⟩ := List.mem_filterMap.mp hσ
        have hle := ((List.mem_inits _ _).mp hpart).length_le
        have hscale := scan_scale hscan
        exact hfits hscale.1 (by omega)
      · split
        · exact allFit_nil
        · next σ hscan =>
            have hscale := scan_scale hscan
            dsimp only
            refine allFit_cons.mpr ⟨hfits ?_ ?_, ?_⟩
            · split <;> omega
            · split <;> omega
            · refine allFit_cons.mpr ⟨hfits ?_ ?_, allFit_nil⟩
              · omega
              · split <;> omega

-- ── What is left ─────────────────────────────────────────────────────────────

theorem add_scale_le (a : Decimal) (o : Operand) :
    (a.add o).scale ≤ max a.scale (o.get a).scale := by
  unfold Decimal.add
  dsimp only
  split
  · refine le_max_of_le_right (Decimal.assign_scale_le.trans ?_)
    rw [Decimal.upscale]
    omega
  · split
    · exact le_max_of_le_left Decimal.assign_scale_le
    · exact le_max_of_le_left Decimal.assign_scale_le

theorem sub_scale_le (a : Decimal) (o : Operand) :
    (a.sub o).scale ≤ max a.scale (o.get a).scale := by
  cases o with
  | itself => exact Decimal.assign_scale_le.trans (Nat.zero_le _)
  | other b =>
      unfold Decimal.sub
      dsimp only
      split
      · refine le_max_of_le_right (Decimal.assign_scale_le.trans ?_)
        rw [Decimal.upscale, Operand.get]
        omega
      · split
        · exact le_max_of_le_left Decimal.assign_scale_le
        · exact le_max_of_le_left Decimal.assign_scale_le

/-- What a string parses to has fewer digits than the buffer has characters. -/
theorem accept_scale {cs : List Char} {r : Int × Nat} (h : accept cs = some r) :
    r.2 < 1024 := by
  unfold accept at h
  split at h
  · cases h
  · next hlength =>
      have hshort : cs.length < 1024 := not_le.mp (not_or.mp hlength).2
      split at h
      · cases h
      · next σ hscan =>
          have hscale := scan_scale hscan
          split at h
          · cases h
          · split at h
            · obtain rfl := Option.some.inj h
              decide
            · dsimp only at h
              generalize hz : (if σ.scale > 0 then min (σ.zdigits : Int) σ.scale
                else 0) = z at h
              have hz0 : 0 ≤ z := by
                rw [← hz]
                split <;> omega
              split at h
              · cases h
              · obtain rfl := Option.some.inj h
                dsimp only
                omega

theorem parse_scale (d : Decimal) (cs : List Char) :
    (parse d cs).2.scale ≤ max d.scale 1023 := by
  cases haccept : accept cs with
  | none =>
      rw [parse_none haccept]
      exact le_max_left _ _
  | some r =>
      rw [parse_some haccept]
      exact le_max_of_le_right (Nat.le_of_lt_succ (accept_scale haccept))

theorem assigned_scale (a : Decimal) (o : Operand) :
    (assigned a o).scale = (o.get a).scale := by
  cases o with
  | itself => rfl
  | other b => rfl

-- ── The whole run ────────────────────────────────────────────────────────────

/-- There is room for what `Mul` and `Div` compute. -/
def Room (σ : Objects) : Operation → Prop
  | .mul i j => ((σ i).scale : Int) + (σ j).scale ≤ intMax
  | .div i j scale _ => DivRoom (σ i) (operand σ i j) scale.val
  | _ => True

/-- Every scale is an `int`. -/
def Ranged (σ : Objects) : Prop := ∀ i, ((σ i).scale : Int) ≤ intMax

theorem operand_get (σ : Objects) (i j : Nat) : (operand σ i j).get (σ i) = σ j := by
  rw [operand]
  split
  · next h =>
      rw [h]
      rfl
  · rfl

/-- **ONE OPERATION**: all that is computed fits exactly if there is room. -/
theorem scales_fit_iff {σ : Objects} (h : Ranged σ) (op : Operation) :
    AllFit (scales σ op) ↔ Room σ op := by
  have hget : ∀ i j, (((operand σ i j).get (σ i)).scale : Int) ≤ intMax :=
    fun i j => by rw [operand_get]; exact h j
  cases op with
  | parse i cs => exact iff_of_true parseScales_fit trivial
  | add i j => exact iff_of_true (addScales_fit (h i) (hget i j)) trivial
  | sub i j => exact iff_of_true (subScales_fit (h i) (hget i j)) trivial
  | compare i j => exact iff_of_true (compareScales_fit (h i) (hget i j)) trivial
  | copy i j => exact iff_of_true allFit_nil trivial
  | serialize i scale rounding =>
      exact iff_of_true (serializeScales_fit (h i) scale.upper) trivial
  | mul i j =>
      have hmul := mulScales_fit_iff (a := σ i) (o := operand σ i j)
      rw [operand_get] at hmul
      exact hmul
  | div i j scale rounding =>
      exact divScales_fit_iff (h i) (hget i j) scale.upper

theorem ranged_update {σ : Objects} {i : Nat} {d : Decimal} (h : Ranged σ)
    (hd : (d.scale : Int) ≤ intMax) : Ranged (Function.update σ i d) := by
  intro j
  rcases eq_or_ne j i with rfl | hne
  · rw [Function.update_self]
    exact hd
  · rw [Function.update_of_ne hne]
    exact h j

/-- An operation that there is room for leaves every scale an `int`. -/
theorem perform_ranged {σ : Objects} {op : Operation} (h : Ranged σ)
    (hroom : Room σ op) : Ranged (perform σ op) := by
  have hget : ∀ i j, (((operand σ i j).get (σ i)).scale : Int) ≤ intMax :=
    fun i j => by rw [operand_get]; exact h j
  cases op with
  | parse i cs =>
      refine ranged_update h ?_
      have hle := parse_scale (σ i) cs
      have hmax : (1023 : Int) ≤ intMax := by decide
      have := h i
      omega
  | add i j =>
      refine ranged_update h ?_
      have hle := add_scale_le (σ i) (operand σ i j)
      have hi := h i
      have hj := hget i j
      omega
  | sub i j =>
      refine ranged_update h ?_
      have hle := sub_scale_le (σ i) (operand σ i j)
      have hi := h i
      have hj := hget i j
      omega
  | mul i j =>
      refine ranged_update h ?_
      have hle : ((σ i).mul (operand σ i j)).scale ≤ _ := Decimal.assign_scale_le
      have hsum : ((σ i).scale : Int) + (σ j).scale ≤ intMax := hroom
      rw [operand_get] at hle
      omega
  | div i j scale rounding =>
      refine ranged_update h ?_
      have hle := div_scale_le (σ i) (operand σ i j) scale.val rounding
      have hi := h i
      have hscale := scale.upper
      have hzero : (0 : Int) ≤ intMax := by decide
      omega
  | copy i j =>
      refine ranged_update h ?_
      rw [assigned_scale, operand_get]
      exact h j
  | compare i j => exact h
  | serialize i scale rounding => exact h

/-- A decimal from a string has a short scale. -/
theorem ofString_scale {cs : List Char} (h : ofString cs = some d) :
    (d.scale : Int) ≤ intMax := by
  have hle := parse_scale (.ofInt 0) cs
  have hnil : (Decimal.ofInt 0).scale = 0 := rfl
  have hmax : (1023 : Int) ≤ intMax := by decide
  unfold ofString at h
  dsimp only at h
  split at h
  · obtain rfl := Option.some.inj h
    omega
  · cases h

/-- One that stands so many digits behind the point. -/
def tenth (s : Nat) : Decimal where
  v := 1
  scale := s
  dscale := -1
  rounding := .kRoundingTiesToEven
  canonical := .inr (by decide)

theorem ofString_tenth : ofString "0.1".toList = some (tenth 1) := by decide

/-- **NO SCALE LEAVES ITS TYPE**, in every run in which each `Mul` and each
    `Div` finds room: the scales are `int`s throughout, and the next operation
    computes what does not fit exactly if there is no room for it. -/
theorem scales_in_range {σ : Objects} (h : Reachable (program.restrict Room) σ) :
    Ranged σ ∧ ∀ op, AllFit (scales σ op) ↔ Room σ op := by
  have hranged : Ranged σ := by
    refine h.invariant (I := Ranged) ?_ ?_
    · intro σ hinit i
      obtain ⟨s, hs⟩ := hinit i
      exact ofString_scale hs
    · rintro σ op σ' - hranged ⟨hroom, rfl⟩
      exact perform_ranged hranged hroom
  exact ⟨hranged, scales_fit_iff hranged⟩

theorem scales_in_range_tenth :
    Ranged (fun _ => tenth 1) ∧
      ∀ op, AllFit (scales (fun _ => tenth 1) op) ↔ Room (fun _ => tenth 1) op :=
  scales_in_range (.start fun _ => ⟨_, ofString_tenth⟩)

-- ── Dividing ─────────────────────────────────────────────────────────────────

instance : DecidablePred Computation.Fits
  | .int _ | .unsignedLong _ | .position _ _ => inferInstanceAs (Decidable (_ ∧ _))

instance (cs : List Computation) : Decidable (AllFit cs) :=
  inferInstanceAs (Decidable (∀ c ∈ cs, c.Fits))

/-- `Div`: what it throws or returns, and the object afterwards.  `none` is that
    something that it computes from the scales does not fit its type. -/
def divInt (a : Decimal) (o : Operand) (scale : CInt) (rounding : Rounding) :
    Option (Except String Int × Decimal) :=
  if AllFit (divScales a o scale.val rounding) then some (div a o scale.val rounding) else none

/-- What `Div` is to do: it throws for a negative scale or a zero divisor and leaves
    the object as it was; otherwise the object becomes the exact quotient, rounded
    to `scale` digits in the wanted mode, and what is returned tells on which side
    of it. -/
structure DividesRight (a : Decimal) (o : Operand) (scale : CInt) (rounding : Rounding) :
    Prop where
  throws : scale.val < 0 ∨ (o.get a).value = 0 →
    ∃ message, divInt a o scale rounding = some (.error message, a)
  divides : 0 ≤ scale.val ∧ (o.get a).value ≠ 0 →
    ∃ result a', divInt a o scale rounding = some (.ok result, a') ∧
      (∀ y, RoundedTo rounding.mode scale.val.toNat (a.value / (o.get a).value) y ↔
        y = a'.value) ∧
      (SignType.sign (a'.value - a.value / (o.get a).value) : ℤ) = result ∧
      (result = 0 ↔ a'.value = a.value / (o.get a).value)

/-- **CORRECTLY ROUNDED**: `Div` does what it is to do exactly if there is room for
    the scale that it brings the dividend to. -/
theorem divides_right_iff {scale : CInt} {rounding : Rounding}
    (ha : (a.scale : Int) ≤ intMax) (hb : ((o.get a).scale : Int) ≤ intMax) :
    DividesRight a o scale rounding ↔ DivRoom a o scale.val := by
  have hfit : AllFit (divScales a o scale.val rounding) ↔ DivRoom a o scale.val :=
    divScales_fit_iff ha hb scale.upper
  by_cases hroom : DivRoom a o scale.val
  · refine iff_of_true ?_ hroom
    obtain ⟨hthrows, hdivides⟩ := div_correctly_rounded a o scale.val rounding
    have hdiv : divInt a o scale rounding = some (div a o scale.val rounding) :=
      if_pos (hfit.mpr hroom)
    refine ⟨fun h => ?_, fun h => ?_⟩
    · obtain ⟨message, heq⟩ := hthrows h
      exact ⟨message, hdiv.trans (congrArg some heq)⟩
    · obtain ⟨result, a', heq, hright⟩ := hdivides h
      exact ⟨result, a', hdiv.trans (congrArg some heq), hright⟩
  · refine iff_of_false (fun h => ?_) hroom
    have hscale : 0 ≤ scale.val := not_lt.mp fun hneg => hroom (.inl hneg)
    have hvalue : (o.get a).value ≠ 0 := fun hzero =>
      hroom (.inr (.inl (Decimal.value_eq_zero.mp hzero)))
    obtain ⟨result, a', hdiv, -⟩ := h.divides ⟨hscale, hvalue⟩
    rw [divInt, if_neg fun hall => hroom (hfit.mp hall)] at hdiv
    cases hdiv

/-- Two thirds, to one digit. -/
theorem divides_right_iff_thirds :
    DividesRight (.ofInt 2) (.other (.ofInt 3)) ⟨1, by decide, by decide⟩ .kRoundingTiesToEven ↔
      DivRoom (.ofInt 2) (.other (.ofInt 3)) 1 :=
  divides_right_iff (by decide) (by decide)

/-- One by a tenth, to as many digits as an `int` can ask for. -/
theorem div_overflows :
    ¬∀ (a : Decimal) (o : Operand) (scale : CInt) (rounding : Rounding),
      (a.scale : Int) ≤ intMax → ((o.get a).scale : Int) ≤ intMax →
        DividesRight a o scale rounding := by
  intro h
  have hdivides := (h (.ofInt 1) (.other (tenth 1)) ⟨intMax, by decide, by decide⟩
    .kRoundingTiesToEven (by decide) (by decide)).divides
      ⟨by decide, Decimal.value_eq_zero.not.mpr (by decide)⟩
  obtain ⟨result, a', hdiv, -⟩ := hdivides
  have hroom : ¬DivRoom (.ofInt 1) (.other (tenth 1)) intMax := by
    unfold DivRoom
    decide
  rw [divInt, if_neg] at hdiv
  · cases hdiv
  · intro hall
    exact hroom ((divScales_fit_iff (by decide) (by decide) (by decide)).mp hall)

-- ── Squaring a tenth ─────────────────────────────────────────────────────────

/-- A square has twice the scale. -/
theorem square_tenth (s : Nat) : (tenth s).mul .itself = tenth (s + s) := by
  have hclean : ∀ s, cleanup 1 s = (1, s) := by
    rintro (- | s)
    · rfl
    · rfl
  have hone : ((tenth s).v * (tenth s).v : Int) = 1 := rfl
  simp only [Decimal.mul, Decimal.assign, Operand.get, hone, hclean]
  rfl

/-- The squares are reached as long as they fit. -/
theorem reachable_tenth {k : Nat} (hk : k ≤ 30) :
    ∃ σ, Reachable (program.restrict Room) σ ∧ σ 0 = tenth (2 ^ k) := by
  induction k with
  | zero => exact ⟨fun _ => tenth 1, .start fun _ => ⟨_, ofString_tenth⟩, rfl⟩
  | succ k ih =>
      obtain ⟨σ, hreach, h0⟩ := ih (Nat.le_of_succ_le hk)
      have hroom : Room σ (.mul 0 0) := by
        have hle : 2 ^ (k + 1) ≤ 2 ^ 30 := Nat.pow_le_pow_right two_pos hk
        rw [Room, h0, tenth]
        dsimp only
        rw [← Nat.cast_add, ← mul_two, ← pow_succ, intMax]
        omega
      refine ⟨perform σ (.mul 0 0), .next hreach (l := .mul 0 0) ⟨hroom, rfl⟩, ?_⟩
      rw [perform, Function.update_self, operand, if_pos rfl, h0, square_tenth,
        pow_succ, mul_two]

/-- A tenth that is squared 31 times: thirty squares fit, and the last scale
    would be `2 ^ 31`. -/
theorem scale_overflows :
    ¬∀ σ, Reachable (program.restrict fun σ op => AllFit (scales σ op)) σ →
      ∀ op, AllFit (scales σ op) := by
  intro h
  obtain ⟨σ, hreach, h0⟩ := reachable_tenth (le_refl 30)
  have hfits : Reachable (program.restrict fun σ op => AllFit (scales σ op)) σ := by
    clear h h0
    induction hreach with
    | start hinit => exact .start hinit
    | next hr hs ih =>
        exact .next ih ⟨((scales_in_range hr).2 _).mpr hs.1, hs.2⟩
  have hfit := mulScales_fit_iff.mp (h σ hfits (.mul 0 0))
  rw [operand_get, h0] at hfit
  revert hfit
  decide

end FlinterDecimal
