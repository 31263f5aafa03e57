import Mathlib.Data.Int.CardIntervalMod
import Mathlib.Data.Nat.Count
import Flinter.RejectionProofs

/-! # Random numbers of a range

    `ranged_rand` and `ranged_rand_r` draw until the number is one of those that
    make whole rounds of the range, and take the remainder.  The last number that
    they accept is one too many: it begins another round, so 0 is the result of one
    number more than all the others. -/

namespace FlinterRandom

open Rejections

/-- `INT_MAX`. -/
def intMax : ℤ := 2147483647

/-- `&` of two `int`. -/
def band (a b : ℤ) : ℤ := (BitVec.ofInt 32 a &&& BitVec.ofInt 32 b).toInt

/-- What a call comes to, and which draws are left. -/
inductive Outcome where
  | overflow
  | drawing
  | returned (value : ℤ) (rest : List ℤ)
deriving DecidableEq, Repr

def Outcome.value? : Outcome → Option ℤ
  | .returned value _ => some value
  | _ => none

/-- What is computed as an `int` is used, unless it overflows. -/
def within (x : ℤ) (use : ℤ → Outcome) : Outcome :=
  if -intMax - 1 ≤ x ∧ x ≤ intMax then use x else .overflow

-- ── The code ─────────────────────────────────────────────────────────────────

/-- `rand` and `rand_r`: the next draw. -/
def rand (f : ℤ → ℤ) : List ℤ → Outcome
  | [] => .drawing
  | r :: draws => .returned (f r) draws

/-- `ranged_rand`: the loop. -/
def rejectLoop (bad n : ℤ) : List ℤ → Outcome
  | [] => .drawing
  | r :: draws => if r > bad then rejectLoop bad n draws else .returned (r.tmod n) draws

/-- `ranged_rand`, where `draws` is what `rand` returns one time after the other. -/
def rangedRand (randMax range : ℤ) (draws : List ℤ) : Outcome :=
  if range < 0 ∨ range > randMax then .returned (-1) draws
  else if range = 0 then .returned 0 draws
  else if range = randMax then rand id draws
  else
    within (range + 1) fun n =>
      within (-n) fun negative =>
        if band n negative = n then rand (·.tmod n) draws
        else within (randMax - randMax.tmod n) fun bad => rejectLoop bad n draws

/-- `ranged_rand_r`, where `draws` is what `rand_r` makes of the seed. -/
def rangedRandR (randMax range : ℤ) (draws : List ℤ) : Outcome :=
  rangedRand randMax range draws

-- ── What it accepts ──────────────────────────────────────────────────────────

variable {k randMax range bound v w : Nat} {n : ℤ} {draws rest : List ℤ}

theorem within_of_le {x : ℤ} {use : ℤ → Outcome} (hlow : -intMax - 1 ≤ x)
    (hhigh : x ≤ intMax) : within x use = use x := if_pos ⟨hlow, hhigh⟩

/-- The lowest bit alone is left if it is the only one. -/
theorem and_neg_eq_self_iff (x : BitVec 32) (hx : x ≠ 0) :
    x &&& -x = x ↔ x.toNat.isPowerOfTwo := by
  have hle : 1#32 ≤ x := by
    rw [BitVec.le_def]
    have hpos : x.toNat ≠ 0 := fun h => hx (BitVec.eq_of_toNat_eq h)
    exact Nat.one_le_iff_ne_zero.mpr hpos
  have hnot : x &&& -x = x ↔ x &&& (x - 1#32) = 0 := by
    rw [← BitVec.not_neg]
    generalize -x = y
    constructor
    · intro h
      rw [← h, BitVec.and_assoc, BitVec.and_not_self]
      exact BitVec.and_zero
    · intro h
      ext i hi
      have hbit := congrArg (fun z : BitVec 32 => z[i]) h
      simp only [BitVec.getElem_and, BitVec.getElem_not] at hbit ⊢
      cases hxi : x[i] with
      | false => rfl
      | true => simpa [hxi] using hbit
  rw [hnot, ← Nat.and_sub_one_eq_zero_iff_isPowerOfTwo
    fun h => hx (BitVec.eq_of_toNat_eq h), ← BitVec.toNat_inj, BitVec.toNat_and,
    BitVec.toNat_sub_of_le hle]
  rfl

/-- `(n & -n) == n`. -/
theorem band_neg_eq_self_iff (hpos : 0 < k) (hle : (k : ℤ) ≤ intMax) :
    band k (-k) = k ↔ k.isPowerOfTwo := by
  have hlt : k < 2 ^ 31 := by
    rw [intMax] at hle
    omega
  have hnat : (BitVec.ofInt 32 k).toNat = k := by
    rw [BitVec.toNat_ofInt]
    omega
  have hint : (BitVec.ofInt 32 k).toInt = k := by
    rw [BitVec.toInt_eq_toNat_of_lt (by omega), hnat]
  have hne : BitVec.ofInt 32 k ≠ 0 := fun h => by
    rw [h] at hnat
    exact absurd hnat (Nat.ne_of_lt hpos)
  have hiff := and_neg_eq_self_iff _ hne
  rw [hnat] at hiff
  rw [band, BitVec.ofInt_neg, ← hiff]
  constructor
  · intro h
    exact BitVec.eq_of_toInt_eq (h.trans hint.symm)
  · intro h
    rw [h, hint]

/-- The numbers below `bound` are accepted. -/
def accept (bound n : Nat) (r : ℤ) : Option ℤ := if r < bound then some (r % n) else none

theorem rejectLoop_value? {bad : ℤ} (hbad : bad + 1 = bound) (hdraws : ∀ r ∈ draws, 0 ≤ r) :
    (rejectLoop bad k draws).value? = draws.findSome? (accept bound k) := by
  induction draws with
  | nil => rfl
  | cons r draws ih =>
      obtain ⟨hr, hrest⟩ := List.forall_mem_cons.mp hdraws
      rw [rejectLoop, List.findSome?_cons, accept]
      by_cases hlt : r < bound
      · rw [if_neg (by omega), if_pos hlt, Int.tmod_eq_emod_of_nonneg hr]
        rfl
      · rw [if_pos (by omega), if_neg hlt]
        exact ih hrest

theorem rand_value? {f : ℤ → ℤ} (hdraws : ∀ r ∈ draws, r < bound ∧ f r = r % k) :
    (rand f draws).value? = draws.findSome? (accept bound k) := by
  cases draws with
  | nil => rfl
  | cons r draws =>
      obtain ⟨hlt, hf⟩ := (List.forall_mem_cons.mp hdraws).1
      rw [rand, List.findSome?_cons, accept, if_pos hlt, ← hf]
      rfl

/-- How many of the numbers are accepted. -/
def acceptBound (randMax range : Nat) : Nat :=
  if range = randMax ∨ (range + 1).isPowerOfTwo then randMax + 1
  else randMax - randMax % (range + 1) + 1

/-- In between, `n` and `bad` can be computed. -/
theorem rangedRand_between (hpos : 0 < range) (hlt : range < randMax)
    (hmax : (randMax : ℤ) ≤ intMax) :
    rangedRand randMax range draws =
      if (range + 1).isPowerOfTwo then rand (·.tmod ((range + 1 : Nat) : ℤ)) draws
      else rejectLoop ((randMax - randMax % (range + 1) : Nat) : ℤ) ((range + 1 : Nat) : ℤ)
        draws := by
  have hlow : 0 ≤ intMax := by decide
  have hmod : (randMax : ℤ) - (randMax : ℤ).tmod ((range + 1 : Nat) : ℤ) =
      ((randMax - randMax % (range + 1) : Nat) : ℤ) := by
    rw [Int.tmod_eq_emod_of_nonneg (Int.natCast_nonneg randMax), ← Int.natCast_mod,
      Int.natCast_sub (Nat.mod_le _ _)]
  have hband := band_neg_eq_self_iff (k := range + 1) (Nat.succ_pos range) (by omega)
  rw [rangedRand, if_neg (by omega), if_neg (by omega), if_neg (by omega),
    ← Int.natCast_succ, within_of_le (by omega) (by omega),
    within_of_le (by omega) (by omega)]
  by_cases hpow : (range + 1).isPowerOfTwo
  · rw [if_pos (hband.mpr hpow), if_pos hpow]
  · rw [if_neg (hband.not.mpr hpow), if_neg hpow, hmod,
      within_of_le (by omega) (by omega)]

/-- **WHAT A CALL RETURNS**: the remainder of the first draw that is accepted. -/
theorem rangedRand_value? (hpos : 0 < range) (hle : range ≤ randMax)
    (hmax : (randMax : ℤ) ≤ intMax) (hdraws : ∀ r ∈ draws, 0 ≤ r ∧ r ≤ (randMax : ℤ)) :
    (rangedRand randMax range draws).value? =
      draws.findSome? (accept (acceptBound randMax range) (range + 1)) := by
  have hbound : ∀ r ∈ draws, r < ((randMax + 1 : Nat) : ℤ) := fun r hr =>
    Int.lt_add_one_of_le (hdraws r hr).2
  rw [acceptBound]
  rcases Nat.lt_or_eq_of_le hle with hlt | rfl
  · rw [rangedRand_between hpos hlt hmax]
    by_cases hpow : (range + 1).isPowerOfTwo
    · rw [if_pos hpow, if_pos (.inr hpow)]
      exact rand_value? fun r hr =>
        ⟨hbound r hr, Int.tmod_eq_emod_of_nonneg (hdraws r hr).1⟩
    · rw [if_neg hpow, if_neg (not_or.mpr ⟨Nat.ne_of_lt hlt, hpow⟩)]
      exact rejectLoop_value? rfl fun r hr => (hdraws r hr).1
  · rw [rangedRand, if_neg (by omega), if_neg (by omega), if_pos rfl, if_pos (.inl rfl)]
    refine rand_value? fun r hr => ⟨hbound r hr, ?_⟩
    exact (Int.emod_eq_of_lt (hdraws r hr).1 (hbound r hr)).symm

/-- The result is in the range. -/
theorem rangedRand_inRange {value : ℤ} (hpos : 0 < range) (hle : range ≤ randMax)
    (hmax : (randMax : ℤ) ≤ intMax) (hdraws : ∀ r ∈ draws, 0 ≤ r ∧ r ≤ (randMax : ℤ))
    (h : rangedRand randMax range draws = .returned value rest) :
    0 ≤ value ∧ value ≤ range := by
  have hvalue := rangedRand_value? hpos hle hmax hdraws
  rw [h] at hvalue
  obtain ⟨r, -, hr⟩ := List.exists_of_findSome?_eq_some hvalue.symm
  rw [accept] at hr
  split at hr
  · obtain rfl := Option.some.inj hr
    have hne : ((range + 1 : Nat) : ℤ) ≠ 0 := by omega
    exact ⟨Int.emod_nonneg r hne, Int.le_of_lt_add_one (Int.emod_lt_of_pos r (by omega))⟩
  · cases hr

theorem rand_ne_overflow (f : ℤ → ℤ) (draws : List ℤ) : rand f draws ≠ .overflow := by
  cases draws with
  | nil => nofun
  | cons r draws => nofun

theorem rejectLoop_ne_overflow (bad n : ℤ) (draws : List ℤ) :
    rejectLoop bad n draws ≠ .overflow := by
  induction draws with
  | nil => nofun
  | cons r draws ih =>
      rw [rejectLoop]
      split
      · exact ih
      · nofun

/-- Nothing overflows. -/
theorem rangedRand_ne_overflow (hle : range ≤ randMax) (hmax : (randMax : ℤ) ≤ intMax)
    (draws : List ℤ) : rangedRand randMax range draws ≠ .overflow := by
  rcases Nat.eq_zero_or_pos range with rfl | hpos
  · rw [rangedRand, if_neg (by omega), if_pos (Int.natCast_zero)]
    nofun
  · rcases Nat.lt_or_eq_of_le hle with hlt | rfl
    · rw [rangedRand_between hpos hlt hmax]
      split
      · exact rand_ne_overflow _ draws
      · exact rejectLoop_ne_overflow _ _ draws
    · rw [rangedRand, if_neg (by omega), if_neg (by omega), if_pos rfl]
      exact rand_ne_overflow id draws

-- ── As many for each ─────────────────────────────────────────────────────────

/-- How many draws are accepted for a result. -/
theorem accepted_card (hbound : bound ≤ randMax + 1) (hk : 0 < k) (hv : v < k) :
    accepted (fun r : Fin (randMax + 1) => accept bound k (r : Nat)) (v : ℤ) =
      bound / k + if v < bound % k then 1 else 0 := by
  have hiff : ∀ r : Nat, accept bound k r = some (v : ℤ) ↔ r < bound ∧ r ≡ v [MOD k] := by
    intro r
    rw [accept, Nat.ModEq, Nat.mod_eq_of_lt hv]
    by_cases hr : r < bound
    · rw [if_pos (Int.ofNat_lt.mpr hr), Option.some.injEq, ← Int.natCast_mod, Int.natCast_inj]
      exact (and_iff_right hr).symm
    · rw [if_neg fun h => hr (Int.ofNat_lt.mp h)]
      exact iff_of_false nofun fun h => hr h.1
  have hcount : accepted (fun r : Fin (randMax + 1) => accept bound k (r : Nat)) (v : ℤ) =
      bound.count (· ≡ v [MOD k]) := by
    rw [Nat.count_eq_card_filter_range]
    refine Finset.card_nbij (fun r => (r : Nat)) ?_ ?_ ?_
    · intro r hr
      have h := (hiff r).mp (Finset.mem_filter.mp hr).2
      exact Finset.mem_filter.mpr ⟨Finset.mem_range.mpr h.1, h.2⟩
    · intro r _ s _ h
      exact Fin.ext h
    · intro r hr
      obtain ⟨hrange, hmod⟩ := Finset.mem_filter.mp hr
      have hlt := Finset.mem_range.mp hrange
      exact ⟨⟨r, hlt.trans_le hbound⟩,
        Finset.mem_filter.mpr ⟨Finset.mem_univ _, (hiff r).mpr ⟨hlt, hmod⟩⟩, rfl⟩
  rw [hcount, Nat.count_modEq_card _ hk, Nat.mod_eq_of_lt hv]

/-- A draw. -/
def drawn (r : Fin (randMax + 1)) : ℤ := (r : Nat)

/-- How many sequences of draws a call returns a value after. -/
def results (f : ℤ → ℤ → List ℤ → Outcome) (randMax range n : Nat) (v : ℤ) : Nat :=
  (Finset.univ.filter fun draws : Fin n → Fin (randMax + 1) =>
    (f randMax range ((List.ofFn draws).map drawn)).value? = some v).card

/-- Nothing overflows, the result is in the range, and each is the result of as many
    draws, and of as many sequences of draws, as any other. -/
structure Unbiased (f : ℤ → ℤ → List ℤ → Outcome) (randMax range : Nat) : Prop where
  noOverflow : ∀ draws, f randMax range draws ≠ .overflow
  inRange : ∀ draws value rest, (∀ r ∈ draws, 0 ≤ r ∧ r ≤ (randMax : ℤ)) →
    f randMax range draws = .returned value rest → 0 ≤ value ∧ value ≤ range
  even : ∀ n v w, v ≤ range → w ≤ range →
    results f randMax range n v = results f randMax range n w

theorem draws_range (draws : List (Fin (randMax + 1))) :
    ∀ r ∈ draws.map drawn, 0 ≤ r ∧ r ≤ (randMax : ℤ) := by
  intro r hr
  obtain ⟨s, -, rfl⟩ := List.mem_map.mp hr
  exact ⟨Int.natCast_nonneg _, Int.ofNat_le.mpr (Nat.le_of_lt_succ s.isLt)⟩

theorem results_eq_ways (hpos : 0 < range) (hle : range ≤ randMax)
    (hmax : (randMax : ℤ) ≤ intMax) (n : Nat) (v : ℤ) :
    results rangedRand randMax range n v =
      ways (fun r : Fin (randMax + 1) =>
        accept (acceptBound randMax range) (range + 1) (r : Nat)) n v := by
  rw [results, ways]
  congr 1
  refine Finset.filter_congr fun draws _ => ?_
  rw [rangedRand_value? hpos hle hmax (draws_range _), List.findSome?_map]
  rfl

theorem acceptBound_le : acceptBound randMax range ≤ randMax + 1 := by
  rw [acceptBound]
  split
  · exact Nat.le_refl _
  · exact Nat.succ_le_succ (Nat.sub_le _ _)

/-- The first result and the last are the results of as many draws, if the numbers
    that are accepted make whole rounds. -/
theorem dvd_acceptBound (hpos : 0 < range) (hle : range ≤ randMax)
    (hmax : (randMax : ℤ) ≤ intMax) (h : Unbiased rangedRand randMax range) :
    range + 1 ∣ acceptBound randMax range := by
  have heven := h.even 1 0 range (Nat.zero_le range) (Nat.le_refl range)
  rw [results_eq_ways hpos hle hmax, results_eq_ways hpos hle hmax, ways_succ, ways_succ,
    accepted_card acceptBound_le (Nat.succ_pos range) (Nat.succ_pos range),
    accepted_card acceptBound_le (Nat.succ_pos range) (Nat.lt_succ_self range)] at heven
  have hmod := Nat.mod_lt (acceptBound randMax range) (Nat.succ_pos range)
  refine Nat.dvd_of_mod_eq_zero (Nat.eq_zero_of_not_pos fun hzero => ?_)
  rw [if_pos hzero, if_neg (by omega)] at heven
  simp [ways] at heven

/-- With whole rounds, each is the result of as many draws as any other. -/
theorem unbiased_of_dvd (hpos : 0 < range) (hle : range ≤ randMax)
    (hmax : (randMax : ℤ) ≤ intMax) (h : range + 1 ∣ acceptBound randMax range) :
    Unbiased rangedRand randMax range := by
  refine ⟨rangedRand_ne_overflow hle hmax, ?_, ?_⟩
  · intro draws value rest hdraws hcall
    exact rangedRand_inRange hpos hle hmax hdraws hcall
  · intro n v w hv hw
    rw [results_eq_ways hpos hle hmax, results_eq_ways hpos hle hmax]
    refine ways_eq ?_
    rw [accepted_card acceptBound_le (Nat.succ_pos range) (Nat.lt_succ_of_le hv),
      accepted_card acceptBound_le (Nat.succ_pos range) (Nat.lt_succ_of_le hw),
      Nat.mod_eq_zero_of_dvd h, if_neg (Nat.not_lt_zero v), if_neg (Nat.not_lt_zero w)]

/-- Nothing is drawn for a range of one number. -/
theorem unbiased_zero (hmax : (randMax : ℤ) ≤ intMax) : Unbiased rangedRand randMax 0 := by
  have hcall : ∀ draws, rangedRand randMax (0 : Nat) draws = .returned 0 draws := by
    intro draws
    rw [rangedRand, if_neg (by omega), if_pos Int.natCast_zero]
  refine ⟨rangedRand_ne_overflow (Nat.zero_le _) hmax, ?_, ?_⟩
  · intro draws value rest _ h
    rw [hcall] at h
    cases h
    decide
  · intro n v w hv hw
    rw [Nat.le_zero.mp hv, Nat.le_zero.mp hw]

/-- When the numbers that are accepted make whole rounds. -/
theorem dvd_acceptBound_iff (hpos : 0 < range) :
    range + 1 ∣ acceptBound randMax range ↔
      range = randMax ∨ (range + 1).isPowerOfTwo ∧ range + 1 ∣ randMax + 1 := by
  rw [acceptBound]
  by_cases heq : range = randMax
  · rw [if_pos (.inl heq), heq]
    exact iff_of_true (dvd_refl _) (.inl rfl)
  · by_cases hpow : (range + 1).isPowerOfTwo
    · rw [if_pos (.inr hpow)]
      exact ⟨fun h => .inr ⟨hpow, h⟩, fun h => (h.resolve_left heq).2⟩
    · rw [if_neg (not_or.mpr ⟨heq, hpow⟩)]
      refine iff_of_false (fun h => ?_) (not_or.mpr ⟨heq, fun h => hpow h.1⟩)
      -- The numbers up to `bad` make whole rounds, and `bad` is one more.
      have hrounds : range + 1 ∣ randMax - randMax % (range + 1) := Nat.dvd_sub_mod randMax
      have hone := (Nat.dvd_add_right hrounds).mp h
      exact absurd (Nat.le_of_dvd Nat.one_pos hone) (by omega)

/-- **WHEN RANDOM NUMBERS ARE UNBIASED.** -/
theorem ranged_rand_unbiased_iff (hle : range ≤ randMax) (hmax : (randMax : ℤ) ≤ intMax) :
    (Unbiased rangedRand randMax range ↔
      range = 0 ∨ range = randMax ∨
        (range + 1).isPowerOfTwo ∧ range + 1 ∣ randMax + 1) ∧
    (Unbiased rangedRandR randMax range ↔
      range = 0 ∨ range = randMax ∨
        (range + 1).isPowerOfTwo ∧ range + 1 ∣ randMax + 1) := by
  have hiff : Unbiased rangedRand randMax range ↔
      range = 0 ∨ range = randMax ∨
        (range + 1).isPowerOfTwo ∧ range + 1 ∣ randMax + 1 := by
    rcases Nat.eq_zero_or_pos range with rfl | hpos
    · exact iff_of_true (unbiased_zero hmax) (.inl rfl)
    · rw [or_iff_right (Nat.ne_of_gt hpos), ← dvd_acceptBound_iff hpos]
      exact ⟨dvd_acceptBound hpos hle hmax, unbiased_of_dvd hpos hle hmax⟩
  exact ⟨hiff, hiff⟩

theorem ranged_rand_unbiased_eight : Unbiased rangedRand 2147483647 7 :=
  (ranged_rand_unbiased_iff (by decide) (by decide)).1.mpr (.inr (.inr (by decide)))

/-- Of three results, 0 is more likely. -/
theorem biased_of_three : ¬Unbiased rangedRand 2147483647 2 := by
  intro h
  exact absurd (dvd_acceptBound (by decide) (by decide) (by decide) h) (by decide)

end FlinterRandom
