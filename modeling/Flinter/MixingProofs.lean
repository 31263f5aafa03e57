import Mathlib.Data.BitVec
import Mathlib.Data.FinEnum

/-! # Mixing words

    A hash function mixes a word with steps that lose nothing: each of them can
    be undone, so what is put together from them separates words that differ.
    Here are the steps that hash functions are made of, over words of any width:
    a word is xored or added to, multiplied by an odd number, turned round, or
    xored with itself shifted down. -/

namespace Mixing

variable {w : Nat} {x y c : BitVec w}

/-- Up and round, written with two shifts. -/
def rotl (r : Nat) (x : BitVec w) : BitVec w := (x <<< r) ||| (x >>> (w - r))

/-- Xored with itself, shifted down. -/
def xorShift (r : Nat) (x : BitVec w) : BitVec w := x ^^^ (x >>> r)

theorem xor_injective (c : BitVec w) : Function.Injective fun x => x ^^^ c :=
  fun _ _ h => (BitVec.xor_left_inj c).mp h

theorem add_injective (c : BitVec w) : Function.Injective fun x => x + c :=
  fun _ _ h => (BitVec.add_left_inj c).mp h

/-- A factor that has an inverse. -/
theorem mul_injective {c d : BitVec w} (h : c * d = 1) :
    Function.Injective fun x => x * c := by
  intro x y hxy
  have hd : x * c * d = y * c * d := congrArg (· * d) hxy
  rwa [mul_assoc, mul_assoc, h, mul_one, mul_one] at hd

/-- Where a bit goes. -/
theorem getLsbD_rotl {r i : Nat} (hr : r < w) (hi : i < w) :
    (rotl r x).getLsbD ((i + r) % w) = x.getLsbD i := by
  rw [rotl, BitVec.getLsbD_or, BitVec.getLsbD_shiftLeft, BitVec.getLsbD_ushiftRight]
  by_cases hround : i + r < w
  · rw [Nat.mod_eq_of_lt hround]
    have hhigh : x.getLsbD (w - r + (i + r)) = false :=
      BitVec.getLsbD_of_ge x _ (by omega)
    have hlow : ¬i + r < r := by omega
    rw [hhigh, Nat.add_sub_cancel, Bool.or_false, decide_eq_true hround,
      decide_eq_false hlow, Bool.not_false, Bool.and_self, Bool.true_and]
  · have hmod : (i + r) % w = i + r - w := by
      rw [Nat.mod_eq_sub_mod (Nat.le_of_not_lt hround), Nat.mod_eq_of_lt (by omega)]
    have hback : w - r + (i + r - w) = i := by omega
    rw [hmod, hback, decide_eq_true (show i + r - w < r by omega), Bool.not_true,
      Bool.and_false, Bool.false_and, Bool.false_or]

theorem rotl_injective {r : Nat} (hr : r < w) :
    Function.Injective (rotl r : BitVec w → BitVec w) := by
  intro x y hxy
  refine BitVec.eq_of_getLsbD_eq fun i hi => ?_
  rw [← getLsbD_rotl hr hi, ← getLsbD_rotl hr hi, hxy]

/-- The highest bits are still there, and from them the next ones are found. -/
theorem xorShift_injective {r : Nat} (hr : 0 < r) :
    Function.Injective (xorShift r : BitVec w → BitVec w) := by
  intro x y hxy
  have hbits : ∀ n i, w ≤ i + n → x.getLsbD i = y.getLsbD i := by
    intro n
    induction n with
    | zero =>
        intro i hi
        rw [BitVec.getLsbD_of_ge x i hi, BitVec.getLsbD_of_ge y i hi]
    | succ n ih =>
        intro i hi
        have hbit := congrArg (·.getLsbD i) hxy
        simp only [xorShift, BitVec.getLsbD_xor, BitVec.getLsbD_ushiftRight] at hbit
        rw [ih (r + i) (by omega)] at hbit
        exact Bool.xor_left_inj.mp hbit
  exact BitVec.eq_of_getLsbD_eq fun i _ => hbits w i (Nat.le_add_left w i)

/-- Nothing is lost, so every word is the result of one. -/
theorem bijective_of_injective {f : BitVec w → BitVec w} (h : Function.Injective f) :
    Function.Bijective f :=
  Finite.injective_iff_bijective.mp h

end Mixing
