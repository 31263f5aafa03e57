import Mathlib.Algebra.BigOperators.Group.Finset.Piecewise
import Mathlib.Algebra.Order.BigOperators.Group.Finset
import Mathlib.Logic.Function.Basic

/-! # Tallies of threads

    Threads are numbered as they are made, and each is at a place.  A weight of
    the places is summed over the threads: how many are at some place is one
    such tally, how much they are owed another.  A step moves a thread, makes
    some, or wakes a set of them, and what it does to a tally is one equation
    for each. -/

namespace Tallies

open Finset

variable {P : Type} {w v : P → Nat} {n k t : Nat} {place place' : Nat → P}
variable {p : P} {wake : P → P} {who : Finset Nat}

/-- The weights of the places of the first `n` threads. -/
def total (w : P → Nat) (n : Nat) (place : Nat → P) : Nat :=
  ∑ t ∈ range n, w (place t)

theorem total_congr (h : ∀ t < n, w (place t) = v (place' t)) :
    total w n place = total v n place' :=
  sum_congr rfl fun t ht => h t (mem_range.mp ht)

theorem total_mono (h : ∀ t < n, w (place t) ≤ v (place' t)) :
    total w n place ≤ total v n place' :=
  sum_le_sum fun t ht => h t (mem_range.mp ht)

theorem total_lt (h : ∀ t < n, w (place t) ≤ v (place' t)) (ht : t < n)
    (hlt : w (place t) < v (place' t)) : total w n place < total v n place' :=
  sum_lt_sum (fun i hi => h i (mem_range.mp hi)) ⟨t, mem_range.mpr ht, hlt⟩

theorem total_add :
    total (fun p => w p + v p) n place = total w n place + total v n place :=
  sum_add_distrib

/-- A thread is moved. -/
theorem total_update (ht : t < n) :
    total w n (Function.update place t p) + w (place t) =
      total w n place + w p := by
  have hmem : t ∈ range n := mem_range.mpr ht
  have hcomp : ∀ i, w (Function.update place t p i) =
      Function.update (fun i => w (place i)) t (w p) i :=
    fun i => Function.apply_update (fun _ => w) place t p i
  rw [total, total, sum_congr rfl fun i _ => hcomp i, sum_update_of_mem hmem,
    ← add_sum_erase _ (fun i => w (place i)) hmem, sdiff_singleton_eq_erase]
  omega

/-- Threads are made. -/
theorem total_grow (h : ∀ t, n ≤ t → t < n + k → place t = p) :
    total w (n + k) place = total w n place + k * w p := by
  induction k with
  | zero => rw [Nat.zero_mul]; rfl
  | succ k ih =>
      have hlast : place (n + k) = p := h (n + k) (Nat.le_add_right n k) (by omega)
      rw [total, ← Nat.add_assoc, sum_range_succ, hlast, Nat.succ_mul,
        ← Nat.add_assoc, ← ih fun t hge hlt => h t hge (by omega)]
      rfl

/-- A tally that is not zero has a thread. -/
theorem exists_of_total_pos (h : 0 < total w n place) :
    ∃ t < n, 0 < w (place t) := by
  obtain ⟨t, ht, hpos⟩ := exists_ne_zero_of_sum_ne_zero (Nat.pos_iff_ne_zero.mp h)
  exact ⟨t, mem_range.mp ht, Nat.pos_of_ne_zero hpos⟩

theorem le_total (ht : t < n) : w (place t) ≤ total w n place :=
  single_le_sum (f := fun t => w (place t)) (fun _ _ => Nat.zero_le _)
    (mem_range.mpr ht)

/-- As many as have weight one. -/
theorem card_eq_total {s : Finset Nat} (hs : ∀ t, t ∈ s ↔ t < n ∧ w (place t) = 1)
    (hw : ∀ p, w p ≤ 1) : s.card = total w n place := by
  have hfilter : s = (range n).filter fun t => w (place t) = 1 := by
    ext t
    rw [hs, mem_filter, mem_range]
  rw [hfilter, card_filter]
  refine sum_congr rfl fun t _ => ?_
  have hle := hw (place t)
  split
  · omega
  · omega

-- ── Waking ───────────────────────────────────────────────────────────────────

/-- `who` are woken. -/
def rouse (wake : P → P) (who : Finset Nat) (place : Nat → P) : Nat → P :=
  fun t => if t ∈ who then wake (place t) else place t

/-- What `n` calls that wake one thread may wake of the `blocked` ones. -/
def Wakes (blocked : Finset Nat) (n : Nat) (who : Finset Nat) : Prop :=
  who ⊆ blocked ∧ min n blocked.card ≤ who.card

instance (blocked : Finset Nat) (n : Nat) (who : Finset Nat) :
    Decidable (Wakes blocked n who) := inferInstanceAs (Decidable (_ ∧ _))

/-- A weight that waking does not change. -/
theorem total_rouse (h : ∀ t ∈ who, w (wake (place t)) = w (place t)) :
    total w n (rouse wake who place) = total w n place := by
  refine total_congr fun t _ => ?_
  rw [rouse]
  split
  next hin => exact h t hin
  next => rfl

/-- As many as are woken. -/
theorem sum_woken (hwho : ∀ t ∈ who, t < n) :
    ∑ t ∈ range n, (if t ∈ who then 1 else 0) = who.card := by
  rw [← card_filter]
  congr 1
  ext t
  rw [mem_filter, mem_range]
  exact ⟨fun ht => ht.2, fun ht => ⟨hwho t ht, ht⟩⟩

/-- A weight that each of those woken gains. -/
theorem le_total_rouse (hwho : ∀ t ∈ who, t < n)
    (h : ∀ t ∈ who, w (place t) + 1 ≤ w (wake (place t))) :
    total w n place + who.card ≤ total w n (rouse wake who place) := by
  rw [total, ← sum_woken hwho, ← sum_add_distrib]
  refine sum_le_sum fun t _ => ?_
  rw [rouse]
  split
  next hin => exact h t hin
  next => exact Nat.le_refl _

/-- A weight that each of those woken loses. -/
theorem total_rouse_lose (hwho : ∀ t ∈ who, t < n)
    (h : ∀ t ∈ who, w (wake (place t)) + 1 = w (place t)) :
    total w n (rouse wake who place) + who.card = total w n place := by
  have hsplit : ∀ t ∈ range n, w (place t) =
      w (rouse wake who place t) + if t ∈ who then 1 else 0 := by
    intro t _
    rw [rouse]
    split
    next hin => exact (h t hin).symm
    next => rfl
  rw [total, total, sum_congr rfl hsplit, sum_add_distrib, sum_woken hwho]

end Tallies
