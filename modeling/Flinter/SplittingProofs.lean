import Mathlib.Data.List.Basic
import Mathlib.Data.List.TakeWhile

/-! # Lists in parts

    A list is split at every element that is a separator: one part more than
    there are separators, none of them with a separator in it.  What comes before
    the first separator is the first part. -/

namespace Splitting

variable {α : Type*} {p : α → Bool} {xs ys part : List α} {sep x : α}

/-- A list has no separators, or it has a first one. -/
theorem first_sep (p : α → Bool) (xs : List α) : (∀ x ∈ xs, p x = false) ∨
    ∃ ys sep zs, xs = ys ++ sep :: zs ∧ p sep = true ∧ ∀ y ∈ ys, p y = false := by
  induction xs with
  | nil => exact .inl fun x hx => nomatch hx
  | cons x xs ih =>
      cases hx : p x with
      | true => exact .inr ⟨[], x, xs, rfl, hx, fun y hy => nomatch hy⟩
      | false =>
          rcases ih with h | ⟨ys, sep, zs, rfl, hsep, hys⟩
          · exact .inl (List.forall_mem_cons.mpr ⟨hx, h⟩)
          · exact .inr ⟨x :: ys, sep, zs, rfl, hsep, List.forall_mem_cons.mpr ⟨hx, hys⟩⟩

/-- An induction that goes from one separator to the next. -/
theorem cut_induction {motive : List α → Prop} (p : α → Bool)
    (last : ∀ s, (∀ x ∈ s, p x = false) → motive s)
    (cut : ∀ s sep rest, (∀ x ∈ s, p x = false) → p sep = true → motive rest →
      motive (s ++ sep :: rest)) (xs : List α) : motive xs := by
  induction hlen : xs.length using Nat.strongRecOn generalizing xs with
  | ind n ih =>
      rcases first_sep p xs with h | ⟨ys, sep, zs, rfl, hsep, hys⟩
      · exact last xs h
      · refine cut ys sep zs hys hsep (ih zs.length ?_ zs rfl)
        rw [← hlen, List.length_append, List.length_cons]
        omega

/-- An induction over the parts that are not empty, each with the separators before it. -/
theorem part_induction {motive : List α → Prop} (p : α → Bool)
    (seps : ∀ s, (∀ x ∈ s, p x = true) → motive s)
    (part : ∀ s part rest, (∀ x ∈ s, p x = true) → part ≠ [] → (∀ x ∈ part, p x = false) →
      (∀ x ∈ rest.head?, p x = true) → motive rest → motive (s ++ part ++ rest))
    (xs : List α) : motive xs := by
  induction hlen : xs.length using Nat.strongRecOn generalizing xs with
  | ind n ih =>
      have hseps : ∀ x ∈ xs.takeWhile p, p x = true := fun x => List.mem_takeWhile_imp
      have hxs := List.takeWhile_append_dropWhile (p := p) (l := xs)
      cases hbegin : xs.dropWhile p with
      | nil =>
          rw [← hxs, hbegin, List.append_nil]
          exact seps _ hseps
      | cons x later =>
          have hx : p x = false := by
            have hhead := List.head?_dropWhile_not p xs
            rw [hbegin] at hhead
            exact hhead
          have hpart := List.takeWhile_append_dropWhile (p := fun x => !p x) (l := later)
          have hrest := List.head?_dropWhile_not (fun x => !p x) later
          rw [hbegin, ← hpart, ← List.cons_append, ← List.append_assoc] at hxs
          have hshorter : (later.dropWhile fun x => !p x).length < n := by
            rw [← hlen, ← hxs, List.length_append, List.length_append, List.length_cons]
            omega
          rw [← hxs]
          refine part _ _ _ hseps (List.cons_ne_nil x _) ?_ ?_ (ih _ hshorter _ rfl)
          · refine List.forall_mem_cons.mpr ⟨hx, fun y hy => ?_⟩
            have hnot := List.mem_takeWhile_imp hy
            exact (Bool.not_eq_true' _).mp hnot
          · intro y hy
            rw [Option.mem_def.mp hy] at hrest
            exact (Bool.not_eq_false' _).mp hrest

theorem takeWhile_append_stop (hxs : ∀ x ∈ xs, p x = true) (hys : ∀ y ∈ ys.head?, p y = false) :
    (xs ++ ys).takeWhile p = xs := by
  rw [List.takeWhile_append_of_pos hxs]
  cases ys with
  | nil => exact List.append_nil xs
  | cons y ys =>
      rw [List.takeWhile_cons_of_neg (Bool.eq_false_iff.mp (hys y rfl)), List.append_nil]

theorem dropWhile_append_stop (hxs : ∀ x ∈ xs, p x = true) (hys : ∀ y ∈ ys.head?, p y = false) :
    (xs ++ ys).dropWhile p = ys := by
  rw [List.dropWhile_append_of_pos hxs]
  cases ys with
  | nil => rfl
  | cons y ys => exact List.dropWhile_cons_of_neg (Bool.eq_false_iff.mp (hys y rfl))

/-- **ONE PART MORE** than there are separators. -/
theorem length_splitOnP (p : α → Bool) (xs : List α) :
    (xs.splitOnP p).length = xs.countP p + 1 := by
  induction xs with
  | nil => rfl
  | cons x xs ih =>
      rw [List.splitOnP_cons_eq_if_modifyHead, List.countP_cons]
      split
      · rw [List.length_cons, ih]
      · rw [List.length_modifyHead, ih, Nat.add_zero]

/-- There are no separators in the parts. -/
theorem not_sep_of_mem (h : part ∈ xs.splitOnP p) (hx : x ∈ part) :
    x ∈ xs ∧ p x = false := by
  induction xs generalizing part with
  | nil =>
      rw [List.splitOnP_nil, List.mem_singleton] at h
      rw [h] at hx
      cases hx
  | cons y xs ih =>
      rw [List.splitOnP_cons_eq_if_modifyHead] at h
      have hlater {tail : List α} (hpart : tail ∈ xs.splitOnP p) (hx : x ∈ tail) :
          x ∈ y :: xs ∧ p x = false :=
        (ih hpart hx).imp_left (List.mem_cons_of_mem y)
      split at h
      · rcases List.mem_cons.mp h with rfl | h
        · cases hx
        · exact hlater h hx
      · next hy =>
          obtain ⟨head, tail, hsplit⟩ :=
            List.exists_cons_of_ne_nil (List.splitOnP_ne_nil p xs)
          rw [hsplit, List.modifyHead_cons, List.mem_cons] at h
          rcases h with rfl | h
          · rcases List.mem_cons.mp hx with rfl | hx
            · exact ⟨List.mem_cons_self, Bool.eq_false_iff.mpr hy⟩
            · exact hlater (hsplit ▸ List.mem_cons_self) hx
          · exact hlater (hsplit ▸ List.mem_cons_of_mem head h) hx

end Splitting
