import Mathlib.Data.List.Nodup

/-! # Descriptors

    A table of descriptors, by their numbers.  Opening takes the lowest number
    that is free; everything else is said by what stands behind each number. -/

namespace Descriptors

universe u

/-- What is open, at its number.  Behind the end nothing is. -/
structure Table (α : Type u) where
  slots : List (Option α)
deriving DecidableEq, Repr

namespace Table

variable {α : Type u} (t : Table α)

/-- What is open at a number. -/
def get (fd : Nat) : Option α := t.slots[fd]?.join

/-- The numbers at which something is open, ascending. -/
def opened : List Nat := (List.range t.slots.length).filter fun fd => (t.get fd).isSome

/-- The number that is taken next. -/
def lowest : Nat := t.slots.findIdx Option.isNone

/-- Let a number stand for something, or for nothing. -/
def put (fd : Nat) (f : Option α) : Table α :=
  ⟨(t.slots ++ List.replicate (fd + 1 - t.slots.length) none).set fd f⟩

def close (fd : Nat) : Table α := t.put fd none

/-- Let a number stand for what another one stands for. -/
def dup (fd fd' : Nat) : Table α := t.put fd' (t.get fd)

/-- Close one after the other. -/
def closeAll (fds : List Nat) : Table α := fds.foldl close t

variable {t} {fd fd' fd₀ : Nat} {f : Option α} {fds : List Nat}

theorem get_of_le (h : t.slots.length ≤ fd) : t.get fd = none := by
  rw [get, List.getElem?_eq_none h]
  rfl

theorem mem_opened : fd ∈ t.opened ↔ (t.get fd).isSome = true := by
  rw [opened, List.mem_filter, List.mem_range, and_iff_right_iff_imp]
  intro h
  by_contra hlen
  rw [get_of_le (Nat.not_lt.mp hlen)] at h
  cases h

theorem nodup_opened : t.opened.Nodup := List.nodup_range.filter _

theorem opened_congr {t' : Table α} (h : ∀ fd, t.get fd = t'.get fd) : t.opened.Perm t'.opened :=
  (List.perm_ext_iff_of_nodup nodup_opened nodup_opened).mpr fun fd => by
    rw [mem_opened, mem_opened, h]

theorem length_put : (t.put fd f).slots.length = max t.slots.length (fd + 1) := by
  rw [put, List.length_set, List.length_append, List.length_replicate]
  omega

theorem get_put : (t.put fd f).get fd' = if fd' = fd then f else t.get fd' := by
  have hlen : fd < (t.slots ++ List.replicate (fd + 1 - t.slots.length) none).length := by
    rw [List.length_append, List.length_replicate]
    omega
  rw [get, put]
  split
  next heq => rw [heq, List.getElem?_set_self hlen]; rfl
  next hne =>
    rw [List.getElem?_set_ne (Ne.symm hne), get]
    by_cases hin : fd' < t.slots.length
    · rw [List.getElem?_append_left hin]
    · rw [List.getElem?_append_right (Nat.not_lt.mp hin), List.getElem?_replicate,
        List.getElem?_eq_none (Nat.not_lt.mp hin)]
      split
      · rfl
      · rfl

theorem get_put_self : (t.put fd f).get fd = f := by rw [get_put, if_pos rfl]

theorem get_put_ne (h : fd' ≠ fd) : (t.put fd f).get fd' = t.get fd' := by
  rw [get_put, if_neg h]

theorem get_close : (t.close fd).get fd' = if fd' = fd then none else t.get fd' := get_put

theorem get_dup :
    (t.dup fd fd').get fd₀ = if fd₀ = fd' then t.get fd else t.get fd₀ := get_put

/-- Nothing is open at the number that is taken next, -/
theorem get_lowest : t.get t.lowest = none := by
  by_cases h : t.lowest < t.slots.length
  · rw [get, List.getElem?_eq_getElem h]
    exact Option.isNone_iff_eq_none.mp (List.findIdx_getElem (w := h))
  · exact get_of_le (Nat.not_lt.mp h)

/-- What is opened and closed again leaves no trace. -/
theorem get_close_put_lowest : ((t.put t.lowest f).close t.lowest).get fd = t.get fd := by
  rw [get_close, get_put]
  split
  next heq => rw [heq, get_lowest]
  next => rfl

theorem lowest_le_length : t.lowest ≤ t.slots.length := List.findIdx_le_length

theorem lowest_ne (h : (t.get fd).isSome = true) : t.lowest ≠ fd := by
  rintro rfl
  rw [get_lowest] at h
  cases h

/-- **CLOSED**: all of these, and no others. -/
theorem get_closeAll : (t.closeAll fds).get fd = if fd ∈ fds then none else t.get fd := by
  induction fds generalizing t with
  | nil => rw [if_neg List.not_mem_nil]; rfl
  | cons fd' fds ih =>
      rw [closeAll, List.foldl_cons, ← closeAll, ih, get_close]
      by_cases hin : fd ∈ fds
      · rw [if_pos hin, if_pos (List.mem_cons_of_mem _ hin)]
      · rw [if_neg hin]
        by_cases heq : fd = fd'
        · rw [if_pos heq, if_pos (heq ▸ List.mem_cons_self)]
        · rw [if_neg heq, if_neg fun hmem => (List.mem_cons.mp hmem).elim heq hin]

/-- What was open is what is closed and what stays open. -/
theorem opened_closeAll (hnodup : fds.Nodup) (hfds : ∀ fd ∈ fds, fd ∈ t.opened) :
    t.opened.Perm (fds ++ (t.closeAll fds).opened) := by
  have hiff : ∀ fd, fd ∈ (t.closeAll fds).opened ↔ fd ∉ fds ∧ fd ∈ t.opened := by
    intro fd
    rw [mem_opened, get_closeAll, mem_opened]
    by_cases hin : fd ∈ fds
    · simp [hin]
    · simp [hin]
  refine (List.perm_ext_iff_of_nodup nodup_opened ?_).mpr fun fd => ?_
  · exact hnodup.append nodup_opened fun fd hin hopen => ((hiff fd).mp hopen).1 hin
  · rw [List.mem_append, hiff]
    constructor
    · intro hopen
      by_cases hin : fd ∈ fds
      · exact .inl hin
      · exact .inr ⟨hin, hopen⟩
    · exact fun h => h.elim (hfds fd) And.right

/-- So many of them fewer are open. -/
theorem length_opened_closeAll {p : Nat → Bool} (hnodup : fds.Nodup)
    (hfds : ∀ fd ∈ fds, fd ∈ t.opened ∧ p fd = true) :
    fds.length + ((t.closeAll fds).opened.filter p).length = (t.opened.filter p).length := by
  have hperm := (opened_closeAll hnodup fun fd hfd => (hfds fd hfd).1).filter p
  rw [hperm.length_eq, List.filter_append, List.length_append,
    List.filter_eq_self.mpr fun fd hfd => (hfds fd hfd).2]

end Table

end Descriptors
