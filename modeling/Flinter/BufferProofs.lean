import Mathlib.Data.List.Basic

/-! # Buffers

    Memory of a fixed size, of which some bytes have been written and others have
    not.  To write past its end is no value, and neither is to read what was never
    written; so what is computed has done neither. -/

namespace Buffers

universe u

/-- The bytes, `none` where nothing was written. -/
structure Buffer (α : Type u) where
  bytes : List (Option α)

namespace Buffer

variable {α : Type u} (b : Buffer α)

/-- A buffer on the stack. -/
def new (n : Nat) : Buffer α := ⟨List.replicate n none⟩

def size : Nat := b.bytes.length

/-- Copy `src` to the `i`th byte. -/
def put (i : Nat) (src : List α) : Option (Buffer α) :=
  if i + src.length ≤ b.size then
    some ⟨b.bytes.take i ++ src.map some ++ b.bytes.drop (i + src.length)⟩
  else none

/-- The first `n` bytes. -/
def read (n : Nat) : Option (List α) :=
  if n ≤ b.size then (b.bytes.take n).mapM id else none

/-- From the `i`th byte on there is `text`. -/
def Holds (i : Nat) (text : List α) : Prop :=
  ∀ k < text.length, b.bytes[i + k]? = some text[k]?

variable {b} {b' : Buffer α} {i j n : Nat} {src text text' : List α}

theorem size_new : (new n : Buffer α).size = n := List.length_replicate

theorem put_of_le (h : i + src.length ≤ b.size) : ∃ b', b.put i src = some b' :=
  ⟨_, if_pos h⟩

theorem le_of_put (h : b.put i src = some b') : i + src.length ≤ b.size := by
  rw [put] at h
  split at h
  next hle => exact hle
  next => cases h

theorem size_put (h : b.put i src = some b') : b'.size = b.size := by
  have hle := le_of_put h
  rw [put, if_pos hle] at h
  cases h
  rw [size] at hle
  rw [size, size, List.length_append, List.length_append, List.length_take, List.length_map,
    List.length_drop]
  omega

theorem bytes_put (h : b.put i src = some b') (k : Nat) :
    b'.bytes[k]? = if i ≤ k ∧ k < i + src.length then some src[k - i]? else b.bytes[k]? := by
  have hle := le_of_put h
  rw [put, if_pos hle] at h
  cases h
  rw [size] at hle
  have htake : (b.bytes.take i).length = i := by
    rw [List.length_take]
    omega
  have hmap : (src.map some).length = src.length := List.length_map _
  by_cases hlt : k < i
  · rw [if_neg (by omega), List.append_assoc, List.getElem?_append_left (by omega),
      List.getElem?_take_of_lt hlt]
  · by_cases hin : k < i + src.length
    · rw [if_pos (by omega), List.append_assoc, List.getElem?_append_right (by omega), htake,
        List.getElem?_append_left (by omega), List.getElem?_map,
        List.getElem?_eq_getElem (by omega)]
      rfl
    · rw [if_neg (by omega), List.getElem?_append_right (by rw [List.length_append]; omega),
        List.getElem?_drop, List.length_append, htake, hmap]
      congr 1
      omega

/-- What is written is there, -/
theorem Holds.put_self (h : b.put i src = some b') : b'.Holds i src := by
  intro k hk
  rw [bytes_put h, if_pos ⟨Nat.le_add_right i k, by omega⟩, Nat.add_sub_cancel_left]

/-- and what is beside it stays. -/
theorem Holds.put (hold : b.Holds j text) (h : b.put i src = some b')
    (hapart : j + text.length ≤ i ∨ i + src.length ≤ j) : b'.Holds j text := by
  intro k hk
  rw [bytes_put h, if_neg (by omega), hold k hk]

theorem Holds.append (h : b.Holds i text) (h' : b.Holds (i + text.length) text') :
    b.Holds i (text ++ text') := by
  intro k hk
  rw [List.length_append] at hk
  by_cases hlt : k < text.length
  · rw [h k hlt, List.getElem?_append_left hlt]
  · have hle := Nat.not_lt.mp hlt
    have hk' := h' (k - text.length) (by omega)
    rw [show i + text.length + (k - text.length) = i + k by omega] at hk'
    rw [hk', List.getElem?_append_right hle]

theorem Holds.left (h : b.Holds i (text ++ text')) : b.Holds i text := by
  intro k hk
  rw [h k (by rw [List.length_append]; omega), List.getElem?_append_left hk]

theorem Holds.length_le (h : b.Holds 0 text) : text.length ≤ b.size := by
  by_contra hlt
  have hk := h b.size (Nat.not_le.mp hlt)
  rw [List.getElem?_eq_none (by rw [size]; omega)] at hk
  cases hk

/-- One thing behind the other; what comes with it does not matter. -/
theorem Holds.extend {tail : List α} (h : b.Holds 0 text)
    (hfit : text.length + (src ++ tail).length ≤ b.size) :
    ∃ b', b.put text.length (src ++ tail) = some b' ∧ b'.Holds 0 (text ++ src) ∧
      b'.size = b.size := by
  obtain ⟨b', hput⟩ := put_of_le hfit
  have hself := Holds.put_self hput
  refine ⟨b', hput, (h.put hput (.inl (by omega))).append ?_, size_put hput⟩
  rw [Nat.zero_add]
  exact hself.left

theorem mapM_some (text : List α) : (text.map some).mapM id = some text := by
  induction text with
  | nil => rfl
  | cons a text ih =>
      rw [List.map_cons, List.mapM_cons, ih]
      rfl

/-- **READ BACK**: what was written from the first byte on. -/
theorem Holds.read (h : b.Holds 0 text) : b.read text.length = some text := by
  have hsize := h.length_le
  have htake : b.bytes.take text.length = text.map some := by
    refine List.ext_getElem? fun k => ?_
    by_cases hk : k < text.length
    · have hget := h k hk
      rw [Nat.zero_add] at hget
      rw [List.getElem?_take_of_lt hk, hget, List.getElem?_map, List.getElem?_eq_getElem hk]
      rfl
    · rw [List.getElem?_eq_none (by rw [List.length_take]; omega),
        List.getElem?_eq_none (by rw [List.length_map]; omega)]
  rw [Buffer.read, if_pos hsize, htake]
  exact mapM_some text

end Buffer

end Buffers
