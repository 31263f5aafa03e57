import Mathlib.Data.List.Flatten

/-! # Codes

    A code has a word for each symbol, and a way to read one symbol off the front
    of a text.  If each word is read as its symbol, whatever comes after it, then
    a text that was written is read as what was written. -/

namespace Codes

universe u v

/-- Words for symbols, and how they are read. -/
structure Code (α : Type u) (β : Type v) where
  word : α → List β
  read : List β → Option (α × List β)
  read_word : ∀ a rest, read (word a ++ rest) = some (a, rest)
  read_shorter : ∀ {s a rest}, read s = some (a, rest) → rest.length < s.length

namespace Code

variable {α : Type u} {β : Type v} (c : Code α β)

/-- One word after the other. -/
def encode (t : List α) : List β := t.flatMap c.word

/-- One symbol after the other, up to the end. -/
def decode (s : List β) : Option (List α) :=
  if s = [] then some []
  else
    match _h : c.read s with
    | none => none
    | some (a, rest) => (decode rest).map (a :: ·)
termination_by s.length
decreasing_by exact c.read_shorter _h

variable {c} {a : α} {s rest : List β} {t t' : List α}

@[simp] theorem encode_nil : c.encode [] = [] := rfl

@[simp] theorem encode_cons : c.encode (a :: t) = c.word a ++ c.encode t :=
  List.flatMap_cons

theorem decode_nil : c.decode [] = some [] := by
  rw [decode, if_pos rfl]

theorem decode_of_read (h : c.read s = some (a, rest)) :
    c.decode s = (c.decode rest).map (a :: ·) := by
  have hne : s ≠ [] := by
    rintro rfl
    exact absurd (c.read_shorter h) (Nat.not_lt_zero _)
  rw [decode, if_neg hne]
  split
  · next hnone =>
      rw [h] at hnone
      cases hnone
  · next hsome =>
      rw [h] at hsome
      obtain ⟨rfl, rfl⟩ := Prod.mk.inj (Option.some.inj hsome)
      rfl

theorem decode_of_not_read (hne : s ≠ []) (h : c.read s = none) : c.decode s = none := by
  rw [decode, if_neg hne]
  split
  · rfl
  · next hsome =>
      rw [h] at hsome
      cases hsome

/-- **WHAT WAS WRITTEN IS READ.** -/
theorem decode_encode (t : List α) : c.decode (c.encode t) = some t := by
  induction t with
  | nil => exact decode_nil
  | cons a t ih => rw [encode_cons, decode_of_read (c.read_word a _), ih, Option.map_some]

/-- So nothing else is written the same way. -/
theorem encode_injective : Function.Injective c.encode := by
  intro t t' h
  have hread := c.decode_encode t
  rw [h, decode_encode] at hread
  exact (Option.some.inj hread).symm

/-- If what is read as a symbol is its word but for the form of the letters, then what
    is read as a text is what would be written but for that. -/
theorem encode_of_decode {form : β → β}
    (hform : ∀ {s a rest}, c.read s = some (a, rest) →
      ∃ w, s = w ++ rest ∧ c.word a = w.map form)
    (h : c.decode s = some t) : c.encode t = s.map form := by
  fun_induction c.decode s generalizing t with
  | case1 =>
      obtain rfl := Option.some.inj h
      rfl
  | case2 s hs hread => cases h
  | case3 s hs a rest hread ih =>
      obtain ⟨t, ht, rfl⟩ := Option.map_eq_some_iff.mp h
      obtain ⟨w, hw, hword⟩ := hform hread
      rw [encode_cons, ih ht, hword, ← List.map_append, ← hw]

/-- A letter of what was written is one of a word, and what comes after it in the word
    comes after it. -/
theorem letter_of_word {b : β} {pre post : List β} (h : c.encode t = pre ++ b :: post) :
    ∃ a ∈ t, ∃ u v, c.word a = u ++ b :: v ∧ v <+: post := by
  induction t generalizing pre with
  | nil => exact absurd h.symm (List.append_ne_nil_of_right_ne_nil pre (List.cons_ne_nil b post))
  | cons a t ih =>
      rw [encode_cons] at h
      rcases List.append_eq_append_iff.mp h with ⟨mid, rfl, hmid⟩ | ⟨mid, hword, hmid⟩
      · obtain ⟨a', ha', hlater⟩ := ih hmid
        exact ⟨a', List.mem_cons_of_mem a ha', hlater⟩
      · cases mid with
        | nil =>
            have hstart : c.encode t = [] ++ b :: post := hmid.symm
            obtain ⟨a', ha', hlater⟩ := ih hstart
            exact ⟨a', List.mem_cons_of_mem a ha', hlater⟩
        | cons b' v =>
            obtain ⟨rfl, hpost⟩ := List.cons.inj hmid
            exact ⟨a, List.mem_cons_self, pre, v, hword, c.encode t, hpost.symm⟩

end Code

end Codes
