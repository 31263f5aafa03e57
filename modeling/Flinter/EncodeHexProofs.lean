import Flinter.CodeProofs

/-! # Hexadecimal digits

    `EncodeHex` writes two digits for each byte, the high one first, `DecodeHex`
    reads digits of either case.  Bytes are signed, and are made unsigned before
    they are divided.

    They are each other's inverse on strings that are not empty.  `DecodeHex` takes
    an empty string for an error. -/

namespace FlinterEncode

open Codes

/-- A `char` is signed. -/
abbrev Bytes := List Int8

/-- A character that the source names. -/
def char (c : Char) : Int8 := Int8.ofNat c.toNat

-- ── The code ─────────────────────────────────────────────────────────────────

/-- `HexChar`. -/
def hexChar (c : Int8) : Int :=
  if char '0' ≤ c ∧ c ≤ char '9' then c.toInt - (char '0').toInt
  else if char 'A' ≤ c ∧ c ≤ char 'F' then c.toInt - (char 'A').toInt + 10
  else if char 'a' ≤ c ∧ c ≤ char 'f' then c.toInt - (char 'a').toInt + 10
  else -1

/-- `HEX`. -/
def HEX : Bytes := "0123456789ABCDEF".toList.map char

/-- `EncodeHex`: the two digits of a byte. -/
def hexDigits (q : Int8) : Bytes :=
  [HEX.getD (q.toUInt8.toNat / 16) 0, HEX.getD (q.toUInt8.toNat % 16) 0]

/-- `EncodeHex`, what it returns and `hex`. -/
def encodeHex (what : Bytes) : Int × Bytes :=
  if what = [] then (0, []) else (0, what.flatMap hexDigits)

/-- `EncodeHex` that returns `hex`. -/
def encodeHexString (what : Bytes) : Bytes :=
  if (encodeHex what).1 ≠ 0 then [] else (encodeHex what).2

/-- `std::string::resize`. -/
def resize (s : Bytes) (n : Nat) : Bytes := s.take n ++ List.replicate (n - s.length) 0

/-- `DecodeHex`: the loop, where `done` is what is in `what` before `p`, and `rest`
    what is there from `p` on. -/
def decodeHexLoop : Bytes → Bytes → Bytes → Int × Bytes
  | h :: l :: hex, done, rest =>
      if hexChar h < 0 ∨ hexChar l < 0 then (-1, done ++ rest)
      else
        decodeHexLoop hex (done ++ [Int8.ofInt (hexChar h * 16 + hexChar l)]) (rest.drop 1)
  | _, done, rest => (0, done ++ rest)

/-- `DecodeHex`, what it returns and `what`. -/
def decodeHex (hex what : Bytes) : Int × Bytes :=
  if hex.length = 0 ∨ hex.length % 2 ≠ 0 then (-1, what)
  else decodeHexLoop hex [] (resize what (hex.length / 2))

-- ── Two digits for a byte ────────────────────────────────────────────────────

/-- A digit of either case. -/
def IsHexDigit (c : Int8) : Prop := c ∈ "0123456789ABCDEFabcdef".toList.map char

/-- `toupper`. -/
def toupper (c : Int8) : Int8 :=
  if char 'a' ≤ c ∧ c ≤ char 'z' then c - (char 'a' - char 'A') else c

/-- What holds of the eight bits of every byte. -/
theorem forall_byte {P : Int8 → Prop} (h : ∀ b : BitVec 8, P (.ofBitVec b)) (c : Int8) :
    P c := h c.toBitVec

theorem isHexDigit_iff (c : Int8) : IsHexDigit c ↔ 0 ≤ hexChar c := by
  refine forall_byte (P := fun c => IsHexDigit c ↔ 0 ≤ hexChar c) ?_ c
  unfold IsHexDigit
  decide +kernel

/-- The digits of a byte are read as that byte. -/
theorem hexChar_digits (q : Int8) : 0 ≤ hexChar (HEX.getD (q.toUInt8.toNat / 16) 0) ∧
    0 ≤ hexChar (HEX.getD (q.toUInt8.toNat % 16) 0) ∧
    Int8.ofInt (hexChar (HEX.getD (q.toUInt8.toNat / 16) 0) * 16 +
      hexChar (HEX.getD (q.toUInt8.toNat % 16) 0)) = q := by
  revert q
  refine forall_byte ?_
  decide +kernel

/-- The digit of that value, in upper case. -/
theorem digit_hexChar (c : Int8) : 0 ≤ hexChar c →
    hexChar c < 16 ∧ HEX.getD (hexChar c).toNat 0 = toupper c := by
  revert c
  refine forall_byte ?_
  decide +kernel

/-- `DecodeHex`: a byte from two digits. -/
def readHex : Bytes → Option (Int8 × Bytes)
  | h :: l :: hex =>
      if hexChar h < 0 ∨ hexChar l < 0 then none
      else some (Int8.ofInt (hexChar h * 16 + hexChar l), hex)
  | _ => none

theorem readHex_cons {h l : Int8} (hex : Bytes) (hh : 0 ≤ hexChar h) (hl : 0 ≤ hexChar l) :
    readHex (h :: l :: hex) = some (Int8.ofInt (hexChar h * 16 + hexChar l), hex) :=
  if_neg (by omega)

theorem readHex_eq_some {s rest : Bytes} {q : Int8} (hread : readHex s = some (q, rest)) :
    ∃ h l, s = h :: l :: rest ∧ 0 ≤ hexChar h ∧ 0 ≤ hexChar l ∧
      q = Int8.ofInt (hexChar h * 16 + hexChar l) := by
  match s, hread with
  | h :: l :: hex, hread =>
      rw [readHex] at hread
      split at hread
      · cases hread
      · next hnot =>
          obtain ⟨rfl, rfl⟩ := Prod.mk.inj (Option.some.inj hread)
          exact ⟨h, l, rfl, by omega, by omega, rfl⟩

/-- The code of bytes as digits. -/
def hexCode : Code Int8 Int8 where
  word := hexDigits
  read := readHex
  read_word := by
    intro q rest
    obtain ⟨hhigh, hlow, hq⟩ := hexChar_digits q
    have hread := readHex_cons rest hhigh hlow
    rw [hq] at hread
    exact hread
  read_shorter := by
    intro s q rest hread
    obtain ⟨h, l, rfl, -⟩ := readHex_eq_some hread
    exact Nat.lt_add_of_pos_right (Nat.two_pos)

theorem encodeHexString_eq (what : Bytes) : encodeHexString what = hexCode.encode what := by
  cases what with
  | nil => rfl
  | cons q what => rfl

theorem length_encode (what : Bytes) : (hexCode.encode what).length = 2 * what.length := by
  induction what with
  | nil => rfl
  | cons q what ih =>
      rw [Code.encode_cons, List.length_append, ih, List.length_cons, Nat.mul_succ, Nat.add_comm]
      rfl

/-- A byte is written as the digits that it is read from, in upper case. -/
theorem hexDigits_of_read {s rest : Bytes} {q : Int8} (hread : hexCode.read s = some (q, rest)) :
    ∃ w, s = w ++ rest ∧ hexCode.word q = w.map toupper := by
  obtain ⟨h, l, rfl, hh, hl, rfl⟩ := readHex_eq_some hread
  obtain ⟨hh16, hhigh⟩ := digit_hexChar h hh
  obtain ⟨hl16, hlow⟩ := digit_hexChar l hl
  refine ⟨[h, l], rfl, ?_⟩
  have hq : (Int8.ofInt (hexChar h * 16 + hexChar l)).toUInt8.toNat =
      (hexChar h).toNat * 16 + (hexChar l).toNat := by
    change (BitVec.ofInt 8 _).toNat = _
    rw [BitVec.toNat_ofInt]
    omega
  have hdiv : ((hexChar h).toNat * 16 + (hexChar l).toNat) / 16 = (hexChar h).toNat := by omega
  have hmod : ((hexChar h).toNat * 16 + (hexChar l).toNat) % 16 = (hexChar l).toNat := by omega
  change [HEX.getD _ 0, HEX.getD _ 0] = _
  rw [hq, hdiv, hmod, hhigh, hlow]
  rfl

-- ── The loop ─────────────────────────────────────────────────────────────────

theorem decode_digits {h l : Int8} {hex : Bytes} (hh : 0 ≤ hexChar h) (hl : 0 ≤ hexChar l) :
    hexCode.decode (h :: l :: hex) =
      (hexCode.decode hex).map (Int8.ofInt (hexChar h * 16 + hexChar l) :: ·) :=
  Code.decode_of_read (c := hexCode) (readHex_cons hex hh hl)

theorem decode_of_not_digits {h l : Int8} {hex : Bytes} (hnot : hexChar h < 0 ∨ hexChar l < 0) :
    hexCode.decode (h :: l :: hex) = none :=
  Code.decode_of_not_read (c := hexCode) (List.cons_ne_nil h _) (if_pos hnot)

/-- A byte is read for every two digits, and there is nothing else that is read. -/
theorem decode_isSome_iff (hex : Bytes) : (hexCode.decode hex).isSome ↔
    hex.length % 2 = 0 ∧ ∀ c ∈ hex, IsHexDigit c := by
  match hex with
  | [] =>
      rw [Code.decode_nil]
      exact iff_of_true rfl ⟨rfl, List.forall_mem_nil _⟩
  | [c] =>
      rw [Code.decode_of_not_read (c := hexCode) (List.cons_ne_nil c []) rfl]
      exact iff_of_false Bool.false_ne_true (fun h => absurd h.1 Nat.one_ne_zero)
  | h :: l :: hex =>
      simp only [List.forall_mem_cons, isHexDigit_iff, List.length_cons, Nat.add_assoc]
      by_cases hdigits : hexChar h < 0 ∨ hexChar l < 0
      · rw [decode_of_not_digits hdigits]
        exact iff_of_false Bool.false_ne_true (by omega)
      · rw [decode_digits (by omega) (by omega), Option.isSome_map, decode_isSome_iff hex,
          Nat.add_mod_right]
        simp only [isHexDigit_iff]
        exact and_congr_right fun _ =>
          ⟨fun hall => ⟨by omega, by omega, hall⟩, fun hall => hall.2.2⟩

/-- The loop stops at what cannot be read, and else stores what is read. -/
theorem decodeHexLoop_cases {hex done rest : Bytes} (hlen : hex.length = 2 * rest.length) :
    (∃ t, hexCode.decode hex = some t ∧ decodeHexLoop hex done rest = (0, done ++ t)) ∨
      hexCode.decode hex = none ∧ (decodeHexLoop hex done rest).1 = -1 := by
  match hex, rest, hlen with
  | [], [], _ => exact Or.inl ⟨[], Code.decode_nil, rfl⟩
  | [c], rest, hlen => simp only [List.length_singleton] at hlen; omega
  | h :: l :: hex, r :: rest, hlen =>
      by_cases hdigits : hexChar h < 0 ∨ hexChar l < 0
      · refine Or.inr ⟨decode_of_not_digits hdigits, ?_⟩
        rw [decodeHexLoop, if_pos hdigits]
      · have hlen' : hex.length = 2 * rest.length := by
          simp only [List.length_cons] at hlen
          omega
        rw [decode_digits (by omega) (by omega), decodeHexLoop, if_neg hdigits]
        rcases @decodeHexLoop_cases hex (done ++ [_]) rest hlen' with ⟨t, ht, hloop⟩ | ⟨ht, hloop⟩
        · refine Or.inl ⟨_ :: t, by rw [ht]; rfl, hloop.trans ?_⟩
          rw [List.append_assoc, List.singleton_append]
        · exact Or.inr ⟨by rw [ht]; rfl, hloop⟩

theorem length_resize (s : Bytes) (n : Nat) : (resize s n).length = n := by
  simp only [resize, List.length_append, List.length_take, List.length_replicate]
  omega

/-- `DecodeHex` on a string of even length that is not empty. -/
theorem decodeHex_cases {hex : Bytes} (what : Bytes) (hne : hex ≠ []) (heven : hex.length % 2 = 0) :
    (∃ t, hexCode.decode hex = some t ∧ decodeHex hex what = (0, t)) ∨
      hexCode.decode hex = none ∧ (decodeHex hex what).1 = -1 := by
  have hlen : hex.length ≠ 0 := fun h => hne (List.length_eq_zero_iff.mp h)
  rw [decodeHex, if_neg (by omega)]
  exact decodeHexLoop_cases (by rw [length_resize]; omega)

-- ── There and back ───────────────────────────────────────────────────────────

/-- **THERE AND BACK.**  Every string but the empty one is written as digits that are
    read as that string, and exactly the strings of digits, two for each byte and at
    least two, are read, as what is written in the same way but for upper case. -/
theorem hex_there_and_back (what : Bytes) :
    (∀ s, s ≠ [] → decodeHex (encodeHexString s) what = (0, s)) ∧
      ∀ hex, ((decodeHex hex what).1 = 0 ↔
          hex ≠ [] ∧ hex.length % 2 = 0 ∧ ∀ c ∈ hex, IsHexDigit c) ∧
        ((decodeHex hex what).1 = 0 →
          encodeHexString (decodeHex hex what).2 = hex.map toupper) := by
  constructor
  · intro s hs
    have hlen := length_encode s
    have hpos := List.length_pos_iff.mpr hs
    rw [encodeHexString_eq]
    have hne : hexCode.encode s ≠ [] := List.length_pos_iff.mp (by omega)
    rcases decodeHex_cases what hne (by omega) with ⟨t, ht, hdecode⟩ | ⟨ht, -⟩
    · rw [Code.decode_encode] at ht
      rw [hdecode, Option.some.inj ht]
    · rw [Code.decode_encode] at ht
      cases ht
  · intro hex
    by_cases hguard : hex.length = 0 ∨ hex.length % 2 ≠ 0
    · have hfail : (decodeHex hex what).1 = -1 := by rw [decodeHex, if_pos hguard]
      rw [hfail]
      refine ⟨iff_of_false (by decide) ?_, fun h => absurd h (by decide)⟩
      rintro ⟨hne, heven, -⟩
      exact hguard.elim (fun h => hne (List.length_eq_zero_iff.mp h)) (· heven)
    · have heven : hex.length % 2 = 0 := by omega
      have hne : hex ≠ [] := fun h => hguard (Or.inl (List.length_eq_zero_iff.mpr h))
      have hall := decode_isSome_iff hex
      rcases decodeHex_cases what hne heven with ⟨t, ht, hdecode⟩ | ⟨ht, hfail⟩
      · rw [hdecode]
        rw [ht] at hall
        refine ⟨iff_of_true rfl ⟨hne, hall.mp rfl⟩, fun _ => ?_⟩
        rw [encodeHexString_eq]
        exact Code.encode_of_decode hexDigits_of_read ht
      · rw [hfail]
        rw [ht] at hall
        refine ⟨iff_of_false (by decide) ?_, fun h => absurd h (by decide)⟩
        rintro ⟨-, hdigits⟩
        exact absurd (hall.mpr hdigits) Bool.false_ne_true

theorem hex_there_and_back_mixed :
    decodeHex (encodeHexString [0, 127, -128, -1]) [] = (0, [0, 127, -128, -1]) ∧
      encodeHexString (decodeHex ("aF09".toList.map char) []).2 = "AF09".toList.map char :=
  ⟨(hex_there_and_back []).1 _ (by decide),
    ((hex_there_and_back []).2 ("aF09".toList.map char)).2 (by decide)⟩

/-- The empty string is not there when it comes back. -/
theorem empty_string_not_decoded : (decodeHex (encodeHexString []) []).1 = -1 := by
  decide

end FlinterEncode
