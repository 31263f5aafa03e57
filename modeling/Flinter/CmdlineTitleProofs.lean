import Flinter.CmdlineSetupProofs
import Flinter.RunProofs
import Flinter.SplittingProofs

/-! # The title of the process

    `cmdline_set_process_name` writes the title over the arguments, a prefix first, and
    keeps the title that was there before for `cmdline_unset_process_name`, but only once
    the prefix is written over it.

    So a title is restored if it begins with the prefix itself, or the one that was set
    has none (`titles_undone`). -/

namespace FlinterCmdline

open Runs

-- ── The code ─────────────────────────────────────────────────────────────────

/-- A string in memory, up to the NUL. -/
def cstr (block : Text) : Text := block.takeWhile (· != '\x00')

/-- `memcpy` to the `i`th byte of the block; `none` is a byte outside of it. -/
def memcpy (i : Nat) (src block : Text) : Option Text :=
  if i + src.length ≤ block.length then
    some (block.take i ++ src ++ block.drop (i + src.length))
  else none

/-- `memset` with NUL. -/
def memset (i n : Nat) (block : Text) : Option Text := memcpy i (List.replicate n '\x00') block

/-- What a format and its arguments are printed as, or as far as it comes before it
    fails. -/
structure Printed where
  text : Text
  fails : Bool

/-- `vsnprintf` to the `i`th byte, `n` bytes at most, and what it returns. -/
def vsnprintf (i n : Nat) (p : Printed) (block : Text) : Option (Int × Text) :=
  (memcpy i (p.text.take (n - 1) ++ ['\x00']) block).map fun block =>
    (if p.fails then -1 else p.text.length, block)

/-- `cmdline_reserve_prefix`. -/
def cmdline_reserve_prefix (basename : Text) : Text := basename.take 18 ++ [':', ' ']

/-- What `cmdline_setup` leaves: whether `g_arg_name` is set, `g_max_length`, the argument,
    and the name that the prefix is made of, if it came so far. -/
structure Setup where
  g_arg_name : Bool
  g_max_length : Nat
  g_module_arg : Option Text
  g_module_basename : Option Text
  basename_plain : ∀ name ∈ g_module_basename, '\x00' ∉ name

/-- `g_prefix`, of which there are `g_prefix_length` bytes. -/
def Setup.g_prefix (c : Setup) : Text := (c.g_module_basename.map cmdline_reserve_prefix).getD []

/-- The memory from `g_arg_name` on, and `g_saved_program_name`. -/
structure Title where
  block : Text
  g_saved_program_name : Option Text

/-- `cmdline_set_process_name`: the format, and whether the prefix is used. -/
def chooseFormat (c : Setup) : Option Text → Option Text × Bool
  | none => (c.g_module_arg, false)
  | some ('-' :: fmt) => (some fmt, false)
  | some fmt => (some fmt, decide (c.g_prefix.length ≠ 0))

/-- `cmdline_set_process_name`, what it returns and leaves, whether the title before can be
    copied, and what formats are printed as with the arguments of the call, `none` where
    they do not go together. -/
def cmdline_set_process_name (c : Setup) (allocated : Bool) (printed : Text → Option Printed)
    (fmt : Option Text) (s : Title) : Option (Int × Title) :=
  if c.g_max_length = 0 ∨ c.g_arg_name = false then some (-1, s)
  else
    let off := if (chooseFormat c fmt).2 then
        if c.g_prefix.length ≤ c.g_max_length then c.g_prefix.length else c.g_max_length
      else 0
    let max := c.g_max_length - off
    (memcpy 0 (c.g_prefix.take off) s.block).bind fun block =>
    let saved := if allocated then some (cstr block) else none
    ((chooseFormat c fmt).1.bind printed).bind fun p =>
    (vsnprintf off (max + 1) p block).bind fun written =>
    if written.1 < 0 then some (-1, ⟨written.2, saved⟩)
    else
      let off := if (max : Int) > written.1 then off + written.1.toNat else off + max
      (memset off (c.g_max_length - off) written.2).map fun block => (0, ⟨block, saved⟩)

/-- `cmdline_unset_process_name`. -/
def cmdline_unset_process_name (c : Setup) (s : Title) : Option Title :=
  match s.g_saved_program_name with
  | none => some s
  | some saved =>
      (memcpy 0 saved s.block).bind fun block =>
      (memset saved.length (c.g_max_length - saved.length) block).map fun block => ⟨block, none⟩

-- ── Memory ───────────────────────────────────────────────────────────────────

section Memory

variable {n i : Nat} {block src text rest : Text} {c : Char}

/-- The block has a byte more than `n`, which is a NUL. -/
def Ends (n : Nat) (block : Text) : Prop :=
  ∃ body : Text, body.length = n ∧ block = body ++ ['\x00']

theorem cstr_append (h : '\x00' ∉ text) : cstr (text ++ rest) = text ++ cstr rest := by
  refine List.takeWhile_append_of_pos fun c hc => bne_iff_ne.mpr ?_
  rintro rfl
  exact h hc

theorem cstr_nul : cstr (text ++ '\x00' :: rest) = cstr text := by
  rw [cstr, cstr, List.takeWhile_append]
  split
  · next h =>
      rw [List.takeWhile_cons_of_neg (by decide), List.append_nil]
      exact ((List.takeWhile_prefix _).eq_of_length h).symm
  · rfl

theorem nul_notMem_cstr (block : Text) : '\x00' ∉ cstr block := by
  intro h
  exact absurd (List.mem_takeWhile_imp h) (by decide)

/-- A title fits in front of the NUL at the end. -/
theorem length_cstr_le (h : Ends n block) : (cstr block).length ≤ n := by
  obtain ⟨body, rfl, rfl⟩ := h
  rw [cstr_nul]
  exact (List.takeWhile_prefix _).length_le

/-- To put something in front changes nothing if it is there already. -/
theorem cstr_overwrite (h : '\x00' ∉ src) :
    cstr (src ++ block.drop src.length) = cstr block ↔ src <+: cstr block := by
  constructor
  · intro heq
    rw [← heq, cstr_append h]
    exact List.prefix_append _ _
  · intro hprefix
    have hblock := hprefix.trans (List.takeWhile_prefix _)
    obtain ⟨rest, rfl⟩ := hblock
    rw [List.drop_left]

theorem Ends.length (h : Ends n block) : block.length = n + 1 := by
  obtain ⟨body, rfl, rfl⟩ := h
  rw [List.length_append, List.length_singleton]

theorem Ends.drop (h : Ends n block) (hi : i ≤ n) : ∃ t : Text, block.drop i = t ++ ['\x00'] := by
  obtain ⟨body, rfl, rfl⟩ := h
  exact ⟨body.drop i, List.drop_append_of_le_length hi⟩

/-- What ends with a NUL and has the length still ends. -/
theorem ends_of_length (src text : Text) (hlen : (src ++ (text ++ ['\x00'])).length = n + 1) :
    Ends n (src ++ (text ++ ['\x00'])) := by
  refine ⟨src ++ text, ?_, (List.append_assoc _ _ _).symm⟩
  rw [← List.append_assoc, List.length_append, List.length_singleton] at hlen
  exact Nat.succ.inj hlen

/-- Something that fits is put in front. -/
theorem memcpy_front (h : Ends n block) (hsrc : src.length ≤ n) :
    memcpy 0 src block = some (src ++ block.drop src.length) ∧
      Ends n (src ++ block.drop src.length) := by
  have hlen := h.length
  constructor
  · rw [memcpy, if_pos (by omega), Nat.zero_add]
    rfl
  · obtain ⟨t, ht⟩ := h.drop hsrc
    have hrest := congrArg List.length ht
    rw [List.length_drop] at hrest
    rw [ht]
    exact ends_of_length _ _ (by rw [List.length_append, ← hrest]; omega)

/-- A string that fits is put into the middle. -/
theorem memcpy_string (i : Nat) (text : Text) (h : Ends n block) (hfits : i + text.length ≤ n) :
    ∃ rest, memcpy i (text ++ ['\x00']) block = some (block.take i ++ text ++ '\x00' :: rest) ∧
      Ends n (block.take i ++ text ++ '\x00' :: rest) := by
  have hlen := h.length
  have hsrc : (text ++ ['\x00']).length = text.length + 1 := List.length_append
  refine ⟨block.drop (i + (text.length + 1)), ?_, ?_⟩
  · rw [memcpy, hsrc, if_pos (by omega), ← List.append_assoc, List.append_assoc _ ['\x00']]
    rfl
  · have hall : (block.take i ++ text ++ '\x00' :: block.drop (i + (text.length + 1))).length =
        n + 1 := by
      rw [List.length_append, List.length_append, List.length_take, List.length_cons,
        List.length_drop]
      omega
    by_cases hend : i + text.length = n
    · have hnil : block.drop (i + (text.length + 1)) = [] :=
        List.drop_eq_nil_of_le (by omega)
      rw [hnil] at hall ⊢
      exact ends_of_length _ [] hall
    · obtain ⟨t, ht⟩ := h.drop (i := i + (text.length + 1)) (by omega)
      rw [ht] at hall ⊢
      exact ends_of_length _ ('\x00' :: t) hall

/-- What is behind is erased. -/
theorem memset_ends (h : Ends n block) (hi : i ≤ n) :
    memset i (n - i) block = some (block.take i ++ List.replicate (n + 1 - i) '\x00') := by
  have hlen := h.length
  have hlast : block.drop n = ['\x00'] := by
    obtain ⟨body, rfl, rfl⟩ := h
    exact List.drop_left
  rw [memset, memcpy, if_pos (by rw [List.length_replicate]; omega), List.length_replicate,
    Nat.add_sub_cancel' hi, hlast, Nat.succ_sub hi, List.replicate_succ', List.append_assoc]

end Memory

-- ── One title ────────────────────────────────────────────────────────────────

/-- The prefix that is written for a format. -/
def usedPrefix (c : Setup) (fmt : Option Text) : Text :=
  if (chooseFormat c fmt).2 then c.g_prefix else []

/-- A text that is cut off at `n` bytes, with NULs up to the end of the block. -/
def titled (n : Nat) (text : Text) : Text :=
  text.take n ++ List.replicate (n + 1 - (text.take n).length) '\x00'

section Set

variable {c : Setup} {allocated : Bool} {printed : Text → Option Printed} {fmt : Option Text}
  {s : Title} {p : Printed} {n : Nat} {text u : Text}

theorem titled_ends (n : Nat) (text : Text) : Ends n (titled n text) := by
  have hle : (text.take n).length ≤ n := List.length_take_le n text
  refine ⟨text.take n ++ List.replicate (n - (text.take n).length) '\x00', ?_, ?_⟩
  · rw [List.length_append, List.length_replicate]
    omega
  · rw [titled, Nat.succ_sub hle, List.replicate_succ', List.append_assoc]

theorem cstr_titled : cstr (titled n text) = cstr (text.take n) := by
  have hle : (text.take n).length ≤ n := List.length_take_le n text
  rw [titled, Nat.succ_sub hle, List.replicate_succ, cstr_nul]

/-- The limits of the prefix and of the text are one limit of both. -/
theorem take_append_take (u text : Text) (n : Nat) :
    u.take n ++ text.take (n - (u.take n).length) = (u ++ text).take n := by
  rw [List.take_append, List.length_take]
  congr 2
  omega

theorem prefix_plain (c : Setup) (fmt : Option Text) :
    '\x00' ∉ (usedPrefix c fmt).take n := by
  intro h
  have hmem : '\x00' ∈ c.g_prefix := by
    rw [usedPrefix] at h
    split at h
    · exact List.mem_of_mem_take h
    · exact absurd (List.mem_of_mem_take h) List.not_mem_nil
  rw [Setup.g_prefix] at hmem
  cases hname : c.g_module_basename with
  | none =>
      rw [hname] at hmem
      exact List.not_mem_nil hmem
  | some name =>
      rw [hname] at hmem
      rcases List.mem_append.mp hmem with h | h
      · exact c.basename_plain name hname (List.mem_of_mem_take h)
      · exact absurd h (by decide)

/-- How much of the prefix is copied. -/
theorem offset_eq (c : Setup) (fmt : Option Text) : (if (chooseFormat c fmt).2 then
      if c.g_prefix.length ≤ c.g_max_length then c.g_prefix.length else c.g_max_length
      else 0) = ((usedPrefix c fmt).take c.g_max_length).length ∧
    c.g_prefix.take ((usedPrefix c fmt).take c.g_max_length).length =
      (usedPrefix c fmt).take c.g_max_length := by
  rw [usedPrefix]
  cases (chooseFormat c fmt).2 with
  | false => simp
  | true =>
      simp only [if_true, List.length_take]
      refine ⟨?_, List.take_eq_take_iff.mpr ?_⟩
      · split <;> omega
      · omega

/-- What `cmdline_set_process_name` does, if the format goes with its arguments: the
    title is the prefix and the text, and the title before is kept as it is with the
    prefix written over it. -/
theorem set_eq (allocated : Bool) (hmax : c.g_max_length ≠ 0) (harg : c.g_arg_name = true)
    (hs : Ends c.g_max_length s.block) (hp : (chooseFormat c fmt).1.bind printed = some p) :
    ∃ block, cmdline_set_process_name c allocated printed fmt s =
        some (if p.fails then -1 else 0, ⟨block, if allocated then
          some (cstr ((usedPrefix c fmt).take c.g_max_length ++
            s.block.drop ((usedPrefix c fmt).take c.g_max_length).length)) else none⟩) ∧
      Ends c.g_max_length block ∧
      cstr block = cstr ((usedPrefix c fmt ++ p.text).take c.g_max_length) ∧
      (p.fails = false → block = titled c.g_max_length (usedPrefix c fmt ++ p.text)) := by
  obtain ⟨hoff, htake⟩ := offset_eq c fmt
  have htext := take_append_take (usedPrefix c fmt) p.text c.g_max_length
  have hfits : ((usedPrefix c fmt).take c.g_max_length).length ≤ c.g_max_length :=
    List.length_take_le _ _
  -- From here on, the prefix is what is copied of it.
  generalize (usedPrefix c fmt).take c.g_max_length = u at hoff htake htext hfits ⊢
  have htextFits : (p.text.take (c.g_max_length - u.length)).length ≤ c.g_max_length - u.length :=
    List.length_take_le _ _
  obtain ⟨hfront, hends⟩ := memcpy_front hs hfits
  obtain ⟨rest, hstring, hwritten⟩ := memcpy_string u.length
    (p.text.take (c.g_max_length - u.length)) hends (by omega)
  rw [List.take_left, htext] at hstring hwritten
  rw [cmdline_set_process_name, if_neg (by simp [hmax, harg])]
  simp only [hoff, htake, hfront, hp, vsnprintf, Nat.add_sub_cancel, hstring, Option.bind_some,
    Option.map_some]
  cases hfails : p.fails with
  | true =>
      have hnegative : (-1 : Int) < 0 := by decide
      simp only [if_true, hnegative]
      refine ⟨_, rfl, hwritten, cstr_nul, fun h => ?_⟩
      cases h
  | false =>
      have hend : (if ((c.g_max_length - u.length : Nat) : Int) > p.text.length then
          u.length + ((p.text.length : Int)).toNat
          else u.length + (c.g_max_length - u.length)) =
            ((usedPrefix c fmt ++ p.text).take c.g_max_length).length := by
        rw [← htext, List.length_append, List.length_take, Int.toNat_natCast]
        split <;> omega
      have hle : ((usedPrefix c fmt ++ p.text).take c.g_max_length).length ≤ c.g_max_length :=
        List.length_take_le _ _
      simp only [Bool.false_eq_true, if_false, hend]
      rw [if_neg (by omega), memset_ends hwritten hle, List.take_left]
      exact ⟨_, rfl, titled_ends _ _, cstr_titled, fun _ => rfl⟩

end Set

-- ── Titles that are set and unset ────────────────────────────────────────────

/-- What the process does. -/
inductive Call
  | set (allocated : Bool) (printed : Text → Option Printed) (fmt : Option Text)
  | unset

/-- The titles, from what is in memory at the start on. -/
def titles (c : Setup) : System Title Call where
  init s := Ends c.g_max_length s.block ∧ s.g_saved_program_name = none
  step s l s' := match l with
    | .set allocated printed fmt =>
        ∃ ret, cmdline_set_process_name c allocated printed fmt s = some (ret, s')
    | .unset => cmdline_unset_process_name c s = some s'

/-- The title before the last set, if it is not unset. -/
def before (s : Title) : Call → Option Text → Option Text
  | .set _ _ _, _ => some (cstr s.block)
  | .unset, _ => none

/-- What a title is set to: what the format is printed as, or the argument, where there is
    no format. -/
def setTo (c : Setup) (p : Printed) : Option Text → Text
  | none => c.g_module_arg.getD []
  | some _ => p.text

/-- A set does nothing; or its format goes with its arguments, is printed as what the title
    is set to, and the title before can be restored: there is a copy and it begins with
    the prefix that is written over it, or there is none and it is the same title. -/
def Meets (c : Setup) (s : Title) : Call → Prop
  | .set allocated printed fmt =>
      (c.g_max_length = 0 ∨ c.g_arg_name = false) ∨
      ∃ p, (chooseFormat c fmt).1.bind printed = some p ∧
        (p.fails = false → titled c.g_max_length (usedPrefix c fmt ++ p.text) =
          titled c.g_max_length (usedPrefix c fmt ++ setTo c p fmt)) ∧
        if allocated then (usedPrefix c fmt).take c.g_max_length <+: cstr s.block
        else cstr ((usedPrefix c fmt ++ p.text).take c.g_max_length) = cstr s.block
  | .unset => True

/-- The call stores nothing outside of the block, makes the title what it is set to, and is
    undone by `cmdline_unset_process_name`. -/
def Undone (c : Setup) (s : Title) : Call → Prop
  | .set allocated printed fmt =>
      ∃ ret s', cmdline_set_process_name c allocated printed fmt s = some (ret, s') ∧
        (ret = 0 → ∃ p, (chooseFormat c fmt).1.bind printed = some p ∧
          s'.block = titled c.g_max_length (usedPrefix c fmt ++ setTo c p fmt)) ∧
        ∃ s'', cmdline_unset_process_name c s' = some s'' ∧ cstr s''.block = cstr s.block
  | .unset => ∃ s', cmdline_unset_process_name c s = some s'

/-- The block ends with a NUL, a title that is kept fits, and there is none if none was
    set. -/
structure Fits (c : Setup) (s : Title) : Prop where
  ends : Ends c.g_max_length s.block
  saved : ∀ t, s.g_saved_program_name = some t → '\x00' ∉ t ∧ t.length ≤ c.g_max_length
  unused : c.g_max_length = 0 ∨ c.g_arg_name = false → s.g_saved_program_name = none

section Runs

variable {c : Setup} {s s' : Title} {l : Call} {t : Text}

/-- What is kept is put back. -/
theorem unset_eq (hs : Fits c s) (ht : s.g_saved_program_name = some t) :
    ∃ s', cmdline_unset_process_name c s = some s' ∧ Ends c.g_max_length s'.block ∧
      s'.g_saved_program_name = none ∧ cstr s'.block = t := by
  obtain ⟨hplain, hlen⟩ := hs.saved t ht
  obtain ⟨hfront, hends⟩ := memcpy_front hs.ends hlen
  have hset := memset_ends hends hlen
  rw [List.take_left] at hset
  refine ⟨⟨titled c.g_max_length t, none⟩, ?_, titled_ends _ _, rfl, ?_⟩
  · rw [cmdline_unset_process_name, ht, titled, List.take_of_length_le hlen]
    simp only [hfront, Option.bind_some, hset, Option.map_some]
  · rw [cstr_titled, List.take_of_length_le hlen, ← List.append_nil t, cstr_append hplain]
    rfl

theorem unset_none (h : s.g_saved_program_name = none) :
    cmdline_unset_process_name c s = some s := by
  rw [cmdline_unset_process_name, h]

/-- Where nothing is to be set, nothing is done. -/
theorem set_nothing {allocated : Bool} {printed : Text → Option Printed} {fmt : Option Text}
    (h : c.g_max_length = 0 ∨ c.g_arg_name = false) :
    cmdline_set_process_name c allocated printed fmt s = some (-1, s) := if_pos h

/-- A format that does not go with its arguments. -/
theorem set_undefined {allocated : Bool} {printed : Text → Option Printed} {fmt : Option Text}
    (hs : Fits c s) (hready : ¬ (c.g_max_length = 0 ∨ c.g_arg_name = false))
    (hp : (chooseFormat c fmt).1.bind printed = none) :
    cmdline_set_process_name c allocated printed fmt s = none := by
  obtain ⟨hoff, htake⟩ := offset_eq c fmt
  have hfront := (memcpy_front hs.ends
    (List.length_take_le c.g_max_length (usedPrefix c fmt))).1
  rw [cmdline_set_process_name, if_neg hready]
  simp only [hoff, htake, hfront, hp, Option.bind_some, Option.bind_none]

/-- What a set leaves. -/
theorem fits_set {allocated : Bool} {printed : Text → Option Printed} {fmt : Option Text}
    {ret : Int} (hs : Fits c s)
    (hset : cmdline_set_process_name c allocated printed fmt s = some (ret, s')) :
    Fits c s' := by
  by_cases hready : c.g_max_length = 0 ∨ c.g_arg_name = false
  · rw [set_nothing hready] at hset
    obtain ⟨-, rfl⟩ := Prod.mk.inj (Option.some.inj hset)
    exact hs
  cases hp : (chooseFormat c fmt).1.bind printed with
  | none =>
      rw [set_undefined hs hready hp] at hset
      cases hset
  | some p =>
      obtain ⟨hmax, harg⟩ := not_or.mp hready
      obtain ⟨block, heq, hends, -⟩ := set_eq allocated hmax
        (Bool.not_eq_false _ ▸ harg) hs.ends hp
      rw [heq] at hset
      obtain ⟨-, rfl⟩ := Prod.mk.inj (Option.some.inj hset)
      refine ⟨hends, fun t ht => ?_, fun h => absurd h hready⟩
      cases allocated with
      | false => cases ht
      | true =>
          obtain rfl := Option.some.inj ht
          refine ⟨nul_notMem_cstr _, length_cstr_le ?_⟩
          exact (memcpy_front hs.ends (List.length_take_le _ _)).2

/-- Each step keeps to the block. -/
theorem fits_step (hs : Fits c s) (hstep : (titles c).step s l s') : Fits c s' := by
  cases l with
  | set allocated printed fmt =>
      obtain ⟨ret, hset⟩ := hstep
      exact fits_set hs hset
  | unset =>
      have hunset : cmdline_unset_process_name c s = some s' := hstep
      cases ht : s.g_saved_program_name with
      | none =>
          rw [unset_none ht] at hunset
          exact Option.some.inj hunset ▸ hs
      | some t =>
          obtain ⟨s'', heq, hends, hnone, -⟩ := unset_eq hs ht
          obtain rfl := Option.some.inj (heq.symm.trans hunset)
          refine ⟨hends, fun t ht => ?_, fun _ => hnone⟩
          rw [hnone] at ht
          cases ht

theorem fits_of_reachable (h : Reachable (titles c) s) : Fits c s := by
  refine h.invariant (fun s hs => ⟨hs.1, ?_, fun _ => hs.2⟩) fun s l s' _ => fits_step
  rintro t ht
  rw [hs.2] at ht
  cases ht

/-- With `u` written over the title before a copy is kept, that title is restored if it
    begins with `u`; without a copy the title stays what it is. -/
theorem unset_kept_iff {allocated : Bool} {block u : Text}
    (hs : Fits c ⟨block, if allocated then some (cstr (u ++ s.block.drop u.length)) else none⟩)
    (hu : '\x00' ∉ u) : (∃ s', cmdline_unset_process_name c
        ⟨block, if allocated then some (cstr (u ++ s.block.drop u.length)) else none⟩ = some s' ∧
          cstr s'.block = cstr s.block) ↔
      if allocated then u <+: cstr s.block else cstr block = cstr s.block := by
  cases allocated with
  | false =>
      rw [unset_none rfl]
      constructor
      · rintro ⟨s', h, hs'⟩
        obtain rfl := Option.some.inj h
        exact hs'
      · exact fun h => ⟨_, rfl, h⟩
  | true =>
      obtain ⟨s', h, -, -, hrestored⟩ := unset_eq hs rfl
      rw [h, if_pos rfl, ← cstr_overwrite hu, ← hrestored]
      constructor
      · rintro ⟨s'', h, hs''⟩
        obtain rfl := Option.some.inj h
        exact hs''
      · exact fun h => ⟨s', rfl, h⟩

/-- A call is undone exactly under the condition. -/
theorem undone_iff (hs : Fits c s) (l : Call) : Undone c s l ↔ Meets c s l := by
  cases l with
  | unset =>
      refine iff_of_true ?_ trivial
      cases ht : s.g_saved_program_name with
      | none => exact ⟨s, unset_none ht⟩
      | some t =>
          obtain ⟨s', hunset, -⟩ := unset_eq hs ht
          exact ⟨s', hunset⟩
  | set allocated printed fmt =>
      by_cases hready : c.g_max_length = 0 ∨ c.g_arg_name = false
      · have hunset := unset_none (c := c) (hs.unused hready)
        refine iff_of_true ⟨-1, s, set_nothing hready, ?_, s, hunset, rfl⟩ (Or.inl hready)
        intro h
        cases h
      rw [Meets, or_iff_right hready]
      cases hp : (chooseFormat c fmt).1.bind printed with
      | none =>
          refine iff_of_false ?_ ?_
          · rintro ⟨ret, s', hset, -⟩
            rw [set_undefined hs hready hp] at hset
            cases hset
          · rintro ⟨p, h, -⟩
            cases h
      | some p =>
          obtain ⟨hmax, harg⟩ := not_or.mp hready
          obtain ⟨block, heq, hends, hshown, hblock⟩ := set_eq allocated hmax
            (Bool.not_eq_false _ ▸ harg) hs.ends hp
          have hfits := fits_set hs heq
          have hunset := unset_kept_iff hfits (prefix_plain c fmt)
          rw [hshown] at hunset
          constructor
          · rintro ⟨ret, s', hset, hset0, hundone⟩
            rw [heq] at hset
            obtain ⟨rfl, rfl⟩ := Prod.mk.inj (Option.some.inj hset)
            refine ⟨p, rfl, fun hfails => ?_, hunset.mp hundone⟩
            obtain ⟨p', hp', htext⟩ := hset0 (if_neg (by rw [hfails]; exact Bool.false_ne_true))
            obtain rfl := Option.some.inj (hp.symm.trans hp')
            exact (hblock hfails).symm.trans htext
          · rintro ⟨p', hp', htext, hundone⟩
            obtain rfl := Option.some.inj hp'
            refine ⟨_, _, heq, fun hret => ⟨p, hp, ?_⟩, hunset.mpr hundone⟩
            cases hfails : p.fails with
            | true =>
                rw [hfails] at hret
                cases hret
            | false => exact (hblock hfails).trans (htext hfails)

/-- **TITLES ARE UNDONE**, if each begins with the prefix that is written over it.  In
    every run, a set stores nothing outside of the block and makes the title what it is
    set to, and an unset restores the title before, exactly if the set meets the
    condition. -/
theorem titles_undone (c : Setup) :
    (∀ r, Reachable (((titles c).restrict (Meets c)).record none before) r →
      ∀ t, r.2 = some t →
        ∃ s', cmdline_unset_process_name c r.1 = some s' ∧ cstr s'.block = t) ∧
    ∀ s, Reachable (titles c) s → ∀ l, Undone c s l ↔ Meets c s l := by
  refine ⟨fun r hr => ?_, fun s hs => undone_iff (fits_of_reachable hs)⟩
  refine hr.invariant (I := fun r => ∀ t, r.2 = some t →
    ∃ s', cmdline_unset_process_name c r.1 = some s' ∧ cstr s'.block = t) ?_ ?_
  · rintro ⟨s, shown⟩ ⟨-, rfl⟩ t ht
    cases ht
  · rintro ⟨s, shown⟩ l ⟨s', shown'⟩ hreach - ⟨⟨hmeets, hstep⟩, rfl⟩ t ht
    cases l with
    | unset => cases ht
    | set allocated printed fmt =>
        obtain rfl := Option.some.inj ht
        have hs := fits_of_reachable hreach.of_record.of_restrict
        obtain ⟨ret, s'', hset, -, hunset⟩ := (undone_iff hs _).mpr hmeets
        obtain ⟨ret', hset'⟩ := hstep
        obtain rfl := (Prod.mk.inj (Option.some.inj (hset.symm.trans hset'))).2
        exact hunset

end Runs

/-- A program `p` that has memory for six letters. -/
def setupP : Setup := ⟨true, 6, some ['p'], some ['p'], by simp⟩

/-- A format without arguments. -/
def plain (fmt : Text) : Option Printed := some ⟨fmt, false⟩

/-- A title with the prefix is set over another one. -/
theorem titles_undone_prefix : Undone setupP ⟨titled 6 ['p', ':', ' ', 'a'], none⟩
    (.set true plain (some ['b'])) := by
  have hstart : Reachable (titles setupP) ⟨titled 6 ['p', ':', ' ', 'a'], none⟩ :=
    .start ⟨titled_ends 6 _, rfl⟩
  refine ((titles_undone setupP).2 _ hstart _).mpr (Or.inr ⟨⟨['b'], false⟩, rfl, fun _ => rfl, ?_⟩)
  exact ⟨['a'], rfl⟩

/-- The title at the start does not begin with the prefix. -/
theorem title_not_restored : ¬ ∀ s, Reachable (titles setupP) s → ∀ l, Undone setupP s l := by
  intro h
  obtain ⟨ret, s', hset, -, s'', hunset, hshown⟩ :=
    h ⟨titled 6 ['o', 'l', 'd'], none⟩ (.start ⟨titled_ends 6 _, rfl⟩)
      (.set true plain (some ['n', 'e', 'w']))
  obtain rfl := (Prod.mk.inj (Option.some.inj hset)).2
  obtain rfl := Option.some.inj hunset
  exact absurd hshown (by decide)

end FlinterCmdline
