import Mathlib.Data.List.Chain

/-! # Duplicating the arguments

    `cmdline_setup` returns a copy of `argv`, and replaces `environ` by a copy, so that
    their memory can be used for the title of the process.

    It counts how many of the arguments lie one right behind the other, and copies so
    many of them, but the NULL is stored behind `argc` of them.  Of the environment it
    copies only what lies right behind the arguments as well. -/

namespace FlinterCmdline

abbrev Text := List Char

/-- A string, and where it is. -/
structure CStr where
  addr : Nat
  text : Text

/-- The word of an array: a string, NULL, or what was there before. -/
inductive Slot
  | str (s : Text)
  | null
  | junk

-- ── The code ─────────────────────────────────────────────────────────────────

/-- `cmdline_strdup`, and whether there is memory for it. -/
def cmdline_strdup (allocated : Bool) (str : Text) : Slot := if allocated then .str str else .null

/-- `cmdline_setup`: whether a string begins where another ends. -/
def Adjacent (s t : CStr) : Prop := t.addr = s.addr + s.text.length + 1

instance (s t : CStr) : Decidable (Adjacent s t) := inferInstanceAs (Decidable (_ = _))

/-- `cmdline_setup`: the loops that count how many strings lie one right behind the other,
    from what is right behind `pointer` on. -/
def adjacentSize (pointer : CStr) : List CStr → Nat
  | [] => 0
  | s :: rest => if Adjacent pointer s then 1 + adjacentSize s rest else 0

/-- A store in an array; `none` is one outside. -/
def store (i : Nat) (v : Slot) (array : List Slot) : Option (List Slot) :=
  if i < array.length then some (array.set i v) else none

/-- `cmdline_setup`: the loops that copy strings. -/
def copyLoop (allocated : Nat → Bool) : (i : Nat) → List CStr → List Slot → Option (List Slot)
  | _, [], array => some array
  | i, s :: rest, array =>
      (store i (cmdline_strdup (allocated i) s.text) array).bind
        (copyLoop allocated (i + 1) rest)

/-- Which allocations work. -/
structure Allocations where
  argvArray : Bool
  argvCopy : Nat → Bool
  environArray : Bool
  environCopy : Nat → Bool

structure Globals where
  g_arg_name : Option Nat
  g_max_length : Nat

/-- What is returned, `environ` if it was replaced, and the variables. -/
structure Result where
  returned : Option (List Slot)
  environ : Option (List Slot)
  globals : Globals

/-- `cmdline_setup`, for `argv0` and the rest of `argv`, and whether the path of the module
    can be had. -/
def cmdline_setup (g : Globals) (modulePath : Bool) (allocated : Allocations) (argv0 : CStr)
    (args environ : List CStr) : Option Result :=
  if g.g_arg_name ≠ none then some ⟨none, none, g⟩
  else
    let g : Globals := ⟨some argv0.addr, argv0.text.length⟩
    let argv := argv0 :: args
    let argc := argv.length
    if !modulePath then some ⟨none, none, g⟩
    else
      let argv_size := 1 + adjacentSize argv0 args
      let last := argv.getD (argv_size - 1) argv0
      let environ_size := if argv_size = argc then adjacentSize last environ else 0
      if !allocated.argvArray then some ⟨none, none, g⟩
      else
        ((copyLoop allocated.argvCopy 0 (argv.take argv_size)
          (List.replicate (argv_size + 1) .junk)).bind (store argc .null)).bind fun array =>
        if environ_size = 0 then
          some ⟨some array, none,
            { g with g_max_length := (last.addr - argv0.addr) + last.text.length }⟩
        else if !allocated.environArray then some ⟨some array, none, g⟩
        else
          let lastEnviron := environ.getD (environ_size - 1) last
          ((copyLoop allocated.environCopy 0 (environ.take environ_size)
            (List.replicate (environ_size + 1) .junk)).bind (store environ_size .null)).bind
            fun copied => some ⟨some array, some copied,
              { g with g_max_length :=
                (lastEnviron.addr - argv0.addr) + lastEnviron.text.length }⟩

-- ── Copies ───────────────────────────────────────────────────────────────────

/-- The copies of strings, those from the `i`th on. -/
def copies (allocated : Nat → Bool) : (i : Nat) → List CStr → List Slot
  | _, [] => []
  | i, s :: rest => cmdline_strdup (allocated i) s.text :: copies allocated (i + 1) rest

/-- The strings themselves. -/
def same (strs : List CStr) : List Slot := strs.map fun s => .str s.text

section Copies

variable {allocated : Nat → Bool} {i : Nat} {strs : List CStr} {v : Slot}
  {before after : List Slot}

theorem store_middle (before after : List Slot) : store before.length v (before ++ .junk :: after) =
    some (before ++ v :: after) := by
  rw [store, if_pos (by rw [List.length_append, List.length_cons]; omega),
    List.set_append_right _ _ (Nat.le_refl _), Nat.sub_self]
  rfl

/-- Where there is room for them, the copies are stored. -/
theorem copyLoop_eq (before after : List Slot) : copyLoop allocated before.length strs
    (before ++ List.replicate strs.length .junk ++ after) =
      some (before ++ copies allocated before.length strs ++ after) := by
  induction strs generalizing before with
  | nil => rfl
  | cons s strs ih =>
      have hlater := ih (before ++ [cmdline_strdup (allocated before.length) s.text])
      simp only [List.append_assoc, List.length_append, List.length_singleton,
        List.singleton_append] at hlater
      rw [copyLoop, List.length_cons, List.replicate_succ, copies]
      simp only [List.append_assoc, List.cons_append]
      rw [store_middle, Option.bind_some]
      exact hlater

/-- The array that is made has one word more than there are strings. -/
theorem copyLoop_array : copyLoop allocated 0 strs (List.replicate (strs.length + 1) .junk) =
    some (copies allocated 0 strs ++ [.junk]) := by
  rw [List.replicate_succ']
  exact copyLoop_eq [] [.junk]

theorem length_copies : (copies allocated i strs).length = strs.length := by
  induction strs generalizing i with
  | nil => rfl
  | cons s strs ih => rw [copies, List.length_cons, ih, List.length_cons]

/-- The copies are the same if there is memory for all of them. -/
theorem copies_eq_same_iff : copies allocated i strs = same strs ↔
    ∀ j < strs.length, allocated (i + j) = true := by
  induction strs generalizing i with
  | nil => exact iff_of_true rfl fun j hj => absurd hj (Nat.not_lt_zero j)
  | cons s strs ih =>
      have hhead : cmdline_strdup (allocated i) s.text = .str s.text ↔
          allocated (i + 0) = true := by
        rw [cmdline_strdup, Nat.add_zero]
        cases allocated i <;> simp
      rw [copies, same, List.map_cons, List.cons.injEq, ← same, ih, List.length_cons,
        Nat.forall_lt_succ_left, hhead]
      refine and_congr_right fun _ => forall₂_congr fun j _ => ?_
      rw [Nat.add_assoc, Nat.add_comm 1 j]

end Copies

-- ── The block ────────────────────────────────────────────────────────────────

/-- The strings that lie one right behind the other, from what is right behind `pointer`
    on. -/
def behind (pointer : CStr) : List CStr → List CStr
  | [] => []
  | s :: rest => if Adjacent pointer s then s :: behind s rest else []

/-- The last of them. -/
def lastBehind (pointer : CStr) : List CStr → CStr
  | [] => pointer
  | s :: rest => if Adjacent pointer s then lastBehind s rest else pointer

/-- `g_max_length` is this much from one string to the end of another. -/
def span (s t : CStr) : Nat := (t.addr - s.addr) + t.text.length

section Block

variable {s d : CStr} {strs more : List CStr} {a : Nat}

theorem adjacentSize_le (s : CStr) (strs : List CStr) : adjacentSize s strs ≤ strs.length := by
  induction strs generalizing s with
  | nil => exact Nat.le_refl 0
  | cons t strs ih =>
      rw [adjacentSize, List.length_cons]
      split
      · have := ih t
        omega
      · exact Nat.zero_le _

/-- All are counted if they are a chain. -/
theorem adjacentSize_eq_iff :
    adjacentSize s strs = strs.length ↔ List.IsChain Adjacent (s :: strs) := by
  induction strs generalizing s with
  | nil => exact iff_of_true rfl (.singleton s)
  | cons t strs ih =>
      rw [adjacentSize, List.isChain_cons_cons, List.length_cons, ← ih]
      split
      · next h => rw [and_iff_right h, Nat.add_comm, Nat.succ_inj]
      · next h => exact iff_of_false (by omega) fun h' => h h'.1

theorem adjacentSize_eq_zero_iff : adjacentSize s strs = 0 ↔ ∀ t ∈ strs.head?, ¬ Adjacent s t := by
  cases strs with
  | nil => exact iff_of_true rfl fun t ht => by cases ht
  | cons t strs =>
      rw [adjacentSize]
      split
      · next h => exact iff_of_false (by omega) fun hnot => hnot t rfl h
      · next h =>
          refine iff_of_true rfl fun t' ht => ?_
          obtain rfl := Option.some.inj ht
          exact h

theorem getD_adjacentSize : (s :: strs).getD (adjacentSize s strs) d = lastBehind s strs := by
  induction strs generalizing s with
  | nil => rfl
  | cons t strs ih =>
      rw [adjacentSize, lastBehind]
      split
      · rw [Nat.add_comm, List.getD_cons_succ, ih]
      · rfl

theorem getD_adjacentSize_sub_one (h : adjacentSize s strs ≠ 0) :
    strs.getD (adjacentSize s strs - 1) d = lastBehind s strs := by
  rw [← getD_adjacentSize (d := d)]
  obtain ⟨n, hn⟩ := Nat.exists_eq_succ_of_ne_zero h
  rw [hn]
  rfl

theorem lastBehind_append (more : List CStr) (h : adjacentSize s strs = strs.length) :
    lastBehind s (strs ++ more) = lastBehind (lastBehind s strs) more := by
  induction strs generalizing s with
  | nil => rfl
  | cons t strs ih =>
      obtain ⟨hadj, hchain⟩ := List.isChain_cons_cons.mp (adjacentSize_eq_iff.mp h)
      rw [List.cons_append, lastBehind, lastBehind, if_pos hadj, if_pos hadj,
        ih (adjacentSize_eq_iff.mpr hchain)]

theorem lastBehind_eq_self (h : adjacentSize s strs = 0) : lastBehind s strs = s := by
  cases strs with
  | nil => rfl
  | cons t strs =>
      rw [adjacentSize] at h
      split at h
      · omega
      · next hadj => rw [lastBehind, if_neg hadj]

theorem addr_le_lastBehind (s : CStr) (strs : List CStr) : s.addr ≤ (lastBehind s strs).addr := by
  induction strs generalizing s with
  | nil => exact Nat.le_refl _
  | cons t strs ih =>
      rw [lastBehind]
      split
      · next hadj =>
          have hle := ih t
          unfold Adjacent at hadj
          omega
      · exact Nat.le_refl _

/-- There are no gaps in it. -/
theorem covered (hlow : s.addr ≤ a)
    (hhigh : a ≤ (lastBehind s strs).addr + (lastBehind s strs).text.length) :
    ∃ t ∈ s :: behind s strs, t.addr ≤ a ∧ a ≤ t.addr + t.text.length := by
  induction strs generalizing s with
  | nil => exact ⟨s, List.mem_cons_self, hlow, hhigh⟩
  | cons t strs ih =>
      rw [lastBehind] at hhigh
      rw [behind]
      by_cases hadj : Adjacent s t
      · rw [if_pos hadj] at hhigh ⊢
        by_cases hbefore : a < t.addr
        · unfold Adjacent at hadj
          exact ⟨s, List.mem_cons_self, hlow, by omega⟩
        · obtain ⟨r, hr, hin⟩ := ih (Nat.le_of_not_lt hbefore) hhigh
          exact ⟨r, List.mem_cons_of_mem s hr, hin⟩
      · rw [if_neg hadj] at hhigh
        exact ⟨s, List.mem_cons_self, hlow, hhigh⟩

end Block

-- ── What is returned ─────────────────────────────────────────────────────────

section Setup

variable {g : Globals} {modulePath : Bool} {allocated : Allocations} {argv0 : CStr}
  {args environ : List CStr}

/-- A copy is made of so many strings, and a NULL is stored behind `n` of them. -/
theorem copy_and_end (copied : Nat → Bool) (strs : List CStr) (n : Nat) :
    (copyLoop copied 0 strs (List.replicate (strs.length + 1) .junk)).bind (store n .null) =
      store n .null (copies copied 0 strs ++ [.junk]) := by
  rw [copyLoop_array, Option.bind_some]

theorem store_end (copied : Nat → Bool) (strs : List CStr) :
    store strs.length .null (copies copied 0 strs ++ [.junk]) =
      some (copies copied 0 strs ++ [.null]) := by
  have hstore := store_middle (v := .null) (copies copied 0 strs) []
  rwa [length_copies] at hstore

/-- The NULL behind `argc` copies is stored outside, if there are fewer. -/
theorem setup_gap (hg : g.g_arg_name = none) (hmodule : modulePath = true)
    (harray : allocated.argvArray = true) (hgap : adjacentSize argv0 args < args.length) :
    cmdline_setup g modulePath allocated argv0 args environ = none := by
  have htake : ((argv0 :: args).take (1 + adjacentSize argv0 args)).length =
      1 + adjacentSize argv0 args := by
    rw [List.length_take, List.length_cons]
    omega
  have hend : store (argv0 :: args).length .null (copies allocated.argvCopy 0
      ((argv0 :: args).take (1 + adjacentSize argv0 args)) ++ [.junk]) = none := by
    rw [store, if_neg]
    rw [List.length_append, length_copies, htake, List.length_singleton, List.length_cons]
    omega
  have hcopies := copy_and_end allocated.argvCopy
    ((argv0 :: args).take (1 + adjacentSize argv0 args)) (argv0 :: args).length
  rw [htake, hend] at hcopies
  simp only [cmdline_setup, hg, hmodule, harray, hcopies]
  rfl

/-- What is done with arguments that lie one right behind the other. -/
theorem setup_chain (hg : g.g_arg_name = none) (hmodule : modulePath = true)
    (harray : allocated.argvArray = true) (hchain : adjacentSize argv0 args = args.length) :
    cmdline_setup g modulePath allocated argv0 args environ =
      let array := copies allocated.argvCopy 0 (argv0 :: args) ++ [.null]
      let last := lastBehind argv0 args
      let size := adjacentSize last environ
      some
        (if size = 0 then ⟨some array, none, ⟨some argv0.addr, span argv0 last⟩⟩
        else if !allocated.environArray then
          ⟨some array, none, ⟨some argv0.addr, argv0.text.length⟩⟩
        else
          ⟨some array, some (copies allocated.environCopy 0 (environ.take size) ++ [.null]),
            ⟨some argv0.addr, span argv0 (lastBehind last environ)⟩⟩) := by
  have hsize : 1 + adjacentSize argv0 args = (argv0 :: args).length := by
    rw [hchain, List.length_cons, Nat.add_comm]
  have hlast : (argv0 :: args).getD (1 + adjacentSize argv0 args - 1) argv0 =
      lastBehind argv0 args := by
    rw [Nat.add_sub_cancel_left]
    exact getD_adjacentSize
  have hcopies : (copyLoop allocated.argvCopy 0 ((argv0 :: args).take (argv0 :: args).length)
      (List.replicate ((argv0 :: args).length + 1) .junk)).bind
        (store (argv0 :: args).length .null) =
          some (copies allocated.argvCopy 0 (argv0 :: args) ++ [.null]) := by
    rw [List.take_length, copy_and_end, store_end]
  rw [cmdline_setup, if_neg (not_not.mpr hg)]
  simp only [hmodule, harray, hlast, Bool.not_true, Bool.false_eq_true, if_false]
  simp only [hsize, hcopies, if_true, Option.bind_some]
  split
  · rfl
  · next hsome =>
      split
      · rfl
      · have htake : (environ.take (adjacentSize (lastBehind argv0 args) environ)).length =
            adjacentSize (lastBehind argv0 args) environ := by
          rw [List.length_take]
          exact Nat.min_eq_left (adjacentSize_le _ _)
        have henviron := copy_and_end allocated.environCopy
          (environ.take (adjacentSize (lastBehind argv0 args) environ))
          (environ.take (adjacentSize (lastBehind argv0 args) environ)).length
        rw [store_end, htake] at henviron
        have hend : environ.getD (adjacentSize (lastBehind argv0 args) environ - 1)
            (lastBehind argv0 args) = lastBehind (lastBehind argv0 args) environ :=
          getD_adjacentSize_sub_one hsome
        rw [henviron, hend]
        rfl

end Setup

/-- The array has the arguments and a NULL behind them, the environment is what it was,
    everything is stored inside of the arrays, and `g_max_length` ends in the last string
    of those that lie one right behind the other. -/
def Preserves (g : Globals) (argv0 : CStr) (args environ : List CStr) (r : Option Result) :
    Prop :=
  ∃ res, r = some res ∧
    (∀ array, res.returned = some array → array = same (argv0 :: args) ++ [.null]) ∧
    (∀ array, res.environ = some array → array = same environ ++ [.null]) ∧
    (g.g_arg_name = none → ∀ a, argv0.addr ≤ a → a ≤ argv0.addr + res.globals.g_max_length →
      ∃ t ∈ argv0 :: behind argv0 (args ++ environ), t.addr ≤ a ∧ a ≤ t.addr + t.text.length)

/-- Nothing is copied at all, or the arguments lie one right behind the other and there is
    memory for all copies, and of the environment nothing is right behind them, or there
    is no memory for the array, or all of it is there, and memory for the copies. -/
def CopiesAll (g : Globals) (modulePath : Bool) (allocated : Allocations) (argv0 : CStr)
    (args environ : List CStr) : Prop :=
  (g.g_arg_name ≠ none ∨ modulePath = false ∨ allocated.argvArray = false) ∨
    (List.IsChain Adjacent (argv0 :: args) ∧
      ∀ j < (argv0 :: args).length, allocated.argvCopy j = true) ∧
    ((∀ t ∈ environ.head?, ¬ Adjacent (lastBehind argv0 args) t) ∨
      allocated.environArray = false ∨
      List.IsChain Adjacent (lastBehind argv0 args :: environ) ∧
        ∀ j < environ.length, allocated.environCopy j = true)

section Preserved

variable {g : Globals} {modulePath : Bool} {allocated : Allocations} {argv0 : CStr}
  {args environ : List CStr} {a : Nat}

theorem covers_argv0 (hlow : argv0.addr ≤ a) (hhigh : a ≤ argv0.addr + argv0.text.length) :
    ∃ t ∈ argv0 :: behind argv0 (args ++ environ), t.addr ≤ a ∧ a ≤ t.addr + t.text.length :=
  ⟨argv0, List.mem_cons_self, hlow, hhigh⟩

theorem covers_span (hlow : argv0.addr ≤ a)
    (hhigh : a ≤ argv0.addr + span argv0 (lastBehind argv0 (args ++ environ))) :
    ∃ t ∈ argv0 :: behind argv0 (args ++ environ), t.addr ≤ a ∧ a ≤ t.addr + t.text.length := by
  refine covered hlow ?_
  have hle := addr_le_lastBehind argv0 (args ++ environ)
  rw [span] at hhigh
  omega

theorem preserves_some_iff {res : Result} : Preserves g argv0 args environ (some res) ↔
    (∀ array, res.returned = some array → array = same (argv0 :: args) ++ [.null]) ∧
    (∀ array, res.environ = some array → array = same environ ++ [.null]) ∧
    (g.g_arg_name = none → ∀ a, argv0.addr ≤ a → a ≤ argv0.addr + res.globals.g_max_length →
      ∃ t ∈ argv0 :: behind argv0 (args ++ environ),
        t.addr ≤ a ∧ a ≤ t.addr + t.text.length) := by
  constructor
  · rintro ⟨res', heq, hpreserved⟩
    rw [Option.some.inj heq]
    exact hpreserved
  · exact fun h => ⟨res, rfl, h⟩

/-- Where no array is made, nothing is lost. -/
theorem setup_nothing (h : g.g_arg_name ≠ none ∨ modulePath = false ∨
    allocated.argvArray = false) :
    Preserves g argv0 args environ
      (cmdline_setup g modulePath allocated argv0 args environ) := by
  have hnone : ∀ globals : Globals, (g.g_arg_name = none →
      globals.g_max_length = argv0.text.length) →
        Preserves g argv0 args environ (some ⟨none, none, globals⟩) := by
    intro globals hlength
    refine preserves_some_iff.mpr ⟨by rintro _ ⟨⟩, by rintro _ ⟨⟩, ?_⟩
    intro hg a hlow hhigh
    rw [hlength hg] at hhigh
    exact covers_argv0 hlow hhigh
  rw [cmdline_setup]
  by_cases hg : g.g_arg_name = none
  · rw [if_neg (not_not.mpr hg)]
    rcases h with h | h | h
    · exact absurd hg h
    · rw [h]
      exact hnone _ fun _ => rfl
    · cases modulePath with
      | false => exact hnone _ fun _ => rfl
      | true =>
          simp only [h, Bool.not_true, Bool.not_false, Bool.false_eq_true, if_false, if_true]
          exact hnone _ fun _ => rfl
  · rw [if_pos hg]
    exact hnone _ fun h => absurd h hg

/-- Copies with a NULL behind them are the strings, if they are all there. -/
theorem copies_end_iff (copied : Nat → Bool) {strs : List CStr} {n : Nat} (hn : n ≤ strs.length) :
    copies copied 0 (strs.take n) ++ [.null] = same strs ++ [.null] ↔
      n = strs.length ∧ ∀ j < strs.length, copied j = true := by
  rw [List.append_left_inj]
  constructor
  · intro h
    have hlen := congrArg List.length h
    rw [length_copies, List.length_take, same, List.length_map, Nat.min_eq_left hn] at hlen
    rw [hlen, List.take_length] at h
    refine ⟨hlen, fun j hj => ?_⟩
    have hj := copies_eq_same_iff.mp h j hj
    rwa [Nat.zero_add] at hj
  · rintro ⟨rfl, hall⟩
    rw [List.take_length]
    exact copies_eq_same_iff.mpr fun j hj => (congrArg copied (Nat.zero_add j)).trans (hall j hj)

/-- What becomes of arguments without a gap between them. -/
theorem chain_preserves_iff (hg : g.g_arg_name = none) (hmodule : modulePath = true)
    (harray : allocated.argvArray = true) (hsize : adjacentSize argv0 args = args.length) :
    Preserves g argv0 args environ
        (cmdline_setup g modulePath allocated argv0 args environ) ↔
      (∀ j < (argv0 :: args).length, allocated.argvCopy j = true) ∧
      ((∀ t ∈ environ.head?, ¬ Adjacent (lastBehind argv0 args) t) ∨
        allocated.environArray = false ∨
        List.IsChain Adjacent (lastBehind argv0 args :: environ) ∧
          ∀ j < environ.length, allocated.environCopy j = true) := by
  have hspan := lastBehind_append environ hsize
  have hargv : copies allocated.argvCopy 0 (argv0 :: args) ++ [.null] =
      same (argv0 :: args) ++ [.null] ↔
        ∀ j < (argv0 :: args).length, allocated.argvCopy j = true := by
    have h := copies_end_iff allocated.argvCopy (Nat.le_refl (argv0 :: args).length)
    rwa [List.take_length, and_iff_right rfl] at h
  rw [setup_chain hg hmodule harray hsize, ← adjacentSize_eq_zero_iff, ← adjacentSize_eq_iff]
  dsimp only
  by_cases hzero : adjacentSize (lastBehind argv0 args) environ = 0
  · rw [if_pos hzero, preserves_some_iff, and_iff_left (Or.inl hzero), ← hargv]
    refine ⟨fun h => h.1 _ rfl, fun hsame => ⟨?_, by rintro _ ⟨⟩, fun _ a hlow hhigh => ?_⟩⟩
    · rintro _ ⟨rfl⟩
      exact hsame
    · refine covers_span hlow ?_
      rwa [hspan, lastBehind_eq_self hzero]
  rw [if_neg hzero, or_iff_right hzero]
  cases henviron : allocated.environArray with
  | false =>
      rw [Bool.not_false, if_pos rfl, preserves_some_iff, and_iff_left (Or.inl rfl), ← hargv]
      refine ⟨fun h => h.1 _ rfl, fun hsame => ⟨?_, by rintro _ ⟨⟩, fun _ a hlow hhigh => ?_⟩⟩
      · rintro _ ⟨rfl⟩
        exact hsame
      · exact covers_argv0 hlow hhigh
  | true =>
      rw [Bool.not_true, if_neg Bool.false_ne_true, preserves_some_iff,
        or_iff_right (fun h => Bool.false_ne_true h.symm), ← hargv,
        ← copies_end_iff _ (adjacentSize_le _ _)]
      refine ⟨fun h => ⟨h.1 _ rfl, h.2.1 _ rfl⟩, fun h => ⟨?_, ?_, fun _ a hlow hhigh => ?_⟩⟩
      · rintro _ ⟨rfl⟩
        exact h.1
      · rintro _ ⟨rfl⟩
        exact h.2
      · refine covers_span hlow ?_
        rwa [hspan]

/-- **ARGUMENTS ARE PRESERVED**, where they lie one right behind the other and the
    environment behind them or elsewhere.  With a gap between the arguments a NULL is
    stored outside of the array, and what is behind one in the environment is lost. -/
theorem cmdline_setup_preserves_iff (g : Globals) (modulePath : Bool) (allocated : Allocations)
    (argv0 : CStr) (args environ : List CStr) :
    Preserves g argv0 args environ
        (cmdline_setup g modulePath allocated argv0 args environ) ↔
      CopiesAll g modulePath allocated argv0 args environ := by
  by_cases hnothing : g.g_arg_name ≠ none ∨ modulePath = false ∨ allocated.argvArray = false
  · exact iff_of_true (setup_nothing hnothing) (Or.inl hnothing)
  simp only [not_or, not_not, Bool.not_eq_false] at hnothing
  obtain ⟨hg, hmodule, harray⟩ := hnothing
  have hcopies : CopiesAll g modulePath allocated argv0 args environ ↔
      (List.IsChain Adjacent (argv0 :: args) ∧
        ∀ j < (argv0 :: args).length, allocated.argvCopy j = true) ∧
      ((∀ t ∈ environ.head?, ¬ Adjacent (lastBehind argv0 args) t) ∨
        allocated.environArray = false ∨
        List.IsChain Adjacent (lastBehind argv0 args :: environ) ∧
          ∀ j < environ.length, allocated.environCopy j = true) := by
    refine or_iff_right ?_
    simp [hg, hmodule, harray]
  rw [hcopies]
  by_cases hgap : adjacentSize argv0 args < args.length
  · rw [setup_gap hg hmodule harray hgap]
    refine iff_of_false ?_ ?_
    · rintro ⟨res, h, -⟩
      cases h
    · rintro ⟨⟨hchain, -⟩, -⟩
      rw [← adjacentSize_eq_iff] at hchain
      omega
  have hsize : adjacentSize argv0 args = args.length :=
    Nat.le_antisymm (adjacentSize_le argv0 args) (Nat.le_of_not_lt hgap)
  rw [and_iff_right (adjacentSize_eq_iff.mp hsize)]
  exact chain_preserves_iff hg hmodule harray hsize

end Preserved

/-- Two arguments with a gap between them. -/
theorem gap_stores_outside : cmdline_setup ⟨none, 0⟩ true ⟨true, fun _ => true, true, fun _ => true⟩
      ⟨100, ['a']⟩ [⟨200, ['b']⟩] [] = none ∧
    ¬ Preserves ⟨none, 0⟩ ⟨100, ['a']⟩ [⟨200, ['b']⟩] []
      (cmdline_setup ⟨none, 0⟩ true ⟨true, fun _ => true, true, fun _ => true⟩
        ⟨100, ['a']⟩ [⟨200, ['b']⟩] []) := by
  have hnone : cmdline_setup ⟨none, 0⟩ true ⟨true, fun _ => true, true, fun _ => true⟩
      ⟨100, ['a']⟩ [⟨200, ['b']⟩] [] = none := rfl
  rw [hnone]
  refine ⟨rfl, ?_⟩
  rintro ⟨res, h, -⟩
  cases h

end FlinterCmdline
