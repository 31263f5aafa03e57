import Mathlib.Logic.Basic
import Mathlib.Tactic.SplitIfs

/-! # Removing a directory

    `rmdirs` removes what is below a directory with one of two engines: the one that
    reads the listing with `getdents`, a buffer at a time, or the one that reads it
    with `readdir_r`, an entry at a time.

    Each of `fstatat`, `openat` and `unlinkat` works or fails as each entry has it,
    and `unlinkat` also fails on a directory that is not empty.  Listings are read
    without error, and nobody else changes the tree.

    A `break` in the first engine leaves the loop over one buffer only, and the end of
    the listing makes it return 0 nevertheless. -/

namespace FlinterRmdirs

abbrev Text := List Char

-- ── Trees ────────────────────────────────────────────────────────────────────

/-- An entry, and which of the calls on it work. -/
structure Entry where
  d_name : Text
  /-- `d_type` is not `DT_UNKNOWN`. -/
  d_typed : Bool
  fstatat : Bool
  openat : Bool
  unlinkat : Bool

/-- `.` and `..`. -/
def Entry.isDots (e : Entry) : Bool := e.d_name == ['.'] || e.d_name == ['.', '.']

/-- What is listed of a directory, where one buffer ends and another begins, and what
    is inside of the directories in it. -/
inductive Listing
  | nil
  | cut (next : Listing)
  | other (e : Entry) (next : Listing)
  | dir (e : Entry) (inside next : Listing)

namespace Listing

/-- There is nothing but `.` and `..`. -/
def isClear : Listing → Bool
  | nil => true
  | cut next => next.isClear
  | other e next => e.isDots && next.isClear
  | dir e _ next => e.isDots && next.isClear

end Listing

/-- What is at a path. -/
inductive Node
  | absent
  | other (e : Entry)
  | dir (e : Entry) (inside : Listing)

-- ── The code ─────────────────────────────────────────────────────────────────

/-- `unlinkat` of a directory, of which `left` is there. -/
def unlinkatDir (e : Entry) (left : Listing) : Bool := left.isClear && e.unlinkat

/-- A directory, of which an engine returned `r`, is removed as well; else this is what is
    left of it. -/
def removeDir (e : Entry) (r : Int × Listing) : Option Listing :=
  if r.1 = 0 ∧ unlinkatDir e r.2 then none else some r.2

/-- `rmdirs_with_getdents`: what it returns, and what is left when `left` is left by
    its loops.  `getdents` may be missing from the kernel. -/
def getdentsResult (supported : Bool) (e : Entry) (inside left : Listing) : Int × Listing :=
  if !e.openat then (-1, inside)
  else if !supported then (1, inside)
  else (0, left)

/-- `rmdirs_with_getdents`: the two loops.  The inner one has been left if `broken`, up
    to the end of the buffer. -/
def getdentsLoops (supported : Bool) : (broken : Bool) → Listing → Listing
  | _, .nil => .nil
  | _, .cut next => .cut (getdentsLoops supported false next)
  | true, .other e next => .other e (getdentsLoops supported true next)
  | true, .dir e inside next => .dir e inside (getdentsLoops supported true next)
  | false, .other e next =>
      if e.isDots then .other e (getdentsLoops supported false next)
      else if !e.d_typed && !e.fstatat then .other e (getdentsLoops supported true next)
      else if e.unlinkat then getdentsLoops supported false next
      else .other e (getdentsLoops supported true next)
  | false, .dir e inside next =>
      if e.isDots then .dir e inside (getdentsLoops supported false next)
      else if !e.d_typed && !e.fstatat then .dir e inside (getdentsLoops supported true next)
      else
        match removeDir e
          (getdentsResult supported e inside (getdentsLoops supported false inside)) with
        | none => getdentsLoops supported false next
        | some left => .dir e left (getdentsLoops supported true next)

/-- `rmdirs_with_getdents`. -/
def rmdirs_with_getdents (supported : Bool) (e : Entry) (inside : Listing) : Int × Listing :=
  getdentsResult supported e inside (getdentsLoops supported false inside)

/-- `rmdirs_with_readdir`: what it returns, and what is left. -/
def readdirResult (e : Entry) (inside : Listing) (r : Int × Listing) : Int × Listing :=
  if !e.openat then (-1, inside) else r

/-- `rmdirs_with_readdir`: the loop, what it returns and what is left. -/
def readdirLoop : Listing → Int × Listing
  | .nil => (0, .nil)
  | .cut next => ((readdirLoop next).1, .cut (readdirLoop next).2)
  | .other e next =>
      if e.isDots then ((readdirLoop next).1, .other e (readdirLoop next).2)
      else if !e.fstatat then (-1, .other e next)
      else if e.unlinkat then readdirLoop next
      else (-1, .other e next)
  | .dir e inside next =>
      if e.isDots then ((readdirLoop next).1, .dir e inside (readdirLoop next).2)
      else if !e.fstatat then (-1, .dir e inside next)
      else
        match removeDir e (readdirResult e inside (readdirLoop inside)) with
        | none => readdirLoop next
        | some left => (-1, .dir e left next)

/-- `rmdirs_with_readdir`. -/
def rmdirs_with_readdir (e : Entry) (inside : Listing) : Int × Listing :=
  readdirResult e inside (readdirLoop inside)

/-- `rmdirs_internal`: the engines, what is returned of them, what is left, and
    `g_disable_getdents`. -/
def engines (supported g_disable_getdents : Bool) (e : Entry) (inside : Listing) :
    Int × Listing × Bool :=
  if g_disable_getdents then
    ((rmdirs_with_readdir e inside).1, (rmdirs_with_readdir e inside).2, true)
  else
    let r := rmdirs_with_getdents supported e inside
    if r.1 ≤ 0 then (r.1, r.2, false)
    else ((rmdirs_with_readdir e r.2).1, (rmdirs_with_readdir e r.2).2, true)

/-- `rmdirs_internal`: what is returned, what is left, and `g_disable_getdents`. -/
def rmdirs_internal (supported g_disable_getdents : Bool) (pathname : Node)
    (leave_dir_along : Bool) : Int × Node × Bool :=
  match pathname with
  | .absent => (0, .absent, g_disable_getdents)
  | .other e =>
      if !e.fstatat then (-1, .other e, g_disable_getdents)
      else if leave_dir_along then (0, .other e, g_disable_getdents)
      else if e.unlinkat then (0, .absent, g_disable_getdents)
      else (-1, .other e, g_disable_getdents)
  | .dir e inside =>
      if !e.fstatat then (-1, .dir e inside, g_disable_getdents)
      else
        let r := engines supported g_disable_getdents e inside
        if r.1 ≠ 0 then (-1, .dir e r.2.1, r.2.2)
        else if leave_dir_along then (0, .dir e r.2.1, r.2.2)
        else if unlinkatDir e r.2.1 then (0, .absent, r.2.2)
        else (-1, .dir e r.2.1, r.2.2)

/-- `rmdirs`. -/
def rmdirs (supported g_disable_getdents : Bool) (pathname : Node) : Int × Node × Bool :=
  rmdirs_internal supported g_disable_getdents pathname false

/-- `rmdirs_inside`. -/
def rmdirs_inside (supported g_disable_getdents : Bool) (pathname : Node) : Int × Node × Bool :=
  rmdirs_internal supported g_disable_getdents pathname true

-- ── What has to work ─────────────────────────────────────────────────────────

/-- `fstatat` works where it is called, which is `always`, or for unknown types only. -/
def Entry.isStatted (always : Bool) (e : Entry) : Bool := !always && e.d_typed || e.fstatat

/-- No call that is made for what is listed fails. -/
def nothingFails (always : Bool) : Listing → Bool
  | .nil => true
  | .cut next => nothingFails always next
  | .other e next =>
      (e.isDots || e.isStatted always && e.unlinkat) && nothingFails always next
  | .dir e inside next =>
      (e.isDots || e.isStatted always && (e.openat && nothingFails always inside) && e.unlinkat) &&
        nothingFails always next

theorem nothingFails_mono {t : Listing} (h : nothingFails true t = true) :
    nothingFails false t = true := by
  induction t with
  | nil => rfl
  | cut next ih => exact ih h
  | other e next ih =>
      simp only [nothingFails, Entry.isStatted, Bool.and_eq_true, Bool.or_eq_true] at h ⊢
      refine ⟨h.1.imp id fun hworks => ⟨Or.inr ?_, hworks.2⟩, ih h.2⟩
      exact hworks.1.resolve_left fun htyped => absurd htyped.1 (by decide)
  | dir e inside next ihInside ih =>
      simp only [nothingFails, Entry.isStatted, Bool.and_eq_true, Bool.or_eq_true] at h ⊢
      refine ⟨h.1.imp id fun hworks => ⟨⟨Or.inr ?_, hworks.1.2.1, ihInside hworks.1.2.2⟩,
        hworks.2⟩, ih h.2⟩
      exact hworks.1.1.resolve_left fun htyped => absurd htyped.1 (by decide)

theorem not_isStatted (e : Entry) : (!e.d_typed && !e.fstatat) = !e.isStatted false := by
  rw [Entry.isStatted, Bool.not_false, Bool.true_and, Bool.not_or]

section Entries

variable {e : Entry} {inside next left : Listing}

theorem isClear_other (hdots : e.isDots = false) : (Listing.other e next).isClear = false := by
  rw [Listing.isClear, hdots, Bool.false_and]

theorem isClear_dir (hdots : e.isDots = false) : (Listing.dir e left next).isClear = false := by
  rw [Listing.isClear, hdots, Bool.false_and]

/-- A directory goes if it could be opened, and nothing is left in it. -/
theorem removeDir_getdents : removeDir e (getdentsResult true e inside left) =
    if (e.openat && left.isClear) && e.unlinkat then none
    else some (getdentsResult true e inside left).2 := by
  rw [removeDir, getdentsResult, unlinkatDir]
  cases e.openat <;> simp

theorem removeDir_readdir {r : Int × Listing} (hclear : r.1 = 0 → r.2.isClear = true) :
    removeDir e (readdirResult e inside r) =
      if (e.openat && decide (r.1 = 0)) && e.unlinkat then none
      else some (readdirResult e inside r).2 := by
  rw [removeDir, readdirResult, unlinkatDir]
  cases e.openat with
  | false => simp
  | true =>
      by_cases hr : r.1 = 0
      · simp [hr, hclear hr]
      · simp [hr]

end Entries

/-- `getdents`: all is removed if nothing fails, and else something is left. -/
theorem isClear_getdentsLoops (t : Listing) :
    (getdentsLoops true false t).isClear = nothingFails false t := by
  induction t with
  | nil => rfl
  | cut next ih => exact ih
  | other e next ih =>
      rw [getdentsLoops, nothingFails, not_isStatted, ← ih]
      cases hdots : e.isDots with
      | true => rw [if_pos rfl, Listing.isClear, hdots, Bool.true_or]
      | false =>
          cases e.isStatted false with
          | false => exact isClear_other hdots
          | true =>
              cases e.unlinkat with
              | false => exact isClear_other hdots
              | true => rfl
  | dir e inside next ihInside ih =>
      rw [getdentsLoops, nothingFails, not_isStatted, ← ih, ← ihInside, removeDir_getdents]
      cases hdots : e.isDots with
      | true => rw [if_pos rfl, Listing.isClear, hdots, Bool.true_or]
      | false =>
          cases e.isStatted false with
          | false => exact isClear_dir hdots
          | true =>
              rw [Bool.false_or, Bool.true_and]
              cases (e.openat && (getdentsLoops true false inside).isClear) && e.unlinkat with
              | false => exact isClear_dir hdots
              | true => rfl

theorem readdirLoop_stopped (left : Listing) :
    ((-1, left) : Int × Listing).1 = (if false = true then 0 else -1) ∧
      (((-1, left) : Int × Listing).1 = 0 → left.isClear = true) := by
  refine ⟨rfl, fun h => ?_⟩
  cases h

/-- `readdir`: 0 is returned if nothing fails, and then all is removed. -/
theorem readdirLoop_spec (t : Listing) :
    (readdirLoop t).1 = (if nothingFails true t then 0 else -1) ∧
      ((readdirLoop t).1 = 0 → (readdirLoop t).2.isClear = true) := by
  induction t with
  | nil => exact ⟨rfl, fun _ => rfl⟩
  | cut next ih => exact ih
  | other e next ih =>
      rw [readdirLoop, nothingFails]
      cases hdots : e.isDots with
      | true =>
          rw [if_pos rfl, Bool.true_or, Bool.true_and, Listing.isClear, hdots, Bool.true_and]
          exact ih
      | false =>
          rw [Entry.isStatted, Bool.false_or]
          cases e.fstatat with
          | false => exact readdirLoop_stopped _
          | true =>
              cases e.unlinkat with
              | false => exact readdirLoop_stopped _
              | true => exact ih
  | dir e inside next ihInside ih =>
      have hret : decide ((readdirLoop inside).1 = 0) = nothingFails true inside := by
        rw [ihInside.1]
        cases nothingFails true inside <;> rfl
      rw [readdirLoop, nothingFails, removeDir_readdir ihInside.2, hret]
      cases hdots : e.isDots with
      | true =>
          rw [if_pos rfl, Bool.true_or, Bool.true_and, Listing.isClear, hdots, Bool.true_and]
          exact ih
      | false =>
          rw [Entry.isStatted, Bool.false_or]
          cases e.fstatat with
          | false => exact readdirLoop_stopped _
          | true =>
              rw [Bool.or_true, Bool.true_and]
              cases (e.openat && nothingFails true inside) && e.unlinkat with
              | false => exact readdirLoop_stopped _
              | true => exact ih

-- ── The engines and what is reported ─────────────────────────────────────────

/-- Nothing is below. -/
def Node.isClear : Node → Bool
  | .dir _ inside => inside.isClear
  | _ => true

/-- 0 is returned only if all is removed, with either engine, and both engines return
    the same. -/
structure Reports (pathname : Node) : Prop where
  rmdirs_honest : ∀ supported disabled, (rmdirs supported disabled pathname).1 = 0 →
    (rmdirs supported disabled pathname).2.1 = .absent
  inside_honest : ∀ supported disabled, (rmdirs_inside supported disabled pathname).1 = 0 →
    (rmdirs_inside supported disabled pathname).2.1.isClear = true
  engines_agree : ∀ e inside, pathname = .dir e inside →
    (rmdirs_with_getdents true e inside).1 = (rmdirs_with_readdir e inside).1

variable {supported disabled : Bool} {pathname : Node} {e : Entry} {inside : Listing}

/-- `rmdirs` removes the directory itself last, and that fails if anything is left. -/
theorem rmdirs_absent (h : (rmdirs supported disabled pathname).1 = 0) :
    (rmdirs supported disabled pathname).2.1 = .absent := by
  revert h
  cases pathname with
  | absent => exact fun _ => rfl
  | other e =>
      rw [rmdirs, rmdirs_internal]
      cases e.fstatat <;> cases e.unlinkat <;> simp
  | dir e inside =>
      simp only [rmdirs, rmdirs_internal, Bool.false_eq_true, if_false]
      split_ifs <;> simp

/-- Once it is opened, `rmdirs_with_getdents` returns 0, whatever is left. -/
theorem getdents_eq (hopen : e.openat = true) :
    rmdirs_with_getdents true e inside = (0, getdentsLoops true false inside) := by
  rw [rmdirs_with_getdents, getdentsResult, hopen]
  rfl

theorem getdents_closed (hopen : e.openat = false) :
    rmdirs_with_getdents supported e inside = (-1, inside) := by
  rw [rmdirs_with_getdents, getdentsResult, hopen]
  rfl

/-- Without the system call, nothing is done. -/
theorem getdents_missing (hopen : e.openat = true) :
    rmdirs_with_getdents false e inside = (1, inside) := by
  rw [rmdirs_with_getdents, getdentsResult, hopen]
  rfl

theorem readdir_closed (hopen : e.openat = false) :
    rmdirs_with_readdir e inside = (-1, inside) := by
  rw [rmdirs_with_readdir, readdirResult, hopen]
  rfl

theorem readdir_eq (hopen : e.openat = true) :
    rmdirs_with_readdir e inside = readdirLoop inside := by
  rw [rmdirs_with_readdir, readdirResult, hopen]
  rfl

/-- If nothing fails, nothing is left where an engine returns 0. -/
theorem engines_clear (supported disabled : Bool)
    (hworks : e.openat = false ∨ nothingFails true inside = true)
    (h : (engines supported disabled e inside).1 = 0) :
    (engines supported disabled e inside).2.1.isClear = true := by
  have hreaddir : (rmdirs_with_readdir e inside).1 = 0 →
      (rmdirs_with_readdir e inside).2.isClear = true := by
    cases hopen : e.openat with
    | false =>
        rw [readdir_closed hopen]
        intro h
        cases h
    | true =>
        rw [readdir_eq hopen]
        exact (readdirLoop_spec inside).2
  cases disabled with
  | true => exact hreaddir h
  | false =>
      simp only [engines, Bool.false_eq_true, if_false] at h ⊢
      cases hopen : e.openat with
      | false =>
          rw [getdents_closed hopen] at h
          cases h
      | true =>
          cases supported with
          | true =>
              have hnothing := hworks.resolve_left (by rw [hopen]; decide)
              rw [getdents_eq hopen, if_pos (Int.le_refl 0)]
              exact (isClear_getdentsLoops inside).trans (nothingFails_mono hnothing)
          | false =>
              have hpos : ¬ (1 : Int) ≤ 0 := by decide
              rw [getdents_missing hopen, if_neg hpos] at h ⊢
              exact hreaddir h

/-- **AGREED, IF NOTHING FAILS.**  0 stands for a removed tree, and for the same trees
    with both engines, if the directory cannot be opened or no call fails below it, and
    only then: when one does, `rmdirs_with_getdents` returns 0 all the same. -/
theorem reports_iff (pathname : Node) : Reports pathname ↔
    ∀ e inside, pathname = .dir e inside →
      e.openat = false ∨ nothingFails true inside = true := by
  constructor
  · rintro ⟨-, -, hagree⟩ e inside rfl
    have h := hagree e inside rfl
    cases hopen : e.openat with
    | false => exact Or.inl rfl
    | true =>
        rw [getdents_eq hopen, readdir_eq hopen, (readdirLoop_spec inside).1] at h
        cases hworks : nothingFails true inside with
        | true => exact Or.inr rfl
        | false =>
            rw [hworks] at h
            cases h
  · intro hworks
    refine ⟨fun _ _ => rmdirs_absent, ?_, ?_⟩
    · intro supported disabled
      cases pathname with
      | absent => exact fun _ => rfl
      | other e =>
          rw [rmdirs_inside, rmdirs_internal]
          cases e.fstatat with
          | false =>
              intro h
              cases h
          | true => exact fun _ => rfl
      | dir e inside =>
          have hclear := engines_clear supported disabled (hworks e inside rfl)
          simp only [rmdirs_inside, rmdirs_internal, if_true]
          split_ifs with hstat hret
          · intro h
            cases h
          · intro h
            cases h
          · exact fun _ => hclear (not_not.mp hret)
    · rintro e inside rfl
      cases hopen : e.openat with
      | false => rw [getdents_closed hopen, readdir_closed hopen]
      | true =>
          have hnothing := (hworks e inside rfl).resolve_left (by rw [hopen]; decide)
          rw [getdents_eq hopen, readdir_eq hopen, (readdirLoop_spec inside).1, if_pos hnothing]

/-- A file that cannot be removed is left, and 0 is returned. -/
theorem file_left_behind :
    rmdirs_inside true false (.dir ⟨['d'], true, true, true, true⟩
        (.other ⟨['f'], true, true, true, false⟩ .nil)) =
      (0, .dir ⟨['d'], true, true, true, true⟩
        (.other ⟨['f'], true, true, true, false⟩ .nil), false) ∧
      ¬ Reports (.dir ⟨['d'], true, true, true, true⟩
        (.other ⟨['f'], true, true, true, false⟩ .nil)) := by
  refine ⟨rfl, ?_⟩
  rintro ⟨-, hinside, -⟩
  exact Bool.false_ne_true (hinside true false rfl)

end FlinterRmdirs
