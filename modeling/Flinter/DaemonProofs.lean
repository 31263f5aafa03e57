import Flinter.CandidateNameProofs
import Flinter.DescriptorProofs

/-! # Becoming a daemon

    `daemon_spawn` forks, and detached it forks once more from a session of its
    own.  Whoever is left closes what it has inherited, as `/proc/self/fd` lists
    it, and has `/dev/null` for its streams.

    The list is read into an array that is to grow when it is full; that it is
    full is asked behind the doubling, so no more than the first 128 are closed. -/

namespace FlinterDaemon

open Descriptors FlinterCouncil FlinterCandidates

abbrev Pid := Nat

/-- What a descriptor stands for: `/dev/null`, the directory of `opendir`, or
    something that the program had open before. -/
inductive File (α : Type) where
  | null (writes : Bool)
  | proc
  | other (a : α)
deriving DecidableEq, Repr

/-- What is done with a signal. -/
inductive Handler where
  | SIG_DFL
  | other (n : Nat)
deriving DecidableEq, Repr

structure Process (α : Type) where
  pid : Pid
  session : Pid
  files : Table (File α)
  umask : Nat
  cwd : Text
  sigchld : Handler
deriving DecidableEq, Repr

/-- What the system answers, `none` or `false` when a call fails.  `rlimit` is
    `RLIM_INFINITY` as `some none`; `realloc` is asked for a number of `int`s;
    `null` is `stat` and `S_ISCHR`; `openNull` is asked whether to write. -/
structure System (α : Type) where
  fork₁ : Option Pid
  waitpid : Bool
  setsid : Bool
  fork₂ : Option Pid
  opendir : Bool
  dirfd : Bool
  rlimit : Option (Option Nat)
  readdir : Table (File α) → List Text
  realloc : Nat → Bool
  null : Bool
  openNull : Bool → Bool
  dup2 : Nat → Bool
  chdir : Bool

-- ── daemon_close_files ───────────────────────────────────────────────────────

/-- The inner loop: the names that are left, and `fds`. -/
def readEntries (dirFd start : Int) (size : Nat) : List Text → List Int → List Text × List Int
  | [], fds => ([], fds)
  | name :: names, fds =>
      let fd := atoi32 name
      let fds := if fd ≠ dirFd ∧ start ≤ fd then fds ++ [fd] else fds
      if fds.length < size then readEntries dirFd start size names fds else (names, fds)

/-- The outer loop: `fds`, or `some none` where there is no memory. -/
def collectFds (realloc : Nat → Bool) (dirFd start : Int) :
    Nat → Nat → List Text → List Int → Option (Option (List Int))
  | 0, _, _, _ => none
  | fuel + 1, size, names, fds =>
      if realloc size = false then some none
      else
        let r := readEntries dirFd start size names fds
        let size := 2 * size % 2 ^ 64
        if r.2.length = size then collectFds realloc dirFd start fuel size r.1 r.2
        else some (some r.2)

variable {α : Type} (sys : System α) (fuel : Nat) (start : Int) (t : Table (File α))

/-- Where the backup route ends. -/
def System.maxFd : Nat :=
  match sys.rlimit with
  | some (some cur) => if 0 < cur ∧ cur ≤ 4096 then cur else 4096
  | _ => 4096

/-- `daemon_close_files`: `some none` is -1. -/
def daemonCloseFiles : Option (Option (Table (File α))) :=
  let start := if start < 0 then 0 else start
  if sys.opendir = true ∧ sys.dirfd = true then
    let dirFd := t.lowest
    let t := t.put dirFd (some .proc)
    match collectFds sys.realloc dirFd start fuel 128 (sys.readdir t) [] with
    | none => none
    | some none => some none
    | some (some fds) => some (some ((t.close dirFd).closeAll (fds.map Int.toNat)))
  else some (some (t.closeAll (List.range' start.toNat (sys.maxFd - start.toNat))))

-- ── daemon_nullify_streams ───────────────────────────────────────────────────

/-- The first half: `/dev/null` to read from. -/
def nullifyInput : Option (Table (File α)) :=
  if sys.openNull false = false then none
  else
    let null := t.lowest
    let t := t.put null (some (.null false))
    if null = 0 then some t
    else if sys.dup2 0 = false then none
    else some ((t.dup null 0).close null)

/-- A stream to write to, but where `null` is it. -/
def nullifyOutput (null fd : Nat) : Option (Table (File α)) :=
  if null = fd then some t
  else if sys.dup2 fd = false then none
  else some (t.dup null fd)

/-- The second half: `/dev/null` to write to. -/
def nullifyOutputs : Option (Table (File α)) := do
  if sys.openNull true = false then none
  else
    let null := t.lowest
    let t ← nullifyOutput sys (t.put null (some (.null true))) null 1
    let t ← nullifyOutput sys t null 2
    some (if null ≠ 1 ∧ null ≠ 2 then t.close null else t)

/-- `daemon_nullify_streams`. -/
def daemonNullifyStreams : Option (Table (File α)) :=
  if sys.null = false then none
  else (nullifyInput sys t).bind (nullifyOutputs sys)

/-- `daemon_close_files_and_nullify_streams`. -/
def daemonCloseFilesAndNullifyStreams : Option (Option (Table (File α))) :=
  (daemonCloseFiles sys fuel start t).map fun r => r.bind (daemonNullifyStreams sys)

-- ── daemon_spawn ─────────────────────────────────────────────────────────────

/-- The end of `daemon_daemonize`: the process that returns, if one does. -/
def settle (cdToRoot : Bool) (p : Process α) : Option (Option (Process α)) :=
  (daemonCloseFilesAndNullifyStreams sys fuel start p.files).map fun r =>
    r.bind fun files =>
      let p := { p with files, umask := 0o077 }
      if cdToRoot = false then some p
      else if sys.chdir = false then none
      else some { p with cwd := ['/'] }

/-- `daemon_daemonize`: whether the process that enters exits with
    `EXIT_SUCCESS`, and the one that returns. -/
def daemonDaemonize (detachSession cdToRoot : Bool) (p : Process α) :
    Option (Bool × Option (Process α)) :=
  if detachSession = true then
    if sys.setsid = false then some (false, none)
    else
      match sys.fork₂ with
      | none => some (false, none)
      | some pid =>
          (settle sys fuel start cdToRoot { p with pid, session := p.pid }).map fun d => (true, d)
  else (settle sys fuel start cdToRoot p).map fun d => (false, d)

/-- `TEST`. -/
def test (f s : BitVec 32) : Bool := f &&& s = f

def DAEMON_FAST_RETURN : BitVec 32 := 1

def DAEMON_NO_CD_TO_ROOT : BitVec 32 := 2

def DAEMON_ATTACHED_SESSION : BitVec 32 := 4

def DAEMON_FLAGS_MASK : BitVec 32 := 7

/-- What becomes of the process that calls, with what it returns, and the process
    that returns 0, if one does. -/
structure Spawned (α : Type) where
  caller : Process α
  ret : Int
  daemon : Option (Process α)
deriving DecidableEq, Repr

/-- `daemon_spawn`. -/
def daemonSpawn (flags : BitVec 32) (p : Process α) : Option (Spawned α) :=
  if flags ||| DAEMON_FLAGS_MASK ≠ DAEMON_FLAGS_MASK ∨ start < 0 then some ⟨p, -1, none⟩
  else
    let fastReturn := test DAEMON_FAST_RETURN flags || test DAEMON_ATTACHED_SESSION flags
    let handler := p.sigchld
    let p := if fastReturn = true then p else { p with sigchld := .SIG_DFL }
    let restored := if fastReturn = true then p else { p with sigchld := handler }
    match sys.fork₁ with
    | none => some ⟨restored, -1, none⟩
    | some pid =>
        (daemonDaemonize sys fuel start (!test DAEMON_ATTACHED_SESSION flags)
          (!test DAEMON_NO_CD_TO_ROOT flags) { p with pid, sigchld := .SIG_DFL }).map fun r =>
            if fastReturn = true then ⟨p, 1, r.2⟩
            else if sys.waitpid = false then ⟨restored, -1, r.2⟩
            else if r.1 = false then ⟨restored, -1, r.2⟩
            else ⟨restored, 1, r.2⟩

-- ── What is closed ───────────────────────────────────────────────────────────

/-- A number in a directory. -/
def decimal (n : Nat) : Text :=
  if n = 0 then ['0'] else (Nat.digits 10 n).reverse.map Nat.digitChar

/-- `/proc/self/fd`, in any order: the two names of a directory, and what is
    open. -/
def Lists (readdir : Table (File α) → List Text) : Prop :=
  ∀ t, (readdir t).Perm (['.'] :: ['.', '.'] :: t.opened.map decimal)

variable {sys fuel start t} {names : List Text} {fds : List Int} {dirFd : Int} {size n : Nat}

/-- A number is read back. -/
theorem atoi32_decimal (h : n ≤ 2147483647) : atoi32 (decimal n) = n := by
  refine (atoi32_eq_iff (Int.natCast_nonneg n)).mpr ⟨?_, by omega⟩
  have hblanks : ∀ c ∈ ([] : Text), isspace c = true := fun c hc => absurd hc List.not_mem_nil
  by_cases hn : n = 0
  · subst hn
    refine Spells.bare hblanks (List.cons_ne_nil '0' []) fun c hc => ?_
    rw [List.mem_singleton.mp hc]
    rfl
  · have hlt : ∀ d ∈ Nat.digits 10 n, d < 10 := fun d hd => Nat.digits_lt_base (by decide) hd
    have hvalue : valueOf ((Nat.digits 10 n).reverse.map Nat.digitChar) = n := by
      rw [valueOf_digits hlt, Nat.ofDigits_digits]
    have hne : (Nat.digits 10 n).reverse.map Nat.digitChar ≠ [] := by
      rw [ne_eq, List.map_eq_nil_iff, List.reverse_eq_nil_iff]
      exact Nat.digits_ne_nil_iff_ne_zero.mpr hn
    have hspells := Spells.bare hblanks hne fun c hc => by
      obtain ⟨d, hd, rfl⟩ := List.mem_map.mp hc
      exact digitChar_isDigit (hlt d (List.mem_reverse.mp hd))
    rw [hvalue] at hspells
    rw [decimal, if_neg hn]
    exact hspells

/-- What the loop takes of the names. -/
def eligible (dirFd start : Int) (names : List Text) : List Int :=
  (names.map atoi32).filter fun fd => fd ≠ dirFd ∧ start ≤ fd

theorem eligible_cons_of_pos {name : Text}
    (h : atoi32 name ≠ dirFd ∧ start ≤ atoi32 name) :
    eligible dirFd start (name :: names) = atoi32 name :: eligible dirFd start names :=
  List.filter_cons_of_pos (decide_eq_true h)

theorem eligible_cons_of_neg {name : Text}
    (h : ¬(atoi32 name ≠ dirFd ∧ start ≤ atoi32 name)) :
    eligible dirFd start (name :: names) = eligible dirFd start names :=
  List.filter_cons_of_neg (by rw [decide_eq_true_eq]; exact h)

/-- The inner loop stops where the array is full. -/
theorem readEntries_eq (h : fds.length < size) :
    (readEntries dirFd start size names fds).2 =
      (fds ++ eligible dirFd start names).take size := by
  induction names generalizing fds with
  | nil =>
      rw [readEntries, eligible, List.map_nil, List.filter_nil, List.append_nil,
        List.take_of_length_le (Nat.le_of_lt h)]
  | cons name names ih =>
      rw [readEntries]
      by_cases htake : atoi32 name ≠ dirFd ∧ start ≤ atoi32 name
      · rw [eligible_cons_of_pos htake]
        simp only [if_pos htake]
        have happend : fds ++ atoi32 name :: eligible dirFd start names =
            fds ++ [atoi32 name] ++ eligible dirFd start names := by simp
        rw [happend]
        by_cases hfull : (fds ++ [atoi32 name]).length < size
        · rw [if_pos hfull, ih hfull]
        · have hlen : (fds ++ [atoi32 name]).length = size := by
            rw [List.length_append, List.length_singleton] at hfull ⊢
            omega
          rw [if_neg hfull, List.take_left' hlen]
      · rw [eligible_cons_of_neg htake]
        simp only [if_neg htake, if_pos h]
        exact ih h

/-- **ONE ROUND**: an array twice as long is not full. -/
theorem collectFds_eq {realloc : Nat → Bool} (h : realloc 128 = true) :
    collectFds realloc dirFd start (fuel + 1) 128 names [] =
      some (some ((eligible dirFd start names).take 128)) := by
  have hread : (readEntries dirFd start 128 names []).2 = (eligible dirFd start names).take 128 :=
    readEntries_eq (by decide)
  have hfull : ((eligible dirFd start names).take 128).length ≠ 2 * 128 % 2 ^ 64 := by
    rw [List.length_take]
    omega
  rw [collectFds, if_neg (by rw [h]; decide)]
  simp only [hread, if_neg hfull]

theorem eligible_decimal {opened : List Nat} (h : ∀ fd ∈ opened, fd ≤ 2147483647) :
    eligible dirFd start (opened.map decimal) =
      (opened.filter fun fd : Nat => (fd : Int) ≠ dirFd ∧ start ≤ fd).map Nat.cast := by
  have hread : opened.map (atoi32 ∘ decimal) = opened.map Nat.cast :=
    List.map_congr_left fun fd hfd => atoi32_decimal (h fd hfd)
  rw [eligible, List.map_map, hread, List.filter_map]
  rfl

/-- Of the names, the numbers from `start` on but for the directory's own. -/
theorem eligible_perm (hnames : names.Perm (['.'] :: ['.', '.'] :: t.opened.map decimal))
    (hlen : t.slots.length ≤ 2147483648) (hstart : 0 ≤ start) :
    ((eligible dirFd start names).map Int.toNat).Perm
      (t.opened.filter fun fd : Nat => (fd : Int) ≠ dirFd ∧ start ≤ fd) := by
  have hopened : ∀ fd ∈ t.opened, fd ≤ 2147483647 := by
    intro fd hfd
    have hlt := List.mem_range.mp (List.mem_filter.mp hfd).1
    omega
  have hall : (eligible dirFd start names).Perm
      (eligible dirFd start (['.'] :: ['.', '.'] :: t.opened.map decimal)) :=
    (hnames.map atoi32).filter _
  have hdots : ∀ name ∈ [['.'], ['.', '.']], ¬(atoi32 name ≠ dirFd ∧ start ≤ atoi32 name) := by
    intro name hname
    have hneg : atoi32 name = -1 := by
      rcases List.mem_cons.mp hname with rfl | hname
      · rfl
      · rw [List.mem_singleton.mp hname]
        rfl
    rw [hneg]
    omega
  rw [eligible_cons_of_neg (hdots _ (by simp)), eligible_cons_of_neg (hdots _ (by simp)),
    eligible_decimal hopened] at hall
  have hnat := hall.map Int.toNat
  rw [List.map_map, show Int.toNat ∘ Nat.cast = id from funext Int.toNat_natCast,
    List.map_id] at hnat
  exact hnat

/-- What `daemon_close_files` does when it returns 0: from `start` on all but so
    many are open as were, and nothing else changes. -/
structure Closes (start n : Nat) (t t' : Table (File α)) : Prop where
  kept : ∀ fd, t'.get fd = t.get fd ∨ start ≤ fd ∧ t'.get fd = none
  left : (t'.opened.filter (start ≤ ·)).length = (t.opened.filter (start ≤ ·)).length - n

/-- Nothing else was open than what is listed but for the directory. -/
theorem opened_proc :
    ((t.put t.lowest (some .proc)).opened.filter fun fd : Nat =>
        (fd : Int) ≠ (t.lowest : Int) ∧ start ≤ fd).Perm
      (t.opened.filter (start.toNat ≤ ·)) := by
  refine (List.perm_ext_iff_of_nodup (Table.nodup_opened.filter _)
    (Table.nodup_opened.filter _)).mpr fun fd => ?_
  rw [List.mem_filter, List.mem_filter, Table.mem_opened, Table.mem_opened, Table.get_put,
    decide_eq_true_eq, decide_eq_true_eq, ne_eq, Nat.cast_inj, Int.toNat_le]
  by_cases heq : fd = t.lowest
  · rw [heq, Table.get_lowest]
    simp
  · rw [if_neg heq, and_iff_right heq]

/-- The first 128 of what is listed, closed. -/
theorem closes_of_perm {t' : Table (File α)} {start : Nat} {listed : List Nat}
    (hget : ∀ fd, t.get fd = t'.get fd)
    (hlisted : listed.Perm (t.opened.filter (start ≤ ·))) :
    Closes start 128 t (t'.closeAll (listed.take 128)) := by
  have hmem : ∀ fd ∈ listed.take 128, fd ∈ t'.opened ∧ decide (start ≤ fd) = true := by
    intro fd hfd
    have hopened := List.mem_filter.mp (hlisted.mem_iff.mp (List.mem_of_mem_take hfd))
    exact ⟨(Table.opened_congr hget).mem_iff.mp hopened.1, hopened.2⟩
  constructor
  case kept =>
    intro fd
    rw [Table.get_closeAll, hget]
    split
    next hin => exact .inr ⟨of_decide_eq_true (hmem fd hin).2, rfl⟩
    next => exact .inl rfl
  case left =>
    have hnodup : (listed.take 128).Nodup :=
      (hlisted.nodup_iff.mpr (Table.nodup_opened.filter _)).sublist (List.take_sublist _ _)
    have hcount := Table.length_opened_closeAll hnodup hmem
    have hbefore := ((Table.opened_congr hget).filter fun fd => decide (start ≤ fd)).length_eq
    have hlen := hlisted.length_eq
    rw [List.length_take] at hcount
    omega

/-- **`daemon_close_files`** through `/proc`: 128, whatever the order. -/
theorem closes_of_proc (hlists : Lists sys.readdir) (hlen : t.slots.length ≤ 2147483647)
    (hstart : 0 ≤ start) (hproc : sys.opendir = true ∧ sys.dirfd = true)
    (halloc : sys.realloc 128 = true) :
    ∃ t', daemonCloseFiles sys (fuel + 1) start t = some (some t') ∧
      Closes start.toNat 128 t t' := by
  have hput : (t.put t.lowest (some .proc)).slots.length ≤ 2147483648 := by
    have hlowest := t.lowest_le_length
    rw [Table.length_put]
    omega
  have hget : ∀ fd, t.get fd = ((t.put t.lowest (some .proc)).close t.lowest).get fd :=
    fun fd => Table.get_close_put_lowest.symm
  refine ⟨_, ?_, closes_of_perm hget ((eligible_perm (hlists _) hput hstart).trans opened_proc)⟩
  rw [daemonCloseFiles, if_neg (Int.not_lt.mpr hstart)]
  simp only [if_pos hproc, collectFds_eq halloc, List.map_take]

/-- **THE BACKUP ROUTE**: whatever is below its end. -/
theorem closes_of_range (hstart : 0 ≤ start) (hproc : ¬(sys.opendir = true ∧ sys.dirfd = true)) :
    ∃ t', daemonCloseFiles sys fuel start t = some (some t') ∧
      ∀ fd, t'.get fd = if start ≤ fd ∧ fd < sys.maxFd then none else t.get fd := by
  refine ⟨t.closeAll (List.range' start.toNat (sys.maxFd - start.toNat)), ?_, fun fd => ?_⟩
  · rw [daemonCloseFiles, if_neg (Int.not_lt.mpr hstart)]
    simp only [if_neg hproc]
  · rw [Table.get_closeAll]
    refine if_congr ?_ rfl rfl
    rw [List.mem_range'_1]
    omega

-- ── What the streams are ─────────────────────────────────────────────────────

variable {t' : Table (File α)} {fd null : Nat}

theorem nullifyInput_get (h : nullifyInput sys t = some t') :
    t'.get fd = if fd = 0 then some (.null false) else t.get fd := by
  rw [nullifyInput] at h
  split at h
  · cases h
  dsimp only at h
  split at h
  next hnull =>
    cases h
    rw [Table.get_put, hnull]
  next hnull =>
    split at h
    · cases h
    cases h
    rw [Table.get_close, Table.get_dup, Table.get_put_self, Table.get_put]
    by_cases heq : fd = t.lowest
    · rw [if_pos heq, if_neg (heq ▸ hnull), heq, Table.get_lowest]
    · rw [if_neg heq, if_neg heq]

theorem nullifyOutput_get {f : File α} (hnull : t.get null = some f)
    (h : nullifyOutput sys t null n = some t') :
    t'.get fd = if fd = n then some f else t.get fd := by
  rw [nullifyOutput] at h
  split at h
  next heq =>
    cases h
    split
    next hfd => rw [hfd, ← heq, hnull]
    next => rfl
  next =>
    split at h
    · cases h
    cases h
    rw [Table.get_dup, hnull]

/-- The number that `/dev/null` takes is kept when it is one of the two. -/
theorem nullifyOutputs_get (h : nullifyOutputs sys t = some t') :
    t'.get fd = if fd = 1 ∨ fd = 2 then some (.null true) else t.get fd := by
  rw [nullifyOutputs] at h
  split at h
  · cases h
  obtain ⟨t₁, h₁, h⟩ := Option.bind_eq_some_iff.mp h
  obtain ⟨t₂, h₂, h⟩ := Option.bind_eq_some_iff.mp h
  have hget₁ (fd : Nat) : t₁.get fd = _ := nullifyOutput_get Table.get_put_self h₁
  have hnull : t₁.get t.lowest = some (.null true) := by
    rw [hget₁, Table.get_put_self, ite_self]
  have hget₂ (fd : Nat) : t₂.get fd = _ := nullifyOutput_get hnull h₂
  have hfree := t.get_lowest
  cases h
  by_cases hends : t.lowest ≠ 1 ∧ t.lowest ≠ 2
  · rw [if_pos hends, Table.get_close, hget₂, hget₁, Table.get_put]
    grind
  · rw [if_neg hends, hget₂, hget₁, Table.get_put]
    grind

-- ── The daemon ───────────────────────────────────────────────────────────────

/-- Every call that a daemon cannot do without succeeds. -/
structure System.Works (sys : System α) : Prop where
  fork₁ : sys.fork₁.isSome = true
  setsid : sys.setsid = true
  fork₂ : sys.fork₂.isSome = true
  realloc : sys.realloc 128 = true
  null : sys.null = true
  openNull : ∀ writes, sys.openNull writes = true
  dup2 : ∀ fd, sys.dup2 fd = true
  chdir : sys.chdir = true

/-- What `daemon_close_files` may leave, by the route that it takes. -/
def Closed (sys : System α) (start : Nat) (t t' : Table (File α)) : Prop :=
  if sys.opendir = true ∧ sys.dirfd = true then Closes start 128 t t'
  else ∀ fd, t'.get fd = if start ≤ fd ∧ fd < sys.maxFd then none else t.get fd

/-- The streams are `/dev/null`, and the rest is left of what was closed. -/
def Nullified (sys : System α) (start : Nat) (t t' : Table (File α)) : Prop :=
  ∃ closed, Closed sys start t closed ∧ ∀ fd, t'.get fd =
    if fd = 0 then some (.null false)
    else if fd = 1 ∨ fd = 2 then some (.null true)
    else closed.get fd

theorem closeFiles_cases (hlists : Lists sys.readdir) (hlen : t.slots.length ≤ 2147483647)
    (hstart : 0 ≤ start) :
    daemonCloseFiles sys (fuel + 1) start t = some none ∧ ¬sys.Works ∨
      ∃ t', daemonCloseFiles sys (fuel + 1) start t = some (some t') ∧
        Closed sys start.toNat t t' := by
  by_cases hproc : sys.opendir = true ∧ sys.dirfd = true
  · cases halloc : sys.realloc 128 with
    | true =>
        obtain ⟨t', hclose, hcloses⟩ := closes_of_proc hlists hlen hstart hproc halloc
        exact .inr ⟨t', hclose, by rw [Closed, if_pos hproc]; exact hcloses⟩
    | false =>
        refine .inl ⟨?_, fun hworks => ?_⟩
        · rw [daemonCloseFiles, if_neg (Int.not_lt.mpr hstart)]
          simp only [if_pos hproc, collectFds, if_pos halloc]
        · have hrealloc := hworks.realloc
          rw [halloc] at hrealloc
          cases hrealloc
  · obtain ⟨t', hclose, hget⟩ := closes_of_range hstart hproc
    refine .inr ⟨t', hclose, ?_⟩
    rw [Closed, if_neg hproc]
    intro fd
    rw [hget]
    exact if_congr (by omega) rfl rfl

theorem nullifyOutput_isSome (h : sys.Works) : ∃ t', nullifyOutput sys t null n = some t' := by
  rw [nullifyOutput]
  by_cases heq : null = n
  · exact ⟨_, if_pos heq⟩
  · exact ⟨_, by rw [if_neg heq, if_neg (by rw [h.dup2]; decide)]⟩

theorem daemonNullifyStreams_isSome (h : sys.Works) :
    ∃ t', daemonNullifyStreams sys t = some t' := by
  have hin : ∃ t₁, nullifyInput sys t = some t₁ := by
    rw [nullifyInput, if_neg (by rw [h.openNull]; decide)]
    by_cases heq : t.lowest = 0
    · exact ⟨_, if_pos heq⟩
    · exact ⟨_, by rw [if_neg heq, if_neg (by rw [h.dup2]; decide)]⟩
  obtain ⟨t₁, hin⟩ := hin
  obtain ⟨t₂, hout⟩ : ∃ t₂, nullifyOutput sys (t₁.put t₁.lowest (some (.null true)))
      t₁.lowest 1 = some t₂ := nullifyOutput_isSome h
  obtain ⟨t₃, herr⟩ : ∃ t₃, nullifyOutput sys t₂ t₁.lowest 2 = some t₃ := nullifyOutput_isSome h
  refine ⟨if t₁.lowest ≠ 1 ∧ t₁.lowest ≠ 2 then t₃.close t₁.lowest else t₃, ?_⟩
  rw [daemonNullifyStreams, if_neg (by rw [h.null]; decide), hin, Option.bind_some,
    nullifyOutputs, if_neg (by rw [h.openNull]; decide)]
  simp only [hout, herr, Option.bind_eq_bind, Option.bind_some]

theorem daemonNullifyStreams_get (h : daemonNullifyStreams sys t = some t') :
    t'.get fd =
      if fd = 0 then some (.null false)
      else if fd = 1 ∨ fd = 2 then some (.null true)
      else t.get fd := by
  rw [daemonNullifyStreams] at h
  split at h
  · cases h
  obtain ⟨t₁, hin, hout⟩ := Option.bind_eq_some_iff.mp h
  rw [nullifyOutputs_get hout, nullifyInput_get hin]
  grind

variable (sys fuel) in
/-- **`daemon_close_files_and_nullify_streams`**. -/
theorem files_spec (hlists : Lists sys.readdir) (hlen : t.slots.length ≤ 2147483647)
    (hstart : 0 ≤ start) :
    ∃ r, daemonCloseFilesAndNullifyStreams sys (fuel + 1) start t = some r ∧
      (∀ t', r = some t' → Nullified sys start.toNat t t') ∧
      (sys.Works → r.isSome = true) := by
  rw [daemonCloseFilesAndNullifyStreams]
  rcases closeFiles_cases hlists hlen hstart with ⟨hclose, hworks⟩ | ⟨t₁, hclose, hclosed⟩
  · exact ⟨none, by rw [hclose]; rfl, fun _ h => (nomatch h), fun h => absurd h hworks⟩
  · refine ⟨daemonNullifyStreams sys t₁, by rw [hclose]; rfl, fun t' h => ?_, fun hworks => ?_⟩
    · exact ⟨t₁, hclosed, fun fd => daemonNullifyStreams_get h⟩
    · obtain ⟨t', h⟩ := daemonNullifyStreams_isSome (t := t₁) hworks
      rw [h]
      rfl

/-- A process that has returned from `daemon_daemonize`, which `p` entered. -/
structure Settled (sys : System α) (start : Nat) (cdToRoot : Bool) (p d : Process α) : Prop where
  files : Nullified sys start p.files d.files
  umask : d.umask = 0o077
  cwd : d.cwd = if cdToRoot = true then ['/'] else p.cwd
  sigchld : d.sigchld = p.sigchld
  pid : d.pid = p.pid
  session : d.session = p.session

variable {flags : BitVec 32} {p d : Process α} {cdToRoot detachSession : Bool}

variable (sys fuel p) in
theorem settle_spec (hlists : Lists sys.readdir) (hlen : p.files.slots.length ≤ 2147483647)
    (hstart : 0 ≤ start) :
    ∃ r, settle sys (fuel + 1) start cdToRoot p = some r ∧
      (∀ d, r = some d → Settled sys start.toNat cdToRoot p d) ∧
      (sys.Works → r.isSome = true) := by
  obtain ⟨files, hfiles, hget, hworks⟩ := files_spec sys fuel hlists hlen hstart
  rw [settle, hfiles, Option.map_some]
  cases files with
  | none => exact ⟨none, rfl, fun _ h => (nomatch h), hworks⟩
  | some t =>
      have hnull := hget t rfl
      refine ⟨_, rfl, fun d hd => ?_, fun h => ?_⟩
      · rw [Option.bind_some] at hd
        dsimp only at hd
        cases hcd : cdToRoot with
        | false =>
            rw [if_pos hcd] at hd
            cases hd
            exact ⟨hnull, rfl, rfl, rfl, rfl, rfl⟩
        | true =>
            rw [if_neg (by rw [hcd]; decide)] at hd
            split at hd
            · cases hd
            · cases hd
              exact ⟨hnull, rfl, rfl, rfl, rfl, rfl⟩
      · rw [Option.bind_some]
        dsimp only
        split
        · rfl
        · rw [if_neg (by rw [h.chdir]; decide)]
          rfl

/-- The request that is not turned down. -/
def Valid (start : Int) (flags : BitVec 32) : Prop :=
  flags ||| DAEMON_FLAGS_MASK = DAEMON_FLAGS_MASK ∧ 0 ≤ start

/-- Attached it is the child of the caller and of its session; detached it is a
    child of that child, which leads the session. -/
def Related (sys : System α) (flags : BitVec 32) (p d : Process α) : Prop :=
  if test DAEMON_ATTACHED_SESSION flags = true then
    sys.fork₁ = some d.pid ∧ d.session = p.session
  else sys.setsid = true ∧ sys.fork₁ = some d.session ∧ sys.fork₂ = some d.pid

/-- What the caller is told depends on what happens until the second `fork`, and
    on its own `waitpid`; not on what the daemon does then. -/
def Told (sys : System α) (start : Int) (flags : BitVec 32) : Prop :=
  Valid start flags ∧ sys.fork₁.isSome = true ∧
    (test DAEMON_FAST_RETURN flags = true ∨ test DAEMON_ATTACHED_SESSION flags = true ∨
      sys.waitpid = true ∧ sys.setsid = true ∧ sys.fork₂.isSome = true)

/-- What `daemon_daemonize` makes of `p`: how it ends, and which process returns. -/
structure Daemonized (sys : System α) (start : Nat) (detachSession cdToRoot : Bool)
    (p : Process α) (r : Bool × Option (Process α)) : Prop where
  ended : r.1 = true ↔ detachSession = true ∧ sys.setsid = true ∧ sys.fork₂.isSome = true
  settled : ∀ d, r.2 = some d → ∃ q, Settled sys start cdToRoot q d ∧
    q.files = p.files ∧ q.cwd = p.cwd ∧ q.sigchld = p.sigchld ∧
    if detachSession = true then
      sys.setsid = true ∧ q.session = p.pid ∧ sys.fork₂ = some q.pid
    else q.session = p.session ∧ q.pid = p.pid
  works : sys.Works → r.2.isSome = true

variable (sys fuel p cdToRoot detachSession) in
theorem daemonDaemonize_spec (hlists : Lists sys.readdir)
    (hlen : p.files.slots.length ≤ 2147483647) (hstart : 0 ≤ start) :
    ∃ r, daemonDaemonize sys (fuel + 1) start detachSession cdToRoot p = some r ∧
      Daemonized sys start.toNat detachSession cdToRoot p r := by
  rw [daemonDaemonize]
  cases detachSession with
  | false =>
      obtain ⟨d, hd, hspec, hworks⟩ := settle_spec sys fuel p hlists hlen hstart
      rw [if_neg (by decide), hd]
      exact ⟨(false, d), rfl, by simp, fun d h => ⟨p, hspec d h, rfl, rfl, rfl, by simp⟩,
        hworks⟩
  | true =>
      rw [if_pos rfl]
      cases hsid : sys.setsid with
      | false =>
          refine ⟨(false, none), if_pos rfl, by simp [hsid], fun _ h => (nomatch h), fun h => ?_⟩
          rw [h.setsid] at hsid
          cases hsid
      | true =>
          rw [if_neg (by decide)]
          cases hfork : sys.fork₂ with
          | none =>
              refine ⟨(false, none), rfl, by simp [hfork], fun _ h => (nomatch h), fun h => ?_⟩
              have hfork₂ := h.fork₂
              rw [hfork] at hfork₂
              cases hfork₂
          | some pid =>
              obtain ⟨d, hd, hspec, hworks⟩ :=
                settle_spec sys fuel { p with pid, session := p.pid } hlists hlen hstart
              refine ⟨(true, d), by dsimp only; rw [hd]; rfl, by simp [hsid, hfork],
                fun d h => ?_, hworks⟩
              exact ⟨_, hspec d h, rfl, rfl, rfl, by simp [hsid, hfork]⟩

/-- What `daemon_spawn` leaves of a caller `p`, and what the process is that
    returns 0. -/
structure SpawnedWell (sys : System α) (start : Int) (flags : BitVec 32) (p : Process α)
    (r : Spawned α) : Prop where
  caller : r.caller = p
  ret : r.ret = 1 ∧ Told sys start flags ∨ r.ret = -1 ∧ ¬Told sys start flags
  related : ∀ d, r.daemon = some d → Related sys flags p d
  files : ∀ d, r.daemon = some d → Nullified sys start.toNat p.files d.files
  confined : ∀ d, r.daemon = some d → d.umask = 0o077 ∧ d.sigchld = .SIG_DFL ∧
    d.cwd = if test DAEMON_NO_CD_TO_ROOT flags = true then p.cwd else ['/']
  works : Valid start flags → sys.Works → r.daemon.isSome = true

/-- What the caller is told when the first `fork` succeeds. -/
theorem told_iff {ended : Bool} (hvalid : Valid start flags) (hfork : sys.fork₁.isSome = true)
    (hended : ended = true ↔ (!test DAEMON_ATTACHED_SESSION flags) = true ∧
      sys.setsid = true ∧ sys.fork₂.isSome = true) :
    Told sys start flags ↔
      (test DAEMON_FAST_RETURN flags || test DAEMON_ATTACHED_SESSION flags) = true ∨
        sys.waitpid = true ∧ ended = true := by
  rw [Told, and_iff_right hvalid, and_iff_right hfork, hended, Bool.or_eq_true]
  cases test DAEMON_ATTACHED_SESSION flags with
  | true => simp
  | false => simp

/-- The process that returns 0, whatever the caller is told. -/
theorem spawnedWell_of_daemonized {ret : Int} {pid : Pid} {r : Bool × Option (Process α)}
    (hfork : sys.fork₁ = some pid)
    (h : Daemonized sys start.toNat (!test DAEMON_ATTACHED_SESSION flags)
      (!test DAEMON_NO_CD_TO_ROOT flags) { p with pid, sigchld := .SIG_DFL } r)
    (hret : ret = 1 ∧ Told sys start flags ∨ ret = -1 ∧ ¬Told sys start flags) :
    SpawnedWell sys start flags p ⟨p, ret, r.2⟩ := by
  refine ⟨rfl, hret, fun d hd => ?_, fun d hd => ?_, fun d hd => ?_, fun _ => h.works⟩
  case refine_1 =>
    obtain ⟨q, hq, -, -, -, hrelated⟩ := h.settled d hd
    rw [Related, hq.pid, hq.session]
    cases hattached : test DAEMON_ATTACHED_SESSION flags with
    | true =>
        rw [hattached] at hrelated
        exact ⟨hrelated.2 ▸ hfork, hrelated.1⟩
    | false =>
        rw [hattached] at hrelated
        exact ⟨hrelated.1, hrelated.2.1 ▸ hfork, hrelated.2.2⟩
  case refine_2 =>
    obtain ⟨q, hq, hfiles, -⟩ := h.settled d hd
    exact hfiles ▸ hq.files
  case refine_3 =>
    obtain ⟨q, hq, -, hcwd, hsigchld, -⟩ := h.settled d hd
    refine ⟨hq.umask, hq.sigchld.trans hsigchld, ?_⟩
    rw [hq.cwd, hcwd]
    cases test DAEMON_NO_CD_TO_ROOT flags with
    | true => rfl
    | false => rfl

/-- **`daemon_spawn`**. -/
theorem daemon_spawned (hlists : Lists sys.readdir)
    (hlen : p.files.slots.length ≤ 2147483647) :
    ∃ r, daemonSpawn sys (fuel + 1) start flags p = some r ∧
      SpawnedWell sys start flags p r := by
  rw [daemonSpawn]
  by_cases hvalid : Valid start flags
  case neg =>
    have htold : ¬Told sys start flags := fun h => hvalid h.1
    refine ⟨_, if_pos ?_, rfl, .inr ⟨rfl, htold⟩, fun _ h => (nomatch h),
      fun _ h => (nomatch h), fun _ h => (nomatch h), fun h => absurd h hvalid⟩
    rw [Valid, not_and_or, Int.not_le] at hvalid
    exact hvalid
  case pos =>
  rw [if_neg (by rw [not_or, ne_eq, not_not, Int.not_lt]; exact hvalid)]
  dsimp only
  cases hfork : sys.fork₁ with
  | none =>
      have htold : ¬Told sys start flags := by
        rintro ⟨-, hfork₁, -⟩
        rw [hfork] at hfork₁
        cases hfork₁
      refine ⟨_, rfl, ?_, .inr ⟨rfl, htold⟩, fun _ h => (nomatch h), fun _ h => (nomatch h),
        fun _ h => (nomatch h), fun _ h => ?_⟩
      · dsimp only
        split
        · rfl
        · rfl
      · have hfork₁ := h.fork₁
        rw [hfork] at hfork₁
        cases hfork₁
  | some pid =>
      have hfork₁ : sys.fork₁.isSome = true := by rw [hfork]; rfl
      obtain ⟨r, hr, h⟩ :=
        daemonDaemonize_spec sys fuel { p with pid, sigchld := .SIG_DFL }
          (!test DAEMON_NO_CD_TO_ROOT flags) (!test DAEMON_ATTACHED_SESSION flags) hlists hlen
          hvalid.2
      have htold := told_iff hvalid hfork₁ h.ended
      cases hfast : test DAEMON_FAST_RETURN flags || test DAEMON_ATTACHED_SESSION flags with
      | true =>
          simp only [if_true, hr, Option.map_some]
          exact ⟨_, rfl, spawnedWell_of_daemonized hfork h (.inl ⟨rfl, htold.mpr (.inl hfast)⟩)⟩
      | false =>
          rw [hfast] at htold
          simp only [Bool.false_eq_true, if_false, hr, Option.map_some]
          refine ⟨_, rfl, ?_⟩
          cases hwait : sys.waitpid with
          | false =>
              exact spawnedWell_of_daemonized hfork h
                (.inr ⟨rfl, fun ht => by simpa [hwait] using htold.mp ht⟩)
          | true =>
              rw [if_neg (by decide)]
              cases hended : r.1 with
              | false =>
                  exact spawnedWell_of_daemonized hfork h
                    (.inr ⟨rfl, fun ht => by simpa [hended] using htold.mp ht⟩)
              | true =>
                  exact spawnedWell_of_daemonized hfork h
                    (.inl ⟨rfl, htold.mpr (.inr ⟨hwait, hended⟩)⟩)

namespace Sample

/-- A system on which nothing fails. -/
def host : System Nat where
  fork₁ := some 8
  waitpid := true
  setsid := true
  fork₂ := some 9
  opendir := true
  dirfd := true
  rlimit := none
  readdir := fun t => ['.'] :: ['.', '.'] :: t.opened.map decimal
  realloc := fun _ => true
  null := true
  openNull := fun _ => true
  dup2 := fun _ => true
  chdir := true

/-- A shell, with its streams and a file. -/
def shell : Process Nat where
  pid := 7
  session := 7
  files := ⟨[some (.other 0), some (.other 0), some (.other 0), none, some (.other 1)]⟩
  umask := 0o022
  cwd := ['/', 'h']
  sigchld := .other 1

end Sample

theorem daemon_spawned_shell :
    ∃ r, daemonSpawn Sample.host 1 3 0 Sample.shell = some r ∧
      SpawnedWell Sample.host 3 0 Sample.shell r :=
  daemon_spawned (fun _ => .refl _) (by decide)

end FlinterDaemon
