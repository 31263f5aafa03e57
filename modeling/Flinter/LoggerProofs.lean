import Flinter.DescriptorProofs
import Flinter.RunProofs
import Mathlib.Logic.Function.Basic

/-! # Where the lines of the log go

    Any number of threads write lines, and any of them may find that the file has
    been moved away and open it anew.  A line is written with the lock held to
    read, and `g_fd` changes with it held to write; in between, `Write` holds no
    lock, and what it has seen may be out of date when it holds one again.

    A thread looks at the file no more than every five seconds, and says so in
    `g_stated` before it looks.  Descriptors are numbers that the rest of the
    process takes as well as soon as they are free. -/

namespace FlinterLogger

open Runs Descriptors

abbrev Text := List Char

abbrev Tid := Nat

/-- `st_dev` and `st_ino`. -/
abbrev Inode := Nat

/-- `time_t`. -/
abbrev Time := Int

/-- What a descriptor stands for: what the log was under a name when it was
    opened, or something of the rest of the process. -/
inductive File where
  | log (filename : Text) (ino : Inode)
  | other (n : Nat)
deriving DecidableEq, Repr

/-- How a thread holds `g_mutex`. -/
inductive Mode where
  | read
  | write
deriving DecidableEq, Repr

/-- Where a thread is.  In `Write`: before `ReadLocker`; behind it; before
    `g_stated = now`, before `stat`, and before `stated = g_stated`; behind
    `rlocker.Unlock` and behind `WriteLocker`; before `rlocker.Relock`; before it
    reads `g_fd` and before `safe_write`, without a descriptor to `STDERR_FILENO`.
    In `ProcessAttach`, or without a name in `ProcessDetach`: before `WriteLocker`
    and behind it. -/
inductive Stage where
  | outside
  | entering (now : Time) (line : Text)
  | checking (now : Time) (line : Text)
  | stamping (now : Time) (line : Text)
  | looking (line : Text)
  | leaving (line : Text)
  | upgrading (stated : Time) (line : Text)
  | reopening (stated : Time) (line : Text)
  | relocking (line : Text)
  | picking (line : Text)
  | sending (fd : Option Nat) (line : Text)
  | configuring (filename : Text)
  | configured (filename : Text)
deriving DecidableEq, Repr

/-- How `g_mutex` is held there. -/
def Stage.holds : Stage → Option Mode
  | .checking _ _ | .stamping _ _ | .looking _ | .leaving _ | .picking _ | .sending _ _ =>
      some .read
  | .reopening _ _ | .configured _ => some .write
  | _ => none

/-- Where a line is written to. -/
inductive Target where
  | stderr
  | file (f : Option File)
deriving DecidableEq, Repr

/-- What happened, as a ghost record. -/
inductive Event where
  | called (t : Tid) (line : Text)
  | named (filename : Text)
  | attached (filename : Text) (ino : Inode)
  | detached
  | wrote (t : Tid) (line : Text) (target : Target) (ok : Bool)
  | returned (t : Tid) (ret : Bool)
deriving DecidableEq, Repr

/-- `ReadWriteLock`: who holds it. -/
structure Lock where
  readers : List Tid
  writer : Option Tid
deriving DecidableEq, Repr

namespace Lock

variable (l : Lock) (t : Tid)

def readerLock : Option Lock :=
  if l.writer = none then some { l with readers := t :: l.readers } else none

def writerLock : Option Lock :=
  if l.writer = none ∧ l.readers = [] then some { l with writer := some t } else none

def unlock : Lock where
  readers := l.readers.erase t
  writer := if l.writer = some t then none else l.writer

end Lock

/-- `g_filename`, `g_fd` where it is not -1, `g_fstat`, `g_stated`, `g_mutex`, the
    threads, the descriptors of the process, what the names of files stand for,
    and the clock. -/
structure World where
  filename : Text
  fd : Option Nat
  fstat : Inode
  stated : Time
  mutex : Lock
  stage : Tid → Stage
  files : Table File
  names : Text → Option Inode
  clock : Time
  log : List Event

namespace World

variable (w : World) (t : Tid)

/-- Append to the ghost record. -/
def note (e : Event) : World := { w with log := w.log ++ [e] }

/-- The thread goes on. -/
def move (st : Stage) : World := { w with stage := Function.update w.stage t st }

/-- The thread goes on and leaves the lock. -/
def moveOut (st : Stage) : World :=
  { w.move t st with mutex := w.mutex.unlock t }

/-- `DoProcessDetach`.  There is nothing to close where `g_fd` is -1. -/
def doProcessDetach : World :=
  match w.fd with
  | none => w
  | some fd => { w.note .detached with files := w.files.close fd, fd := none }

/-- `DoProcessAttach` where `g_fd` is -1, when it opens `ino`. -/
def doProcessAttach (absolute : Text → Text) (filename : Text) (ino : Inode) : World :=
  let fd := w.files.lowest
  { w.note (.attached filename ino) with
    files := w.files.put fd (some (.log filename ino))
    fd := some fd
    fstat := ino
    stated := w.clock
    names := Function.update w.names (absolute filename) (some ino) }

/-- What `open` may find: the file that there is, or a new one; and an empty name
    is none of a file. -/
def opens (absolute : Text → Text) (filename : Text) (ino : Inode) : Bool :=
  filename ≠ [] ∧ (w.names (absolute filename)).all (· = ino)

/-- `Write` up to where it looks.  The source reads `g_stated` twice in its
    condition; here both reads find the same. -/
def check (now : Time) (line : Text) : World :=
  if w.filename = [] then w.move t (.picking line)
  else if w.fd = none then w.move t (.leaving line)
  else if now < w.stated ∨ now - w.stated > 5 then w.move t (.stamping now line)
  else w.move t (.picking line)

/-- `stat`, and whether the file is still the same. -/
def look (line : Text) : World :=
  if w.names w.filename = some w.fstat then w.move t (.picking line)
  else w.move t (.leaving line)

/-- `Write` with the lock held to write.  `none` is a `DoProcessAttach` that
    fails; who was not the first to come leaves it as it is. -/
def reopen (absolute : Text → Text) (stated : Time) (line : Text) (r : Option Inode) :
    Option World :=
  if stated = w.stated then
    let w := w.doProcessDetach
    match r with
    | none => some ((w.note (.returned t false)).moveOut t .outside)
    | some ino =>
        if w.opens absolute w.filename ino then
          some ((w.doProcessAttach absolute w.filename ino).moveOut t (.relocking line))
        else none
  else some (w.moveOut t (.relocking line))

/-- `ProcessAttach`, and without a name `ProcessDetach`. -/
def configure (absolute : Text → Text) (filename : Text) : Option Inode → Option World
  | none =>
      some ({ w.doProcessDetach.note (.named []) with filename := [] }.moveOut t .outside)
  | some ino =>
      let w := w.doProcessDetach
      if w.opens absolute filename ino then
        some (({ w.note (.named filename) with filename := filename }.doProcessAttach absolute
          filename ino).moveOut t .outside)
      else none

/-- What `safe_write` writes to. -/
def target : Option Nat → Target
  | none => .stderr
  | some fd => .file (w.files.get fd)

end World

/-- What may happen: to the clock and the names of files, to descriptors of the
    rest of the process; and what a thread does, with what `open` and
    `safe_write` come to. -/
inductive Act where
  | pass (now : Time)
  | rename (name : Text) (ino : Option Inode)
  | occupy (n : Nat)
  | vacate (fd : Nat)
  | call (t : Tid) (now : Time) (line : Text)
  | config (t : Tid) (filename : Text)
  | readerLock (t : Tid)
  | writerLock (t : Tid)
  | check (t : Tid)
  | stamp (t : Tid)
  | look (t : Tid)
  | leave (t : Tid)
  | reopen (t : Tid) (r : Option Inode)
  | configure (t : Tid) (r : Option Inode)
  | pick (t : Tid)
  | write (t : Tid) (ok : Bool)
deriving DecidableEq, Repr

/-- An act, where it can be done.  `absolute` is the name that a relative one
    stands for where a file is opened. -/
def next (absolute : Text → Text) (w : World) : Act → Option World
  | .pass now => some { w with clock := now }
  | .rename name ino => some { w with names := Function.update w.names name ino }
  | .occupy n => some { w with files := w.files.put w.files.lowest (some (.other n)) }
  | .vacate fd =>
      match w.files.get fd with
      | some (.other _) => some { w with files := w.files.close fd }
      | _ => none
  | .call t now line =>
      if w.stage t = .outside then some ((w.note (.called t line)).move t (.entering now line))
      else none
  | .config t filename =>
      if w.stage t = .outside then some (w.move t (.configuring filename)) else none
  | .readerLock t =>
      (w.mutex.readerLock t).bind fun mutex =>
        match w.stage t with
        | .entering now line => some { w.move t (.checking now line) with mutex }
        | .relocking line => some { w.move t (.picking line) with mutex }
        | _ => none
  | .writerLock t =>
      (w.mutex.writerLock t).bind fun mutex =>
        match w.stage t with
        | .upgrading stated line => some { w.move t (.reopening stated line) with mutex }
        | .configuring filename => some { w.move t (.configured filename) with mutex }
        | _ => none
  | .check t =>
      match w.stage t with
      | .checking now line => some (w.check t now line)
      | _ => none
  | .stamp t =>
      match w.stage t with
      | .stamping now line => some { w.move t (.looking line) with stated := now }
      | _ => none
  | .look t =>
      match w.stage t with
      | .looking line => some (w.look t line)
      | _ => none
  | .leave t =>
      match w.stage t with
      | .leaving line => some (w.moveOut t (.upgrading w.stated line))
      | _ => none
  | .reopen t r =>
      match w.stage t with
      | .reopening stated line => w.reopen t absolute stated line r
      | _ => none
  | .configure t r =>
      match w.stage t with
      | .configured filename => w.configure t absolute filename r
      | _ => none
  | .pick t =>
      match w.stage t with
      | .picking line => some (w.move t (.sending w.fd line))
      | _ => none
  | .write t ok =>
      match w.stage t with
      | .sending fd line =>
          some (((w.note (.wrote t line (w.target fd) ok)).note (.returned t ok)).moveOut t
            .outside)
      | _ => none

/-- The logger of a process. -/
def logger (absolute : Text → Text) : System World Act where
  init := fun w => w.filename = [] ∧ w.fd = none ∧ w.mutex = ⟨[], none⟩ ∧
    (∀ t, w.stage t = .outside) ∧ (∀ fd f ino, w.files.get fd ≠ some (.log f ino)) ∧ w.log = []
  step := fun w a w' => next absolute w a = some w'

-- ── What the record tells ────────────────────────────────────────────────────

/-- The line of a call, and whether all of it was written if it was. -/
structure Call where
  line : Text
  wrote : Option Bool

/-- The name of the log, the file that is open under it, and the calls. -/
structure Told where
  name : Text
  current : Option (Text × Inode)
  call : Tid → Option Call

def tell (a : Told) : Event → Told
  | .called t line => { a with call := Function.update a.call t (some ⟨line, none⟩) }
  | .named filename => { a with name := filename }
  | .attached filename ino => { a with current := some (filename, ino) }
  | .detached => { a with current := none }
  | .wrote t line _ ok => { a with call := Function.update a.call t (some ⟨line, some ok⟩) }
  | .returned t _ => { a with call := Function.update a.call t none }

def told (log : List Event) : Told := log.foldl tell ⟨[], none, fun _ => none⟩

theorem told_snoc (log : List Event) (e : Event) : told (log ++ [e]) = tell (told log) e := by
  rw [told, List.foldl_append]
  rfl

/-- Where lines belong. -/
def Told.target (a : Told) : Target :=
  match a.current with
  | none => .stderr
  | some (filename, ino) => .file (some (.log filename ino))

/-- What may happen behind what has happened.  A file is opened under the name
    that the log has, and not before the one that was open is closed; a line is
    written once, to the file that is open, and the call tells whether it was. -/
def Lawful (before : List Event) : Event → Prop
  | .called t _ => (told before).call t = none
  | .named _ => (told before).current = none
  | .attached filename _ =>
      (told before).current = none ∧ filename = (told before).name ∧ filename ≠ []
  | .detached => (told before).current ≠ none
  | .wrote t line target _ =>
      (told before).call t = some ⟨line, none⟩ ∧ target = (told before).target
  | .returned t ret => ∃ c, (told before).call t = some c ∧ (ret = true ↔ c.wrote = some true)

variable {absolute : Text → Text} {w w' : World} {t u : Tid} {st : Stage} {l : Lock}

/-- The call that a thread is in. -/
def Stage.call : Stage → Option Call
  | .entering _ line | .checking _ line | .stamping _ line | .looking line | .leaving line
  | .upgrading _ line | .reopening _ line | .relocking line | .picking line | .sending _ line =>
      some ⟨line, none⟩
  | .outside | .configuring _ | .configured _ => none

-- ── The lock ─────────────────────────────────────────────────────────────────

/-- The lock is held as the stages say. -/
structure Locked (mutex : Lock) (stage : Tid → Stage) : Prop where
  reads : ∀ t, t ∈ mutex.readers ↔ (stage t).holds = some .read
  writes : ∀ t, mutex.writer = some t ↔ (stage t).holds = some .write
  nodup : mutex.readers.Nodup
  alone : ∀ t, mutex.writer = some t → mutex.readers = []

variable {mutex : Lock} {stage : Tid → Stage}

theorem holds_update (u : Tid) : (Function.update stage t st u).holds =
    if u = t then st.holds else (stage u).holds := by
  rw [Function.update_apply]
  split
  · rfl
  · rfl

theorem Locked.move (h : Locked mutex stage) (hst : st.holds = (stage t).holds) :
    Locked mutex (Function.update stage t st) := by
  have hsame (u : Tid) : (Function.update stage t st u).holds = (stage u).holds := by
    rw [holds_update]
    split
    next heq => rw [hst, heq]
    next => rfl
  exact ⟨fun u => (hsame u).symm ▸ h.reads u, fun u => (hsame u).symm ▸ h.writes u, h.nodup,
    h.alone⟩

theorem Locked.unlock (h : Locked mutex stage) (hst : st.holds = none) :
    Locked (mutex.unlock t) (Function.update stage t st) := by
  constructor
  case reads =>
    intro u
    rw [holds_update, Lock.unlock, h.nodup.mem_erase_iff, h.reads]
    by_cases heq : u = t
    · simp [heq, hst]
    · simp [heq]
  case writes =>
    intro u
    rw [holds_update, Lock.unlock]
    have hu := h.writes u
    grind
  case nodup => exact h.nodup.erase t
  case alone =>
    intro u hu
    rw [Lock.unlock] at hu ⊢
    dsimp only at hu ⊢
    split at hu
    · cases hu
    · rw [h.alone u hu, List.erase_nil]

theorem Locked.readerLock (h : Locked mutex stage) (hl : mutex.readerLock t = some l)
    (hholds : (stage t).holds = none) (hst : st.holds = some .read) :
    Locked l (Function.update stage t st) := by
  rw [Lock.readerLock] at hl
  split at hl
  next hfree =>
    cases hl
    have hnot : t ∉ mutex.readers := by
      rw [h.reads, hholds]
      exact fun heq => nomatch heq
    refine ⟨fun u => ?_, fun u => ?_, List.nodup_cons.mpr ⟨hnot, h.nodup⟩, fun u hu => ?_⟩
    · rw [holds_update, List.mem_cons, h.reads]
      by_cases heq : u = t
      · simp [heq, hst]
      · simp [heq]
    · rw [holds_update, h.writes]
      by_cases heq : u = t
      · simp [heq, hst, hholds]
      · simp [heq]
    · rw [hfree] at hu
      cases hu
  next => cases hl

theorem Locked.writerLock (h : Locked mutex stage) (hl : mutex.writerLock t = some l)
    (hholds : (stage t).holds = none) (hst : st.holds = some .write) :
    Locked l (Function.update stage t st) := by
  rw [Lock.writerLock] at hl
  split at hl
  next hfree =>
    cases hl
    refine ⟨fun u => ?_, fun u => ?_, h.nodup, fun _ _ => hfree.2⟩
    · rw [holds_update, h.reads]
      by_cases heq : u = t
      · simp [heq, hst, hholds]
      · simp [heq]
    · have hu := h.writes u
      rw [hfree.1] at hu
      rw [holds_update]
      grind
  next => cases hl

/-- Who holds it to write holds it alone. -/
theorem Locked.eq_of_write (h : Locked mutex stage) (ht : (stage t).holds = some .write)
    (hu : (stage u).holds ≠ none) : u = t := by
  have hwriter := (h.writes t).mpr ht
  cases hheld : (stage u).holds with
  | none => exact absurd hheld hu
  | some mode =>
      cases mode with
      | read =>
          have hmem := (h.reads u).mpr hheld
          rw [h.alone t hwriter] at hmem
          cases hmem
      | write =>
          have hwriter' := (h.writes u).mpr hheld
          rw [hwriter] at hwriter'
          exact (Option.some.inj hwriter').symm

-- ── The descriptor ───────────────────────────────────────────────────────────

/-- What is open is what was opened last and not closed, under the name of the
    log; and no other descriptor of the log is. -/
structure Filed (a : Told) (filename : Text) (fd : Option Nat) (fstat : Inode)
    (files : Table File) : Prop where
  closed : fd = none → a.current = none
  opened : ∀ n, fd = some n → ∃ f, a.current = some (f, fstat) ∧
    files.get n = some (.log f fstat)
  only : ∀ n f ino, files.get n = some (.log f ino) → fd = some n
  named : ∀ f ino, a.current = some (f, ino) → f = a.name ∧ f ≠ []
  filename : filename = a.name

/-- The calls are what the stages say, and who has read `g_fd` has read what it
    is. -/
structure Called (a : Told) (fd : Option Nat) (stage : Tid → Stage) : Prop where
  call : ∀ t, a.call t = (stage t).call
  sending : ∀ t n line, stage t = .sending n line → n = fd

structure Inv (w : World) : Prop where
  lawful : Throughout Lawful w.log
  locked : Locked w.mutex w.stage
  filed : Filed (told w.log) w.filename w.fd w.fstat w.files
  called : Called (told w.log) w.fd w.stage

theorem inv_init (h : (logger absolute).init w) : Inv w := by
  obtain ⟨hname, hfd, hmutex, hstage, hfiles, hlog⟩ := h
  refine ⟨hlog ▸ throughout_nil, ?_, ?_, ?_⟩
  · rw [hmutex]
    refine ⟨fun t => ?_, fun t => ?_, List.nodup_nil, fun t ht => nomatch ht⟩
    · rw [hstage]
      simp [Stage.holds]
    · rw [hstage]
      simp [Stage.holds]
  · refine ⟨fun _ => by rw [hlog]; rfl, fun fd hsome => ?_, fun fd f ino hget => ?_,
      fun f ino hcur => ?_, by rw [hname, hlog]; rfl⟩
    · rw [hfd] at hsome
      cases hsome
    · exact absurd hget (hfiles fd f ino)
    · rw [hlog] at hcur
      cases hcur
  · refine ⟨fun t => by rw [hlog, hstage]; rfl, fun t fd line hst => ?_⟩
    rw [hstage] at hst
    cases hst

variable {a : Told} {fd : Option Nat}

/-- A thread goes on. -/
theorem Called.move (h : Called a fd stage) (hst : st.call = (stage t).call)
    (hsend : ∀ n line, st = .sending n line → n = fd) :
    Called a fd (Function.update stage t st) := by
  constructor
  case call =>
    intro u
    rw [h.call, Function.update_apply]
    split
    next heq => rw [hst, heq]
    next => rfl
  case sending =>
    intro u n line hu
    rw [Function.update_apply] at hu
    split at hu
    next => exact hsend n line hu
    next => exact h.sending u n line hu

/-- Its call begins or ends. -/
theorem Called.update {c : Option Call} (h : Called a fd stage) (hst : st.call = c)
    (hsend : ∀ n line, st ≠ .sending n line) :
    Called { a with call := Function.update a.call t c } fd (Function.update stage t st) := by
  constructor
  case call =>
    intro u
    dsimp only
    rw [Function.update_apply, Function.update_apply]
    split
    · exact hst.symm
    · exact h.call u
  case sending =>
    intro u n line hu
    rw [Function.update_apply] at hu
    split at hu
    next => exact absurd hu (hsend n line)
    next => exact h.sending u n line hu

theorem Inv.move (h : Inv w) (hholds : st.holds = (w.stage t).holds)
    (hst : st.call = (w.stage t).call)
    (hsend : ∀ n line, st = .sending n line → n = w.fd) : Inv (w.move t st) :=
  ⟨h.lawful, h.locked.move hholds, h.filed, h.called.move hst hsend⟩

/-- A thread leaves the lock. -/
theorem Inv.moveOut (h : Inv w) (hholds : st.holds = none)
    (hst : st.call = (w.stage t).call)
    (hsend : ∀ n line, st = .sending n line → n = w.fd) : Inv (w.moveOut t st) :=
  ⟨h.lawful, h.locked.unlock hholds, h.filed, h.called.move hst hsend⟩

/-- A call comes to its end. -/
theorem Inv.outside {log : List Event} (h : Inv w) (hlawful : Throughout Lawful log)
    (htold : told log =
      { told w.log with call := Function.update (told w.log).call t none }) :
    Inv ({ w with log := log }.moveOut t .outside) := by
  have hfiled : Filed (told log) w.filename w.fd w.fstat w.files := by
    rw [htold]
    exact ⟨h.filed.closed, h.filed.opened, h.filed.only, h.filed.named, h.filed.filename⟩
  have hcalled : Called (told log) w.fd (Function.update w.stage t .outside) := by
    rw [htold]
    exact h.called.update rfl fun n line hst => nomatch hst
  exact ⟨hlawful, h.locked.unlock rfl, hfiled, hcalled⟩

-- ── With the lock held to write ──────────────────────────────────────────────

/-- Who is about to write to a descriptor keeps others from closing it. -/
theorem Inv.quiet (h : Inv w) (ht : (w.stage t).holds = some .write) (u : Tid)
    (n : Option Nat) (line : Text) : w.stage u ≠ .sending n line := by
  intro hu
  have heq := h.locked.eq_of_write ht (by rw [hu]; exact fun hnone => nomatch hnone)
  rw [heq] at hu
  rw [hu] at ht
  cases ht

theorem doProcessDetach_fd : w.doProcessDetach.fd = none := by
  rw [World.doProcessDetach]
  split
  next heq => exact heq
  next => rfl

theorem doProcessDetach_stage : w.doProcessDetach.stage = w.stage := by
  rw [World.doProcessDetach]
  split
  · rfl
  · rfl

theorem Inv.doProcessDetach (h : Inv w) (ht : (w.stage t).holds = some .write) :
    Inv w.doProcessDetach := by
  rw [World.doProcessDetach]
  split
  next => exact h
  next fd hfd =>
  obtain ⟨f, hcur, hget⟩ := h.filed.opened fd hfd
  have htold : told (w.log ++ [.detached]) = { told w.log with current := none } := told_snoc _ _
  refine ⟨throughout_snoc.mpr ⟨h.lawful, ?_⟩, h.locked, ?_, ?_⟩
  · show (told w.log).current ≠ none
    rw [hcur]
    exact fun heq => nomatch heq
  · show Filed (told (w.log ++ [.detached])) w.filename none w.fstat (w.files.close fd)
    rw [htold]
    refine ⟨fun _ => rfl, fun _ heq => (nomatch heq), fun n f ino hn => ?_,
      fun _ _ heq => (nomatch heq), h.filed.filename⟩
    rw [Table.get_close] at hn
    split at hn
    next => cases hn
    next hne =>
      have hn' := h.filed.only n f ino hn
      rw [hfd] at hn'
      exact absurd (Option.some.inj hn').symm hne
  · show Called (told (w.log ++ [.detached])) none w.stage
    rw [htold]
    exact ⟨h.called.call, fun u n line hu => absurd hu (h.quiet ht u n line)⟩

theorem Inv.doProcessAttach {filename : Text} (absolute : Text → Text) (ino : Inode) (h : Inv w)
    (ht : (w.stage t).holds = some .write) (hfd : w.fd = none) (hne : filename ≠ [])
    (hname : filename = w.filename) : Inv (w.doProcessAttach absolute filename ino) := by
  have hcur := h.filed.closed hfd
  have hname' := hname.trans h.filed.filename
  have htold : told (w.log ++ [.attached filename ino]) =
      { told w.log with current := some (filename, ino) } := told_snoc _ _
  refine ⟨throughout_snoc.mpr ⟨h.lawful, hcur, hname', hne⟩, h.locked, ?_, ?_⟩
  · show Filed (told (w.log ++ [.attached filename ino])) w.filename (some w.files.lowest)
      ino (w.files.put w.files.lowest (some (.log filename ino)))
    rw [htold]
    constructor
    case closed => exact fun heq => nomatch heq
    case opened =>
      rintro n heq
      cases heq
      exact ⟨filename, rfl, Table.get_put_self⟩
    case only =>
      intro n f ino hn
      rw [Table.get_put] at hn
      split at hn
      next heq => rw [heq]
      next =>
        have hn' := h.filed.only n f ino hn
        rw [hfd] at hn'
        cases hn'
    case named =>
      intro f ino heq
      cases heq
      exact ⟨hname', hne⟩
    case filename => exact h.filed.filename
  · show Called (told (w.log ++ [.attached filename ino])) _ w.stage
    rw [htold]
    exact ⟨h.called.call, fun u n line hu => absurd hu (h.quiet ht u n line)⟩

theorem Inv.named (filename : Text) (h : Inv w) (hfd : w.fd = none) :
    Inv { w.note (.named filename) with filename := filename } := by
  have hcur := h.filed.closed hfd
  have htold : told (w.log ++ [.named filename]) = { told w.log with name := filename } :=
    told_snoc _ _
  refine ⟨throughout_snoc.mpr ⟨h.lawful, hcur⟩, h.locked, ?_, ?_⟩
  · show Filed (told (w.log ++ [.named filename])) filename w.fd w.fstat w.files
    rw [htold]
    refine ⟨h.filed.closed, h.filed.opened, h.filed.only, fun f ino heq => ?_, rfl⟩
    dsimp only at heq
    rw [hcur] at heq
    cases heq
  · show Called (told (w.log ++ [.named filename])) w.fd w.stage
    rw [htold]
    exact ⟨h.called.call, h.called.sending⟩

-- ── Steps ────────────────────────────────────────────────────────────────────

/-- What the rest of the process opens and closes is nothing of the log. -/
theorem Inv.occupy {n : Nat} (h : Inv w) :
    Inv { w with files := w.files.put w.files.lowest (some (.other n)) } := by
  refine ⟨h.lawful, h.locked, ⟨h.filed.closed, fun fd hfd => ?_, fun fd f ino hget => ?_,
    h.filed.named, h.filed.filename⟩, h.called⟩
  · obtain ⟨f, hcur, hget⟩ := h.filed.opened fd hfd
    have hne : fd ≠ w.files.lowest := (Table.lowest_ne (by rw [hget]; rfl)).symm
    exact ⟨f, hcur, (Table.get_put_ne hne).trans hget⟩
  · dsimp only at hget
    rw [Table.get_put] at hget
    split at hget
    · cases hget
    · exact h.filed.only fd f ino hget

theorem Inv.vacate {n fd : Nat} (h : Inv w) (hfd : w.files.get fd = some (.other n)) :
    Inv { w with files := w.files.close fd } := by
  refine ⟨h.lawful, h.locked, ⟨h.filed.closed, fun fd' hfd' => ?_, fun fd' f ino hget => ?_,
    h.filed.named, h.filed.filename⟩, h.called⟩
  · obtain ⟨f, hcur, hget⟩ := h.filed.opened fd' hfd'
    have hne : fd' ≠ fd := by
      rintro rfl
      rw [hfd] at hget
      cases hget
    exact ⟨f, hcur, (Table.get_put_ne hne).trans hget⟩
  · dsimp only at hget
    rw [Table.get_close] at hget
    split at hget
    · cases hget
    · exact h.filed.only fd' f ino hget

theorem Inv.call {now : Time} {line : Text} (h : Inv w) (hst : w.stage t = .outside) :
    Inv ((w.note (.called t line)).move t (.entering now line)) := by
  have htold : told (w.log ++ [.called t line]) =
      { told w.log with call := Function.update (told w.log).call t (some ⟨line, none⟩) } :=
    told_snoc _ _
  refine ⟨throughout_snoc.mpr ⟨h.lawful, ?_⟩, h.locked.move (by rw [hst]; rfl), ?_, ?_⟩
  · show (told w.log).call t = none
    rw [h.called.call, hst]
    rfl
  · show Filed (told (w.log ++ [.called t line])) w.filename w.fd w.fstat w.files
    rw [htold]
    exact ⟨h.filed.closed, h.filed.opened, h.filed.only, h.filed.named, h.filed.filename⟩
  · show Called (told (w.log ++ [.called t line])) w.fd _
    rw [htold]
    exact h.called.update rfl fun _ _ heq => nomatch heq

theorem Inv.readerLock (h : Inv w) (hl : w.mutex.readerLock t = some l)
    (hholds : (w.stage t).holds = none) (hst : st.holds = some .read)
    (hcall : st.call = (w.stage t).call) (hsend : ∀ n line, st = .sending n line → n = w.fd) :
    Inv { w.move t st with mutex := l } :=
  ⟨h.lawful, h.locked.readerLock hl hholds hst, h.filed, h.called.move hcall hsend⟩

theorem Inv.writerLock (h : Inv w) (hl : w.mutex.writerLock t = some l)
    (hholds : (w.stage t).holds = none) (hst : st.holds = some .write)
    (hcall : st.call = (w.stage t).call) (hsend : ∀ n line, st = .sending n line → n = w.fd) :
    Inv { w.move t st with mutex := l } :=
  ⟨h.lawful, h.locked.writerLock hl hholds hst, h.filed, h.called.move hcall hsend⟩

theorem Inv.check {now : Time} {line : Text} (h : Inv w) (hst : w.stage t = .checking now line) :
    Inv (w.check t now line) := by
  rw [World.check]
  split
  · exact h.move (by rw [hst]; rfl) (by rw [hst]; rfl) fun _ _ heq => nomatch heq
  · split
    · exact h.move (by rw [hst]; rfl) (by rw [hst]; rfl) fun _ _ heq => nomatch heq
    · split
      · exact h.move (by rw [hst]; rfl) (by rw [hst]; rfl) fun _ _ heq => nomatch heq
      · exact h.move (by rw [hst]; rfl) (by rw [hst]; rfl) fun _ _ heq => nomatch heq

theorem Inv.look {line : Text} (h : Inv w) (hst : w.stage t = .looking line) :
    Inv (w.look t line) := by
  rw [World.look]
  split
  · exact h.move (by rw [hst]; rfl) (by rw [hst]; rfl) fun _ _ heq => nomatch heq
  · exact h.move (by rw [hst]; rfl) (by rw [hst]; rfl) fun _ _ heq => nomatch heq

theorem ne_nil_of_opens {filename : Text} {ino : Inode}
    (h : w.opens absolute filename ino = true) : filename ≠ [] :=
  (of_decide_eq_true h).1

theorem Inv.reopen {stated : Time} {line : Text} {r : Option Inode} (h : Inv w)
    (hst : w.stage t = .reopening stated line)
    (hw : w.reopen t absolute stated line r = some w') : Inv w' := by
  have hwrite : (w.stage t).holds = some .write := by rw [hst]; rfl
  have hdetached := h.doProcessDetach hwrite
  have hst' : w.doProcessDetach.stage t = .reopening stated line := by
    rw [doProcessDetach_stage, hst]
  rw [World.reopen] at hw
  split at hw
  next =>
    cases r with
    | none =>
        cases hw
        refine hdetached.outside (throughout_snoc.mpr ⟨hdetached.lawful, ⟨line, none⟩, ?_, ?_⟩)
          (told_snoc _ _)
        · rw [hdetached.called.call, hst']
          rfl
        · exact ⟨fun heq => (nomatch heq), fun heq => (nomatch heq)⟩
    | some ino =>
        dsimp only at hw
        split at hw
        next hopens =>
          cases hw
          have hattached := hdetached.doProcessAttach absolute ino (by rw [hst']; rfl)
            doProcessDetach_fd (ne_nil_of_opens hopens) rfl
          refine hattached.moveOut rfl ?_ fun _ _ heq => (nomatch heq)
          show _ = (w.doProcessDetach.stage t).call
          rw [hst']
          rfl
        next => cases hw
  next =>
    cases hw
    exact h.moveOut rfl (by rw [hst]; rfl) fun _ _ heq => (nomatch heq)

theorem Inv.configure {filename : Text} {r : Option Inode} (h : Inv w)
    (hst : w.stage t = .configured filename)
    (hw : w.configure t absolute filename r = some w') : Inv w' := by
  have hwrite : (w.stage t).holds = some .write := by rw [hst]; rfl
  have hdetached := h.doProcessDetach hwrite
  have hst' : w.doProcessDetach.stage t = .configured filename := by
    rw [doProcessDetach_stage, hst]
  cases r with
  | none =>
      cases hw
      refine (hdetached.named [] doProcessDetach_fd).moveOut rfl ?_ fun _ _ heq => (nomatch heq)
      show _ = (w.doProcessDetach.stage t).call
      rw [hst']
      rfl
  | some ino =>
      rw [World.configure] at hw
      dsimp only at hw
      split at hw
      next hopens =>
        cases hw
        have hnamed := hdetached.named filename doProcessDetach_fd
        have hattached := hnamed.doProcessAttach absolute ino
          (show (w.doProcessDetach.stage t).holds = _ by rw [hst']; rfl) doProcessDetach_fd
          (ne_nil_of_opens hopens) rfl
        refine hattached.moveOut rfl ?_ fun _ _ heq => (nomatch heq)
        show _ = (w.doProcessDetach.stage t).call
        rw [hst']
        rfl
      next => cases hw

theorem Inv.write {line : Text} {fd : Option Nat} {ok : Bool} (h : Inv w)
    (hst : w.stage t = .sending fd line) :
    Inv (((w.note (.wrote t line (w.target fd) ok)).note (.returned t ok)).moveOut t
      .outside) := by
  have hcall : (told w.log).call t = some ⟨line, none⟩ := by
    rw [h.called.call, hst]
    rfl
  have htarget : w.target fd = (told w.log).target := by
    rw [h.called.sending t fd line hst]
    cases hfd : w.fd with
    | none => rw [Told.target, h.filed.closed hfd]; rfl
    | some n =>
        obtain ⟨f, hcur, hget⟩ := h.filed.opened n hfd
        rw [Told.target, hcur, World.target, hget]
  have htold : told (w.note (.wrote t line (w.target fd) ok)).log =
      { told w.log with call := Function.update (told w.log).call t (some ⟨line, some ok⟩) } :=
    told_snoc _ _
  refine h.outside (throughout_snoc.mpr ⟨throughout_snoc.mpr ⟨h.lawful, hcall, htarget⟩,
    ⟨line, some ok⟩, ?_, ?_⟩) ?_
  · rw [htold]
    exact Function.update_self _ _ _
  · rw [Option.some_inj]
  · rw [told_snoc, htold]
    show Told.mk _ _ _ = _
    rw [Function.update_idem]

/-- **ONE STEP** of any thread, or of the rest of the world. -/
theorem Inv.step {a : Act} (h : Inv w) (hw : next absolute w a = some w') : Inv w' := by
  cases a with
  | pass now => cases hw; exact ⟨h.lawful, h.locked, h.filed, h.called⟩
  | rename name ino => cases hw; exact ⟨h.lawful, h.locked, h.filed, h.called⟩
  | occupy n => cases hw; exact h.occupy
  | vacate fd =>
      simp only [next] at hw
      split at hw
      next hfd => cases hw; exact h.vacate hfd
      next => cases hw
  | call t now line =>
      simp only [next] at hw
      split at hw
      next hst => cases hw; exact h.call hst
      next => cases hw
  | config t filename =>
      simp only [next] at hw
      split at hw
      next hst =>
        cases hw
        exact h.move (by rw [hst]; rfl) (by rw [hst]; rfl) fun _ _ heq => nomatch heq
      next => cases hw
  | readerLock t =>
      simp only [next] at hw
      obtain ⟨mutex, hmutex, hw⟩ := Option.bind_eq_some_iff.mp hw
      split at hw
      next hst =>
        cases hw
        exact h.readerLock hmutex (by rw [hst]; rfl) rfl (by rw [hst]; rfl)
          fun _ _ heq => nomatch heq
      next hst =>
        cases hw
        exact h.readerLock hmutex (by rw [hst]; rfl) rfl (by rw [hst]; rfl)
          fun _ _ heq => nomatch heq
      next => cases hw
  | writerLock t =>
      simp only [next] at hw
      obtain ⟨mutex, hmutex, hw⟩ := Option.bind_eq_some_iff.mp hw
      split at hw
      next hst =>
        cases hw
        exact h.writerLock hmutex (by rw [hst]; rfl) rfl (by rw [hst]; rfl)
          fun _ _ heq => nomatch heq
      next hst =>
        cases hw
        exact h.writerLock hmutex (by rw [hst]; rfl) rfl (by rw [hst]; rfl)
          fun _ _ heq => nomatch heq
      next => cases hw
  | check t =>
      simp only [next] at hw
      split at hw
      next hst => cases hw; exact h.check hst
      next => cases hw
  | stamp t =>
      simp only [next] at hw
      split at hw
      next now line hst =>
        cases hw
        have hmove : Inv (w.move t (.looking line)) :=
          h.move (by rw [hst]; rfl) (by rw [hst]; rfl) fun _ _ heq => nomatch heq
        exact ⟨hmove.lawful, hmove.locked, hmove.filed, hmove.called⟩
      next => cases hw
  | look t =>
      simp only [next] at hw
      split at hw
      next hst => cases hw; exact h.look hst
      next => cases hw
  | leave t =>
      simp only [next] at hw
      split at hw
      next hst =>
        cases hw
        exact h.moveOut rfl (by rw [hst]; rfl) fun _ _ heq => nomatch heq
      next => cases hw
  | reopen t r =>
      simp only [next] at hw
      split at hw
      next hst => exact h.reopen hst hw
      next => cases hw
  | configure t r =>
      simp only [next] at hw
      split at hw
      next hst => exact h.configure hst hw
      next => cases hw
  | pick t =>
      simp only [next] at hw
      split at hw
      next hst =>
        cases hw
        refine h.move (by rw [hst]; rfl) (by rw [hst]; rfl) fun _ _ heq => ?_
        cases heq
        rfl
      next => cases hw
  | write t ok =>
      simp only [next] at hw
      split at hw
      next hst => cases hw; exact h.write hst
      next => cases hw

theorem inv_of_reachable (h : Reachable (logger absolute) w) : Inv w :=
  h.invariant (fun _ hinit => inv_init hinit) fun _ _ _ _ hi hstep => hi.step hstep

/-- **EVERY LINE WHERE IT BELONGS**: in every run a call writes its line to the
    file that is open, or to `stderr` when none is, and it does not write it twice;
    it says whether it was written.  The log has one descriptor at most. -/
theorem lines_delivered (h : Reachable (logger absolute) w) :
    Throughout Lawful w.log ∧
      ∀ n f ino, w.files.get n = some (.log f ino) →
        w.fd = some n ∧ f = w.filename ∧ ino = w.fstat := by
  have hinv := inv_of_reachable h
  refine ⟨hinv.lawful, fun n f ino hget => ?_⟩
  have hfd := hinv.filed.only n f ino hget
  obtain ⟨f', hcur, hget'⟩ := hinv.filed.opened n hfd
  rw [hget] at hget'
  cases hget'
  exact ⟨hfd, (hinv.filed.named _ _ hcur).1.trans hinv.filed.filename.symm, rfl⟩

namespace Sample

def idle : World where
  filename := []
  fd := none
  fstat := 0
  stated := 0
  mutex := ⟨[], none⟩
  stage := fun _ => .outside
  files := ⟨[some (.other 0), some (.other 1), some (.other 2)]⟩
  names := fun _ => none
  clock := 100
  log := []

/-- A line is written, the file is moved away, and while one thread finds that it
    was another one comes. -/
def rotated : List Act :=
  [.config 0 ['l'], .writerLock 0, .configure 0 (some 7), .occupy 9,
    .call 0 101 ['a'], .readerLock 0, .check 0, .pick 0, .write 0 true,
    .rename ['l'] none, .pass 107,
    .call 0 107 ['b'], .readerLock 0, .check 0, .stamp 0, .look 0, .leave 0,
    .call 1 107 ['c'], .readerLock 1]

/-- The other one writes to the file that was moved away, and then it is opened
    anew. -/
def reopened : List Act :=
  rotated ++ [.check 1, .pick 1, .write 1 true, .writerLock 0, .reopen 0 (some 8), .readerLock 0,
    .pick 0, .write 0 true]

end Sample

theorem init_idle : (logger id).init Sample.idle := by
  refine ⟨rfl, rfl, rfl, fun _ => rfl, fun fd f ino h => ?_, rfl⟩
  match fd, h with
  | 0, h => cases h
  | 1, h => cases h
  | 2, h => cases h

theorem lines_delivered_reopened :
    ∃ w, Sample.reopened.foldlM (next id) Sample.idle = some w ∧ w.log.length = 13 ∧
      Throughout Lawful w.log ∧
      ∀ n f ino, w.files.get n = some (.log f ino) →
        w.fd = some n ∧ f = w.filename ∧ ino = w.fstat := by
  have hrun : Sample.reopened.foldlM (next id) Sample.idle = some _ := rfl
  have hreach := Reachable.follow (fun _ _ _ _ hs => hs) (.start init_idle) hrun
  exact ⟨_, hrun, rfl, lines_delivered hreach⟩

-- ── When the file has been moved away ────────────────────────────────────────

/-- Whether the file that is open was found under the name of the log since
    `g_stated` was set. -/
def found (w : World) : Act → Bool → Bool
  | .stamp _, _ => false
  | .look _, c => c || decide (w.names w.filename = some w.fstat)
  | .reopen t (some _), c =>
      match w.stage t with
      | .reopening stated _ => c || decide (stated = w.stated)
      | _ => c
  | .configure _ (some _), _ => true
  | _, c => c

/-- The thread will look, or open the file anew. -/
def Stage.Looks (stated : Time) : Stage → Prop
  | .looking _ | .leaving _ => True
  | .upgrading stated' _ | .reopening stated' _ => stated' = stated
  | _ => False

/-- Somebody has looked since `g_stated` was set, or is about to. -/
def Watched (w : World) (c : Bool) : Prop :=
  w.fd = none ∨ c = true ∨ ∃ t, (w.stage t).Looks w.stated

variable {c : Bool}

theorem move_stage : (w.move t st).stage t = st := Function.update_self _ _ _

/-- Who goes on was not about to look. -/
theorem Watched.move (h : Watched w c) (hst : ¬(w.stage t).Looks w.stated) :
    Watched (w.move t st) c := by
  refine h.imp_right fun h => h.imp_right fun ⟨u, hu⟩ => ⟨u, ?_⟩
  have hne : u ≠ t := fun heq => hst (heq ▸ hu)
  rw [show (w.move t st).stage u = w.stage u from Function.update_of_ne hne _ _]
  exact hu

theorem watched_of_looks (h : st.Looks w.stated) : Watched (w.move t st) c :=
  .inr (.inr ⟨t, by rw [move_stage]; exact h⟩)

theorem Watched.check {now : Time} {line : Text} (h : Watched w c)
    (hst : w.stage t = .checking now line) : Watched (w.check t now line) c := by
  have hlooks : ¬(w.stage t).Looks w.stated := by rw [hst]; exact id
  rw [World.check]
  split
  · exact h.move hlooks
  · split
    · exact h.move hlooks
    · split
      · exact h.move hlooks
      · exact h.move hlooks

theorem Watched.reopen {stated : Time} {line : Text} {r : Option Inode} (h : Watched w c)
    (hst : w.stage t = .reopening stated line)
    (hw : w.reopen t absolute stated line r = some w') :
    Watched w' (found w (.reopen t r) c) := by
  rw [World.reopen] at hw
  split at hw
  next heq =>
    cases r with
    | none =>
        cases hw
        exact .inl doProcessDetach_fd
    | some ino =>
        refine .inr (.inl ?_)
        simp only [found, hst, heq, decide_true, Bool.or_true]
  next hne =>
    cases hw
    have hfound : found w (.reopen t r) c = c := by
      cases r with
      | none => rfl
      | some ino => simp only [found, hst, decide_eq_false hne, Bool.or_false]
    rw [hfound]
    exact h.move (by rw [hst]; exact hne)

theorem Watched.configure {filename : Text} {r : Option Inode}
    (hw : w.configure t absolute filename r = some w') :
    Watched w' (found w (.configure t r) c) := by
  cases r with
  | none =>
      cases hw
      exact .inl doProcessDetach_fd
  | some ino => exact .inr (.inl rfl)

/-- **ONE STEP**: who stamps `g_stated` goes on to look, and a look finds the file or
    goes on to open it anew. -/
theorem Watched.step {a : Act} (h : Watched w c) (hw : next absolute w a = some w') :
    Watched w' (found w a c) := by
  cases a with
  | pass now => cases hw; exact h
  | rename name ino => cases hw; exact h
  | occupy n => cases hw; exact h
  | vacate fd =>
      simp only [next] at hw
      split at hw
      next => cases hw; exact h
      next => cases hw
  | call t now line =>
      simp only [next] at hw
      split at hw
      next hst => cases hw; exact h.move (by rw [hst]; exact id)
      next => cases hw
  | config t filename =>
      simp only [next] at hw
      split at hw
      next hst => cases hw; exact h.move (by rw [hst]; exact id)
      next => cases hw
  | readerLock t =>
      simp only [next] at hw
      obtain ⟨mutex, -, hw⟩ := Option.bind_eq_some_iff.mp hw
      split at hw
      next hst => cases hw; exact h.move (by rw [hst]; exact id)
      next hst => cases hw; exact h.move (by rw [hst]; exact id)
      next => cases hw
  | writerLock t =>
      simp only [next] at hw
      obtain ⟨mutex, -, hw⟩ := Option.bind_eq_some_iff.mp hw
      split at hw
      next stated line hst =>
        cases hw
        by_cases heq : stated = w.stated
        · exact watched_of_looks (w := w) heq
        · exact h.move (by rw [hst]; exact heq)
      next hst => cases hw; exact h.move (by rw [hst]; exact id)
      next => cases hw
  | check t =>
      simp only [next] at hw
      split at hw
      next hst => cases hw; exact h.check hst
      next => cases hw
  | stamp t =>
      simp only [next] at hw
      split at hw
      next now line hst =>
        cases hw
        refine .inr (.inr ⟨t, ?_⟩)
        show Stage.Looks now ((w.move t (.looking line)).stage t)
        rw [move_stage]
        trivial
      next => cases hw
  | look t =>
      simp only [next] at hw
      split at hw
      next line hst =>
        cases hw
        rw [World.look]
        split
        next heq => exact .inr (.inl (by simp only [found, heq, decide_true, Bool.or_true]))
        next => exact watched_of_looks trivial
      next => cases hw
  | leave t =>
      simp only [next] at hw
      split at hw
      next line hst => cases hw; exact watched_of_looks (w := w) rfl
      next => cases hw
  | reopen t r =>
      simp only [next] at hw
      split at hw
      next hst => exact h.reopen hst hw
      next => cases hw
  | configure t r =>
      simp only [next] at hw
      split at hw
      next hst => exact .configure hw
      next => cases hw
  | pick t =>
      simp only [next] at hw
      split at hw
      next hst => cases hw; exact h.move (by rw [hst]; exact id)
      next => cases hw
  | write t ok =>
      simp only [next] at hw
      split at hw
      next hst => cases hw; exact h.move (by rw [hst]; exact id)
      next => cases hw

theorem watched_of_reachable (h : Reachable ((logger absolute).record true found) (w, c)) :
    Watched w c := by
  refine Reachable.invariant (I := fun s => Watched s.1 s.2) ?_ ?_ h
  · rintro ⟨w, c⟩ ⟨⟨-, hfd, -⟩, -⟩
    exact .inl hfd
  · rintro ⟨w, c⟩ a ⟨w', c'⟩ - hi ⟨hw, rfl⟩
    exact hi.step hw

/-- **A FILE THAT WAS MOVED AWAY**: a thread writes without a look when it comes
    within five seconds of `g_stated`, and only if the file that is open was found
    under the name of the log since then, or somebody is about to look. -/
theorem moved_noticed {now : Time} {line : Text}
    (h : Reachable ((logger absolute).record true found) (w, c))
    (hst : w.stage t = .checking now line) (hfd : w.fd ≠ none)
    (hw : next absolute w (.check t) = some w') (hpick : w'.stage t = .picking line) :
    w.stated ≤ now ∧ now ≤ w.stated + 5 ∧ (c = true ∨ ∃ u, (w.stage u).Looks w.stated) := by
  have hwatched := (watched_of_reachable h).resolve_left hfd
  have hfiled := (inv_of_reachable h.of_record).filed
  have hne : w.filename ≠ [] := by
    obtain ⟨n, hn⟩ := Option.ne_none_iff_exists'.mp hfd
    obtain ⟨f, hcur, -⟩ := hfiled.opened n hn
    obtain ⟨hname, hne⟩ := hfiled.named _ _ hcur
    rw [hfiled.filename, ← hname]
    exact hne
  simp only [next, hst, Option.some.injEq] at hw
  rw [World.check, if_neg hne, if_neg hfd] at hw
  split at hw
  next =>
    cases hw
    rw [move_stage] at hpick
    cases hpick
  next hsoon =>
    rw [not_or, Int.not_lt, Int.not_lt] at hsoon
    exact ⟨hsoon.1, Int.le_add_of_sub_left_le hsoon.2, hwatched⟩

/-- A step and its record. -/
def nextFound (s : World × Bool) (a : Act) : Option (World × Bool) :=
  (next id s.1 a).map fun w => (w, found s.1 a s.2)

theorem moved_noticed_rotated :
    ∃ w c, Sample.rotated.foldlM nextFound (Sample.idle, true) = some (w, c) ∧ c = false ∧
      w.stated ≤ 107 ∧ 107 ≤ w.stated + 5 ∧
      (c = true ∨ ∃ u, (w.stage u).Looks w.stated) := by
  have hrun : Sample.rotated.foldlM nextFound (Sample.idle, true) = some (_, _) := rfl
  have hstep : ∀ a ∈ Sample.rotated, ∀ s s', nextFound s a = some s' →
      ((logger id).record true found).step s a s' := by
    intro a _ s s' hs
    obtain ⟨w, hw, rfl⟩ := Option.map_eq_some_iff.mp hs
    exact ⟨hw, rfl⟩
  have hreach := Reachable.follow hstep (.start ⟨init_idle, rfl⟩) hrun
  exact ⟨_, _, hrun, rfl, moved_noticed (t := 1) hreach rfl nofun rfl rfl⟩

end FlinterLogger
