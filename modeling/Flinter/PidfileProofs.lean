import Flinter.RunProofs
import Mathlib.Logic.Function.Basic

/-! # A file that says which process runs

    `pidfile_open` opens the file or makes it, locks it, and writes the number
    of the process into it; `pidfile_close` takes the name of the file away, if
    the name is still that of its own file, and closes it, which releases the
    lock.  Between two system calls of one process others make theirs, and a
    process may die anywhere: so a process may lock a file whose name was taken
    away after it was opened.  The name alone does not say so, and
    `pidfile_validate` does.

    `F_GETLK` does not report a lock of the process that asks, and closing any
    descriptor of a file releases what the process has locked of it.  So
    `pidfile_check` by the process that has the file answers that nobody has, and
    makes it so.

    A number stands for a file as long as somebody has it open. -/

namespace FlinterPidfile

open Runs

abbrev Pid := Nat

abbrev Inode := Nat

def PIDFILE_LENGTH : Nat := 11

/-- `snprintf` of `"%10d\n"`. -/
def format (pid : Pid) : List Char :=
  (Nat.toDigits 10 pid).leftpad 10 ' ' ++ ['\n']

/-- What a write of `buf` at the beginning leaves of a file. -/
def overwrite (buf text : List Char) : List Char := buf ++ text.drop buf.length

/-- `ftruncate`, which fills with NUL what it adds. -/
def ftruncate (n : Nat) (text : List Char) : List Char := (text.take n).rightpad n '\x00'

/-- Where a process is: in `pidfile_open` behind `open`, behind `F_SETLK`, behind
    the write, or before the `unlink` when the write has failed; having the file;
    in `pidfile_close` behind `pidfile_validate`; before a `safe_close`; and in
    `daemon_do_control_status`, in `pidfile_check` behind its `open` and before
    the `unlink` of a file that is not locked. -/
inductive Stage where
  | outside
  | opened (i : Inode)
  | locked (i : Inode)
  | written (i : Inode)
  | failing (i : Inode)
  | holding (i : Inode)
  | validated (i : Inode)
  | closing (i : Inode)
  | checking (i : Inode)
  | removing
deriving DecidableEq, Repr

/-- What the name is that of, who has which file locked, what is in them, the
    next file to be made, and the processes. -/
structure World where
  linked : Option Inode
  lock : Inode → Option Pid
  text : Inode → List Char
  fresh : Inode
  stage : Pid → Stage

/-- One system call of a process, with what it comes to where that is open. -/
inductive Call where
  | openFile (p : Pid)
  | abandon (p : Pid)
  | setLock (p : Pid)
  | write (p : Pid) (succeeds : Bool) (n : Nat)
  | unlinkFailed (p : Pid)
  | truncate (p : Pid) (succeeds : Bool)
  | validate (p : Pid)
  | beginClose (p : Pid) (succeeds : Bool)
  | unlinkOwn (p : Pid) (succeeds : Bool)
  | close (p : Pid)
  | checkOpen (p : Pid)
  | getLock (p : Pid)
  | unlinkGone (p : Pid)
  | checkAgain (p : Pid)
  | die (p : Pid)
deriving DecidableEq, Repr

namespace World

variable (w : World)

/-- A process goes on. -/
def go (p : Pid) (st : Stage) : World := { w with stage := Function.update w.stage p st }

/-- Closing a file releases what the process has locked, and so does its end. -/
def release (p : Pid) : Inode → Option Pid := fun i =>
  if w.lock i = some p then none else w.lock i

/-- `open` with `O_CREAT`. -/
def openFile (p : Pid) : World :=
  match w.linked with
  | some i => w.go p (.opened i)
  | none =>
      { w with
        linked := some w.fresh
        text := Function.update w.text w.fresh []
        fresh := w.fresh + 1
        stage := Function.update w.stage p (.opened w.fresh) }

/-- `F_SETLK` of an exclusive lock, and the close when somebody else has it. -/
def setLock (p : Pid) (i : Inode) : World :=
  match w.lock i with
  | none =>
      { w with
        lock := Function.update w.lock i (some p)
        stage := Function.update w.stage p (.locked i) }
  | some _ => w.go p .outside

/-- `lseek` and `safe_timed_write_all`; when that fails, `n` bytes are written. -/
def write (p : Pid) (i : Inode) (succeeds : Bool) (n : Nat) : World :=
  let buf := if succeeds then format p else (format p).take n
  { w with
    text := Function.update w.text i (overwrite buf (w.text i))
    stage := Function.update w.stage p (if succeeds then .written i else .failing i) }

/-- `unlink(filename)`, whatever file it is that of. -/
def unlink (p : Pid) (st : Stage) : World :=
  { w with linked := none, stage := Function.update w.stage p st }

def truncate (p : Pid) (i : Inode) (succeeds : Bool) : World :=
  if succeeds then
    { w with
      text := Function.update w.text i (ftruncate PIDFILE_LENGTH (w.text i))
      stage := Function.update w.stage p (.holding i) }
  else w.go p (.closing i)

/-- `pidfile_validate`: whether the name is that of the file that is open. -/
def pidfile_validate (i : Inode) : Bool := w.linked = some i

/-- `pidfile_close` up to its `unlink`; `fstat` or `lstat` may fail. -/
def beginClose (p : Pid) (i : Inode) (succeeds : Bool) : World :=
  w.go p (if succeeds && w.pidfile_validate i then .validated i else .closing i)

/-- `pidfile_check` of a process that has a file, and finds `i` under the name. -/
def checkAgain (p : Pid) (i : Inode) : World :=
  { w with lock := fun j => if j = i then w.release p j else w.lock j }

def close (p : Pid) : World :=
  { w with lock := w.release p, stage := Function.update w.stage p .outside }

end World

/-- A call, where it can be made.  A process opens one file at a time. -/
def next (w : World) : Call → Option World
  | .openFile p =>
      -- a number that does not fit is refused
      if w.stage p = .outside ∧ (format p).length = PIDFILE_LENGTH then some (w.openFile p)
      else none
  | .abandon p =>
      match w.stage p with
      | .opened _ => some (w.go p .outside)
      | _ => none
  | .setLock p =>
      match w.stage p with
      | .opened i => some (w.setLock p i)
      | _ => none
  | .write p succeeds n =>
      match w.stage p with
      | .locked i => some (w.write p i succeeds n)
      | _ => none
  | .unlinkFailed p =>
      match w.stage p with
      | .failing i => some (w.unlink p (.closing i))
      | _ => none
  | .truncate p succeeds =>
      match w.stage p with
      | .written i => some (w.truncate p i succeeds)
      | _ => none
  | .validate p =>
      match w.stage p with
      | .holding _ => some w
      | _ => none
  | .beginClose p succeeds =>
      match w.stage p with
      | .holding i => some (w.beginClose p i succeeds)
      | _ => none
  | .unlinkOwn p succeeds =>
      match w.stage p with
      | .validated i => some (if succeeds then w.unlink p (.closing i) else w.go p (.closing i))
      | _ => none
  | .close p =>
      match w.stage p with
      | .closing _ => some (w.close p)
      | _ => none
  | .checkOpen p =>
      if w.stage p = .outside then w.linked.map fun i => w.go p (.checking i) else none
  | .getLock p =>
      match w.stage p with
      | .checking i => some (w.go p (if w.lock i = none then .removing else .outside))
      | _ => none
  | .unlinkGone p => if w.stage p = .removing then some (w.unlink p .outside) else none
  | .checkAgain p =>
      match w.stage p with
      | .holding _ => w.linked.map fun i => w.checkAgain p i
      | _ => none
  | .die p => some (w.close p)

/-- A file may be there already, but nobody is at work. -/
def pidfiles : System World Call where
  init := fun w => (∀ p, w.stage p = .outside) ∧ (∀ i, w.lock i = none) ∧
    ∀ i, w.linked = some i → i < w.fresh
  step := fun w c w' => next w c = some w'

-- ── What is known of one process ─────────────────────────────────────────────

/-- The file that a process has open. -/
def Stage.file : Stage → Option Inode
  | .outside | .removing => none
  | .opened i | .locked i | .written i | .failing i | .holding i | .validated i
  | .closing i | .checking i => some i

/-- The file that it has locked and may write into. -/
def Stage.owns : Stage → Option Inode
  | .locked i | .written i | .failing i | .holding i | .validated i => some i
  | _ => none

/-- The file that `pidfile_open` has returned. -/
def Stage.has : Stage → Option Inode
  | .holding i | .validated i => some i
  | _ => none

/-- Before the write is through. -/
def Stage.opens : Stage → Bool
  | .opened _ | .locked _ | .written _ => true
  | _ => false

/-- What a process has done to its file is still so. -/
structure Sound (w : World) (p : Pid) : Prop where
  numbered : ∀ i, (w.stage p).file = some i → i < w.fresh
  owned : ∀ i, (w.stage p).owns = some i → w.lock i = some p
  sized : (w.stage p).opens = true → (format p).length = PIDFILE_LENGTH
  begun : ∀ i, w.stage p = .written i → ∃ rest, w.text i = format p ++ rest
  said : ∀ i, (w.stage p).has = some i → w.text i = format p

structure Ok (w : World) : Prop where
  named : ∀ i, w.linked = some i → i < w.fresh
  sound : ∀ p, Sound w p

/-- The process that makes a call. -/
def Call.pid : Call → Pid
  | .openFile p | .abandon p | .setLock p | .write p _ _ | .unlinkFailed p | .truncate p _
  | .validate p | .beginClose p _ | .unlinkOwn p _ | .close p | .checkOpen p | .getLock p
  | .unlinkGone p | .checkAgain p | .die p => p

/-- A process checks the file that it has. -/
def Drops (w : World) : Call → Prop
  | .checkAgain p => ∃ i, (w.stage p).has = some i ∧ w.linked = some i
  | _ => False

/-- The runs in which nobody does. -/
def careful : System World Call := pidfiles.restrict fun w c => ¬Drops w c

variable {w w' : World} {c : Call} {p q : Pid} {i j : Inode}

theorem file_of_owns {st : Stage} (h : st.owns = some i) : st.file = some i := by
  cases st with
  | locked | written | failing | holding | validated => exact h
  | _ => exact absurd h (by simp [Stage.owns])

theorem owns_of_has {st : Stage} (h : st.has = some i) : st.owns = some i := by
  cases st with
  | holding | validated => exact h
  | _ => exact absurd h (by simp [Stage.has])

/-- What a call leaves as it is. -/
structure Spares (w w' : World) (p : Pid) : Prop where
  stage : ∀ q, q ≠ p → w'.stage q = w.stage q
  lock : ∀ q i, q ≠ p → w.lock i = some q → w'.lock i = some q
  text : ∀ i, i < w.fresh → w.lock i ≠ some p → w'.text i = w.text i
  fresh : w.fresh ≤ w'.fresh

/-- What another process has done is still so. -/
theorem Sound.spared (h : Sound w q) (hs : Spares w w' p) (hq : q ≠ p) : Sound w' q := by
  have hstage := hs.stage q hq
  have htext : ∀ i, (w.stage q).owns = some i → w'.text i = w.text i := by
    intro i hi
    refine hs.text i (h.numbered i (file_of_owns hi)) ?_
    rw [h.owned i hi]
    exact fun heq => hq (Option.some.inj heq)
  constructor
  case numbered =>
    intro i hi
    rw [hstage] at hi
    exact Nat.lt_of_lt_of_le (h.numbered i hi) hs.fresh
  case owned =>
    intro i hi
    rw [hstage] at hi
    exact hs.lock q i hq (h.owned i hi)
  case sized =>
    rw [hstage]
    exact h.sized
  case begun =>
    intro i hi
    rw [hstage] at hi
    rw [htext i (by rw [hi]; rfl)]
    exact h.begun i hi
  case said =>
    intro i hi
    rw [hstage] at hi
    rw [htext i (owns_of_has hi)]
    exact h.said i hi

theorem spares_go (st : Stage) : Spares w (w.go p st) p where
  stage := fun _ hq => Function.update_of_ne hq ..
  lock := fun _ _ _ h => h
  text := fun _ _ _ => rfl
  fresh := Nat.le_refl _

theorem spares_unlink (st : Stage) : Spares w (w.unlink p st) p where
  stage := fun _ hq => Function.update_of_ne hq ..
  lock := fun _ _ _ h => h
  text := fun _ _ _ => rfl
  fresh := Nat.le_refl _

theorem spares_close : Spares w (w.close p) p where
  stage := fun _ hq => Function.update_of_ne hq ..
  lock := by
    intro q i hq hlock
    show w.release p i = some q
    rw [World.release, if_neg, hlock]
    rw [hlock]
    exact fun heq => hq (Option.some.inj heq)
  text := fun _ _ _ => rfl
  fresh := Nat.le_refl _

theorem spares_checkAgain : Spares w (w.checkAgain p i) p where
  stage := fun _ _ => rfl
  lock := by
    intro q j hq hlock
    show (if j = i then w.release p j else w.lock j) = some q
    split
    · exact spares_close.lock q j hq hlock
    · exact hlock
  text := fun _ _ _ => rfl
  fresh := Nat.le_refl _

theorem spares_openFile : Spares w (w.openFile p) p := by
  rw [World.openFile]
  split
  · exact spares_go _
  · constructor
    case stage => exact fun q hq => Function.update_of_ne hq ..
    case lock => exact fun _ _ _ h => h
    case text => exact fun i hi _ => Function.update_of_ne (Nat.ne_of_lt hi) ..
    case fresh => exact Nat.le_succ _

theorem spares_setLock : Spares w (w.setLock p i) p := by
  rw [World.setLock]
  split
  next hnone =>
    constructor
    case stage => exact fun q hq => Function.update_of_ne hq ..
    case lock =>
      intro q j _ hlock
      refine (Function.update_of_ne ?_ ..).trans hlock
      rintro rfl
      rw [hnone] at hlock
      exact absurd hlock.symm (Option.some_ne_none q)
    case text => exact fun _ _ _ => rfl
    case fresh => exact Nat.le_refl _
  next => exact spares_go _

/-- A file that a process has locked is written by no other. -/
theorem spares_text {text : List Char} {st : Stage} (h : w.lock i = some p) :
    Spares w { w with
      text := Function.update w.text i text
      stage := Function.update w.stage p st } p where
  stage := fun _ hq => Function.update_of_ne hq ..
  lock := fun _ _ _ h => h
  text := by
    intro j _ hj
    refine Function.update_of_ne ?_ ..
    rintro rfl
    exact hj h
  fresh := Nat.le_refl _

-- ── One step ─────────────────────────────────────────────────────────────────

/-- A call that is made, where it can be. -/
inductive Stepped (w : World) : Call → World → Prop where
  | openFile (p : Pid) (hsize : (format p).length = PIDFILE_LENGTH) :
      Stepped w (.openFile p) (w.openFile p)
  | abandon (p : Pid) : Stepped w (.abandon p) (w.go p .outside)
  | setLock (p : Pid) (i : Inode) (hstage : w.stage p = .opened i) :
      Stepped w (.setLock p) (w.setLock p i)
  | write (p : Pid) (i : Inode) (succeeds : Bool) (n : Nat) (hstage : w.stage p = .locked i) :
      Stepped w (.write p succeeds n) (w.write p i succeeds n)
  | unlinkFailed (p : Pid) (i : Inode) (hstage : w.stage p = .failing i) :
      Stepped w (.unlinkFailed p) (w.unlink p (.closing i))
  | truncate (p : Pid) (i : Inode) (succeeds : Bool) (hstage : w.stage p = .written i) :
      Stepped w (.truncate p succeeds) (w.truncate p i succeeds)
  | validate (p : Pid) (i : Inode) (hstage : w.stage p = .holding i) :
      Stepped w (.validate p) w
  | beginClose (p : Pid) (i : Inode) (succeeds : Bool) (hstage : w.stage p = .holding i) :
      Stepped w (.beginClose p succeeds) (w.beginClose p i succeeds)
  | unlinkOwn (p : Pid) (i : Inode) (hstage : w.stage p = .validated i) :
      Stepped w (.unlinkOwn p true) (w.unlink p (.closing i))
  | keepOwn (p : Pid) (i : Inode) (hstage : w.stage p = .validated i) :
      Stepped w (.unlinkOwn p false) (w.go p (.closing i))
  | close (p : Pid) : Stepped w (.close p) (w.close p)
  | checkOpen (p : Pid) (i : Inode) (hlinked : w.linked = some i) :
      Stepped w (.checkOpen p) (w.go p (.checking i))
  | getLock (p : Pid) (st : Stage) (hst : st = .removing ∨ st = .outside) :
      Stepped w (.getLock p) (w.go p st)
  | unlinkGone (p : Pid) : Stepped w (.unlinkGone p) (w.unlink p .outside)
  | checkAgain (p : Pid) (i j : Inode) (hstage : w.stage p = .holding i)
      (hlinked : w.linked = some j) : Stepped w (.checkAgain p) (w.checkAgain p j)
  | die (p : Pid) : Stepped w (.die p) (w.close p)

/-- Each call is one of these, from the stage at which it is made. -/
theorem next_cases (hs : next w c = some w') : Stepped w c w' := by
  cases c with
  | openFile p =>
      obtain ⟨⟨-, hsize⟩, hs⟩ := Option.ite_none_right_eq_some.mp hs
      obtain rfl := Option.some.inj hs
      exact .openFile p hsize
  | checkOpen p =>
      obtain ⟨-, hs⟩ := Option.ite_none_right_eq_some.mp hs
      obtain ⟨i, hlinked, rfl⟩ := Option.map_eq_some_iff.mp hs
      exact .checkOpen p i hlinked
  | unlinkGone p =>
      obtain ⟨-, hs⟩ := Option.ite_none_right_eq_some.mp hs
      obtain rfl := Option.some.inj hs
      exact .unlinkGone p
  | checkAgain p =>
      simp only [next] at hs
      split at hs
      next i hstage =>
        obtain ⟨j, hlinked, rfl⟩ := Option.map_eq_some_iff.mp hs
        exact .checkAgain p i j hstage hlinked
      next => cases hs
  | die p =>
      obtain rfl := Option.some.inj hs
      exact .die p
  | abandon p =>
      simp only [next] at hs
      split at hs
      next => exact Option.some.inj hs ▸ .abandon p
      next => cases hs
  | setLock p =>
      simp only [next] at hs
      split at hs
      next i hstage => exact Option.some.inj hs ▸ .setLock p i hstage
      next => cases hs
  | write p succeeds n =>
      simp only [next] at hs
      split at hs
      next i hstage => exact Option.some.inj hs ▸ .write p i succeeds n hstage
      next => cases hs
  | unlinkFailed p =>
      simp only [next] at hs
      split at hs
      next i hstage => exact Option.some.inj hs ▸ .unlinkFailed p i hstage
      next => cases hs
  | truncate p succeeds =>
      simp only [next] at hs
      split at hs
      next i hstage => exact Option.some.inj hs ▸ .truncate p i succeeds hstage
      next => cases hs
  | validate p =>
      simp only [next] at hs
      split at hs
      next i hstage => exact Option.some.inj hs ▸ .validate p i hstage
      next => cases hs
  | beginClose p succeeds =>
      simp only [next] at hs
      split at hs
      next i hstage => exact Option.some.inj hs ▸ .beginClose p i succeeds hstage
      next => cases hs
  | unlinkOwn p succeeds =>
      simp only [next] at hs
      split at hs
      next i hstage =>
        cases succeeds with
        | true => exact Option.some.inj hs ▸ .unlinkOwn p i hstage
        | false => exact Option.some.inj hs ▸ .keepOwn p i hstage
      next => cases hs
  | close p =>
      simp only [next] at hs
      split at hs
      next => exact Option.some.inj hs ▸ .close p
      next => cases hs
  | getLock p =>
      simp only [next] at hs
      split at hs
      next =>
        refine Option.some.inj hs ▸ .getLock p _ ?_
        split
        · exact .inl rfl
        · exact .inr rfl
      next => cases hs

/-- The files that others have are left alone. -/
theorem Ok.spares (h : Ok w) (hs : Stepped w c w') : Spares w w' c.pid := by
  cases hs with
  | openFile => exact spares_openFile
  | setLock => exact spares_setLock
  | write p i succeeds n hstage =>
      exact spares_text ((h.sound p).owned i (by rw [hstage]; rfl))
  | truncate p i succeeds hstage =>
      cases succeeds with
      | true => exact spares_text ((h.sound p).owned i (by rw [hstage]; rfl))
      | false => exact spares_go _
  | validate => exact ⟨fun _ _ => rfl, fun _ _ _ h => h, fun _ _ _ => rfl, Nat.le_refl _⟩
  | unlinkFailed => exact spares_unlink _
  | unlinkOwn => exact spares_unlink _
  | unlinkGone => exact spares_unlink _
  | close => exact spares_close
  | die => exact spares_close
  | checkAgain => exact spares_checkAgain
  | abandon => exact spares_go _
  | beginClose => exact spares_go _
  | keepOwn => exact spares_go _
  | checkOpen => exact spares_go _
  | getLock => exact spares_go _

/-- To look at a process that has come to a stage. -/
theorem sound_at (st : Stage) (hstage : w.stage p = st)
    (hfile : ∀ i, st.file = some i → i < w.fresh)
    (howns : ∀ i, st.owns = some i → w.lock i = some p)
    (hopens : st.opens = true → (format p).length = PIDFILE_LENGTH)
    (hbegun : ∀ i, st = .written i → ∃ rest, w.text i = format p ++ rest)
    (hsaid : ∀ i, st.has = some i → w.text i = format p) : Sound w p := by
  subst hstage
  exact ⟨hfile, howns, hopens, hbegun, hsaid⟩

/-- One that owns nothing has nothing more to say. -/
theorem sound_idle (st : Stage) (hstage : w.stage p = st)
    (hfile : ∀ i, st.file = some i → i < w.fresh) (howns : st.owns = none)
    (hopens : st.opens = false) : Sound w p := by
  refine sound_at st hstage hfile (fun i hi => ?_) (fun hst => ?_) (fun i hi => ?_)
    (fun i hi => ?_)
  · rw [howns] at hi
    cases hi
  · rw [hopens] at hst
    cases hst
  · rw [hi] at hopens
    cases hopens
  · rw [owns_of_has hi] at howns
    cases howns

theorem sound_outside (hstage : w.stage p = .outside) : Sound w p :=
  sound_idle .outside hstage (fun _ hi => by cases hi) rfl rfl

theorem ftruncate_format (rest : List Char) (h : (format p).length = PIDFILE_LENGTH) :
    ftruncate PIDFILE_LENGTH (format p ++ rest) = format p := by
  rw [ftruncate, ← h, List.take_left, List.rightpad, Nat.sub_self, List.replicate_zero,
    List.append_nil]

theorem Ok.sound_openFile (h : Ok w) (hsize : (format p).length = PIDFILE_LENGTH) :
    Sound (w.openFile p) p := by
  have hopened : ∃ i, (w.openFile p).stage p = .opened i ∧ i < (w.openFile p).fresh := by
    rw [World.openFile]
    split
    next i hlinked => exact ⟨i, Function.update_self .., h.named i hlinked⟩
    next => exact ⟨w.fresh, Function.update_self .., Nat.lt_succ_self _⟩
  obtain ⟨i, hstage, hi⟩ := hopened
  refine sound_at (.opened i) hstage (fun _ hj => Option.some.inj hj ▸ hi) (fun _ hj => ?_)
    (fun _ => hsize) (fun _ hj => ?_) (fun _ hj => ?_)
  · cases hj
  · cases hj
  · cases hj

theorem Sound.setLock (h : Sound w p) (hstage : w.stage p = .opened i) :
    Sound (w.setLock p i) p := by
  have hi : i < w.fresh := h.numbered i (by rw [hstage]; rfl)
  rw [World.setLock]
  split
  next =>
    refine sound_at (.locked i) (Function.update_self ..)
      (fun _ hj => Option.some.inj hj ▸ hi)
      (fun _ hj => Option.some.inj hj ▸ Function.update_self ..)
      (fun _ => h.sized (by rw [hstage]; rfl)) (fun _ hj => ?_) (fun _ hj => ?_)
    · cases hj
    · cases hj
  next => exact sound_outside (Function.update_self ..)

theorem Sound.write (h : Sound w p) (hstage : w.stage p = .locked i) (succeeds : Bool)
    (n : Nat) : Sound (w.write p i succeeds n) p := by
  have hi : i < w.fresh := h.numbered i (by rw [hstage]; rfl)
  have hlock : w.lock i = some p := h.owned i (by rw [hstage]; rfl)
  cases succeeds with
  | true =>
      refine sound_at (.written i) (Function.update_self ..)
        (fun _ hj => Option.some.inj hj ▸ hi) (fun _ hj => Option.some.inj hj ▸ hlock)
        (fun _ => h.sized (by rw [hstage]; rfl)) (fun _ hj => ?_) (fun _ hj => ?_)
      · obtain rfl := Stage.written.inj hj
        exact ⟨_, Function.update_self ..⟩
      · cases hj
  | false =>
      refine sound_at (.failing i) (Function.update_self ..)
        (fun _ hj => Option.some.inj hj ▸ hi) (fun _ hj => Option.some.inj hj ▸ hlock)
        (fun hst => ?_) (fun _ hj => ?_) (fun _ hj => ?_)
      · cases hst
      · cases hj
      · cases hj

theorem Sound.truncate (h : Sound w p) (hstage : w.stage p = .written i) (succeeds : Bool) :
    Sound (w.truncate p i succeeds) p := by
  have hi : i < w.fresh := h.numbered i (by rw [hstage]; rfl)
  cases succeeds with
  | true =>
      refine sound_at (.holding i) (Function.update_self ..)
        (fun _ hj => Option.some.inj hj ▸ hi)
        (fun _ hj => Option.some.inj hj ▸ h.owned i (by rw [hstage]; rfl))
        (fun hst => ?_) (fun _ hj => ?_) (fun _ hj => ?_)
      · cases hst
      · cases hj
      · obtain rfl := Option.some.inj hj
        obtain ⟨rest, hrest⟩ := h.begun i hstage
        refine (Function.update_self ..).trans ?_
        rw [hrest]
        exact ftruncate_format rest (h.sized (by rw [hstage]; rfl))
  | false =>
      exact sound_idle (.closing i) (Function.update_self ..)
        (fun _ hj => Option.some.inj hj ▸ hi) rfl rfl

theorem Sound.beginClose (h : Sound w p) (hstage : w.stage p = .holding i)
    (succeeds : Bool) : Sound (w.beginClose p i succeeds) p := by
  have hi : i < w.fresh := h.numbered i (by rw [hstage]; rfl)
  rw [World.beginClose]
  split
  next =>
    refine sound_at (.validated i) (Function.update_self ..)
      (fun _ hj => Option.some.inj hj ▸ hi)
      (fun _ hj => Option.some.inj hj ▸ h.owned i (by rw [hstage]; rfl))
      (fun hst => ?_) (fun _ hj => ?_)
      (fun _ hj => Option.some.inj hj ▸ h.said i (by rw [hstage]; rfl))
    · cases hst
    · cases hj
  next =>
    exact sound_idle (.closing i) (Function.update_self ..)
      (fun _ hj => Option.some.inj hj ▸ hi) rfl rfl

/-- A process that checks another file keeps the lock of its own. -/
theorem Sound.checkAgain (h : Sound w p) (hstage : w.stage p = .holding i)
    (hne : i ≠ j) : Sound (w.checkAgain p j) p := by
  refine sound_at (.holding i) hstage
    (fun _ hk => h.numbered _ (by rw [hstage]; exact hk)) (fun k hk => ?_)
    (fun hst => ?_) (fun _ hk => ?_) (fun _ hk => h.said _ (by rw [hstage]; exact hk))
  · obtain rfl := Option.some.inj hk
    exact (if_neg hne).trans (h.owned i (by rw [hstage]; rfl))
  · cases hst
  · cases hk

/-- The process that makes the call. -/
theorem Ok.sound_self (h : Ok w) (hs : Stepped w c w') (hdrops : ¬Drops w c) :
    Sound w' c.pid := by
  cases hs with
  | openFile p hsize => exact h.sound_openFile hsize
  | setLock p i hstage => exact (h.sound p).setLock hstage
  | write p i succeeds n hstage => exact (h.sound p).write hstage succeeds n
  | truncate p i succeeds hstage => exact (h.sound p).truncate hstage succeeds
  | validate p => exact h.sound p
  | beginClose p i succeeds hstage => exact (h.sound p).beginClose hstage succeeds
  | checkAgain p i j hstage hlinked =>
      refine (h.sound p).checkAgain hstage fun heq => hdrops ⟨i, ?_, heq ▸ hlinked⟩
      rw [hstage]
      rfl
  | unlinkFailed p i hstage =>
      have hi : i < w.fresh := (h.sound p).numbered i (by rw [hstage]; rfl)
      exact sound_idle (.closing i) (Function.update_self ..)
        (fun _ hj => Option.some.inj hj ▸ hi) rfl rfl
  | unlinkOwn p i hstage =>
      have hi : i < w.fresh := (h.sound p).numbered i (by rw [hstage]; rfl)
      exact sound_idle (.closing i) (Function.update_self ..)
        (fun _ hj => Option.some.inj hj ▸ hi) rfl rfl
  | keepOwn p i hstage =>
      have hi : i < w.fresh := (h.sound p).numbered i (by rw [hstage]; rfl)
      exact sound_idle (.closing i) (Function.update_self ..)
        (fun _ hj => Option.some.inj hj ▸ hi) rfl rfl
  | checkOpen p i hlinked =>
      exact sound_idle (.checking i) (Function.update_self ..)
        (fun _ hj => Option.some.inj hj ▸ h.named i hlinked) rfl rfl
  | getLock p st hst =>
      rcases hst with rfl | rfl
      · exact sound_idle .removing (Function.update_self ..) (fun _ hj => by cases hj) rfl rfl
      · exact sound_outside (Function.update_self ..)
  | abandon => exact sound_outside (Function.update_self ..)
  | unlinkGone => exact sound_outside (Function.update_self ..)
  | close => exact sound_outside (Function.update_self ..)
  | die => exact sound_outside (Function.update_self ..)

/-- The name is that of a file that was made, or of none. -/
theorem Ok.named_next (h : Ok w) (hs : Stepped w c w') :
    ∀ i, w'.linked = some i → i < w'.fresh := by
  intro i hi
  cases hs with
  | openFile p =>
      rw [World.openFile] at hi ⊢
      split at hi
      · exact h.named i hi
      · exact Option.some.inj hi ▸ Nat.lt_succ_self _
  | setLock p j =>
      rw [World.setLock] at hi ⊢
      split at hi
      · exact h.named i hi
      · exact h.named i hi
  | truncate p j succeeds =>
      cases succeeds with
      | true => exact h.named i hi
      | false => exact h.named i hi
  | unlinkFailed => cases hi
  | unlinkOwn => cases hi
  | unlinkGone => cases hi
  | _ => exact h.named i hi

theorem Ok.next (h : Ok w) (hs : Stepped w c w') (hdrops : ¬Drops w c) : Ok w' where
  named := h.named_next hs
  sound := by
    intro q
    by_cases hq : q = c.pid
    · rw [hq]
      exact h.sound_self hs hdrops
    · exact (h.sound q).spared (h.spares hs) hq

theorem ok_of_reachable (h : Reachable careful w) : Ok w := by
  refine h.invariant ?_ fun _ _ _ _ hok hs => hok.next (next_cases hs.2) hs.1
  rintro w ⟨hstage, -, hnamed⟩
  exact ⟨hnamed, fun p => sound_outside (hstage p)⟩

-- ── Who has the file ─────────────────────────────────────────────────────────

/-- A name is taken away without a look, and it is that of a file which another
    process has locked. -/
def Robs (w : World) : Call → Prop
  | .unlinkFailed p | .unlinkGone p =>
      ∃ i q, w.linked = some i ∧ w.lock i = some q ∧ q ≠ p
  | _ => False

/-- Whether a process has been told by `pidfile_validate` that the file it has
    opened last is the one with the name. -/
def noteValid (w : World) : Call → (Pid → Bool) → Pid → Bool
  | .openFile p, told => Function.update told p false
  | .validate p, told =>
      Function.update told p
        (told p || match w.stage p with
          | .holding i => w.pidfile_validate i
          | _ => false)
  | _, told => told

/-- Runs in which nobody is robbed, with what the processes were told. -/
def honest : System (World × (Pid → Bool)) Call :=
  (careful.restrict fun w c => ¬Robs w c).record (fun _ => false) noteValid

/-- A process relies on the name being that of its file. -/
def Relies (w : World) (told : Pid → Bool) (p : Pid) (i : Inode) : Prop :=
  w.stage p = .validated i ∨ (told p = true ∧ w.stage p = .holding i)

structure Kept (w : World) (told : Pid → Bool) : Prop where
  linked : ∀ p i, Relies w told p i → w.linked = some i
  untold : ∀ p, (w.stage p).opens = true → told p = false

variable {told : Pid → Bool}

theorem Relies.has (h : Relies w told p i) : (w.stage p).has = some i := by
  rcases h with h | ⟨-, h⟩
  · rw [h]
    rfl
  · rw [h]
    rfl

theorem not_relies {st : Stage} (hstage : w.stage p = st) (hst : st.has = none) :
    ¬Relies w told p i := by
  intro h
  have hhas := h.has
  rw [hstage, hst] at hhas
  cases hhas

theorem noteValid_of_ne (hq : q ≠ c.pid) : noteValid w c told q = told q := by
  cases c with
  | openFile | validate => exact Function.update_of_ne hq ..
  | _ => rfl

/-- Nobody else takes the name away from a process that relies on it. -/
theorem Kept.other (hok : Ok w) (h : Kept w told) (hs : Stepped w c w') (hrobs : ¬Robs w c)
    (hq : q ≠ c.pid) (hrelies : Relies w told q j) : w'.linked = some j := by
  have hlinked := h.linked q j hrelies
  have hlock := (hok.sound q).owned j (owns_of_has hrelies.has)
  cases hs with
  | openFile p =>
      rw [World.openFile, hlinked]
      exact hlinked
  | setLock p i =>
      rw [World.setLock]
      split
      · exact hlinked
      · exact hlinked
  | truncate p i succeeds =>
      cases succeeds with
      | true => exact hlinked
      | false => exact hlinked
  | unlinkOwn p i hstage =>
      -- the file with the name is its own, and nobody else has that one locked
      have hown := (hok.sound p).owned i (by rw [hstage]; rfl)
      rw [h.linked p i (.inl hstage)] at hlinked
      obtain rfl := Option.some.inj hlinked
      rw [hown] at hlock
      exact absurd (Option.some.inj hlock).symm hq
  | unlinkFailed p => exact absurd ⟨j, q, hlinked, hlock, hq⟩ hrobs
  | unlinkGone p => exact absurd ⟨j, q, hlinked, hlock, hq⟩ hrobs
  | _ => exact hlinked

/-- A process that makes a call relies on nothing new, other than what it sees. -/
theorem Kept.self (h : Kept w told) (hs : Stepped w c w')
    (hrelies : Relies w' (noteValid w c told) c.pid j) : w'.linked = some j := by
  cases hs with
  | validate p i hstage =>
      rcases hrelies with hst | ⟨htold, hst⟩
      · exact h.linked p j (.inl hst)
      · rw [Call.pid, hstage] at hst
        obtain rfl := Stage.holding.inj hst
        rw [Call.pid, noteValid, Function.update_self, hstage, Bool.or_eq_true] at htold
        rcases htold with htold | hvalid
        · exact h.linked p i (.inr ⟨htold, hstage⟩)
        · exact of_decide_eq_true hvalid
  | truncate p i succeeds hstage =>
      cases succeeds with
      | true =>
          have hnew : (w.truncate p i true).stage p = .holding i := Function.update_self ..
          rcases hrelies with hst | ⟨htold, -⟩
          · rw [Call.pid, hnew] at hst
            cases hst
          · exact absurd htold (Bool.eq_false_iff.mp (h.untold p (by rw [hstage]; rfl)))
      | false => exact absurd hrelies (not_relies (Function.update_self ..) rfl)
  | checkAgain p i k hstage => exact h.linked p j hrelies
  | beginClose p i succeeds hstage =>
      show (w.beginClose p i succeeds).linked = some j
      have hlinked : (w.beginClose p i succeeds).linked = w.linked := rfl
      rw [hlinked]
      by_cases hvalid : (succeeds && w.pidfile_validate i) = true
      · have hnew : (w.beginClose p i succeeds).stage p = .validated i := by
          rw [World.beginClose, if_pos hvalid]
          exact Function.update_self ..
        have hhas := hrelies.has
        rw [Call.pid, hnew] at hhas
        obtain rfl := Option.some.inj hhas
        exact of_decide_eq_true (Bool.and_eq_true_iff.mp hvalid).2
      · have hnew : (w.beginClose p i succeeds).stage p = .closing i := by
          rw [World.beginClose, if_neg hvalid]
          exact Function.update_self ..
        exact absurd hrelies (not_relies hnew rfl)
  | openFile p =>
      refine absurd hrelies ?_
      show ¬Relies (w.openFile p) _ p j
      rw [World.openFile]
      split
      · exact not_relies (Function.update_self ..) rfl
      · exact not_relies (Function.update_self ..) rfl
  | setLock p i =>
      refine absurd hrelies ?_
      show ¬Relies (w.setLock p i) _ p j
      rw [World.setLock]
      split
      · exact not_relies (Function.update_self ..) rfl
      · exact not_relies (Function.update_self ..) rfl
  | write p i succeeds n =>
      cases succeeds with
      | true => exact absurd hrelies (not_relies (Function.update_self ..) rfl)
      | false => exact absurd hrelies (not_relies (Function.update_self ..) rfl)
  | getLock p st hst =>
      rcases hst with rfl | rfl
      · exact absurd hrelies (not_relies (Function.update_self ..) rfl)
      · exact absurd hrelies (not_relies (Function.update_self ..) rfl)
  | abandon => exact absurd hrelies (not_relies (Function.update_self ..) rfl)
  | unlinkFailed => exact absurd hrelies (not_relies (Function.update_self ..) rfl)
  | unlinkOwn => exact absurd hrelies (not_relies (Function.update_self ..) rfl)
  | keepOwn => exact absurd hrelies (not_relies (Function.update_self ..) rfl)
  | close => exact absurd hrelies (not_relies (Function.update_self ..) rfl)
  | checkOpen => exact absurd hrelies (not_relies (Function.update_self ..) rfl)
  | unlinkGone => exact absurd hrelies (not_relies (Function.update_self ..) rfl)
  | die => exact absurd hrelies (not_relies (Function.update_self ..) rfl)

/-- What was told is forgotten when another file is opened. -/
theorem Kept.untold_self (h : Kept w told) (hs : Stepped w c w')
    (hopens : (w'.stage c.pid).opens = true) : noteValid w c told c.pid = false := by
  have hidle : ∀ st : Stage, w'.stage c.pid = st → st.opens = false →
      noteValid w c told c.pid = false := by
    rintro st rfl hst
    rw [hst] at hopens
    cases hopens
  cases hs with
  | openFile p => exact Function.update_self ..
  | setLock p i hstage => exact h.untold p (by rw [hstage]; rfl)
  | write p i succeeds n hstage => exact h.untold p (by rw [hstage]; rfl)
  | truncate p i succeeds hstage => exact h.untold p (by rw [hstage]; rfl)
  | validate p i hstage => exact hidle (.holding i) hstage rfl
  | checkAgain p i j hstage => exact hidle (.holding i) hstage rfl
  | beginClose p i succeeds =>
      by_cases hvalid : (succeeds && w.pidfile_validate i) = true
      · refine hidle (.validated i) ?_ rfl
        rw [Call.pid, World.beginClose, if_pos hvalid]
        exact Function.update_self ..
      · refine hidle (.closing i) ?_ rfl
        rw [Call.pid, World.beginClose, if_neg hvalid]
        exact Function.update_self ..
  | getLock p st hst =>
      rcases hst with rfl | rfl
      · exact hidle .removing (Function.update_self ..) rfl
      · exact hidle .outside (Function.update_self ..) rfl
  | abandon => exact hidle .outside (Function.update_self ..) rfl
  | unlinkFailed p i => exact hidle (.closing i) (Function.update_self ..) rfl
  | unlinkOwn p i => exact hidle (.closing i) (Function.update_self ..) rfl
  | keepOwn p i => exact hidle (.closing i) (Function.update_self ..) rfl
  | close => exact hidle .outside (Function.update_self ..) rfl
  | checkOpen p i => exact hidle (.checking i) (Function.update_self ..) rfl
  | unlinkGone => exact hidle .outside (Function.update_self ..) rfl
  | die => exact hidle .outside (Function.update_self ..) rfl

theorem Kept.next (hok : Ok w) (h : Kept w told) (hs : Stepped w c w') (hrobs : ¬Robs w c) :
    Kept w' (noteValid w c told) where
  linked := by
    intro q j hrelies
    by_cases hq : q = c.pid
    · subst hq
      exact h.self hs hrelies
    · refine h.other hok hs hrobs hq ?_
      rwa [Relies, (hok.spares hs).stage q hq, noteValid_of_ne hq] at hrelies
  untold := by
    intro q hopens
    by_cases hq : q = c.pid
    · subst hq
      exact h.untold_self hs hopens
    · rw [(hok.spares hs).stage q hq] at hopens
      rw [noteValid_of_ne hq]
      exact h.untold q hopens

theorem kept_of_reachable {x : World × (Pid → Bool)} (h : Reachable honest x) :
    Kept x.1 x.2 := by
  refine h.invariant (I := fun x => Kept x.1 x.2) ?_ ?_
  · rintro ⟨w, told⟩ ⟨⟨hstage, -, -⟩, rfl⟩
    refine ⟨fun p i hrelies => absurd hrelies (not_relies (hstage p) rfl), fun _ _ => rfl⟩
  · rintro ⟨w, told⟩ c ⟨w', told'⟩ hr ih ⟨⟨hrobs, -, hs⟩, rfl⟩
    exact ih.next (ok_of_reachable hr.of_record.of_restrict) (next_cases hs) hrobs

/-- **ONE PROCESS HAS THE FILE**: in every run in which no process checks the file
    that it has, with processes dying anywhere, at
    most one process has a file from `pidfile_open`, and its number is what the
    file says.  As long as nobody takes the name away
    without a look while another process has the file locked, a process that
    `pidfile_validate` has told so once has the named file until it closes it,
    and it is the only one that was told so. -/
theorem pidfile_exclusive :
    (∀ w, Reachable careful w → ∀ p q i, (w.stage p).has = some i →
      (w.stage q).has = some i → p = q ∧ w.text i = format p) ∧
    ∀ w told, Reachable honest (w, told) → ∀ p i, told p = true → w.stage p = .holding i →
      w.linked = some i ∧ ∀ q j, told q = true → w.stage q = .holding j → q = p := by
  refine ⟨?_, ?_⟩
  · intro w hr p q i hp hq
    have hok := ok_of_reachable hr
    have hlock := (hok.sound p).owned i (owns_of_has hp)
    rw [(hok.sound q).owned i (owns_of_has hq)] at hlock
    exact ⟨(Option.some.inj hlock).symm, (hok.sound p).said i hp⟩
  · intro w told hr p i htold hstage
    have hok := ok_of_reachable hr.of_record.of_restrict
    have hlinked := (kept_of_reachable hr).linked p i (.inr ⟨htold, hstage⟩)
    refine ⟨hlinked, fun q j htold' hstage' => ?_⟩
    have hlinked' := (kept_of_reachable hr).linked q j (.inr ⟨htold', hstage'⟩)
    rw [hlinked] at hlinked'
    obtain rfl := Option.some.inj hlinked'
    have hlock := (hok.sound p).owned i (by rw [hstage]; rfl)
    rw [(hok.sound q).owned i (by rw [hstage']; rfl)] at hlock
    exact Option.some.inj hlock

/-- Nobody is at work, and there is no file. -/
def idle : World := ⟨none, fun _ => none, fun _ => [], 0, fun _ => .outside⟩

/-- A process opens the file and is told that it is the one with the name. -/
def opening (p : Pid) : List Call :=
  [.openFile p, .setLock p, .write p true 0, .truncate p true, .validate p]

def opened : World × (Pid → Bool) :=
  ((opening 7).foldlM (fun x c => (next x.1 c).map (·, noteValid x.1 c x.2))
    (idle, fun _ => false)).getD (idle, fun _ => false)

theorem pidfile_exclusive_opened : opened.1.linked = some 0 := by
  have hrun : (opening 7).foldlM (fun x c => (next x.1 c).map (·, noteValid x.1 c x.2))
      (idle, fun _ => false) = some opened := rfl
  have hr : Reachable honest opened := by
    refine .follow ?_ (.start ⟨⟨fun _ => rfl, fun _ => rfl, fun _ hi => by cases hi⟩, rfl⟩) hrun
    rintro c hc ⟨w, told⟩ ⟨w', told'⟩ hs
    obtain ⟨w₁, hw₁, heq⟩ := Option.map_eq_some_iff.mp hs
    obtain ⟨rfl, rfl⟩ := Prod.mk.inj heq
    refine ⟨⟨fun hrobs => ?_, fun hdrops => ?_, hw₁⟩, rfl⟩
    all_goals
      simp only [opening, List.mem_cons, List.not_mem_nil, or_false] at hc
    · rcases hc with rfl | rfl | rfl | rfl | rfl <;> exact hrobs
    · rcases hc with rfl | rfl | rfl | rfl | rfl <;> exact hdrops
  exact (pidfile_exclusive.2 opened.1 opened.2 hr 7 0 rfl rfl).1

/-- Opening alone does not tell: here the first process closes the file between
    the `open` and the `F_SETLK` of the second, and a third one makes another. -/
example : ∃ w', ([.openFile 1, .setLock 1, .write 1 true 0, .truncate 1 true, .openFile 2,
    .beginClose 1 true, .unlinkOwn 1 true, .close 1, .setLock 2, .write 2 true 0,
    .truncate 2 true, .openFile 3, .setLock 3, .write 3 true 0, .truncate 3 true] :
      List Call).foldlM next idle = some w' ∧
    w'.stage 2 = .holding 0 ∧ w'.stage 3 = .holding 1 ∧ w'.linked = some 1 :=
  ⟨_, rfl, rfl, rfl, rfl⟩

/-- Nor does a process keep the file if it checks it: the second one gets it too. -/
example : ∃ w', ([.openFile 1, .setLock 1, .write 1 true 0, .truncate 1 true, .checkAgain 1,
    .openFile 2, .setLock 2, .write 2 true 0, .truncate 2 true] :
      List Call).foldlM next idle = some w' ∧
    w'.stage 1 = .holding 0 ∧ w'.stage 2 = .holding 0 :=
  ⟨_, rfl, rfl, rfl⟩

end FlinterPidfile
