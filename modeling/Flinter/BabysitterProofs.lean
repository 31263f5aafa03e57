import Flinter.RunProofs
import Flinter.MsleepProofs
import Mathlib.Tactic.Linarith

/-! # A process that looks after another

    `babysitter_spawn` forks a worker, waits for it to exit, relays to it the
    signals that it is sent itself, kills it when it does not feed the watchdog,
    and after a delay forks the next one.  Signals are blocked but in `pselect`
    and in `msleep_signal`, so a handler runs there and nowhere else; but nothing
    is blocked in a handler, so that of another signal may run in the middle of it.

    A `World` is the process with what the kernel knows of its children.
    Between two of its system calls the children go on as they like, and time
    passes.  The callbacks of the user are taken to leave the children alone. -/

namespace FlinterBabysitter

open Runs FlinterMsleep

abbrev Pid := Nat

abbrev Signum := Nat

def SIGCHLD : Signum := 17

def SIGKILL : Signum := 9

/-- `sizeof(g_signals) / sizeof(*g_signals)`. -/
def kSignals : Nat := 16

/-- The status of a child that has ended.  `other` is neither `WIFEXITED` nor
    `WIFSIGNALED`. -/
inductive Status where
  | exited (code : Nat)
  | signaled (signum : Signum) (dumped : Bool)
  | other
deriving DecidableEq, Repr

/-- What `babysitter_wait` makes of it. -/
def Status.ret : Status → Int
  | .exited 0 => 0
  | .exited _ => 1
  | .signaled _ dumped => if dumped then 2 else 1
  | .other => -1

/-- `babysitter_configure_t`, in which everything is non-negative.  `spawn` says
    whether the callback is set. -/
structure Configure where
  unconditional : Bool
  restartTimes : Nat
  normalDelay : Nat
  coredumpDelay : Nat
  watchdogTimer : Nat
  watchdogSignal : Signum
  spawn : Bool
deriving Repr

/-- The delay before the next worker. -/
def Configure.delay (cfg : Configure) (st : Status) : Nat :=
  if st.ret = 2 then cfg.coredumpDelay else cfg.normalDelay

/-- Whether a worker that ended so has a successor, if the user agrees. -/
def Configure.restarts (cfg : Configure) (st : Status) : Bool :=
  0 < st.ret || (st.ret = 0 && cfg.unconditional)

/-- The signal of the watchdog. -/
def Configure.bite (cfg : Configure) : Signum :=
  if cfg.watchdogSignal ≠ 0 then cfg.watchdogSignal else SIGKILL

/-- The ends of a pipe that `babysitter_create_pipes` makes. -/
def Configure.pipes (cfg : Configure) : Nat := if cfg.watchdogTimer = 0 then 0 else 1

/-- Where the process is: before `fork`; behind it; in `babysitter_wait` before
    `pselect`, in `babysitter_waitpid`, before `babysitter_check_watchdog`, before
    the `kill` of the watchdog, in `babysitter_relay_signals` behind some of them,
    in `babysitter_suck_fd`, and before the feeding is noted; behind
    `babysitter_wait`; in `babysitter_delay`; before `babysitter_create_pipes`;
    and at the end, in `_exit` or in a `return -1`. -/
inductive Stage where
  | forking
  | starting
  | selecting
  | waiting
  | checking
  | biting
  | relaying (i : Nat) (failed : Bool)
  | sucking (r : Bool)
  | feeding
  | ended (st : Status)
  | delaying (milliseconds : Nat)
  | piping
  | exited (success : Bool)
  | returned
deriving DecidableEq, Repr

/-- What happened, as a ghost record, with what the clock said. -/
inductive Event where
  | forked (p : Pid) (now : Int)
  | fed (now : Int)
  | queued (signum : Signum)
  | dropped (signum : Signum)
  | lost (signum : Signum)
  | relayed (p : Pid) (signum : Signum)
  | bitten (p : Pid) (signum : Signum) (now : Int)
  | reaped (p : Pid) (st : Status) (now : Int)
deriving DecidableEq, Repr

/-- The children that run and those that nobody has waited for; whether
    `SIGCHLD` is pending; the clock; the bytes in the pipe and whether nobody can
    write more; the ends of pipes that the process has open; its globals; and its
    variables.  `fd` says whether `fd` of `babysitter_wait` is not -1. -/
structure World where
  running : List Pid
  dead : List (Pid × Status)
  sigchld : Bool
  clock : Int
  unread : Nat
  hung : Bool
  readEnds : Nat
  writeEnds : Nat
  childExited : Bool
  signals : List Signum
  pid : Pid
  fd : Bool
  lastFeed : Int
  times : Nat
  stage : Stage
  log : List Event

namespace World

variable (w : World)

/-- Append to the ghost record. -/
def note (e : Event) : World := { w with log := w.log ++ [e] }

/-- `babysitter_signal_handler`. -/
def handle (signum : Signum) : World :=
  if signum = SIGCHLD then { w with childExited := true }
  else if w.signals.length = kSignals then w.note (.dropped signum)
  else { w.note (.queued signum) with signals := w.signals ++ [signum] }

/-- The handler of `inner` runs between the two halves of `g_sigtail++` in that of
    `outer`: both write to the same place, and `outer` writes last. -/
def tear (outer inner : Signum) : World :=
  { (w.note (.queued outer)).note (.lost inner) with signals := w.signals ++ [outer] }

/-- The signals that arrive where they are not blocked, one behind the other. -/
def deliver (sigs : List Signum) : World :=
  sigs.foldl handle { w with sigchld := false }

/-- A number that is no child. -/
def Unused (p : Pid) : Prop := p ∉ w.running ∧ p ∉ w.dead.map Prod.fst

instance (p : Pid) : Decidable (w.Unused p) := inferInstanceAs (Decidable (_ ∧ _))

/-- `fork`, and `safe_close(pipefd[1])` in the parent. -/
def fork (cfg : Configure) (p : Pid) : World :=
  { w.note (.forked p w.clock) with
    running := p :: w.running
    pid := p
    unread := 0
    hung := false
    writeEnds := w.writeEnds - cfg.pipes
    stage := .starting }

/-- The beginning of `babysitter_wait`. -/
def start (cfg : Configure) : World :=
  { w.note (.fed w.clock) with
    fd := cfg.pipes ≠ 0
    lastFeed := w.clock
    stage := .selecting }

/-- Behind `pselect`. -/
def selected : World :=
  if w.childExited then { w with childExited := false, stage := .waiting }
  else { w with stage := .checking }

/-- `waitpid` has said `p`. -/
def waited (p : Pid) (st : Status) : World :=
  let w' := { w with dead := w.dead.erase (p, st) }
  if p = w.pid then { w'.note (.reaped p st w.clock) with signals := [], stage := .ended st }
  else w'

/-- `babysitter_check_watchdog`. -/
def check (cfg : Configure) : World :=
  if cfg.watchdogTimer ≠ 0 ∧
      (cfg.watchdogTimer : Int) ≤ Int.tdiv (w.clock - w.lastFeed) 1000000 then
    { w with fd := false, stage := .biting }
  else { w with stage := .relaying 0 false }

/-- One turn of `babysitter_relay_signals`, or what is behind it. -/
def relay (i : Nat) (failed ok : Bool) : World :=
  match w.signals[i]? with
  | some signum =>
      { w.note (.relayed w.pid signum) with stage := .relaying (i + 1) (failed || !ok) }
  | none =>
      { w with
        signals := []
        stage := if failed then .exited false else if w.fd then .sucking false else .selecting }

/-- `babysitter_suck_fd` has found nothing more to read. -/
def sucked (r : Bool) : World :=
  if w.hung then { w with fd := false, stage := .selecting }
  else { w with stage := if r then .feeding else .selecting }

/-- `babysitter_spawn` behind `babysitter_wait`, when the callback says `ret`. -/
def finish (cfg : Configure) (st : Status) (ret : Int) : World :=
  let stage :=
    if st.ret < 0 then .exited false
    else if st.ret = 0 ∧ cfg.unconditional = false then .exited true
    else if cfg.spawn = true ∧ ret ≠ 0 then .exited true
    else .delaying (cfg.delay st)
  { w with readEnds := w.readEnds - cfg.pipes, stage := stage }

/-- `babysitter_create_pipes` was successful: `times` is counted. -/
def piped (cfg : Configure) : World :=
  let w := { w with readEnds := w.readEnds + cfg.pipes, writeEnds := w.writeEnds + cfg.pipes }
  if cfg.restartTimes = 0 then { w with stage := .forking }
  else
    { w with
      times := w.times + 1
      stage := if cfg.restartTimes < w.times + 1 then .exited false else .forking }

end World

/-- What may happen: to a child that runs, to the pipe, and to the clock; and
    what the process does, with what its system calls come to. -/
inductive Act where
  | die (p : Pid) (st : Status)
  | feed
  | hangUp
  | pass (now : Int)
  | fork (p : Pid)
  | forkFails
  | start
  | select (sigs : List Signum)
  | selectTorn (outer inner : Signum) (sigs : List Signum)
  | selectFails
  | waitpid (p : Pid)
  | waitNothing
  | waitFails
  | check
  | bite
  | relay (ok : Bool)
  | read (n : Nat)
  | readNothing
  | readFails
  | stamp
  | finish (ret : Int)
  | delayNothing
  | delay (sigs : List Signum) (naps : List Nap)
  | pipe
  | pipeFails
deriving DecidableEq, Repr

/-- An act, where it can be done. -/
def next (cfg : Configure) (w : World) : Act → Option World
  | .die p st =>
      if p ∈ w.running then
        some { w with
          running := w.running.erase p, dead := (p, st) :: w.dead, sigchld := true }
      else none
  | .feed => if w.hung then none else some { w with unread := w.unread + 1 }
  | .hangUp => some { w with hung := true }
  | .pass now => if w.clock ≤ now then some { w with clock := now } else none
  | .fork p => if w.stage = .forking ∧ w.Unused p then some (w.fork cfg p) else none
  | .forkFails =>
      if w.stage = .forking then
        some { w with
          readEnds := w.readEnds - cfg.pipes
          writeEnds := w.writeEnds - cfg.pipes
          stage := .returned }
      else none
  | .start => if w.stage = .starting then some (w.start cfg) else none
  | .select sigs =>
      -- a signal that is pending arrives
      if w.stage = .selecting ∧ (w.sigchld = true → SIGCHLD ∈ sigs) then
        some (w.deliver sigs).selected
      else none
  | .selectTorn outer inner sigs =>
      -- with one place left the handler of `outer` would write behind `g_signals`
      if w.stage = .selecting ∧ (w.sigchld = true → SIGCHLD ∈ sigs) ∧ outer ≠ SIGCHLD ∧
          inner ≠ SIGCHLD ∧ w.signals.length + 1 < kSignals then
        some ((w.tear outer inner).deliver sigs).selected
      else none
  | .selectFails =>
      if w.stage = .selecting then some { w with stage := .exited false } else none
  | .waitpid p =>
      if w.stage = .waiting then (w.dead.lookup p).map (w.waited p) else none
  | .waitNothing =>
      if w.stage = .waiting ∧ w.dead = [] then some { w with stage := .checking } else none
  | .waitFails => if w.stage = .waiting then some { w with stage := .exited false } else none
  | .check => if w.stage = .checking then some (w.check cfg) else none
  | .bite =>
      if w.stage = .biting then
        some { w.note (.bitten w.pid cfg.bite w.clock) with stage := .selecting }
      else none
  | .relay ok =>
      match w.stage with
      | .relaying i failed => some (w.relay i failed ok)
      | _ => none
  | .read n =>
      match w.stage with
      | .sucking _ =>
          if 0 < n ∧ n ≤ 128 ∧ n ≤ w.unread then
            some { w with unread := w.unread - n, stage := .sucking true }
          else none
      | _ => none
  | .readNothing =>
      match w.stage with
      | .sucking r => if w.unread = 0 then some (w.sucked r) else none
      | _ => none
  | .readFails =>
      match w.stage with
      | .sucking _ => some { w with fd := false, stage := .selecting }
      | _ => none
  | .stamp =>
      if w.stage = .feeding then
        some { w.note (.fed w.clock) with lastFeed := w.clock, stage := .selecting }
      else none
  | .finish ret =>
      match w.stage with
      | .ended st => some (w.finish cfg st ret)
      | _ => none
  | .delayNothing =>
      if w.stage = .delaying 0 then some { w with signals := [], stage := .piping } else none
  | .delay sigs naps =>
      match w.stage with
      | .delaying milliseconds =>
          if 0 < milliseconds ∧ (w.sigchld = true → SIGCHLD ∈ sigs) then
            -- the signals are dropped in any case
            (msleepSignal milliseconds false true w.clock naps).map fun (r : Return) =>
              { w.deliver sigs with
                clock := r.time
                signals := []
                stage := if r.milliseconds = 0 then .piping else .exited false }
          else none
      | _ => none
  | .pipe => if w.stage = .piping then some (w.piped cfg) else none
  | .pipeFails =>
      if w.stage = .piping then some { w with stage := .exited false } else none

/-- A sleep obeys the clock. -/
def Timely (w : World) : Act → Prop
  | .delay _ naps =>
      match w.stage with
      | .delaying milliseconds => Honest (w.clock + milliseconds * 1000000) w.clock naps
      | _ => True
  | _ => True

/-- No handler runs in the middle of another. -/
def Whole (_ : World) : Act → Prop
  | .selectTorn _ _ _ => False
  | _ => True

/-- `babysitter_spawn` behind `babysitter_initialize`.  Other children may be
    there already. -/
def babysitter (cfg : Configure) : System World Act where
  init := fun w => w.stage = .forking ∧ w.log = [] ∧ w.signals = [] ∧ w.times = 0 ∧
    w.readEnds = cfg.pipes ∧ w.writeEnds = cfg.pipes
  step := fun w a w' => Timely w a ∧ next cfg w a = some w'

-- ── What the record tells ────────────────────────────────────────────────────

/-- The worker there is: when it was seen to be fed, the signals that were queued
    for it and those that were relayed, and whether the watchdog has bitten. -/
structure Shift where
  pid : Pid
  fed : List Int
  queued : List Signum
  relayed : List Signum
  bitten : Bool
deriving DecidableEq

/-- The worker, how the last one ended and when, and how many there were. -/
structure Told where
  worker : Option Shift
  reaped : Option (Status × Int)
  forks : Nat

def tell (t : Told) : Event → Told
  | .forked p _ => { t with worker := some ⟨p, [], [], [], false⟩, forks := t.forks + 1 }
  | .fed now => { t with worker := t.worker.map fun s => { s with fed := s.fed ++ [now] } }
  | .queued signum =>
      { t with worker := t.worker.map fun s => { s with queued := s.queued ++ [signum] } }
  | .dropped _ | .lost _ => t
  | .relayed _ signum =>
      { t with worker := t.worker.map fun s => { s with relayed := s.relayed ++ [signum] } }
  | .bitten _ _ _ => { t with worker := t.worker.map fun s => { s with bitten := true } }
  | .reaped _ st now => { t with worker := none, reaped := some (st, now) }

def told (log : List Event) : Told := log.foldl tell ⟨none, none, 0⟩

theorem told_snoc (log : List Event) (e : Event) : told (log ++ [e]) = tell (told log) e := by
  rw [told, List.foldl_append]
  rfl

/-- What may happen behind what has happened.  A worker comes when there is none,
    after one that has a successor and after its delay, and it is not one restart
    too many; signals go to the worker, each once and in order, and are dropped
    when sixteen wait; and the watchdog bites a worker that was not seen to be
    fed for its time. -/
def Lawful (cfg : Configure) (before : List Event) : Event → Prop
  | .forked _ now =>
      (told before).worker = none ∧
      (∀ st t, (told before).reaped = some (st, t) →
        cfg.restarts st = true ∧ t + cfg.delay st * 1000000 ≤ now) ∧
      (cfg.restartTimes ≠ 0 → (told before).forks ≤ cfg.restartTimes)
  | .fed _ => True
  | .queued _ => True
  | .dropped _ => ∀ s, (told before).worker = some s →
      s.queued.length = s.relayed.length + kSignals
  | .lost _ => False
  | .relayed p signum => ∃ s, (told before).worker = some s ∧ s.pid = p ∧
      s.relayed ++ [signum] <+: s.queued
  | .bitten p signum now => ∃ s, (told before).worker = some s ∧ s.pid = p ∧
      signum = cfg.bite ∧ cfg.watchdogTimer ≠ 0 ∧ s.fed ≠ [] ∧
      ∀ t ∈ s.fed, t + cfg.watchdogTimer * 1000000 ≤ now
  | .reaped p _ _ => ∃ s, (told before).worker = some s ∧ s.pid = p

variable {cfg : Configure} {w w' : World} {a : Act} {p : Pid} {s : Shift}

/-- A child that nobody has waited for. -/
def World.Child (w : World) (p : Pid) : Prop := p ∈ w.running ∨ p ∈ w.dead.map Prod.fst

/-- The signals that are still to be relayed. -/
def World.pending (w : World) : List Signum :=
  match w.stage with
  | .relaying i _ => w.signals.drop i
  | _ => w.signals

/-- There is no worker. -/
def Idle (w : World) : Prop := (told w.log).worker = none

/-- The last worker has a successor, and its delay is over. -/
def Rested (cfg : Configure) (w : World) : Prop :=
  ∀ st t, (told w.log).reaped = some (st, t) →
    cfg.restarts st = true ∧ t + cfg.delay st * 1000000 ≤ w.clock

/-- `times` counts all workers but `n`. -/
def Counted (cfg : Configure) (w : World) (n : Nat) : Prop :=
  cfg.restartTimes ≠ 0 → (told w.log).forks = w.times + n ∧ w.times ≤ cfg.restartTimes

/-- The ends of pipes that are open. -/
def Ends (w : World) (r wr : Nat) : Prop := w.readEnds = r ∧ w.writeEnds = wr

/-- The worker is the child that the process waits for. -/
structure Watches (w : World) (s : Shift) : Prop where
  worker : (told w.log).worker = some s
  pid : s.pid = w.pid
  child : w.Child w.pid
  awake : w.pid ∈ w.dead.map Prod.fst → w.sigchld = true ∨ w.stage = .waiting
  relayed : s.relayed ++ w.pending = s.queued
  fed : ∀ t ∈ s.fed, t ≤ w.lastFeed

/-- In `babysitter_wait`, with what is known besides. -/
def Watched (cfg : Configure) (w : World) (also : Shift → Prop) : Prop :=
  ∃ s, Watches w s ∧ s.fed ≠ [] ∧ w.lastFeed ≤ w.clock ∧ also s ∧ Counted cfg w 1 ∧
    Ends w cfg.pipes 0

/-- What is known at each stage. -/
def Place (cfg : Configure) (w : World) : Stage → Prop
  | .forking => Idle w ∧ Rested cfg w ∧ Counted cfg w 0 ∧ w.signals = [] ∧
      Ends w cfg.pipes cfg.pipes
  | .starting => ∃ s, Watches w s ∧ s.fed = [] ∧ w.signals = [] ∧ Counted cfg w 1 ∧
      Ends w cfg.pipes 0
  | .selecting => Watched cfg w fun s => s.bitten = false → w.signals = []
  | .waiting | .checking | .relaying _ _ => Watched cfg w fun _ => True
  | .biting => Watched cfg w fun _ => cfg.watchdogTimer ≠ 0 ∧
      w.lastFeed + cfg.watchdogTimer * 1000000 ≤ w.clock
  | .sucking _ | .feeding => Watched cfg w fun _ => w.signals = []
  | .ended st => Idle w ∧ (∃ t, (told w.log).reaped = some (st, t) ∧ t ≤ w.clock) ∧
      Counted cfg w 1 ∧ Ends w cfg.pipes 0
  | .delaying milliseconds => Idle w ∧
      (∃ st t, (told w.log).reaped = some (st, t) ∧ t ≤ w.clock ∧
        cfg.restarts st = true ∧ milliseconds = cfg.delay st) ∧
      Counted cfg w 1 ∧ Ends w 0 0
  | .piping => Idle w ∧ Rested cfg w ∧ Counted cfg w 1 ∧ w.signals = [] ∧ Ends w 0 0
  | .exited true => Idle w ∧ Ends w 0 0
  | .exited false => (∀ s, (told w.log).worker = some s →
      w.Child s.pid ∧ s.relayed <+: s.queued) ∧ w.readEnds ≤ cfg.pipes ∧
      w.writeEnds ≤ cfg.pipes
  | .returned => Idle w ∧ Ends w 0 0

structure Ok (cfg : Configure) (w : World) : Prop where
  lawful : Throughout (Lawful cfg) w.log
  place : Place cfg w w.stage

-- ── The children go on ───────────────────────────────────────────────────────

/-- What the children and the clock may do between two system calls. -/
structure Later (w w' : World) : Prop where
  log : w'.log = w.log
  signals : w'.signals = w.signals
  stage : w'.stage = w.stage
  pid : w'.pid = w.pid
  lastFeed : w'.lastFeed = w.lastFeed
  times : w'.times = w.times
  readEnds : w'.readEnds = w.readEnds
  writeEnds : w'.writeEnds = w.writeEnds
  clock : w.clock ≤ w'.clock
  child : ∀ p, w.Child p → w'.Child p
  awake : ∀ p, (p ∈ w.dead.map Prod.fst → w.sigchld = true ∨ w.stage = .waiting) →
    p ∈ w'.dead.map Prod.fst → w'.sigchld = true ∨ w.stage = .waiting

theorem Later.pending (h : Later w w') : w'.pending = w.pending := by
  rw [World.pending, World.pending, h.stage, h.signals]

theorem Later.idle (h : Later w w') (hw : Idle w) : Idle w' := by
  rw [Idle, h.log]
  exact hw

theorem Later.rested (h : Later w w') (hw : Rested cfg w) : Rested cfg w' := by
  intro st t ht
  rw [h.log] at ht
  exact ⟨(hw st t ht).1, (hw st t ht).2.trans h.clock⟩

theorem Later.counted {n : Nat} (h : Later w w') (hw : Counted cfg w n) :
    Counted cfg w' n := by
  rw [Counted, h.log, h.times]
  exact hw

theorem Later.ends {r wr : Nat} (h : Later w w') (hw : Ends w r wr) : Ends w' r wr :=
  ⟨h.readEnds.trans hw.1, h.writeEnds.trans hw.2⟩

theorem Later.watches (h : Later w w') (hw : Watches w s) : Watches w' s where
  worker := h.log ▸ hw.worker
  pid := hw.pid.trans h.pid.symm
  child := h.pid ▸ h.child _ hw.child
  awake := by
    rw [h.pid, h.stage]
    exact h.awake _ hw.awake
  relayed := h.pending ▸ hw.relayed
  fed := h.lastFeed ▸ hw.fed

theorem Later.watched {also also' : Shift → Prop} (h : Later w w')
    (himp : ∀ s, also s → also' s) (hw : Watched cfg w also) : Watched cfg w' also' := by
  obtain ⟨s, hs, hfed, hlast, halso, hcount, hends⟩ := hw
  exact ⟨s, h.watches hs, hfed, (h.lastFeed ▸ hlast).trans h.clock, himp s halso,
    h.counted hcount, h.ends hends⟩

theorem Later.place (h : Later w w') : ∀ {st : Stage}, Place cfg w st → Place cfg w' st
  | .forking, ⟨hidle, hrest, hcount, hsig, hends⟩ =>
      ⟨h.idle hidle, h.rested hrest, h.counted hcount, h.signals.trans hsig, h.ends hends⟩
  | .starting, ⟨s, hs, hfed, hsig, hcount, hends⟩ =>
      ⟨s, h.watches hs, hfed, h.signals.trans hsig, h.counted hcount, h.ends hends⟩
  | .selecting, hw => h.watched (fun _ hs hb => h.signals.trans (hs hb)) hw
  | .waiting, hw => h.watched (fun _ => id) hw
  | .checking, hw => h.watched (fun _ => id) hw
  | .relaying _ _, hw => h.watched (fun _ => id) hw
  | .biting, hw => h.watched (fun _ hs => ⟨hs.1, (h.lastFeed ▸ hs.2).trans h.clock⟩) hw
  | .sucking _, hw => h.watched (fun _ hs => h.signals.trans hs) hw
  | .feeding, hw => h.watched (fun _ hs => h.signals.trans hs) hw
  | .ended _, ⟨hidle, ⟨t, ht, hle⟩, hcount, hends⟩ =>
      ⟨h.idle hidle, ⟨t, h.log ▸ ht, hle.trans h.clock⟩, h.counted hcount, h.ends hends⟩
  | .delaying _, ⟨hidle, ⟨st, t, ht, hle, hrest⟩, hcount, hends⟩ =>
      ⟨h.idle hidle, ⟨st, t, h.log ▸ ht, hle.trans h.clock, hrest⟩, h.counted hcount,
        h.ends hends⟩
  | .piping, ⟨hidle, hrest, hcount, hsig, hends⟩ =>
      ⟨h.idle hidle, h.rested hrest, h.counted hcount, h.signals.trans hsig, h.ends hends⟩
  | .exited true, ⟨hidle, hends⟩ => ⟨h.idle hidle, h.ends hends⟩
  | .exited false, ⟨hleft, hr, hwr⟩ =>
      ⟨fun s hs => ⟨h.child _ (hleft s (h.log ▸ hs)).1, (hleft s (h.log ▸ hs)).2⟩,
        h.readEnds ▸ hr, h.writeEnds ▸ hwr⟩
  | .returned, ⟨hidle, hends⟩ => ⟨h.idle hidle, h.ends hends⟩

theorem Ok.later (h : Ok cfg w) (hl : Later w w') : Ok cfg w' where
  lawful := hl.log ▸ h.lawful
  place := hl.stage ▸ hl.place h.place

theorem later_die {st : Status} : Later w { w with
    running := w.running.erase p, dead := (p, st) :: w.dead, sigchld := true } where
  log := rfl
  signals := rfl
  stage := rfl
  pid := rfl
  lastFeed := rfl
  times := rfl
  readEnds := rfl
  writeEnds := rfl
  clock := le_refl _
  child := by
    intro q hq
    by_cases heq : q = p
    · exact .inr (heq ▸ List.mem_cons_self)
    · rcases hq with hq | hq
      · exact .inl ((List.mem_erase_of_ne heq).mpr hq)
      · exact .inr (List.mem_cons_of_mem _ hq)
  awake := fun _ _ _ => .inl rfl

theorem later_pass {now : Int} {unread : Nat} {hung : Bool} (h : w.clock ≤ now) :
    Later w { w with clock := now, unread := unread, hung := hung } :=
  ⟨rfl, rfl, rfl, rfl, rfl, rfl, rfl, rfl, h, fun _ => id, fun _ => id⟩

-- ── Signals arrive ───────────────────────────────────────────────────────────

/-- A worker without the signals that were queued for it. -/
def Shift.bare (s : Shift) : Shift := { s with queued := [] }

/-- What a handler leaves as it is. -/
structure Aside (w w' : World) : Prop where
  running : w'.running = w.running
  dead : w'.dead = w.dead
  clock : w'.clock = w.clock
  pid : w'.pid = w.pid
  lastFeed : w'.lastFeed = w.lastFeed
  times : w'.times = w.times
  stage : w'.stage = w.stage
  readEnds : w'.readEnds = w.readEnds
  writeEnds : w'.writeEnds = w.writeEnds
  reaped : (told w'.log).reaped = (told w.log).reaped
  forks : (told w'.log).forks = (told w.log).forks
  worker : (told w'.log).worker.map Shift.bare = (told w.log).worker.map Shift.bare

theorem Aside.refl (w : World) : Aside w w :=
  ⟨rfl, rfl, rfl, rfl, rfl, rfl, rfl, rfl, rfl, rfl, rfl, rfl⟩

theorem Aside.trans {w₁ w₂ w₃ : World} (h : Aside w₁ w₂) (h' : Aside w₂ w₃) :
    Aside w₁ w₃ where
  running := h'.running.trans h.running
  dead := h'.dead.trans h.dead
  clock := h'.clock.trans h.clock
  pid := h'.pid.trans h.pid
  lastFeed := h'.lastFeed.trans h.lastFeed
  times := h'.times.trans h.times
  stage := h'.stage.trans h.stage
  readEnds := h'.readEnds.trans h.readEnds
  writeEnds := h'.writeEnds.trans h.writeEnds
  reaped := h'.reaped.trans h.reaped
  forks := h'.forks.trans h.forks
  worker := h'.worker.trans h.worker

/-- The queue is what has not been relayed. -/
def Kept (w : World) : Prop :=
  ∀ s, (told w.log).worker = some s → s.relayed ++ w.signals = s.queued

/-- A queue that is in order, on a lawful record. -/
structure Sane (cfg : Configure) (w : World) : Prop where
  kept : Kept w
  lawful : Throughout (Lawful cfg) w.log

theorem aside_log {exited : Bool} {signals : List Signum} {log : List Event}
    (hreaped : (told log).reaped = (told w.log).reaped)
    (hforks : (told log).forks = (told w.log).forks)
    (hworker : (told log).worker.map Shift.bare = (told w.log).worker.map Shift.bare) :
    Aside w { w with childExited := exited, signals := signals, log := log } :=
  ⟨rfl, rfl, rfl, rfl, rfl, rfl, rfl, rfl, rfl, hreaped, hforks, hworker⟩

theorem handle_aside (w : World) (signum : Signum) : Aside w (w.handle signum) := by
  rw [World.handle]
  split
  · exact aside_log rfl rfl rfl
  split
  · have htold : told (w.log ++ [.dropped signum]) = told w.log := told_snoc ..
    exact aside_log (by rw [htold]) (by rw [htold]) (by rw [htold])
  · have htold : told (w.note (.queued signum)).log = _ := told_snoc ..
    refine aside_log (by rw [htold]; rfl) (by rw [htold]; rfl) ?_
    rw [htold, tell, Option.map_map]
    rfl

theorem handle_sane (h : Sane cfg w) (signum : Signum) : Sane cfg (w.handle signum) := by
  rw [World.handle]
  split
  · exact ⟨h.kept, h.lawful⟩
  split
  next hfull =>
    constructor
    case kept =>
      intro s hs
      refine h.kept s ?_
      rwa [World.note, told_snoc] at hs
    case lawful =>
      refine throughout_snoc.mpr ⟨h.lawful, fun s hs => ?_⟩
      rw [← h.kept s hs, List.length_append, hfull]
  next =>
    constructor
    case kept =>
      intro s hs
      have hs' : (told (w.log ++ [.queued signum])).worker = some s := hs
      rw [told_snoc] at hs'
      obtain ⟨s₀, hs₀, rfl⟩ := Option.map_eq_some_iff.mp hs'
      show s₀.relayed ++ (w.signals ++ [signum]) = s₀.queued ++ [signum]
      rw [← h.kept s₀ hs₀, List.append_assoc]
    case lawful => exact throughout_snoc.mpr ⟨h.lawful, trivial⟩

theorem handle_childExited (w : World) (signum : Signum)
    (h : w.childExited = true ∨ signum = SIGCHLD) : (w.handle signum).childExited = true := by
  rw [World.handle]
  split
  · rfl
  next hne =>
    have hw : w.childExited = true := h.resolve_right hne
    split
    · exact hw
    · exact hw

/-- The handlers of all signals that arrive. -/
theorem deliver_spec (sigs : List Signum) (h : Sane cfg w) :
    Aside w (sigs.foldl World.handle w) ∧ Sane cfg (sigs.foldl World.handle w) ∧
    ((w.childExited = true ∨ SIGCHLD ∈ sigs) →
      (sigs.foldl World.handle w).childExited = true) := by
  induction sigs generalizing w with
  | nil => exact ⟨.refl w, h, fun hor => hor.resolve_right List.not_mem_nil⟩
  | cons signum sigs ih =>
      obtain ⟨haside, hsane, hexited⟩ := ih (handle_sane h signum)
      refine ⟨(handle_aside w signum).trans haside, hsane, fun hor => hexited ?_⟩
      rcases hor with hw | hmem
      · exact .inl (handle_childExited w signum (.inl hw))
      · rcases List.mem_cons.mp hmem with heq | hmem
        · exact .inl (handle_childExited w signum (.inr heq.symm))
        · exact .inr hmem

-- ── One step in babysitter_wait ──────────────────────────────────────────────

/-- Going on, with nothing told. -/
theorem Watches.go {fd : Bool} {unread : Nat} {signals : List Signum} {st : Stage}
    (h : Watches w s) (hst : w.stage ≠ .waiting)
    (hpending : { w with fd := fd, unread := unread, signals := signals, stage := st }.pending =
      w.pending) :
    Watches { w with fd := fd, unread := unread, signals := signals, stage := st } s where
  worker := h.worker
  pid := h.pid
  child := h.child
  awake := fun hdead => .inl ((h.awake hdead).resolve_right hst)
  relayed := by
    rw [hpending]
    exact h.relayed
  fed := h.fed

theorem Watched.go {fd : Bool} {unread : Nat} {signals : List Signum} {st : Stage}
    {also also' : Shift → Prop} (h : Watched cfg w also) (hst : w.stage ≠ .waiting)
    (hpending : { w with fd := fd, unread := unread, signals := signals, stage := st }.pending =
      w.pending) (himp : ∀ s, also s → also' s) :
    Watched cfg { w with fd := fd, unread := unread, signals := signals, stage := st } also' := by
  obtain ⟨s, hs, hfed, hlast, halso, hcount, hends⟩ := h
  exact ⟨s, hs.go hst hpending, hfed, hlast, himp s halso, hcount, hends⟩

/-- What is left behind when the process exits. -/
theorem Watched.exit {also : Shift → Prop} (h : Watched cfg w also) :
    Place cfg w (.exited false) := by
  obtain ⟨s, hs, -, -, -, -, hends⟩ := h
  refine ⟨fun s' hs' => ?_, hends.1.le, hends.2.le.trans (Nat.zero_le _)⟩
  obtain rfl := Option.some.inj (hs.worker.symm.trans hs')
  exact ⟨hs.pid ▸ hs.child, _, hs.relayed⟩

theorem Ok.fork (h : Ok cfg w) (hst : w.stage = .forking) (hp : w.Unused p) :
    Ok cfg (w.fork cfg p) := by
  have hplace := h.place
  rw [hst] at hplace
  obtain ⟨hidle, hrest, hcount, hsig, hends⟩ := hplace
  have htold : told (w.fork cfg p).log = _ := told_snoc ..
  constructor
  case lawful =>
    exact throughout_snoc.mpr
      ⟨h.lawful, hidle, hrest, fun hne => (hcount hne).1.le.trans (hcount hne).2⟩
  case place =>
    refine ⟨⟨p, [], [], [], false⟩, ?_, rfl, hsig, fun hne => ?_, hends.1, ?_⟩
    · constructor
      case worker => rw [htold]; rfl
      case pid => rfl
      case child => exact .inl List.mem_cons_self
      case awake => exact fun hdead => absurd hdead hp.2
      case relayed => exact hsig
      case fed => exact fun t ht => absurd ht List.not_mem_nil
    · rw [htold]
      exact ⟨congrArg Nat.succ (hcount hne).1, (hcount hne).2⟩
    · show w.writeEnds - cfg.pipes = 0
      rw [hends.2, Nat.sub_self]

theorem Ok.forkFails (h : Ok cfg w) (hst : w.stage = .forking) :
    Ok cfg { w with
      readEnds := w.readEnds - cfg.pipes
      writeEnds := w.writeEnds - cfg.pipes
      stage := .returned } := by
  have hplace := h.place
  rw [hst] at hplace
  obtain ⟨hidle, -, -, -, hr, hwr⟩ := hplace
  refine ⟨h.lawful, hidle, ?_, ?_⟩
  · show w.readEnds - cfg.pipes = 0
    rw [hr, Nat.sub_self]
  · show w.writeEnds - cfg.pipes = 0
    rw [hwr, Nat.sub_self]

theorem Ok.start (h : Ok cfg w) (hst : w.stage = .starting) : Ok cfg (w.start cfg) := by
  have hplace := h.place
  rw [hst] at hplace
  obtain ⟨s, hs, hfed, hsig, hcount, hends⟩ := hplace
  have htold : told (w.start cfg).log = _ := told_snoc ..
  refine ⟨throughout_snoc.mpr ⟨h.lawful, trivial⟩, { s with fed := [w.clock] }, ?_,
    List.cons_ne_nil _ _, le_refl _, fun _ => hsig, ?_, hends⟩
  · constructor
    case worker =>
      rw [htold, tell, hs.worker, Option.map_some, hfed]
      rfl
    case pid => exact hs.pid
    case child => exact hs.child
    case awake =>
      exact fun hdead => .inl ((hs.awake hdead).resolve_right (by rw [hst]; nofun))
    case relayed =>
      have hrelayed := hs.relayed
      rw [World.pending, hst] at hrelayed
      exact hrelayed
    case fed =>
      intro t ht
      exact (List.mem_singleton.mp ht).le
  · intro hne
    rw [htold]
    exact hcount hne

/-- A queue that is in order, when nothing of it is being relayed. -/
theorem Watches.kept (h : Watches w s) (hpending : w.pending = w.signals) : Kept w := by
  intro s' hs'
  obtain rfl := Option.some.inj (h.worker.symm.trans hs')
  rw [← hpending]
  exact h.relayed

theorem Ok.select {sigs : List Signum} (h : Ok cfg w) (hst : w.stage = .selecting)
    (hsigs : w.sigchld = true → SIGCHLD ∈ sigs) : Ok cfg (w.deliver sigs).selected := by
  have hplace := h.place
  rw [hst] at hplace
  obtain ⟨s, hs, hfed, hlast, -, hcount, hends⟩ := hplace
  have hsane : Sane cfg { w with sigchld := false } :=
    ⟨hs.kept (by rw [World.pending, hst]), h.lawful⟩
  obtain ⟨haside, hsane', hexited⟩ := deliver_spec sigs hsane
  have hworker := haside.worker
  rw [show (told w.log).worker = some s from hs.worker, Option.map_some] at hworker
  obtain ⟨s', hs', hbare⟩ := Option.map_eq_some_iff.mp hworker
  obtain ⟨hpid, hfed', -⟩ := Shift.mk.inj hbare
  have hrelayed : s'.relayed ++ (w.deliver sigs).signals = s'.queued := hsane'.kept s' hs'
  have hcount' : Counted cfg (w.deliver sigs) 1 := by
    intro hne
    rw [World.deliver, haside.forks, haside.times]
    exact hcount hne
  have hends' : Ends (w.deliver sigs) cfg.pipes 0 :=
    ⟨haside.readEnds.trans hends.1, haside.writeEnds.trans hends.2⟩
  have hchild : (w.deliver sigs).Child (w.deliver sigs).pid := by
    rw [World.Child, World.deliver, haside.running, haside.dead, haside.pid]
    exact hs.child
  have hdead : (w.deliver sigs).pid ∈ (w.deliver sigs).dead.map Prod.fst →
      (w.deliver sigs).childExited = true := by
    intro hmem
    rw [World.deliver, haside.dead, haside.pid] at hmem
    exact hexited (.inr (hsigs ((hs.awake hmem).resolve_right (by rw [hst]; nofun))))
  have hlate : (∀ t ∈ s'.fed, t ≤ (w.deliver sigs).lastFeed) ∧
      (w.deliver sigs).lastFeed ≤ (w.deliver sigs).clock := by
    rw [World.deliver, haside.lastFeed, haside.clock, hfed']
    exact ⟨hs.fed, hlast⟩
  have hpid' : s'.pid = (w.deliver sigs).pid := (hpid.trans hs.pid).trans haside.pid.symm
  rw [World.selected]
  split
  next =>
    exact ⟨hsane'.lawful, s', ⟨hs', hpid', hchild, fun _ => .inr rfl, hrelayed, hlate.1⟩,
      hfed' ▸ hfed, hlate.2, trivial, hcount', hends'⟩
  next hnot =>
    exact ⟨hsane'.lawful, s', ⟨hs', hpid', hchild, fun hmem => absurd (hdead hmem) hnot,
      hrelayed, hlate.1⟩, hfed' ▸ hfed, hlate.2, trivial, hcount', hends'⟩

theorem Ok.watched {also : Shift → Prop} {st : Stage} (h : Ok cfg w) (hst : w.stage = st)
    (hplace : Place cfg w st = Watched cfg w also) : Watched cfg w also := by
  rw [← hplace, ← hst]
  exact h.place

/-- A worker was waited for, or another child was. -/
theorem Ok.waited (h : Ok cfg w) (hst : w.stage = .waiting) (st : Status) :
    Ok cfg (w.waited p st) := by
  obtain ⟨s, hs, hfed, hlast, -, hcount, hends⟩ := h.watched hst rfl
  rw [World.waited]
  split
  next heq =>
    have htold : told (w.log ++ [.reaped p st w.clock]) = _ := told_snoc ..
    refine ⟨throughout_snoc.mpr ⟨h.lawful, s, hs.worker, hs.pid.trans heq.symm⟩, ?_⟩
    refine ⟨congrArg Told.worker htold, ⟨w.clock, congrArg Told.reaped htold, le_refl _⟩,
      fun hne => ?_, hends⟩
    exact ⟨(congrArg Told.forks htold).trans (hcount hne).1, (hcount hne).2⟩
  next hne =>
    have hrelayed := hs.relayed
    rw [World.pending, hst] at hrelayed
    refine ⟨h.lawful, ?_⟩
    show Place cfg _ w.stage
    rw [hst]
    refine ⟨s, ⟨hs.worker, hs.pid, ?_, fun _ => .inr rfl, hrelayed, hs.fed⟩, hfed, hlast,
      trivial, hcount, hends⟩
    rcases hs.child with hrun | hdead
    · exact .inl hrun
    · obtain ⟨⟨q, st'⟩, hmem, hq⟩ := List.mem_map.mp hdead
      have hother : (q, st') ≠ (p, st) :=
        fun heq => hne ((Prod.mk.inj heq).1.symm.trans hq)
      exact .inr (List.mem_map.mpr ⟨(q, st'), (List.mem_erase_of_ne hother).mpr hmem, hq⟩)

theorem Ok.waitNothing (h : Ok cfg w) (hst : w.stage = .waiting) (hdead : w.dead = []) :
    Ok cfg { w with stage := .checking } := by
  obtain ⟨s, hs, hfed, hlast, -, hcount, hends⟩ := h.watched hst rfl
  have hrelayed := hs.relayed
  rw [World.pending, hst] at hrelayed
  refine ⟨h.lawful, s, ⟨hs.worker, hs.pid, hs.child, fun hmem => ?_, hrelayed, hs.fed⟩, hfed,
    hlast, trivial, hcount, hends⟩
  have hnone : w.pid ∈ ([] : List (Pid × Status)).map Prod.fst := hdead ▸ hmem
  exact absurd hnone List.not_mem_nil

/-- The worker has not been seen to be fed for the time of the watchdog. -/
theorem starved {timer : Nat} {last now : Int} (hle : last ≤ now)
    (h : (timer : Int) ≤ Int.tdiv (now - last) 1000000) : last + timer * 1000000 ≤ now := by
  rw [Int.tdiv_eq_ediv_of_nonneg (Int.sub_nonneg.mpr hle)] at h
  have hmul := (Int.le_ediv_iff_mul_le (by decide : (0 : Int) < 1000000)).mp h
  omega

theorem Ok.check (h : Ok cfg w) (hst : w.stage = .checking) : Ok cfg (w.check cfg) := by
  have hw := h.watched hst rfl
  have hne : w.stage ≠ .waiting := by
    rw [hst]
    nofun
  have hpending : w.pending = w.signals := by rw [World.pending, hst]
  rw [World.check]
  split
  next hover =>
    obtain ⟨s, hs, hfed, hlast, -, hcount, hends⟩ := hw
    exact ⟨h.lawful, s, hs.go hne hpending.symm, hfed, hlast,
      ⟨hover.1, starved hlast hover.2⟩, hcount, hends⟩
  next => exact ⟨h.lawful, hw.go hne hpending.symm fun _ => id⟩

theorem Ok.bite (h : Ok cfg w) (hst : w.stage = .biting) :
    Ok cfg { w.note (.bitten w.pid cfg.bite w.clock) with stage := .selecting } := by
  obtain ⟨s, hs, hfed, hlast, ⟨htimer, hover⟩, hcount, hends⟩ := h.watched hst rfl
  have htold : told (w.log ++ [.bitten w.pid cfg.bite w.clock]) = _ := told_snoc ..
  have hrelayed := hs.relayed
  rw [World.pending, hst] at hrelayed
  refine ⟨throughout_snoc.mpr ⟨h.lawful, s, hs.worker, hs.pid, rfl, htimer, hfed, ?_⟩,
    { s with bitten := true }, ⟨?_, hs.pid, hs.child, ?_, hrelayed, hs.fed⟩, hfed, hlast, ?_,
    ?_, hends⟩
  · intro t ht
    have hle := hs.fed t ht
    omega
  · refine (congrArg Told.worker htold).trans ?_
    rw [tell, hs.worker]
    rfl
  · exact fun hdead => .inl ((hs.awake hdead).resolve_right (by rw [hst]; nofun))
  · intro hb
    cases hb
  · exact fun hne => ⟨(congrArg Told.forks htold).trans (hcount hne).1, (hcount hne).2⟩

/-- A signal of the queue goes to the worker, or the queue is through. -/
theorem Ok.relay {i : Nat} {failed ok : Bool} (h : Ok cfg w)
    (hst : w.stage = .relaying i failed) : Ok cfg (w.relay i failed ok) := by
  have hw := h.watched hst rfl
  have hne : w.stage ≠ .waiting := by
    rw [hst]
    nofun
  have hpending : w.pending = w.signals.drop i := by rw [World.pending, hst]
  rw [World.relay]
  split
  next signum hget =>
    obtain ⟨s, hs, hfed, hlast, -, hcount, hends⟩ := hw
    obtain ⟨hi, hsignum⟩ := List.getElem?_eq_some_iff.mp hget
    have htold : told (w.log ++ [.relayed w.pid signum]) = _ := told_snoc ..
    have hrelayed : s.relayed ++ [signum] ++ w.signals.drop (i + 1) = s.queued := by
      rw [← hs.relayed, hpending, List.drop_eq_getElem_cons hi, hsignum, List.append_assoc]
      rfl
    refine ⟨throughout_snoc.mpr ⟨h.lawful, s, hs.worker, hs.pid, _, hrelayed⟩,
      { s with relayed := s.relayed ++ [signum] },
      ⟨?_, hs.pid, hs.child, ?_, hrelayed, hs.fed⟩, hfed, hlast, trivial, ?_, hends⟩
    · refine (congrArg Told.worker htold).trans ?_
      rw [tell, hs.worker]
      rfl
    · exact fun hdead => .inl ((hs.awake hdead).resolve_right hne)
    · exact fun hne => ⟨(congrArg Told.forks htold).trans (hcount hne).1, (hcount hne).2⟩
  next hget =>
    have hempty : w.pending = [] := by
      rw [hpending]
      exact List.drop_eq_nil_of_le (List.getElem?_eq_none_iff.mp hget)
    refine ⟨h.lawful, ?_⟩
    dsimp only
    split
    · exact hw.exit
    split
    · exact hw.go hne hempty.symm fun _ _ => rfl
    · exact hw.go hne hempty.symm fun _ _ _ => rfl

theorem Ok.sucked {r : Bool} (h : Ok cfg w) (hst : w.stage = .sucking r) :
    Ok cfg (w.sucked r) := by
  have hw := h.watched hst rfl
  have hne : w.stage ≠ .waiting := by
    rw [hst]
    nofun
  have hpending : w.pending = w.signals := by rw [World.pending, hst]
  rw [World.sucked]
  split
  · exact ⟨h.lawful, hw.go hne hpending.symm fun _ hs _ => hs⟩
  · refine ⟨h.lawful, ?_⟩
    dsimp only
    split
    · exact hw.go hne hpending.symm fun _ => id
    · exact hw.go hne hpending.symm fun _ hs _ => hs

theorem Ok.stamp (h : Ok cfg w) (hst : w.stage = .feeding) :
    Ok cfg { w.note (.fed w.clock) with lastFeed := w.clock, stage := .selecting } := by
  obtain ⟨s, hs, hfed, hlast, hsig, hcount, hends⟩ := h.watched hst rfl
  have htold : told (w.log ++ [.fed w.clock]) = _ := told_snoc ..
  have hrelayed := hs.relayed
  rw [World.pending, hst] at hrelayed
  refine ⟨throughout_snoc.mpr ⟨h.lawful, trivial⟩, { s with fed := s.fed ++ [w.clock] },
    ⟨?_, hs.pid, hs.child, ?_, hrelayed, ?_⟩, List.append_ne_nil_of_right_ne_nil _
    (List.cons_ne_nil _ _), le_refl _, fun _ => hsig, ?_, hends⟩
  · refine (congrArg Told.worker htold).trans ?_
    rw [tell, hs.worker]
    rfl
  · exact fun hdead => .inl ((hs.awake hdead).resolve_right (by rw [hst]; nofun))
  · intro t ht
    rcases List.mem_append.mp ht with ht | ht
    · exact (hs.fed t ht).trans hlast
    · exact (List.mem_singleton.mp ht).le
  · exact fun hne => ⟨(congrArg Told.forks htold).trans (hcount hne).1, (hcount hne).2⟩

-- ── One step between two workers ─────────────────────────────────────────────

/-- With no worker, nothing is left behind. -/
theorem Idle.exit (h : Idle w) (hr : w.readEnds ≤ cfg.pipes) (hwr : w.writeEnds ≤ cfg.pipes) :
    Place cfg w (.exited false) := by
  refine ⟨fun s hs => ?_, hr, hwr⟩
  rw [h] at hs
  cases hs

theorem Ok.finish {st : Status} {ret : Int} (h : Ok cfg w) (hst : w.stage = .ended st) :
    Ok cfg (w.finish cfg st ret) := by
  have hplace := h.place
  rw [hst] at hplace
  obtain ⟨hidle, ⟨t, ht, hle⟩, hcount, hr, hwr⟩ := hplace
  have hends : w.readEnds - cfg.pipes = 0 := by rw [hr, Nat.sub_self]
  refine ⟨h.lawful, ?_⟩
  rw [World.finish]
  dsimp only
  split
  · exact Idle.exit hidle (hends.le.trans (Nat.zero_le _)) (hwr.le.trans (Nat.zero_le _))
  split
  · exact ⟨hidle, hends, hwr⟩
  split
  · exact ⟨hidle, hends, hwr⟩
  next hneg hzero _ =>
    refine ⟨hidle, ⟨st, t, ht, hle, ?_, rfl⟩, hcount, hends, hwr⟩
    rw [Configure.restarts]
    rcases (Int.not_lt.mp hneg).lt_or_eq with hpos | heq
    · rw [decide_eq_true hpos]
      rfl
    · have hagain : cfg.unconditional = true :=
        Bool.eq_true_of_not_eq_false fun hfalse => hzero ⟨heq.symm, hfalse⟩
      rw [← heq, hagain]
      rfl

theorem Ok.delayNothing (h : Ok cfg w) (hst : w.stage = .delaying 0) :
    Ok cfg { w with signals := [], stage := .piping } := by
  have hplace := h.place
  rw [hst] at hplace
  obtain ⟨hidle, ⟨st, t, ht, hle, hagain, hdelay⟩, hcount, hends⟩ := hplace
  refine ⟨h.lawful, hidle, ?_, hcount, rfl, hends⟩
  intro st' t' ht'
  obtain ⟨rfl, rfl⟩ := Prod.mk.inj (Option.some.inj (ht.symm.trans ht'))
  refine ⟨hagain, ?_⟩
  rw [← hdelay]
  exact (Int.add_zero t).le.trans hle

theorem Ok.delay {sigs : List Signum} {naps : List Nap} {milliseconds : Nat} {r : Return}
    (h : Ok cfg w) (hst : w.stage = .delaying milliseconds) (hpos : 0 < milliseconds)
    (hnaps : Honest (w.clock + milliseconds * 1000000) w.clock naps)
    (hr : msleepSignal milliseconds false true w.clock naps = some r) :
    Ok cfg { w.deliver sigs with
      clock := r.time
      signals := []
      stage := if r.milliseconds = 0 then .piping else .exited false } := by
  have hplace := h.place
  rw [hst] at hplace
  obtain ⟨hidle, ⟨st, t, ht, hle, hagain, hdelay⟩, hcount, hends⟩ := hplace
  have hsane : Sane cfg { w with sigchld := false } := by
    refine ⟨fun s hs => ?_, h.lawful⟩
    rw [show (told w.log).worker = none from hidle] at hs
    cases hs
  obtain ⟨haside, hsane', -⟩ := deliver_spec sigs hsane
  have hidle' : Idle (w.deliver sigs) := by
    have hworker := haside.worker
    rw [show (told w.log).worker = none from hidle] at hworker
    exact Option.map_eq_none_iff.mp hworker
  have hends' : Ends (w.deliver sigs) 0 0 :=
    ⟨haside.readEnds.trans hends.1, haside.writeEnds.trans hends.2⟩
  refine ⟨hsane'.lawful, ?_⟩
  dsimp only
  split
  next hzero =>
    have htime := (msleep_not_early (Int.natCast_pos.mpr hpos) hnaps hr).1 hzero
    refine ⟨hidle', fun st' t' ht' => ?_, fun hne => ?_, rfl, hends'⟩
    · have hreaped : (told w.log).reaped = some (st', t') := haside.reaped.symm.trans ht'
      obtain ⟨rfl, rfl⟩ := Prod.mk.inj (Option.some.inj (ht.symm.trans hreaped))
      refine ⟨hagain, ?_⟩
      rw [← hdelay]
      exact (add_le_add_left hle _).trans htime
    · refine ⟨haside.forks.trans ((hcount hne).1.trans ?_), haside.times.le.trans (hcount hne).2⟩
      exact congrArg (· + 1) haside.times.symm
  next =>
    exact Idle.exit hidle' (hends'.1.le.trans (Nat.zero_le _)) (hends'.2.le.trans (Nat.zero_le _))

theorem Ok.piped (h : Ok cfg w) (hst : w.stage = .piping) : Ok cfg (w.piped cfg) := by
  have hplace := h.place
  rw [hst] at hplace
  obtain ⟨hidle, hrest, hcount, hsig, hr, hwr⟩ := hplace
  have hends : w.readEnds + cfg.pipes = cfg.pipes ∧ w.writeEnds + cfg.pipes = cfg.pipes := by
    rw [hr, hwr, Nat.zero_add]
    exact ⟨rfl, rfl⟩
  rw [World.piped]
  dsimp only
  split
  next hzero => exact ⟨h.lawful, hidle, hrest, fun hne => absurd hzero hne, hsig, hends⟩
  next hne =>
    refine ⟨h.lawful, ?_⟩
    dsimp only
    split
    · exact Idle.exit hidle hends.1.le hends.2.le
    next hmore =>
      exact ⟨hidle, hrest, fun _ => ⟨(hcount hne).1, Nat.not_lt.mp hmore⟩, hsig, hends⟩

theorem Ok.pipeFails (h : Ok cfg w) (hst : w.stage = .piping) :
    Ok cfg { w with stage := .exited false } := by
  have hplace := h.place
  rw [hst] at hplace
  obtain ⟨hidle, -, -, -, hr, hwr⟩ := hplace
  exact ⟨h.lawful, Idle.exit hidle (hr.le.trans (Nat.zero_le _)) (hwr.le.trans (Nat.zero_le _))⟩

-- ── One step ─────────────────────────────────────────────────────────────────

/-- An act that can be done. -/
inductive Stepped (cfg : Configure) (w : World) : Act → World → Prop where
  | later (a : Act) (w' : World) (hl : Later w w') : Stepped cfg w a w'
  | fork (p : Pid) (hst : w.stage = .forking) (hp : w.Unused p) :
      Stepped cfg w (.fork p) (w.fork cfg p)
  | forkFails (hst : w.stage = .forking) :
      Stepped cfg w .forkFails { w with
        readEnds := w.readEnds - cfg.pipes
        writeEnds := w.writeEnds - cfg.pipes
        stage := .returned }
  | start (hst : w.stage = .starting) : Stepped cfg w .start (w.start cfg)
  | select (sigs : List Signum) (hst : w.stage = .selecting)
      (hsigs : w.sigchld = true → SIGCHLD ∈ sigs) :
      Stepped cfg w (.select sigs) (w.deliver sigs).selected
  | selectFails (hst : w.stage = .selecting) :
      Stepped cfg w .selectFails { w with stage := .exited false }
  | waitpid (p : Pid) (st : Status) (hst : w.stage = .waiting) :
      Stepped cfg w (.waitpid p) (w.waited p st)
  | waitNothing (hst : w.stage = .waiting) (hdead : w.dead = []) :
      Stepped cfg w .waitNothing { w with stage := .checking }
  | waitFails (hst : w.stage = .waiting) :
      Stepped cfg w .waitFails { w with stage := .exited false }
  | check (hst : w.stage = .checking) : Stepped cfg w .check (w.check cfg)
  | bite (hst : w.stage = .biting) :
      Stepped cfg w .bite
        { w.note (.bitten w.pid cfg.bite w.clock) with stage := .selecting }
  | relay (i : Nat) (failed ok : Bool) (hst : w.stage = .relaying i failed) :
      Stepped cfg w (.relay ok) (w.relay i failed ok)
  | read (n : Nat) (r : Bool) (hst : w.stage = .sucking r) :
      Stepped cfg w (.read n) { w with unread := w.unread - n, stage := .sucking true }
  | readNothing (r : Bool) (hst : w.stage = .sucking r) :
      Stepped cfg w .readNothing (w.sucked r)
  | readFails (r : Bool) (hst : w.stage = .sucking r) :
      Stepped cfg w .readFails { w with fd := false, stage := .selecting }
  | stamp (hst : w.stage = .feeding) :
      Stepped cfg w .stamp
        { w.note (.fed w.clock) with lastFeed := w.clock, stage := .selecting }
  | finish (st : Status) (ret : Int) (hst : w.stage = .ended st) :
      Stepped cfg w (.finish ret) (w.finish cfg st ret)
  | delayNothing (hst : w.stage = .delaying 0) :
      Stepped cfg w .delayNothing { w with signals := [], stage := .piping }
  | delay (sigs : List Signum) (naps : List Nap) (milliseconds : Nat) (r : Return)
      (hst : w.stage = .delaying milliseconds) (hpos : 0 < milliseconds)
      (hr : msleepSignal milliseconds false true w.clock naps = some r) :
      Stepped cfg w (.delay sigs naps)
        { w.deliver sigs with
          clock := r.time
          signals := []
          stage := if r.milliseconds = 0 then .piping else .exited false }
  | pipe (hst : w.stage = .piping) : Stepped cfg w .pipe (w.piped cfg)
  | pipeFails (hst : w.stage = .piping) :
      Stepped cfg w .pipeFails { w with stage := .exited false }

/-- Each act is one of these, from the stage at which it is done. -/
theorem next_cases (hwhole : Whole w a) (hs : next cfg w a = some w') :
    Stepped cfg w a w' := by
  cases a with
  | die p st =>
      obtain ⟨-, hs⟩ := Option.ite_none_right_eq_some.mp hs
      exact Option.some.inj hs ▸ .later _ _ later_die
  | feed =>
      obtain ⟨-, hs⟩ := Option.ite_none_left_eq_some.mp hs
      exact Option.some.inj hs ▸ .later _ _ (later_pass (le_refl _))
  | hangUp => exact Option.some.inj hs ▸ .later _ _ (later_pass (le_refl _))
  | pass now =>
      obtain ⟨hle, hs⟩ := Option.ite_none_right_eq_some.mp hs
      exact Option.some.inj hs ▸ .later _ _ (later_pass hle)
  | fork p =>
      obtain ⟨⟨hst, hp⟩, hs⟩ := Option.ite_none_right_eq_some.mp hs
      exact Option.some.inj hs ▸ .fork p hst hp
  | forkFails =>
      obtain ⟨hst, hs⟩ := Option.ite_none_right_eq_some.mp hs
      exact Option.some.inj hs ▸ .forkFails hst
  | start =>
      obtain ⟨hst, hs⟩ := Option.ite_none_right_eq_some.mp hs
      exact Option.some.inj hs ▸ .start hst
  | select sigs =>
      obtain ⟨⟨hst, hsigs⟩, hs⟩ := Option.ite_none_right_eq_some.mp hs
      exact Option.some.inj hs ▸ .select sigs hst hsigs
  | selectTorn outer inner sigs => exact hwhole.elim
  | selectFails =>
      obtain ⟨hst, hs⟩ := Option.ite_none_right_eq_some.mp hs
      exact Option.some.inj hs ▸ .selectFails hst
  | waitpid p =>
      obtain ⟨hst, hs⟩ := Option.ite_none_right_eq_some.mp hs
      obtain ⟨st, -, rfl⟩ := Option.map_eq_some_iff.mp hs
      exact .waitpid p st hst
  | waitNothing =>
      obtain ⟨⟨hst, hdead⟩, hs⟩ := Option.ite_none_right_eq_some.mp hs
      exact Option.some.inj hs ▸ .waitNothing hst hdead
  | waitFails =>
      obtain ⟨hst, hs⟩ := Option.ite_none_right_eq_some.mp hs
      exact Option.some.inj hs ▸ .waitFails hst
  | check =>
      obtain ⟨hst, hs⟩ := Option.ite_none_right_eq_some.mp hs
      exact Option.some.inj hs ▸ .check hst
  | bite =>
      obtain ⟨hst, hs⟩ := Option.ite_none_right_eq_some.mp hs
      exact Option.some.inj hs ▸ .bite hst
  | relay ok =>
      simp only [next] at hs
      split at hs
      next i failed hst => exact Option.some.inj hs ▸ .relay i failed ok hst
      next => cases hs
  | read n =>
      simp only [next] at hs
      split at hs
      next r hst =>
        obtain ⟨-, hs⟩ := Option.ite_none_right_eq_some.mp hs
        exact Option.some.inj hs ▸ .read n r hst
      next => cases hs
  | readNothing =>
      simp only [next] at hs
      split at hs
      next r hst =>
        obtain ⟨-, hs⟩ := Option.ite_none_right_eq_some.mp hs
        exact Option.some.inj hs ▸ .readNothing r hst
      next => cases hs
  | readFails =>
      simp only [next] at hs
      split at hs
      next r hst => exact Option.some.inj hs ▸ .readFails r hst
      next => cases hs
  | stamp =>
      obtain ⟨hst, hs⟩ := Option.ite_none_right_eq_some.mp hs
      exact Option.some.inj hs ▸ .stamp hst
  | finish ret =>
      simp only [next] at hs
      split at hs
      next st hst => exact Option.some.inj hs ▸ .finish st ret hst
      next => cases hs
  | delayNothing =>
      obtain ⟨hst, hs⟩ := Option.ite_none_right_eq_some.mp hs
      exact Option.some.inj hs ▸ .delayNothing hst
  | delay sigs naps =>
      simp only [next] at hs
      split at hs
      next milliseconds hst =>
        obtain ⟨⟨hpos, -⟩, hs⟩ := Option.ite_none_right_eq_some.mp hs
        obtain ⟨r, hr, rfl⟩ := Option.map_eq_some_iff.mp hs
        exact .delay sigs naps milliseconds r hst hpos hr
      next => cases hs
  | pipe =>
      obtain ⟨hst, hs⟩ := Option.ite_none_right_eq_some.mp hs
      exact Option.some.inj hs ▸ .pipe hst
  | pipeFails =>
      obtain ⟨hst, hs⟩ := Option.ite_none_right_eq_some.mp hs
      exact Option.some.inj hs ▸ .pipeFails hst

theorem Ok.next (h : Ok cfg w) (ht : Timely w a) (hs : Stepped cfg w a w') : Ok cfg w' := by
  cases hs with
  | later _ _ hl => exact h.later hl
  | fork p hst hp => exact h.fork hst hp
  | forkFails hst => exact h.forkFails hst
  | start hst => exact h.start hst
  | select sigs hst hsigs => exact h.select hst hsigs
  | selectFails hst => exact ⟨h.lawful, (h.watched hst rfl).exit⟩
  | waitpid p st hst => exact h.waited hst st
  | waitNothing hst hdead => exact h.waitNothing hst hdead
  | waitFails hst => exact ⟨h.lawful, (h.watched hst rfl).exit⟩
  | check hst => exact h.check hst
  | bite hst => exact h.bite hst
  | relay i failed ok hst => exact h.relay hst
  | read n r hst =>
      have hpending : w.pending = w.signals := by rw [World.pending, hst]
      exact ⟨h.lawful, (h.watched hst rfl).go (by rw [hst]; nofun) hpending.symm fun _ => id⟩
  | readNothing r hst => exact h.sucked hst
  | readFails r hst =>
      have hpending : w.pending = w.signals := by rw [World.pending, hst]
      exact ⟨h.lawful,
        (h.watched hst rfl).go (by rw [hst]; nofun) hpending.symm fun _ hsig _ => hsig⟩
  | stamp hst => exact h.stamp hst
  | finish st ret hst => exact h.finish hst
  | delayNothing hst => exact h.delayNothing hst
  | delay sigs naps milliseconds r hst hpos hr =>
      refine h.delay hst hpos ?_ hr
      rw [Timely, hst] at ht
      exact ht
  | pipe hst => exact h.piped hst
  | pipeFails hst => exact h.pipeFails hst

theorem ok_of_reachable (h : Reachable ((babysitter cfg).restrict Whole) w) :
    Ok cfg w := by
  refine h.invariant ?_ fun _ _ _ _ hok hs => hok.next hs.2.1 (next_cases hs.1 hs.2.2)
  rintro w ⟨hst, hlog, hsig, htimes, hends⟩
  refine ⟨hlog ▸ throughout_nil, ?_⟩
  rw [hst]
  refine ⟨?_, fun st t ht => ?_, fun _ => ⟨?_, ?_⟩, hsig, hends⟩
  · rw [Idle, hlog]
    rfl
  · rw [hlog] at ht
    cases ht
  · rw [hlog, htimes]
    rfl
  · rw [htimes]
    exact Nat.zero_le _

-- ── Every run ────────────────────────────────────────────────────────────────

/-- In `pselect` there is a worker, which has been sent every signal that was
    queued unless the watchdog has bitten it; its pipe is not kept open for
    writing, and when it is dead a signal is on its way. -/
structure Sleeping (w : World) (s : Shift) : Prop where
  worker : (told w.log).worker = some s
  relayed : s.bitten = false → s.relayed = s.queued
  closed : w.writeEnds = 0
  awake : s.pid ∈ w.dead.map Prod.fst → w.sigchld = true

/-- A worker is a child as long as it is told of, so no `kill` hits a number that
    means somebody else; the record is lawful; and a successful exit leaves no
    worker behind. -/
structure Supervised (cfg : Configure) (w : World) : Prop where
  lawful : Throughout (Lawful cfg) w.log
  child : ∀ s, (told w.log).worker = some s → w.Child s.pid
  relayed : ∀ s, (told w.log).worker = some s → s.relayed <+: s.queued
  sleeping : w.stage = .selecting → ∃ s, Sleeping w s
  alone : w.stage = .exited true → (told w.log).worker = none
  ends : w.readEnds ≤ cfg.pipes ∧ w.writeEnds ≤ cfg.pipes

/-- What would be left behind at any stage. -/
theorem Place.exit : ∀ {st : Stage}, Place cfg w st → Place cfg w (.exited false)
  | .forking, ⟨hidle, _, _, _, hr, hwr⟩ => hidle.exit hr.le hwr.le
  | .starting, ⟨s, hs, _, _, _, hr, hwr⟩ => by
      refine ⟨fun s' hs' => ?_, hr.le, hwr.le.trans (Nat.zero_le _)⟩
      obtain rfl := Option.some.inj (hs.worker.symm.trans hs')
      exact ⟨hs.pid ▸ hs.child, _, hs.relayed⟩
  | .selecting, h => Watched.exit h
  | .waiting, h => Watched.exit h
  | .checking, h => Watched.exit h
  | .relaying _ _, h => Watched.exit h
  | .biting, h => Watched.exit h
  | .sucking _, h => Watched.exit h
  | .feeding, h => Watched.exit h
  | .ended _, ⟨hidle, _, _, hr, hwr⟩ => hidle.exit hr.le (hwr.le.trans (Nat.zero_le _))
  | .delaying _, ⟨hidle, _, _, hr, hwr⟩ =>
      hidle.exit (hr.le.trans (Nat.zero_le _)) (hwr.le.trans (Nat.zero_le _))
  | .piping, ⟨hidle, _, _, _, hr, hwr⟩ =>
      hidle.exit (hr.le.trans (Nat.zero_le _)) (hwr.le.trans (Nat.zero_le _))
  | .exited true, ⟨hidle, hr, hwr⟩ =>
      hidle.exit (hr.le.trans (Nat.zero_le _)) (hwr.le.trans (Nat.zero_le _))
  | .exited false, h => h
  | .returned, ⟨hidle, hr, hwr⟩ =>
      hidle.exit (hr.le.trans (Nat.zero_le _)) (hwr.le.trans (Nat.zero_le _))

theorem Ok.sleeping (h : Ok cfg w) (hst : w.stage = .selecting) : ∃ s, Sleeping w s := by
  obtain ⟨s, hs, -, -, hsig, -, -, hwr⟩ := h.watched hst rfl
  refine ⟨s, hs.worker, fun hb => ?_, hwr, fun hdead => ?_⟩
  · have hrelayed := hs.relayed
    rw [World.pending, hst] at hrelayed
    rw [← hrelayed, hsig hb, List.append_nil]
  · exact (hs.awake (hs.pid ▸ hdead)).resolve_right (by rw [hst]; nofun)

/-- A worker may be restarted once, and is fed every five milliseconds. -/
def nightShift : Configure := ⟨false, 1, 0, 0, 5, 0, false⟩

def evening : World where
  running := [6]
  dead := []
  sigchld := false
  clock := 0
  unread := 0
  hung := false
  readEnds := 1
  writeEnds := 1
  childExited := false
  signals := []
  pid := 0
  fd := false
  lastFeed := 0
  times := 0
  stage := .forking
  log := []

/-- The worker is sent a signal, feeds once, is killed, and has a successor. -/
def night : List Act :=
  [.fork 7, .start, .select [15], .check, .relay true, .relay true, .readNothing, .feed,
    .pass 2000000, .select [], .check, .relay true, .read 1, .readNothing, .stamp,
    .pass 7000000, .select [], .check, .bite, .die 6 (.exited 0), .die 7 (.signaled 9 false),
    .select [17], .waitpid 6, .waitpid 7, .finish 0, .delayNothing, .pipe, .fork 8, .start]

/-- Of two signals one is lost, though nothing waits: it arrives in the handler of
    the other. -/
example : ∃ w, ([.fork 7, .start, .selectTorn 15 10 [], .check, .relay true] :
      List Act).foldlM (next nightShift) evening = some w ∧
    (told w.log).worker = some ⟨7, [0], [15], [15], false⟩ ∧ .lost 10 ∈ w.log :=
  ⟨_, rfl, by decide, by decide⟩

end FlinterBabysitter
