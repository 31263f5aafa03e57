import Flinter.RunProofs

/-! # A command with a deadline

    `system_timed` looks every now and then whether the shell has ended, and when
    the deadline is over it kills the process group that the shell leads.  All the
    while the shell goes on, and so do the processes that it has started; it may
    end between two calls, and it may not even lead its group when it is to be
    killed. -/

namespace FlinterSystemTimed

open Runs

-- ── The code ─────────────────────────────────────────────────────────────────

/-- The shell.  `doomed` has been sent SIGKILL; `gone` is that its number may be
    given to another one. -/
inductive Child where
  | running
  | doomed
  | zombie (status : Nat)
  | gone
deriving DecidableEq, Repr

/-- Where `wait_for_child_or_kill` is: what it calls next.  `done none` is -1. -/
inductive Stage where
  | waitpid
  | clock
  | kill
  | cont
  | msleep (deadline : Int)
  | done (ret : Option Nat)
deriving DecidableEq, Repr

/-- The caller, the shell and its process group: `grouped` is that it leads one, and of
    the others in it `others` are running and `dying` have been sent SIGKILL.  Some
    may have become somebody whom the caller may not signal, as behind `sudo`: the
    shell where `foreign`, and `aloof` of the others.  `ignored` is SIG_IGN for
    SIGCHLD, and `reused` that the number of the shell has become that of a group of
    somebody else.  As a ghost record, what the shell ended with by itself, when the
    group was killed first, whether somebody whom the caller could not signal became
    one again whom it can, and whether a group of somebody else was killed. -/
structure World where
  now : Int
  deadline : Int
  ignored : Bool
  caller : Stage
  child : Child
  grouped : Bool
  foreign : Bool
  others : Nat
  aloof : Nat
  dying : Nat
  reused : Bool
  exited : Option Nat
  killed : Option Int
  lapsed : Bool
  struck : Bool
deriving DecidableEq, Repr

/-- SIGKILL, as a status of `waitpid`. -/
def SIGKILL : Nat := 9

namespace World

variable (w : World)

/-- The child ends. -/
def ends (status : Nat) : World :=
  { w with child := if w.ignored then .gone else .zombie status }

/-- Somebody is in the group of the child. -/
def peopled : Bool :=
  w.grouped && decide (w.child ≠ .gone ∨ w.others ≠ 0 ∨ w.aloof ≠ 0 ∨ w.dying ≠ 0)

/-- Somebody in it whom the caller may signal. -/
def permitted : Bool :=
  w.grouped &&
    decide (w.child ≠ .gone ∧ w.foreign = false ∨ w.others ≠ 0 ∨ w.dying ≠ 0)

/-- SIGKILL to those in the group of the child whom the caller may signal. -/
def strike : World :=
  { w with
    child := if w.child = .running ∧ w.foreign = false then .doomed else w.child
    others := 0
    dying := w.dying + w.others
    killed := w.killed.or (some w.now) }

/-- 10 and 100 milliseconds. -/
def soon : Int := 10000000

def later : Int := 100000000

/-- `wait_for_child_or_kill`, up to its next call.  `fails` is that the clock fails, or
    that somebody else's group may not be signalled. -/
def step (fails : Bool) : Option World :=
  match w.caller with
  | .waitpid =>
      match w.child with
      | .zombie status => some { w with child := .gone, caller := .done (some status) }
      | .gone => some { w with caller := .done none }
      | _ => some { w with caller := .clock }
  | .clock =>
      if fails then some { w with caller := .done none }
      else if w.now < w.deadline then some { w with caller := .msleep (w.now + later) }
      else some { w with caller := .kill }
  | .kill =>
      if w.reused then
        if fails then some { w with caller := .done none }
        else some { w with caller := .cont, struck := true }
      else if w.peopled = false then some { w with caller := .msleep (w.now + soon) }
      else if w.permitted = false then some { w with caller := .done none }
      else some { w.strike with caller := .cont }
  | .cont =>
      if w.reused && fails || !w.reused && w.peopled && !w.permitted then
        some { w with caller := .done none }
      else some { w with caller := .msleep (w.now + soon) }
  | .msleep deadline => if deadline ≤ w.now then some { w with caller := .waitpid } else none
  | .done _ => none

end World

/-- The caller goes on; or time passes; or the shell becomes the leader of its group,
    ends, or dies of the signal; or others of the group come, go and are gone after
    the signal; or the shell or one of the others becomes somebody whom the caller
    may not signal, or one again whom it may; or the number of the shell is used
    again. -/
inductive Act where
  | step (fails : Bool)
  | pass (time : Nat)
  | setpgid
  | exit (status : Nat)
  | die
  | fork (aside : Bool)
  | leave (aside : Bool)
  | bury
  | become (foreign : Bool)
  | depart
  | revert
  | reuse
deriving DecidableEq, Repr

def next (w : World) : Act → Option World
  | .step fails => w.step fails
  | .pass time => some { w with now := w.now + time }
  | .setpgid =>
      if w.child = .running ∧ w.grouped = false then some { w with grouped := true } else none
  | .exit status =>
      if w.child = .running then some { w.ends status with exited := some status } else none
  | .die => if w.child = .doomed then some (w.ends SIGKILL) else none
  | .fork false =>
      if w.grouped = true ∧ (w.child = .running ∧ w.foreign = false ∨ 0 < w.others) then
        some { w with others := w.others + 1 }
      else none
  | .fork true =>
      if w.grouped = true ∧ (w.child = .running ∧ w.foreign = true ∨ 0 < w.aloof) then
        some { w with aloof := w.aloof + 1 }
      else none
  | .leave false => if 0 < w.others then some { w with others := w.others - 1 } else none
  | .leave true => if 0 < w.aloof then some { w with aloof := w.aloof - 1 } else none
  | .bury => if 0 < w.dying then some { w with dying := w.dying - 1 } else none
  | .become foreign =>
      if w.child = .running then
        some { w with foreign := foreign, lapsed := w.lapsed || w.foreign && !foreign }
      else none
  | .depart =>
      if 0 < w.others then some { w with others := w.others - 1, aloof := w.aloof + 1 } else none
  | .revert =>
      if 0 < w.aloof then
        some { w with others := w.others + 1, aloof := w.aloof - 1, lapsed := true }
      else none
  | .reuse =>
      if w.child = .gone ∧ w.others = 0 ∧ w.aloof = 0 ∧ w.dying = 0 then
        some { w with reused := true }
      else none

/-- `system_timed` behind `fork`, with its deadline. -/
def systemTimed : System World Act where
  init w := w.now ≤ w.deadline ∧ w.caller = .waitpid ∧ w.child = .running ∧ w.grouped = false ∧
    w.foreign = false ∧ w.others = 0 ∧ w.aloof = 0 ∧ w.dying = 0 ∧ w.reused = false ∧
    w.exited = none ∧ w.killed = none ∧ w.lapsed = false ∧ w.struck = false
  step w a w' := next w a = some w'

-- ── What holds between the calls ─────────────────────────────────────────────

variable {w w' : World} {a : Act} {fails : Bool} {s : Nat}

/-- What the shell can have ended with. -/
def World.Ended (w : World) (status : Nat) : Prop :=
  w.exited = some status ∨ status = SIGKILL ∧ w.exited = none ∧ w.killed ≠ none

def Stage.due : Stage → Bool
  | .kill => true
  | .cont => true
  | _ => false

/-- Nobody of the group runs whom the caller may signal, unless there is one who came
    back to be so. -/
def World.Stopped (w : World) : Prop :=
  w.lapsed = true ∨ (w.child = .running → w.foreign = true) ∧ w.others = 0

/-- A status is that of the shell, and it is given back when the shell is gone; the
    deadline is over before anybody is killed, and afterwards the group is stopped;
    and the number of the shell is its own as long as somebody waits for it. -/
structure Inv (w : World) : Prop where
  alive : w.child = .running → w.exited = none
  doomed : w.child = .doomed → w.exited = none ∧ w.killed ≠ none
  zombie : ∀ status, w.child = .zombie status → w.Ended status
  returned : ∀ status, w.caller = .done (some status) → w.child = .gone ∧ w.Ended status
  gone : w.child = .gone → w.ignored = true ∨ ∃ status, w.caller = .done (some status)
  due : w.caller.due = true → w.deadline ≤ w.now
  killed : ∀ time, w.killed = some time →
    w.deadline ≤ time ∧ time ≤ w.now ∧ w.Stopped
  reused : w.reused = true → w.child = .gone
  struck : w.struck = true → w.ignored = true

theorem inv_init (h : systemTimed.init w) : Inv w := by
  obtain ⟨-, hcaller, hchild, -, -, -, -, -, hreused, hexited, hkilled, -, hstruck⟩ := h
  refine ⟨fun _ => hexited, ?_, ?_, ?_, ?_, ?_, ?_, ?_, ?_⟩
  · rw [hchild]; nofun
  · rw [hchild]; nofun
  · rw [hcaller]; nofun
  · rw [hchild]; nofun
  · rw [hcaller]; nofun
  · rw [hkilled]; nofun
  · rw [hreused]; nofun
  · rw [hstruck]; nofun

/-- The caller goes on to something else than to return a status, and nothing else
    changes. -/
theorem Inv.move {stage : Stage} (h : Inv w) (hdone : ∀ status, w.caller ≠ .done (some status))
    (hto : ∀ status, stage ≠ .done (some status))
    (hover : stage.due = true → w.deadline ≤ w.now) : Inv { w with caller := stage } where
  alive := h.alive
  doomed := h.doomed
  zombie := h.zombie
  returned status heq := absurd heq (hto status)
  gone heq := .inl ((h.gone heq).resolve_right fun ⟨status, hret⟩ => hdone status hret)
  due := hover
  killed := h.killed
  reused := h.reused
  struck := h.struck

theorem World.Ended.strike (h : w.Ended s) : w.strike.Ended s := by
  refine h.imp id fun ⟨hs, hexited, hkilled⟩ => ⟨hs, hexited, ?_⟩
  obtain ⟨time, htime⟩ := Option.ne_none_iff_exists'.mp hkilled
  show w.killed.or (some w.now) ≠ none
  rw [htime]
  nofun

/-- Those who may be signalled are dying, and whoever was not running is what it was. -/
theorem Inv.strike (h : Inv w) (hover : w.deadline ≤ w.now) : Inv w.strike := by
  have hchild : w.strike.child =
      if w.child = .running ∧ w.foreign = false then .doomed else w.child := rfl
  have hsame : w.child ≠ .running → w.strike.child = w.child := fun hnot =>
    if_neg fun hboth => hnot hboth.1
  refine ⟨fun heq => ?_, fun heq => ?_, fun status heq => ?_, fun status heq => ?_, fun heq => ?_,
    h.due, fun time heq => ?_, fun heq => ?_, h.struck⟩
  · rw [hchild] at heq
    split at heq
    · cases heq
    · exact h.alive heq
  · refine ⟨?_, fun hnone => ?_⟩
    · rw [hchild] at heq
      split at heq
      next hrunning => exact h.alive hrunning.1
      next => exact (h.doomed heq).1
    · exact Option.some_ne_none _ (Option.or_eq_none_iff.mp hnone).2
  · rw [hchild] at heq
    split at heq
    · cases heq
    · exact (h.zombie status heq).strike
  · obtain ⟨hgone, hended⟩ := h.returned status heq
    exact ⟨(hsame (by rw [hgone]; nofun)).trans hgone, hended.strike⟩
  · rw [hchild] at heq
    split at heq
    · cases heq
    · exact h.gone heq
  · refine ⟨?_, ?_, .inr ⟨fun hrunning => ?_, rfl⟩⟩
    · rcases Option.or_eq_some_iff.mp heq with hold | ⟨-, hnew⟩
      · exact (h.killed time hold).1
      · cases hnew
        exact hover
    · rcases Option.or_eq_some_iff.mp heq with hold | ⟨-, hnew⟩
      · exact (h.killed time hold).2.1
      · cases hnew
        exact Int.le_refl _
    · rw [hchild] at hrunning
      split at hrunning
      next => cases hrunning
      next hnot =>
        exact Bool.of_not_eq_false fun hown => hnot ⟨hrunning, hown⟩
  · have hgone := h.reused heq
    exact (hsame (by rw [hgone]; nofun)).trans hgone

/-- The caller makes its next call: it is at `waitpid`, at the clock, at either signal
    or asleep. -/
theorem Inv.step (h : Inv w) (hw : w.step fails = some w') : Inv w' := by
  rw [World.step] at hw
  split at hw
  next hcaller =>
    have hdone : ∀ status, w.caller ≠ .done (some status) := by rw [hcaller]; nofun
    split at hw
    next status hchild =>
      cases hw
      have hended := h.zombie status hchild
      refine ⟨nofun, nofun, nofun, ?_, fun _ => .inr ⟨status, rfl⟩, nofun, ?_, fun _ => rfl,
        h.struck⟩
      · rintro _ ⟨⟩
        exact ⟨rfl, hended⟩
      · intro time htime
        obtain ⟨hover, hle, hstopped⟩ := h.killed time htime
        exact ⟨hover, hle, hstopped.imp id fun ⟨_, hothers⟩ => ⟨nofun, hothers⟩⟩
    next => cases hw; exact h.move hdone nofun nofun
    next => cases hw; exact h.move hdone nofun nofun
  next hcaller =>
    have hdone : ∀ status, w.caller ≠ .done (some status) := by rw [hcaller]; nofun
    split at hw
    · cases hw; exact h.move hdone nofun nofun
    split at hw
    · cases hw; exact h.move hdone nofun nofun
    next hover => cases hw; exact h.move hdone nofun fun _ => Int.not_lt.mp hover
  next hcaller =>
    have hdone : ∀ status, w.caller ≠ .done (some status) := by rw [hcaller]; nofun
    have hover : w.deadline ≤ w.now := h.due (by rw [hcaller]; rfl)
    split at hw
    next hreused =>
      have hgone := h.reused hreused
      have hignored := (h.gone hgone).resolve_right fun ⟨status, hret⟩ => hdone status hret
      split at hw
      · cases hw; exact h.move hdone nofun nofun
      · cases hw
        have hmoved : Inv { w with caller := .cont } := h.move hdone nofun fun _ => hover
        exact { hmoved with struck := fun _ => hignored }
    split at hw
    · cases hw; exact h.move hdone nofun nofun
    split at hw
    · cases hw; exact h.move hdone nofun nofun
    · cases hw; exact (h.strike hover).move hdone nofun fun _ => hover
  next hcaller =>
    have hdone : ∀ status, w.caller ≠ .done (some status) := by rw [hcaller]; nofun
    split at hw
    · cases hw; exact h.move hdone nofun nofun
    · cases hw; exact h.move hdone nofun nofun
  next hcaller =>
    have hdone : ∀ status, w.caller ≠ .done (some status) := by rw [hcaller]; nofun
    split at hw
    · cases hw; exact h.move hdone nofun nofun
    · cases hw
  next => cases hw

/-- The shell ends, by itself or of the signal. -/
theorem Inv.ends {exited : Option Nat} (h : Inv w) (hlive : w.child = .running ∨ w.child = .doomed)
    (hended : World.Ended { w with exited } s) : Inv { w.ends s with exited := exited } := by
  have hgone : w.child ≠ .gone := by
    rintro hgone
    rw [hgone] at hlive
    rcases hlive with heq | heq
    · cases heq
    · cases heq
  have hchild : (w.ends s).child = if w.ignored then .gone else .zombie s := rfl
  refine ⟨fun heq => ?_, fun heq => ?_, fun status heq => ?_,
    fun status heq => absurd (h.returned status heq).1 hgone, fun heq => ?_, h.due,
    fun time heq => ?_, fun heq => absurd (h.reused heq) hgone, h.struck⟩
  · rw [hchild] at heq
    split at heq
    · cases heq
    · cases heq
  · rw [hchild] at heq
    split at heq
    · cases heq
    · cases heq
  · rw [hchild] at heq
    split at heq
    · cases heq
    · cases heq
      exact hended
  · rw [hchild] at heq
    split at heq
    next hignored => exact .inl hignored
    next => cases heq
  · obtain ⟨hover, hle, hstopped⟩ := h.killed time heq
    refine ⟨hover, hle, hstopped.imp id fun ⟨_, hothers⟩ => ⟨fun hrunning => ?_, hothers⟩⟩
    rw [hchild] at hrunning
    split at hrunning
    · cases hrunning
    · cases hrunning

/-- What happens to the group leaves the times and who is there as they were, but for
    those whom the caller may signal. -/
theorem Inv.group (h : Inv w) {grouped foreign lapsed : Bool} {others aloof dying : Nat}
    (hstopped : w.killed ≠ none → w.Stopped →
      World.Stopped { w with grouped, foreign, others, aloof, dying, lapsed }) :
    Inv { w with grouped, foreign, others, aloof, dying, lapsed } := by
  refine { h with killed := fun time htime => ?_ }
  obtain ⟨hover, hle, hold⟩ := h.killed time htime
  exact ⟨hover, hle, hstopped (by rw [show w.killed = some time from htime]; nofun) hold⟩

/-- Somebody of the group forks; the child may be one that the caller cannot signal. -/
theorem Inv.fork {aside : Bool} (h : Inv w)
    (hw : FlinterSystemTimed.next w (.fork aside) = some w') : Inv w' := by
  cases aside with
  | true =>
      simp only [FlinterSystemTimed.next] at hw
      split at hw
      · cases hw
        exact h.group fun _ => id
      · cases hw
  | false =>
      simp only [FlinterSystemTimed.next] at hw
      split at hw
      next hguard =>
        cases hw
        refine h.group fun _ hstopped => hstopped.imp id fun ⟨hforeign, hothers⟩ => ?_
        rcases hguard.2 with ⟨hrunning, hown⟩ | hpos
        · rw [hforeign hrunning] at hown
          cases hown
        · exact absurd hothers (Nat.ne_of_gt hpos)
      next => cases hw

/-- One of the others ends or leaves the group. -/
theorem Inv.leave {aside : Bool} (h : Inv w)
    (hw : FlinterSystemTimed.next w (.leave aside) = some w') : Inv w' := by
  cases aside with
  | true =>
      simp only [FlinterSystemTimed.next] at hw
      split at hw
      · cases hw
        exact h.group fun _ => id
      · cases hw
  | false =>
      simp only [FlinterSystemTimed.next] at hw
      split at hw
      next hpos =>
        cases hw
        refine h.group fun _ hstopped => hstopped.imp id fun ⟨_, hothers⟩ => ?_
        exact absurd hothers (Nat.ne_of_gt hpos)
      next => cases hw

/-- The shell becomes somebody else's, or the caller's again. -/
theorem Inv.become {foreign : Bool} (h : Inv w)
    (hw : FlinterSystemTimed.next w (.become foreign) = some w') : Inv w' := by
  simp only [FlinterSystemTimed.next] at hw
  split at hw
  next hchild =>
    cases hw
    refine h.group fun _ hstopped => ?_
    show (w.lapsed || w.foreign && !foreign) = true ∨ (w.child = .running → foreign = true) ∧ _
    rcases hstopped with hlapsed | ⟨hforeign, hothers⟩
    · exact .inl (by rw [hlapsed]; rfl)
    · rw [hforeign hchild]
      cases foreign with
      | true => exact .inr ⟨fun _ => rfl, hothers⟩
      | false => exact .inl (by rw [Bool.or_eq_true]; exact .inr rfl)
  next => cases hw

/-- Whatever happens, one act after the other. -/
theorem Inv.next (h : Inv w) (hw : next w a = some w') : Inv w' := by
  cases a with
  | step fails => exact h.step hw
  | pass time =>
      cases hw
      have hle : w.now ≤ w.now + time := Int.le_add_of_nonneg_right (Int.natCast_nonneg time)
      refine { h with due := fun heq => Int.le_trans (h.due heq) hle, killed := fun t ht => ?_ }
      obtain ⟨hover, hnow, hkilled⟩ := h.killed t ht
      exact ⟨hover, Int.le_trans hnow hle, hkilled⟩
  | setpgid =>
      simp only [FlinterSystemTimed.next] at hw
      split at hw
      · cases hw
        exact h.group fun _ => id
      · cases hw
  | exit status =>
      simp only [FlinterSystemTimed.next] at hw
      split at hw
      next hchild =>
        cases hw
        exact h.ends (.inl hchild) (.inl rfl)
      next => cases hw
  | die =>
      simp only [FlinterSystemTimed.next] at hw
      split at hw
      next hchild =>
        cases hw
        obtain ⟨hexited, hkilled⟩ := h.doomed hchild
        exact h.ends (.inr hchild) (.inr ⟨rfl, hexited, hkilled⟩)
      next => cases hw
  | fork aside => exact h.fork hw
  | leave aside => exact h.leave hw
  | bury =>
      simp only [FlinterSystemTimed.next] at hw
      split at hw
      · cases hw
        exact h.group fun _ => id
      · cases hw
  | become foreign => exact h.become hw
  | depart =>
      simp only [FlinterSystemTimed.next] at hw
      split at hw
      next hpos =>
        cases hw
        refine h.group fun _ hstopped => hstopped.imp id fun ⟨_, hothers⟩ => ?_
        exact absurd hothers (Nat.ne_of_gt hpos)
      next => cases hw
  | revert =>
      simp only [FlinterSystemTimed.next] at hw
      split at hw
      · cases hw
        exact h.group fun _ _ => .inl rfl
      · cases hw
  | reuse =>
      simp only [FlinterSystemTimed.next] at hw
      split at hw
      next hguard =>
        cases hw
        exact { h with reused := fun _ => hguard.1 }
      next => cases hw

/-- How many calls are left at most, of a caller whose child has ended. -/
def Stage.left : Stage → Nat
  | .clock => 5
  | .kill => 4
  | .cont => 3
  | .msleep _ => 2
  | .waitpid => 1
  | .done _ => 0

/-- The shell has ended. -/
def Child.ended : Child → Bool
  | .zombie _ => true
  | .gone => true
  | _ => false

/-- The calls that the caller makes when the shell has ended. -/
def since (w : World) (a : Act) (count : Nat) : Nat :=
  match a with
  | .step _ => if w.child.ended then count + 1 else count
  | _ => count

variable {count : Nat}

/-- The caller is at most as many calls away from its end as it has left. -/
structure Prompt (w : World) (count : Nat) : Prop where
  alive : w.child.ended = false → count = 0
  left : count + w.caller.left ≤ 5

theorem left_le (stage : Stage) : stage.left ≤ 5 := by
  cases stage with
  | clock | kill | cont | msleep | waitpid | done => simp [Stage.left]

theorem step_left (hended : w.child.ended = true) (hw : w.step fails = some w') :
    w'.child.ended = true ∧ w'.caller.left < w.caller.left := by
  rw [World.step] at hw
  split at hw
  next hcaller =>
    rw [hcaller]
    split at hw
    · cases hw; exact ⟨rfl, Nat.zero_lt_one⟩
    · cases hw; exact ⟨hended, Nat.zero_lt_one⟩
    next hzombie hgone =>
      cases hchild : w.child with
      | zombie status => exact absurd hchild (hzombie status)
      | gone => exact absurd hchild hgone
      | running => rw [hchild] at hended; cases hended
      | doomed => rw [hchild] at hended; cases hended
  next hcaller =>
    rw [hcaller]
    split at hw
    · cases hw; exact ⟨hended, by simp [Stage.left]⟩
    split at hw
    · cases hw; exact ⟨hended, by simp [Stage.left]⟩
    · cases hw; exact ⟨hended, by simp [Stage.left]⟩
  next hcaller =>
    rw [hcaller]
    split at hw
    · split at hw
      · cases hw; exact ⟨hended, by simp [Stage.left]⟩
      · cases hw; exact ⟨hended, by simp [Stage.left]⟩
    split at hw
    · cases hw; exact ⟨hended, by simp [Stage.left]⟩
    split at hw
    · cases hw; exact ⟨hended, by simp [Stage.left]⟩
    · cases hw
      refine ⟨?_, by simp [Stage.left]⟩
      show Child.ended (if w.child = .running ∧ w.foreign = false then .doomed else w.child) = true
      split
      next hrunning => rw [hrunning.1] at hended; cases hended
      next => exact hended
  next hcaller =>
    rw [hcaller]
    split at hw
    · cases hw; exact ⟨hended, by simp [Stage.left]⟩
    · cases hw; exact ⟨hended, by simp [Stage.left]⟩
  next deadline hcaller =>
    rw [hcaller]
    split at hw
    · cases hw; exact ⟨hended, by simp [Stage.left]⟩
    · cases hw
  next => cases hw

theorem since_of_live (hended : w.child.ended = false) : since w a count = count := by
  cases a with
  | step fails => exact if_neg (by rw [hended]; nofun)
  | pass | setpgid | exit | die | fork | leave | bury | become | depart | revert | reuse => rfl

/-- What the shell and its surroundings do leaves the caller where it is. -/
theorem caller_of_act (ha : ∀ fails, a ≠ .step fails) (hw : next w a = some w') :
    w'.caller = w.caller ∧ (w.child.ended = true → w'.child.ended = true) := by
  cases a with
  | step fails => exact absurd rfl (ha fails)
  | pass time => cases hw; exact ⟨rfl, id⟩
  | fork aside | leave aside =>
      cases aside with
      | true | false =>
          simp only [next] at hw
          split at hw
          · cases hw; exact ⟨rfl, id⟩
          · cases hw
  | setpgid | bury | become | depart | revert | reuse =>
      simp only [next] at hw
      split at hw
      · cases hw; exact ⟨rfl, id⟩
      · cases hw
  | exit status =>
      simp only [next] at hw
      split at hw
      next hchild => cases hw; exact ⟨rfl, fun hended => by rw [hchild] at hended; cases hended⟩
      next => cases hw
  | die =>
      simp only [next] at hw
      split at hw
      next hchild => cases hw; exact ⟨rfl, fun hended => by rw [hchild] at hended; cases hended⟩
      next => cases hw

theorem Prompt.next (h : Prompt w count) (hw : next w a = some w') :
    Prompt w' (since w a count) := by
  cases hended : w.child.ended with
  | false =>
      rw [since_of_live hended, h.alive hended]
      exact ⟨fun _ => rfl, Nat.le_trans (Nat.le_of_eq (Nat.zero_add _)) (left_le w'.caller)⟩
  | true =>
      by_cases ha : ∃ fails, a = .step fails
      · obtain ⟨fails, rfl⟩ := ha
        obtain ⟨hended', hless⟩ := step_left hended hw
        have hcount : since w (.step fails) count = count + 1 := if_pos hended
        rw [hcount]
        refine ⟨fun hno => absurd hended' (by rw [hno]; nofun), ?_⟩
        have hleft := h.left
        omega
      · obtain ⟨hcaller, hended'⟩ := caller_of_act (fun fails heq => ha ⟨fails, heq⟩) hw
        have hcount : since w a count = count := by
          cases a with
          | step fails => exact absurd ⟨fails, rfl⟩ ha
          | pass | setpgid | exit | die | fork | leave | bury | become | depart | revert
          | reuse => rfl
        rw [hcount]
        refine ⟨fun hno => absurd (hended' hended) (by rw [hno]; nofun), ?_⟩
        rw [hcaller]
        exact h.left

/-- What can be said of a caller, that has made `count` calls since the shell ended. -/
structure Settled (w : World) (count : Nat) : Prop where
  returned : ∀ status, w.caller = .done (some status) → w.child = .gone ∧ w.Ended status
  killed : ∀ time, w.killed = some time →
    w.deadline ≤ time ∧ time ≤ w.now ∧ w.Stopped
  own : w.ignored = false → w.struck = false
  prompt : count + w.caller.left ≤ 5

/-- **A COMMAND WITH A DEADLINE**: however the caller, the shell and the others of its
    group take turns, a status that is returned is what the shell ended with, by
    itself or else of the signal, and the shell is not left behind.  Nobody is killed
    before the deadline is over, and from then on nobody of the group is running whom
    the caller may signal, unless there is one whom it could not signal before.
    With SIGCHLD not ignored, it is nobody else's group.  And when the shell has
    ended, the caller returns within five calls. -/
theorem system_timed_settled (h : Reachable (systemTimed.record 0 since) (w, count)) :
    Settled w count := by
  have hinv : Inv w ∧ Prompt w count := by
    refine Reachable.invariant (I := fun s => Inv s.1 ∧ Prompt s.1 s.2) ?_ ?_ h
    · rintro ⟨w, count⟩ ⟨hinit, rfl⟩
      refine ⟨inv_init hinit, fun _ => rfl, ?_⟩
      exact Nat.le_trans (Nat.le_of_eq (Nat.zero_add _)) (left_le w.caller)
    · rintro ⟨w, count⟩ a ⟨w', count'⟩ - ⟨hinv, hprompt⟩ ⟨hw, rfl⟩
      exact ⟨hinv.next hw, hprompt.next hw⟩
  obtain ⟨hinv, hprompt⟩ := hinv
  refine ⟨hinv.returned, hinv.killed, fun hnot => ?_, hprompt.left⟩
  refine Bool.eq_false_iff.mpr fun hstruck => ?_
  have hignored := hinv.struck hstruck
  rw [hnot] at hignored
  cases hignored

/-- A step and its record. -/
def nextSince (s : World × Nat) (a : Act) : Option (World × Nat) :=
  (next s.1 a).map fun w => (w, since s.1 a s.2)

namespace Sample

/-- A shell that was started just now, with a second to go. -/
def started : World where
  now := 0
  deadline := 1000000000
  ignored := false
  caller := .waitpid
  child := .running
  grouped := false
  foreign := false
  others := 0
  aloof := 0
  dying := 0
  reused := false
  exited := none
  killed := none
  lapsed := false
  struck := false

/-- It starts another process and does not end, so that both are killed. -/
def stuck : List Act :=
  [.setpgid, .fork false, .step false, .step false, .pass 1000000000, .step false, .step false,
   .step false, .step false, .step false, .die, .pass 10000000, .step false, .step false]

end Sample

theorem system_timed_settled_stuck :
    ∃ w, Sample.stuck.foldlM nextSince (Sample.started, 0) = some (w, 2) ∧
      w.caller = .done (some SIGKILL) ∧ Settled w 2 := by
  have hrun : Sample.stuck.foldlM nextSince (Sample.started, 0) = some (_, 2) := rfl
  have hstep : ∀ a ∈ Sample.stuck, ∀ s s', nextSince s a = some s' →
      (systemTimed.record 0 since).step s a s' := by
    intro a _ s s' hs
    obtain ⟨w, hw, rfl⟩ := Option.map_eq_some_iff.mp hs
    exact ⟨hw, rfl⟩
  have hstart : systemTimed.init Sample.started :=
    ⟨by decide, rfl, rfl, rfl, rfl, rfl, rfl, rfl, rfl, rfl, rfl, rfl, rfl⟩
  have hreach := Reachable.follow hstep (.start ⟨hstart, rfl⟩) hrun
  exact ⟨_, hrun, rfl, system_timed_settled hreach⟩

end FlinterSystemTimed
