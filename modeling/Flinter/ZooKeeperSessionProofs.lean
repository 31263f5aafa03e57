import Flinter.ZooKeeperPendingProofs

/-! # ZooKeeper: sessions that end

    `Reconnect` and `Shutdown` take the handle out, close it without the lock,
    and go on.  In between `_connecting` says that the handle is on its way out,
    and there is none: which is what a `Shutdown` takes for the end of it.

    At most one of them is under way, and no assertion fails (`Settled`).  If a
    `Shutdown` comes while `Reconnect` is under way it returns, and the session
    comes back; no other does (`stays_down`).  A `Shutdown` leaves an object
    that can be used again if it closes the handle without a complaint, or if
    there is nothing to do indeed (`shutdown_reusable`): where the client
    complains, `_connecting` stays. -/

namespace FlinterSession

open Runs
open FlinterZooKeeper (Text ZOK ZINVALIDSTATE)
open FlinterPending (ZBADARGUMENTS)

-- ── The object ───────────────────────────────────────────────────────────────

/-- Who is closing a handle without the lock. -/
inductive Window where
  | reconnect (handle : Nat)
  | shutdown (handle : Nat)
deriving DecidableEq, Repr

def Window.handle : Window → Nat
  | .reconnect handle => handle
  | .shutdown handle => handle

/-- The fields of `ZooKeeper` that a session is made of, and those that are
    closing its handle.  Ghosts: `inits` counts `zookeeper_init`; `down` is that
    count when `Shutdown` returned `ZOK`, until `Initialize` is called. -/
structure ZooKeeper where
  hosts : Text
  timeout : Int
  handle : Option Nat
  connecting : Bool
  resuming : Bool
  clientId : Int
  pending : List Nat
  windows : List Window
  aborted : Bool
  inits : Nat
  down : Option Nat
deriving DecidableEq, Repr

def ZooKeeper.fresh : ZooKeeper :=
  ⟨[], -1, none, false, false, 0, [], [], false, 0, none⟩

/-- An assertion. -/
def ZooKeeper.check (s : ZooKeeper) (b : Bool) : ZooKeeper :=
  { s with aborted := s.aborted || !b }

-- ── Functions ────────────────────────────────────────────────────────────────

/-- `ZooKeeper::ReconnectNolock`; `answer` is the error of `zookeeper_init`, if
    it opens no handle. -/
def reconnectNolock (s : ZooKeeper) (answer : Option Int) : Int × ZooKeeper :=
  let s := s.check s.handle.isNone
  if s.hosts.length = 0 ∨ s.timeout < 0 then (ZBADARGUMENTS, s)
  else
    match answer with
    | some error => (error, { s with inits := s.inits + 1 })
    | none =>
      (ZOK, { s with handle := some s.inits, inits := s.inits + 1 })

/-- `ZooKeeper::Initialize`. -/
def initializeHosts (s : ZooKeeper) (hosts : Text) (timeout : Int)
    (answer : Option Int) : Int × ZooKeeper :=
  let s := { s with down := none }
  if s.handle.isSome then (ZINVALIDSTATE, s)
  else if s.connecting then (ZOK, s)
  else
    reconnectNolock { s with
      hosts := hosts, timeout := timeout, connecting := false, clientId := 0 }
      answer

/-- `ZooKeeper::Reconnect` behind the closing of the handle. -/
def reconnectRest (s : ZooKeeper) (answer : Option Int) : Int × ZooKeeper :=
  reconnectNolock { s with clientId := 0, resuming := true } answer

/-- `ZooKeeper::Reconnect` as far as it holds the lock. -/
def reconnect (s : ZooKeeper) (answer : Option Int) : ZooKeeper :=
  if s.connecting then s
  else
    match s.handle with
    | some handle =>
      { s with
        handle := none, connecting := true
        windows := .reconnect handle :: s.windows }
    | none => (reconnectRest s answer).2

/-- `ZooKeeper::Reconnect` once the handle is closed; it does not ask how. -/
def reconnected (s : ZooKeeper) (handle : Nat) (answer : Option Int) :
    ZooKeeper :=
  (reconnectRest { s with
    connecting := false, windows := s.windows.erase (.reconnect handle) }
    answer).2

/-- `ZooKeeper::Shutdown` as far as it holds the lock: what it returns, if it
    returns. -/
def shutdown (s : ZooKeeper) : Option Int × ZooKeeper :=
  match s.handle with
  | none => (some ZOK, { s with down := some s.inits })
  | some handle =>
    (none, { s.check !s.connecting with
      clientId := 0, handle := none, connecting := true
      windows := .shutdown handle :: s.windows })

/-- `ZooKeeper::Shutdown` once `zookeeper_close` has answered. -/
def disconnected (s : ZooKeeper) (handle : Nat) (error : Int) :
    Int × ZooKeeper :=
  let s := { s with windows := s.windows.erase (.shutdown handle) }
  -- It returns without the lock, as it is.
  if error ≠ ZOK then (error, s)
  else
    (ZOK, { s.check (s.handle.isNone && s.connecting) with
      connecting := false, pending := [], down := some s.inits })

/-- `ZooKeeper::OnConnected`; what is resumed is asked for again, and
    deleted. -/
def onConnected (s : ZooKeeper) (clientId : Int) : ZooKeeper :=
  match s.handle with
  | none => s.check s.connecting
  | some _ =>
    if s.resuming then
      { s with clientId := clientId, resuming := false, pending := [] }
    else { s with clientId := clientId }

-- ── The system ───────────────────────────────────────────────────────────────

inductive Action where
  | initializeHosts (hosts : Text) (timeout : Int) (answer : Option Int)
  | request (i : Nat)
  | erase (i : Nat)
  | connected (handle : Nat) (clientId : Int)
  | expired (handle : Nat) (answer : Option Int)
  | reconnected (handle : Nat) (answer : Option Int)
  | shutdown
  | disconnected (handle : Nat) (error : Int)
deriving DecidableEq, Repr

/-- A handle whose threads may still call. -/
def ZooKeeper.live (s : ZooKeeper) (handle : Nat) : Bool :=
  s.handle == some handle || s.windows.any fun w => w.handle == handle

/-- One step, if it can be taken.  A session calls as long as its handle is not
    closed; `Shutdown` may be called by the user, or by a session that is not
    authorized. -/
def next (s : ZooKeeper) (a : Action) : Option ZooKeeper :=
  if s.aborted then none
  else
    match a with
    | .initializeHosts hosts timeout answer =>
      some (initializeHosts s hosts timeout answer).2
    | .request i =>
      if s.handle.isSome then some { s with pending := i :: s.pending }
      else none
    | .erase i => some { s with pending := s.pending.erase i }
    | .connected handle clientId =>
      if s.live handle then some (onConnected s clientId) else none
    | .expired handle answer =>
      if s.live handle then some (reconnect s answer) else none
    | .reconnected handle answer =>
      if .reconnect handle ∈ s.windows then some (reconnected s handle answer)
      else none
    | .shutdown => some (shutdown s).2
    | .disconnected handle error =>
      if .shutdown handle ∈ s.windows then
        some (disconnected s handle error).2
      else none

/-- Any interleaving where the lock is not held. -/
def sessions : System ZooKeeper Action where
  init := fun s => s = .fresh
  step := fun s a s' => next s a = some s'

-- ── One at a time ────────────────────────────────────────────────────────────

variable {s s' : ZooKeeper} {a : Action} {h : Nat} {answer : Option Int}

/-- **ONE AT A TIME**: whoever is closing the handle is alone, there is none
    meanwhile, and where there is or was one it can be had again. -/
structure Settled (s : ZooKeeper) : Prop where
  runs : s.aborted = false
  alone : ∀ w ∈ s.windows, s.windows = [w]
  closing : s.windows ≠ [] → s.connecting = true ∧ s.handle = none
  steady : s.handle ≠ none → s.connecting = false
  valid : s.handle ≠ none ∨ s.windows ≠ [] →
    ¬(s.hosts.length = 0 ∨ s.timeout < 0)

theorem Settled.windows_nil (hs : Settled s) (h : s.connecting = false) :
    s.windows = [] := by
  by_contra hw
  rw [(hs.closing hw).1] at h
  cases h

theorem Settled.erase (hs : Settled s) {w : Window} (hw : w ∈ s.windows) :
    s.windows.erase w = [] := by
  rw [hs.alone w hw]
  exact List.erase_cons_head w []

/-- What is called by a session that is not there is called while it is being
    closed. -/
theorem Settled.of_live (hs : Settled s) (hlive : s.live h = true)
    (hnone : s.handle = none) : s.connecting = true := by
  rw [ZooKeeper.live, hnone, Bool.or_eq_true] at hlive
  rcases hlive with heq | hany
  · cases heq
  · obtain ⟨w, hw, -⟩ := List.any_eq_true.mp hany
    exact (hs.closing (List.ne_nil_of_mem hw)).1

/-- An assertion that holds. -/
theorem check_eq {b : Bool} (hb : b = true) : s.check b = s := by
  rw [ZooKeeper.check, hb]
  exact congrArg (fun b => { s with aborted := b }) (Bool.or_false _)

/-- **A NEW SESSION**: one call of `zookeeper_init`, if there are hosts. -/
theorem reconnectNolock_eq (hnone : s.handle = none) :
    (reconnectNolock s answer).2 =
      if s.hosts.length = 0 ∨ s.timeout < 0 then s
      else { s with
        handle := if answer = none then some s.inits else none
        inits := s.inits + 1 } := by
  dsimp only [reconnectNolock]
  rw [check_eq (Option.isNone_iff_eq_none.mpr hnone)]
  split
  · rfl
  · cases answer with
    | none => rfl
    | some error =>
        rw [if_neg nofun, ← hnone]

/-- What a new session needs is there or not; nobody else is at it. -/
theorem Settled.reconnectNolock (hruns : s.aborted = false)
    (hnone : s.handle = none) (hwindows : s.windows = [])
    (hc : s.connecting = false) : Settled (reconnectNolock s answer).2 := by
  rw [reconnectNolock_eq hnone]
  split
  · refine ⟨hruns, ?_, fun hw => absurd hwindows hw, fun _ => hc, ?_⟩
    · rw [hwindows]
      exact fun w hw => (by cases hw)
    · exact fun hor => hor.elim (absurd hnone) (absurd hwindows)
  next hvalid =>
    refine ⟨hruns, ?_, fun hw => absurd hwindows hw, fun _ => hc,
      fun _ => hvalid⟩
    show ∀ w ∈ s.windows, s.windows = [w]
    rw [hwindows]
    exact fun w hw => (by cases hw)

/-- What is asked for, who asks and what was said last is nothing to it. -/
theorem Settled.frame (hs : Settled s) {resuming : Bool} {clientId : Int}
    {pending : List Nat} {down : Option Nat} :
    Settled { s with resuming := resuming, clientId := clientId,
                     pending := pending, down := down } :=
  ⟨hs.runs, hs.alone, hs.closing, hs.steady, hs.valid⟩

theorem settled_fresh : Settled .fresh :=
  ⟨rfl, fun w hw => (by cases hw), fun hw => absurd rfl hw, fun _ => rfl,
    fun hor => hor.elim (absurd rfl) (absurd rfl)⟩

/-- **ONE STEP** keeps it so. -/
theorem Settled.kept (hs : Settled s) (hnext : next s a = some s') :
    Settled s' := by
  obtain ⟨-, hnext⟩ := Option.ite_none_left_eq_some.mp hnext
  cases a with
  | initializeHosts hosts timeout answer =>
      obtain rfl := Option.some.inj hnext
      dsimp only [initializeHosts]
      split
      · exact hs.frame
      next hnone =>
        have hnone := Option.not_isSome_iff_eq_none.mp hnone
        split
        · exact hs.frame
        next hc =>
          have hc := Bool.eq_false_iff.mpr hc
          exact .reconnectNolock hs.runs hnone (hs.windows_nil hc) rfl
  | request i =>
      obtain ⟨-, ⟨⟩⟩ := Option.ite_none_right_eq_some.mp hnext
      exact hs.frame
  | erase i =>
      obtain rfl := Option.some.inj hnext
      exact hs.frame
  | connected h clientId =>
      obtain ⟨hlive, ⟨⟩⟩ := Option.ite_none_right_eq_some.mp hnext
      rw [onConnected]
      split
      next hnone =>
        rw [check_eq (hs.of_live hlive hnone)]
        exact hs
      next =>
        split
        · exact hs.frame
        · exact hs.frame
  | expired h answer =>
      obtain ⟨hlive, ⟨⟩⟩ := Option.ite_none_right_eq_some.mp hnext
      rw [reconnect]
      split
      · exact hs
      next hc =>
        have hc := Bool.eq_false_iff.mpr hc
        split
        next handle hhandle =>
          have hsome : s.handle ≠ none := by
            rw [hhandle]
            exact Option.some_ne_none handle
          rw [hs.windows_nil hc]
          refine ⟨hs.runs, fun w hw => ?_, fun _ => ⟨rfl, rfl⟩,
            fun hnot => absurd rfl hnot, fun _ => hs.valid (Or.inl hsome)⟩
          obtain rfl := List.mem_singleton.mp hw
          rfl
        next hnone =>
          exact .reconnectNolock hs.runs hnone (hs.windows_nil hc) hc
  | reconnected h answer =>
      obtain ⟨hw, ⟨⟩⟩ := Option.ite_none_right_eq_some.mp hnext
      have hclosing := hs.closing (List.ne_nil_of_mem hw)
      exact .reconnectNolock hs.runs hclosing.2 (hs.erase hw) rfl
  | shutdown =>
      obtain rfl := Option.some.inj hnext
      rw [shutdown]
      split
      · exact hs.frame
      next handle hhandle =>
        have hsome : s.handle ≠ none := by
          rw [hhandle]
          exact Option.some_ne_none handle
        have hc := hs.steady hsome
        rw [check_eq (by rw [hc]; rfl), hs.windows_nil hc]
        refine ⟨hs.runs, fun w hw => ?_, fun _ => ⟨rfl, rfl⟩,
          fun hnot => absurd rfl hnot, fun _ => hs.valid (Or.inl hsome)⟩
        obtain rfl := List.mem_singleton.mp hw
        rfl
  | disconnected h error =>
      obtain ⟨hw, ⟨⟩⟩ := Option.ite_none_right_eq_some.mp hnext
      obtain ⟨hc, hnone⟩ := hs.closing (List.ne_nil_of_mem hw)
      dsimp only [disconnected]
      rw [hs.erase hw]
      have hnobody : ∀ w ∈ ([] : List Window), [] = [w] :=
        fun w hw => (by cases hw)
      split
      · exact ⟨hs.runs, hnobody, fun hw => absurd rfl hw, hs.steady,
          fun hor => absurd hnone (hor.resolve_right fun hw => hw rfl)⟩
      · rw [check_eq (by rw [hnone, hc]; rfl)]
        exact ⟨hs.runs, hnobody, fun hw => absurd rfl hw, fun _ => rfl,
          fun hor => absurd hnone (hor.resolve_right fun hw => hw rfl)⟩

theorem settled_of_reachable (h : Reachable sessions s) : Settled s := by
  refine h.invariant ?_ ?_
  · rintro _ rfl
    exact settled_fresh
  · rintro _ _ _ - hs hnext
    exact hs.kept hnext

-- ── Down ─────────────────────────────────────────────────────────────────────

/-- Since `Shutdown` has returned `ZOK` there is no handle, nor was one asked
    for, until `Initialize` is called. -/
def Down (s : ZooKeeper) : Prop :=
  ∀ n, s.down = some n → s.handle = none ∧ s.inits = n

/-- **WHEN IT STAYS DOWN**: `Shutdown` is not called while a `Reconnect` is
    closing the handle. -/
def Sound (s : ZooKeeper) (a : Action) : Prop :=
  a = .shutdown → ∀ h, .reconnect h ∉ s.windows

/-- What is down is down for good. -/
structure Resting (s : ZooKeeper) : Prop where
  settled : Settled s
  down : ∀ n, s.down = some n →
    s.handle = none ∧ s.inits = n ∧ ∀ h, .reconnect h ∉ s.windows

theorem reconnectNolock_down : (reconnectNolock s answer).2.down = s.down := by
  dsimp only [reconnectNolock]
  split
  · rfl
  · cases answer with
    | none => rfl
    | some error => rfl

/-- A `Shutdown` that finds no handle. -/
theorem shutdown_none (hnone : s.handle = none) :
    shutdown s = (some ZOK, { s with down := some s.inits }) := by
  rw [shutdown, hnone]

/-- A `Shutdown` that the client complains about. -/
theorem disconnected_error {error : Int} (herror : error ≠ ZOK) :
    disconnected s h error =
      (error, { s with windows := s.windows.erase (.shutdown h) }) :=
  if_pos herror

theorem initializeHosts_down {hosts : Text} {timeout : Int} :
    (initializeHosts s hosts timeout answer).2.down = none := by
  dsimp only [initializeHosts]
  split
  · rfl
  split
  · rfl
  · exact reconnectNolock_down

/-- A session that is connected changes neither handle nor windows. -/
theorem onConnected_eq (clientId : Int) :
    ∃ aborted resuming clientId' pending, onConnected s clientId = { s with
      aborted := aborted, resuming := resuming, clientId := clientId'
      pending := pending } := by
  rw [onConnected]
  split
  · exact ⟨_, _, _, _, rfl⟩
  split
  · exact ⟨_, _, _, _, rfl⟩
  · exact ⟨_, _, _, _, rfl⟩

/-- What is not asked to is not reconnected. -/
theorem Resting.not_reconnecting (hs : Resting s)
    (hw : .reconnect h ∈ s.windows) : s.down = none := by
  cases hdown : s.down with
  | none => rfl
  | some n => exact absurd hw ((hs.down n hdown).2.2 h)

/-- **A SOUND STEP** keeps down what is down. -/
theorem Resting.kept (hs : Resting s) (hsound : Sound s a)
    (hnext : next s a = some s') : Resting s' := by
  refine ⟨hs.settled.kept hnext, fun n hdown => ?_⟩
  obtain ⟨-, hnext⟩ := Option.ite_none_left_eq_some.mp hnext
  cases a with
  | initializeHosts hosts timeout answer =>
      obtain rfl := Option.some.inj hnext
      rw [initializeHosts_down] at hdown
      cases hdown
  | request i =>
      obtain ⟨-, ⟨⟩⟩ := Option.ite_none_right_eq_some.mp hnext
      exact hs.down n hdown
  | erase i =>
      obtain rfl := Option.some.inj hnext
      exact hs.down n hdown
  | connected h clientId =>
      obtain ⟨-, ⟨⟩⟩ := Option.ite_none_right_eq_some.mp hnext
      obtain ⟨_, _, _, _, heq⟩ := onConnected_eq (s := s) clientId
      rw [heq] at hdown ⊢
      exact hs.down n hdown
  | expired h answer =>
      obtain ⟨hlive, ⟨⟩⟩ := Option.ite_none_right_eq_some.mp hnext
      rw [reconnect] at hdown ⊢
      by_cases hc : s.connecting = true
      · rw [if_pos hc] at hdown ⊢
        exact hs.down n hdown
      · rw [if_neg hc] at hdown ⊢
        cases hhandle : s.handle with
        | none => exact absurd (hs.settled.of_live hlive hhandle) hc
        | some handle =>
            rw [hhandle] at hdown
            have hnone := (hs.down n hdown).1
            rw [hhandle] at hnone
            cases hnone
  | reconnected h answer =>
      obtain ⟨hw, ⟨⟩⟩ := Option.ite_none_right_eq_some.mp hnext
      have hnot := hs.not_reconnecting hw
      rw [reconnected, reconnectRest, reconnectNolock_down] at hdown
      exact absurd (hnot.symm.trans hdown) nofun
  | shutdown =>
      obtain rfl := Option.some.inj hnext
      by_cases hnone : s.handle = none
      · rw [shutdown_none hnone] at hdown ⊢
        exact ⟨hnone, Option.some.inj hdown, hsound rfl⟩
      · obtain ⟨handle, hhandle⟩ := Option.ne_none_iff_exists'.mp hnone
        rw [shutdown, hhandle] at hdown
        exact absurd (hs.down n hdown).1 hnone
  | disconnected h error =>
      obtain ⟨hw, ⟨⟩⟩ := Option.ite_none_right_eq_some.mp hnext
      have hnone := (hs.settled.closing (List.ne_nil_of_mem hw)).2
      have hwindows := hs.settled.erase hw
      by_cases herror : error ≠ ZOK
      · rw [disconnected_error herror] at hdown ⊢
        refine ⟨hnone, (hs.down n hdown).2.1, fun h => ?_⟩
        rw [hwindows]
        exact List.not_mem_nil
      · dsimp only [disconnected] at hdown ⊢
        rw [if_neg herror] at hdown ⊢
        refine ⟨hnone, Option.some.inj hdown, fun h => ?_⟩
        show Window.reconnect h ∉ s.windows.erase _
        rw [hwindows]
        exact List.not_mem_nil

theorem resting_of_reachable (h : Reachable (sessions.restrict Sound) s) :
    Resting s := by
  refine h.invariant ?_ ?_
  · rintro _ rfl
    exact ⟨settled_fresh, fun n hdown => (by cases hdown)⟩
  · rintro _ _ _ - hs ⟨hsound, hnext⟩
    exact hs.kept hsound hnext

/-- **A RECONNECT THAT GOES ON** opens a session, whoever has shut down. -/
theorem reconnected_inits (hnone : s.handle = none)
    (hvalid : ¬(s.hosts.length = 0 ∨ s.timeout < 0)) :
    (reconnected s h answer).inits = s.inits + 1 ∧
      (reconnected s h answer).down = s.down := by
  refine ⟨?_, reconnectNolock_down⟩
  rw [reconnected, reconnectRest]
  have heq : (reconnectNolock { s with
    connecting := false, windows := s.windows.erase (.reconnect h)
    clientId := 0, resuming := true } answer).2 = _ := reconnectNolock_eq hnone
  rw [heq, if_neg hvalid]

/-- **NO SESSION COMES BACK** behind a `Shutdown` that is not called while a
    `Reconnect` is closing the handle.  Behind one that is, `Reconnect` opens a
    session as soon as it goes on. -/
theorem stays_down :
    (Reachable (sessions.restrict Sound) s → Down s) ∧
    (Reachable sessions s → ∀ a s', sessions.step s a s' → ¬Sound s a →
      ∃ h, ∀ answer, ∃ s'', next s' (.reconnected h answer) = some s'' ∧
        ¬Down s'') := by
  constructor
  · intro h n hdown
    obtain ⟨hnone, hinits, -⟩ := (resting_of_reachable h).down n hdown
    exact ⟨hnone, hinits⟩
  · intro hr a s' hnext hsound
    have hs := settled_of_reachable hr
    rw [Sound] at hsound
    push Not at hsound
    obtain ⟨rfl, h, hw⟩ := hsound
    have hclosing := hs.closing (List.ne_nil_of_mem hw)
    have hvalid := hs.valid (Or.inr (List.ne_nil_of_mem hw))
    obtain ⟨hruns, ⟨⟩⟩ := Option.ite_none_left_eq_some.mp hnext
    rw [shutdown_none hclosing.2]
    refine ⟨h, fun answer =>
      ⟨reconnected { s with down := some s.inits } h answer, ?_, ?_⟩⟩
    · rw [next, if_neg hruns]
      exact if_pos hw
    · intro hdown
      obtain ⟨hinits, hsame⟩ :
          (reconnected { s with down := some s.inits } h answer).inits =
            s.inits + 1 ∧ _ := reconnected_inits hclosing.2 hvalid
      have hcount := (hdown s.inits hsame).2
      rw [hinits] at hcount
      exact Nat.succ_ne_self _ hcount

/-- A session is opened, and shut down. -/
def shutOnce : List Action :=
  [.initializeHosts ['h'] 0 none, .shutdown, .disconnected 0 ZOK]

/-- A session expires, and the object is shut down before a new one is
    opened. -/
def shutExpired : List Action :=
  [.initializeHosts ['h'] 0 none, .expired 0 none, .shutdown,
    .reconnected 0 none]

def ZooKeeper.shutOnce : ZooKeeper :=
  (FlinterSession.shutOnce.foldlM next .fresh).get (by decide)

def ZooKeeper.shutExpired : ZooKeeper :=
  (FlinterSession.shutExpired.foldlM next .fresh).get (by decide)

instance (s : ZooKeeper) (a : Action) : Decidable (Sound s a) :=
  decidable_of_iff
    (a = .shutdown → ∀ w ∈ s.windows, w ≠ .reconnect w.handle)
    ⟨fun hw ha _ hmem => hw ha _ hmem rfl,
      fun hs ha w hmem heq => hs ha w.handle (heq ▸ hmem)⟩

theorem stays_down_shut :
    ZooKeeper.shutOnce.down = some 1 ∧ Down .shutOnce := by
  have hfollows : ∀ a ∈ shutOnce, ∀ s s',
      (if Sound s a then next s a else none) = some s' →
      (sessions.restrict Sound).step s a s' := fun _ _ _ _ hs =>
    Option.ite_none_right_eq_some.mp hs
  have h : Reachable (sessions.restrict Sound) ZooKeeper.shutOnce :=
    Reachable.follow hfollows (.start rfl) (by decide)
  exact ⟨by decide, stays_down.1 h⟩

/-- **A SESSION THAT COMES BACK**: `Shutdown` returns while `Reconnect` is
    closing the handle, and then there is another one. -/
theorem comes_back : ¬∀ s, Reachable sessions s → Down s := by
  intro hclaim
  have hfollows : ∀ a ∈ shutExpired, ∀ s s', next s a = some s' →
      sessions.step s a s' := fun _ _ _ _ hs => hs
  have h : Reachable sessions ZooKeeper.shutExpired :=
    Reachable.follow hfollows (.start rfl) (Option.some_get _).symm
  exact absurd (hclaim _ h 1 (by decide)).1 (by decide)

-- ── Used again ───────────────────────────────────────────────────────────────

/-- `Shutdown` returns with this step. -/
def Returns (s : ZooKeeper) : Action → Prop
  | .shutdown => s.handle = none
  | .disconnected _ _ => True
  | _ => False

/-- What is left can be used again: nothing is there, and `Initialize` opens a
    session. -/
structure Reusable (s : ZooKeeper) : Prop where
  handle : s.handle = none
  connecting : s.connecting = false
  pending : s.pending = []
  opens : ∀ hosts timeout answer, hosts ≠ [] → 0 ≤ timeout →
    (initializeHosts s hosts timeout answer).2.inits = s.inits + 1

/-- **WHEN SHUTDOWN LEAVES IT SO**: the handle is closed without a complaint, or
    there was none, nor anybody closing it, nor anything pending. -/
def Clean (s : ZooKeeper) : Action → Prop
  | .disconnected _ error => error = ZOK
  | _ => s.connecting = false ∧ s.pending = []

def Action.isInitialize : Action → Bool
  | .initializeHosts _ _ _ => true
  | _ => false

/-- Any run from here in which nobody calls `Initialize`. -/
def Later : ZooKeeper → ZooKeeper → Prop :=
  Relation.ReflTransGen fun s s' =>
    ∃ a, a.isInitialize = false ∧ next s a = some s'

/-- Nothing is there, and nobody is at it. -/
structure Idle (s : ZooKeeper) : Prop where
  settled : Settled s
  handle : s.handle = none
  connecting : s.connecting = false
  pending : s.pending = []

theorem Idle.not_live (hs : Idle s) : ¬s.live h = true := fun hlive => by
  have hc := hs.settled.of_live hlive hs.handle
  rw [hs.connecting] at hc
  cases hc

theorem Idle.no_window (hs : Idle s) (w : Window) : w ∉ s.windows := by
  rw [hs.settled.windows_nil hs.connecting]
  exact List.not_mem_nil

/-- Nobody but `Initialize` does anything. -/
theorem Idle.kept (hs : Idle s) (ha : a.isInitialize = false)
    (hnext : next s a = some s') : Idle s' := by
  have hsettled := hs.settled.kept hnext
  obtain ⟨-, hnext⟩ := Option.ite_none_left_eq_some.mp hnext
  cases a with
  | initializeHosts hosts timeout answer => cases ha
  | request i =>
      obtain ⟨hsome, -⟩ := Option.ite_none_right_eq_some.mp hnext
      rw [hs.handle] at hsome
      cases hsome
  | erase i =>
      obtain rfl := Option.some.inj hnext
      refine ⟨hsettled, hs.handle, hs.connecting, ?_⟩
      show s.pending.erase i = []
      rw [hs.pending]
      rfl
  | connected h clientId =>
      exact absurd (Option.ite_none_right_eq_some.mp hnext).1 hs.not_live
  | expired h answer =>
      exact absurd (Option.ite_none_right_eq_some.mp hnext).1 hs.not_live
  | reconnected h answer =>
      exact absurd (Option.ite_none_right_eq_some.mp hnext).1 (hs.no_window _)
  | shutdown =>
      obtain rfl := Option.some.inj hnext
      rw [shutdown_none hs.handle] at hsettled ⊢
      exact ⟨hsettled, hs.handle, hs.connecting, hs.pending⟩
  | disconnected h error =>
      exact absurd (Option.ite_none_right_eq_some.mp hnext).1 (hs.no_window _)

theorem Idle.reusable (hs : Idle s) : Reusable s := by
  refine ⟨hs.handle, hs.connecting, hs.pending,
    fun hosts timeout answer hh ht => ?_⟩
  have hsome : ¬s.handle.isSome = true := by
    rw [hs.handle]
    exact Bool.false_ne_true
  have hc : ¬s.connecting = true := Bool.eq_false_iff.mp hs.connecting
  have hvalid : ¬(hosts.length = 0 ∨ timeout < 0) := by
    rintro (hzero | hneg)
    · exact hh (List.length_eq_zero_iff.mp hzero)
    · exact absurd hneg (not_lt.mpr ht)
  dsimp only [initializeHosts]
  rw [if_neg hsome, if_neg hc]
  have heq : (reconnectNolock { s with
    down := none, hosts := hosts, timeout := timeout, connecting := false
    clientId := 0 } answer).2 = _ := reconnectNolock_eq hs.handle
  rw [heq, if_neg hvalid]

theorem idle_of_clean (hs : Settled s) (hnext : next s a = some s')
    (hreturns : Returns s a) (hclean : Clean s a) : Idle s' := by
  have hsettled := hs.kept hnext
  obtain ⟨-, hnext⟩ := Option.ite_none_left_eq_some.mp hnext
  cases a with
  | shutdown =>
      obtain rfl := Option.some.inj hnext
      rw [shutdown_none hreturns] at hsettled ⊢
      exact ⟨hsettled, hreturns, hclean.1, hclean.2⟩
  | disconnected h error =>
      obtain ⟨hw, ⟨⟩⟩ := Option.ite_none_right_eq_some.mp hnext
      have hclosing := hs.closing (List.ne_nil_of_mem hw)
      have hok : ¬error ≠ ZOK := not_not.mpr hclean
      dsimp only [disconnected] at hsettled ⊢
      rw [if_neg hok] at hsettled ⊢
      exact ⟨hsettled, hclosing.2, rfl, rfl⟩
  | _ => exact hreturns.elim

/-- **USED AGAIN**: after a `Shutdown` that has returned there is nothing left,
    and the next `Initialize` opens a session, if and only if it was clean. -/
theorem shutdown_reusable (hr : Reachable sessions s)
    (hnext : sessions.step s a s') (hreturns : Returns s a) :
    (∀ s'', Later s' s'' → Reusable s'') ↔ Clean s a := by
  have hs := settled_of_reachable hr
  constructor
  · intro hlater
    have hreusable := hlater s' .refl
    obtain ⟨-, hnext⟩ := Option.ite_none_left_eq_some.mp hnext
    cases a with
    | shutdown =>
        obtain rfl := Option.some.inj hnext
        rw [shutdown_none hreturns] at hreusable
        exact ⟨hreusable.connecting, hreusable.pending⟩
    | disconnected h error =>
        obtain ⟨hw, ⟨⟩⟩ := Option.ite_none_right_eq_some.mp hnext
        by_contra herror
        rw [disconnected_error herror] at hreusable
        have hc : s.connecting = false := hreusable.connecting
        rw [(hs.closing (List.ne_nil_of_mem hw)).1] at hc
        cases hc
    | _ => exact hreturns.elim
  · intro hclean s'' hlater
    have hidle := idle_of_clean hs hnext hreturns hclean
    exact (invariant_of_star (I := Idle)
      (fun _ _ ⟨_, ha, hstep⟩ hi => hi.kept ha hstep) hlater hidle).reusable

/-- A session that is being shut down. -/
def ZooKeeper.shutting : ZooKeeper :=
  ((FlinterSession.shutOnce.take 2).foldlM next .fresh).get (by decide)

theorem reachable_shutting : Reachable sessions .shutting := by
  have hfollows : ∀ a ∈ shutOnce.take 2, ∀ s s', next s a = some s' →
      sessions.step s a s' := fun _ _ _ _ hs => hs
  exact Reachable.follow hfollows (.start rfl) (Option.some_get _).symm

/-- The client answers. -/
theorem step_disconnected (error : Int) : sessions.step .shutting
    (.disconnected 0 error) (disconnected .shutting 0 error).2 := by
  have hruns : ¬ZooKeeper.shutting.aborted = true := by decide
  have hwindow : .shutdown 0 ∈ ZooKeeper.shutting.windows := by decide
  exact (if_neg hruns).trans (if_pos hwindow)

theorem shutdown_reusable_closed :
    Reusable (disconnected .shutting 0 ZOK).2 :=
  (shutdown_reusable reachable_shutting (step_disconnected ZOK)
    trivial).mpr rfl _ .refl

/-- **A COMPLAINT**: the client closes the handle with an error, and
    `Initialize` opens no session any more, though it returns `ZOK`. -/
theorem complaint_sticks :
    ¬∀ s a s', Reachable sessions s → sessions.step s a s' → Returns s a →
      ∀ s'', Later s' s'' → Reusable s'' := by
  intro hclaim
  have hreusable := hclaim _ _ _ reachable_shutting (step_disconnected (-4))
    trivial _ .refl
  exact absurd hreusable.connecting (by decide)

example : initializeHosts (disconnected .shutting 0 (-4)).2 ['h'] 0 none =
    (ZOK, { (disconnected .shutting 0 (-4)).2 with down := none }) := by decide

end FlinterSession
