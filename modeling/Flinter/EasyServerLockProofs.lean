import Flinter.EasyServerProofs
import Flinter.LinkageProofs
import Flinter.LockProofs

/-! # EasyServer: callbacks and the mutexes of the contexts

    Every path of `EasyServer` that locks or calls an `EasyHandler` back, as a
    program of one thread.  What the tables, the io and the peers say is asked,
    and what the handler replies is arbitrary, so a run may take any path.  A
    callback may call `Send`, `Disconnect`, `Forget` and `Connect` again.

    `Send` to an outgoing channel without a linkage connects it under the mutex
    of its context.  As long as such a connection is still in progress when
    `DoReconnect` has attached it, no callback ever finds a mutex held; any
    other outcome calls the handler back under the mutex. -/

namespace FlinterEasyServerLock

open FlinterEasyServer (Channel kInvalidChannel isOutgoingChannel getThreadId)
open FlinterLinkage (Status Action Setup)
open Locks Runs

/-- The mutexes: `_gmutex`, that of an `IoContext`, and that of the commands of
    a worker. -/
inductive Mutex where
  | global
  | context (t : Nat)
  | commands
deriving DecidableEq, Repr

/-- The callbacks of an `EasyHandler`. -/
inductive Callback where
  | getMessageLength
  | hashMessage
  | onMessage
  | onConnected
  | onError
  | onDisconnected
  | cleanup
deriving DecidableEq, Repr

/-- What they reply. -/
abbrev Reply : Callback → Type
  | .getMessageLength => Int
  | .hashMessage => Int
  | .onMessage => Int
  | .onConnected => Bool
  | .onError => Unit
  | .onDisconnected => Unit
  | .cleanup => Bool

/-- What is answered by yes or no: `linked` and `informed` are what the tables
    have for a channel, `running` that this is the thread of the worker. -/
inductive Flag where
  | linked (channel : Channel)
  | informed (channel : Channel)
  | running
  | buffered
  | sent
  | overLimit
  | accepted
  | secureListener
  | workers
  | pending
  | graceful
  | more
  | known
  | complete
  | rest
  | busy
  | timedOut
deriving DecidableEq, Repr

/-- The calls of an `AbstractIo`; `reconnecting` says that `DoReconnect` waits
    for the handshake. -/
inductive IoCall where
  | handshake (reconnecting : Bool)
  | read
  | write
  | shutdown
deriving DecidableEq, Repr

/-- What is asked: flags, io calls, `interface->Connect`, how many bytes were
    read, how many rounds an event lasts, `_action`, and the linkages of the
    worker. -/
inductive Query where
  | flag (f : Flag)
  | io (call : IoCall)
  | connect (channel : Channel)
  | length
  | rounds
  | action
  | linkages

abbrev Answer : Query → Type
  | .flag _ => Bool
  | .io _ => Status
  | .connect _ => Int
  | .length => Nat
  | .rounds => Nat
  | .action => Action
  | .linkages => List Channel

abbrev P := Prog Mutex Answer Reply

def flag (f : Flag) : P Bool := query (Query.flag f)
def io (call : IoCall) : P Status := query (Query.io call)
def interfaceConnect (channel : Channel) : P Int := query (Query.connect channel)
def length : P Nat := query Query.length
def rounds : P Nat := query Query.rounds
def pendingAction : P Action := query Query.action
def linkages : P (List Channel) := query Query.linkages

def getMessageLength : P Int := callback Callback.getMessageLength
def hashMessage : P Int := callback Callback.hashMessage
def handleMessage : P Int := callback Callback.onMessage
def onConnected : P Bool := callback Callback.onConnected
def onError : P Unit := callback Callback.onError
def onDisconnected : P Unit := callback Callback.onDisconnected
def handleCleanup : P Bool := callback Callback.cleanup

variable (slots : Nat) (secure : Channel → Bool)

/-- The mutex of `GetIoContext(channel)`. -/
def mutex (channel : Channel) : Mutex := .context (getThreadId slots channel)

-- ── Linkage ──────────────────────────────────────────────────────────────────

theorem none_exclusive : Action.none = .none ∨ Action.none = .none := .inl rfl

theorem none_opening :
    ∀ a ∈ [Action.none, Action.none], a ∈ [Action.none, .accept, .connect] := by
  decide

/-- `AbstractIo::Initialize`, of `SslIo` and of `FileDescriptorIo`. -/
def setup (ssl clientMode connecting : Bool) : Setup :=
  let handshake : Action := if clientMode then .connect else .accept
  match connecting, ssl with
  | true, true => ⟨true, .none, handshake, false, true, by simp, by
      cases clientMode <;> simp [handshake]⟩
  | true, false => ⟨true, .none, .connect, false, true, by simp, by simp⟩
  | false, true => ⟨true, handshake, .none, false, false, by simp, by
      cases clientMode <;> simp [handshake]⟩
  | false, false =>
    ⟨true, .none, .none, false, false, none_exclusive, none_opening⟩

/-- `EasyServer::ProxyHandler::OnMessage`. -/
def onMessage : P Int := do
  if (← flag .workers) then
    let _ ← hashMessage
    acquire .global
    relinquish .global
    return 1
  else handleMessage

/-- `_rlength`, if it is known, or what the handler says. -/
def messageLength : P Int := do
  if (← flag .known) then return 1 else getMessageLength

/-- `Linkage::DoReceived` with `length` bytes at most: a message takes one at
    least. -/
def doReceived : Nat → P Int
  | 0 => return 1
  | length + 1 => do
    let ret ← messageLength
    if ret < 0 then return -1
    else if ret = 0 then return 1
    else if ¬(← flag .complete) then return 1
    else
      let next ← onMessage
      if next < 0 then return -1
      else if next = 0 then return 0
      else doReceived length

/-- `Linkage::OnReceived`: what was left from before may come first. -/
def onReceived (length : Nat) : P Int := do
  if length = 0 ∨ (← flag .graceful) then return 1
  else
    let ret ← doReceived length
    if ret ≤ 0 then return ret
    else if (← flag .rest) then doReceived length
    else return 1

/-- `Linkage::AfterEvent`. -/
def afterEvent : Status → Int
  | .wannaRead => 1
  | .wannaWrite => 1
  | .closed => 0
  | .ok => 1
  | _ => -1

/-- `Linkage::OnEventOnce`: what it returns, and the next action. -/
def onEventOnce (reconnecting : Bool) : Action → P (Int × Action)
  | .read => do
    let status ← io .read
    if status = .ok then
      let ret ← onReceived (← length)
      if ret = 0 then return (1, .shutdown)
      else if 0 < ret then
        return (1, if (← flag .more) then .read else .none)
      else return (-1, .none)
    else return (afterEvent status, .none)
  | .write => do
    if (← flag .pending) then
      return (afterEvent (← io .write), .none)
    else if (← flag .graceful) then return (1, .shutdown)
    else return (1, .none)
  | .shutdown => do
    let status ← io .shutdown
    if status = .ok ∨ status = .closed then return (0, .none)
    else if status.incomplete then return (1, .none)
    else return (-1, .none)
  | .none => return (-1, .none)
  | _ => do
    let status ← io (.handshake reconnecting)
    if status = .ok then
      return (if (← onConnected) then 1 else -1, .none)
    else return (afterEvent status, .none)

/-- `Linkage::OnEvent`, for as many rounds as the io gives it. -/
def onEvent (reconnecting : Bool) : Nat → Action → P Int
  | 0, _ => return -1
  | n + 1, action => do
    let (ret, next) ← onEventOnce reconnecting action
    if next = .none then return ret else onEvent reconnecting n next

/-- `Linkage::Attach` of a new linkage, which its worker takes. -/
def attach (reconnecting : Bool) (setup : Setup) : P Bool := do
  if ¬setup.ok then return false
  else if ¬setup.connecting then onConnected
  else if setup.action = .none then return true
  else
    let ret ← onEvent reconnecting 1 setup.action
    return decide (0 < ret)

/-- `Linkage::Disconnect`. -/
def disconnectLinkage : P Int := do
  if (← flag .busy) then return 1 else onEvent false 1 .shutdown

-- ── The tables ───────────────────────────────────────────────────────────────

/-- `LinkageWorker::SendCommand`. -/
def sendCommand : P Unit := do
  acquire .commands
  relinquish .commands

/-- `EasyServer::AllocateChannel` of a worker: whether there is a linkage. -/
def allocateChannel (t : Nat) : P Bool := do
  if (← flag .overLimit) then return false
  else
    acquire (.context t)
    let accepted ← flag .accepted
    relinquish (.context t)
    return accepted

/-- `EasyServer::ReleaseChannel`. -/
def releaseChannel (channel : Channel) : P Unit := do
  if channel = kInvalidChannel then return ()
  else
    acquire (mutex slots channel)
    relinquish (mutex slots channel)

/-- `EasyServer::Forget`. -/
def forget (channel : Channel) : P Unit := do
  if channel = kInvalidChannel then return ()
  else
    acquire (mutex slots channel)
    relinquish (mutex slots channel)

/-- `EasyServer::Connect` on thread `t`. -/
def connect (t : Nat) : P Unit := do
  acquire .global
  acquire (.context t)
  relinquish (.context t)
  relinquish .global

/-- `EasyServer::Disconnect`. -/
def disconnect (channel : Channel) : P Unit := do
  if channel = kInvalidChannel then return ()
  else
    acquire (mutex slots channel)
    if ¬(← flag (.linked channel)) then relinquish (mutex slots channel)
    else if (← flag .running) then
      relinquish (mutex slots channel)
      let _ ← disconnectLinkage
    else
      sendCommand
      relinquish (mutex slots channel)

/-- `EasyServer::DoRealDisconnect`. -/
def doRealDisconnect (channel : Channel) : P Unit := do
  if channel = kInvalidChannel then return ()
  else
    acquire (mutex slots channel)
    let linked ← flag (.linked channel)
    relinquish (mutex slots channel)
    if linked then
      let _ ← disconnectLinkage
    else return ()

-- ── Sending ──────────────────────────────────────────────────────────────────

/-- `EasyServer::DoReconnect` with what `Connect` returned: whether there is a
    linkage.  The handler is called directly. -/
def attachConnected (channel : Channel) (ret : Int) : P Bool := do
  if ret < 0 then
    onError
    onDisconnected
    return false
  else if (← attach true (setup (secure channel) true (0 < ret))) then return true
  else
    onError
    return false

/-- `EasyServer::DoReconnect`, under the mutex of the context. -/
def doReconnect (channel : Channel) : P Bool := do
  attachConnected secure channel (← interfaceConnect channel)

/-- The linkage that `DoRealSend` finds, or connects. -/
def findLinkage (channel : Channel) : P Bool := do
  if (← flag (.linked channel)) then return true
  else if ¬isOutgoingChannel channel then return false
  else if ¬(← flag (.informed channel)) then return false
  else doReconnect secure channel

/-- `EasyServer::DoRealSend`. -/
def doRealSend (channel : Channel) : P Unit := do
  if channel = kInvalidChannel then return ()
  else
    acquire (mutex slots channel)
    let linkage ← findLinkage secure channel
    relinquish (mutex slots channel)
    if ¬linkage then return ()
    else if ¬(← flag .buffered) then return ()
    else if (← flag .sent) then return ()
    else
      onError
      let _ ← disconnectLinkage

/-- `EasyServer::Send`. -/
def send (channel : Channel) : P Unit := do
  if channel = kInvalidChannel then return ()
  else
    acquire (mutex slots channel)
    if (← flag (.linked channel)) then
      if ¬(← flag .buffered) then relinquish (mutex slots channel)
      else if (← flag .running) then
        relinquish (mutex slots channel)
        let _ ← flag .sent
      else
        relinquish (mutex slots channel)
        sendCommand
    else if ¬isOutgoingChannel channel then relinquish (mutex slots channel)
    else if ¬(← flag (.informed channel)) then relinquish (mutex slots channel)
    else if (← flag .running) then
      let linkage ← doReconnect secure channel
      relinquish (mutex slots channel)
      if ¬linkage then return ()
      else if ¬(← flag .buffered) then return ()
      else
        let _ ← flag .sent
    else
      relinquish (mutex slots channel)
      sendCommand

-- ── The threads ──────────────────────────────────────────────────────────────

/-- `LinkageWorker::DoRelease`, down to `ProxyHandler::OnDisconnected`. -/
def doRelease (channel : Channel) : P Unit := do
  onDisconnected
  releaseChannel slots channel

def releaseAll : List Channel → P Unit
  | [] => return ()
  | channel :: channels => do
    doRelease slots channel
    releaseAll channels

/-- `LinkageWorker::OnReadable` and `OnWritable`. -/
def onIo (channel : Channel) (idleAction : Action) : P Unit := do
  let action ← pendingAction
  let ret ← onEvent false (← rounds)
    (if action = .none then idleAction else action)
  if ret < 0 then
    onError
    doRelease slots channel
  else if ret = 0 then doRelease slots channel
  else return ()

/-- `Listener::OnReadable` with `ProxyListener::CreateLinkage`. -/
def onAccept (t : Nat) : P Unit := do
  if (← allocateChannel t) then
    let ssl ← flag .secureListener
    let _ ← attach false (setup ssl false false)
  else return ()

/-- `Linkage::Cleanup`. -/
def cleanup : P Bool := do
  if (← flag .timedOut) then return false else handleCleanup

/-- The linkages that `LinkageWorker::OnHealthCheck` drops. -/
def drops : List Channel → P (List Channel)
  | [] => return []
  | channel :: channels => do
    let kept ← cleanup
    let dropped ← drops channels
    return if kept then dropped else channel :: dropped

/-- `LinkageWorker::OnHealthCheck`. -/
def onHealthCheck : P Unit := do
  releaseAll slots (← drops (← linkages))

/-- The end of `LinkageWorker::Run`. -/
def leave : P Unit := do
  releaseAll slots (← linkages)

/-- `EasyServer::JobWorker::Job::Run`. -/
def runJob (channel : Channel) : P Unit := do
  let ret ← handleMessage
  if ret < 0 then
    onError
    disconnect slots channel
  else if ret = 0 then disconnect slots channel
  else return ()

/-- What a thread of the server, or of its user, may run. -/
inductive Op where
  | send (channel : Channel)
  | disconnect (channel : Channel)
  | forget (channel : Channel)
  | connect (t : Nat)
  | doRealSend (channel : Channel)
  | doRealDisconnect (channel : Channel)
  | onAccept (t : Nat)
  | onIo (channel : Channel) (idleAction : Action)
  | onHealthCheck
  | leave
  | runJob (channel : Channel)

/-- What a callback may call. -/
def Op.entry : Op → Prop
  | .send _ => True
  | .disconnect _ => True
  | .forget _ => True
  | .connect _ => True
  | _ => False

def program : Op → P Unit
  | .send channel => send slots secure channel
  | .disconnect channel => disconnect slots channel
  | .forget channel => forget slots channel
  | .connect t => connect t
  | .doRealSend channel => doRealSend slots secure channel
  | .doRealDisconnect channel => doRealDisconnect slots channel
  | .onAccept t => onAccept t
  | .onIo channel idleAction => onIo slots channel idleAction
  | .onHealthCheck => onHealthCheck slots
  | .leave => leave slots
  | .runJob channel => runJob slots channel

/-- A thread of a server with `slots` contexts, whose channels `secure` are
    encrypted. -/
def thread : System (Thread Mutex Answer Reply) (Choice Op Answer Reply) :=
  machine (program slots secure) Op.entry

-- ── What is promised ─────────────────────────────────────────────────────────

/-- A connection that `DoReconnect` makes is in progress when it is attached:
    connecting, or connected and in the middle of its handshake. -/
def InProgress : ∀ q, Answer q → Prop
  | .connect channel, (ret : Int) =>
    if secure channel then 0 ≤ ret else 0 < ret
  | .io (.handshake true), (status : Status) => status.incomplete = true
  | _, _ => True

variable {slots : Nat} {secure : Channel → Bool} {ok : ∀ q, Answer q → Prop}

variable {held : List Mutex} {m : Mutex} {channel : Channel}

theorem keeps_flag (f : Flag) : (flag f).Keeps ok held := keeps_query

theorem keeps_io (call : IoCall) : (io call).Keeps ok held := keeps_query

theorem keeps_return {α : Type} (a : α) : (return a : P α).Keeps ok held := rfl

theorem clean_onError : onError.Clean ok := clean_callback

theorem clean_onMessage : onMessage.Clean ok := by
  rw [onMessage]
  refine keeps_bind (keeps_flag _) ?_
  intro workers
  split
  · refine keeps_bind clean_callback ?_
    intro hash
    refine safe_acquire_bind List.not_mem_nil ?_
    refine safe_relinquish_bind ?_
    exact keeps_return _
  · exact clean_callback

theorem clean_messageLength : messageLength.Clean ok := by
  rw [messageLength]
  refine keeps_bind (keeps_flag _) ?_
  intro known
  split
  · exact keeps_return _
  · exact clean_callback

theorem clean_doReceived (length : Nat) : (doReceived length).Clean ok := by
  induction length with
  | zero => exact keeps_return _
  | succ length ih =>
      rw [doReceived]
      refine keeps_bind clean_messageLength ?_
      intro ret
      split
      · exact keeps_return _
      split
      · exact keeps_return _
      refine keeps_bind (keeps_flag _) ?_
      intro complete
      split
      · exact keeps_return _
      refine keeps_bind clean_onMessage ?_
      intro next
      split
      · exact keeps_return _
      split
      · exact keeps_return _
      · exact ih

theorem clean_onReceived (length : Nat) : (onReceived length).Clean ok := by
  rw [onReceived]
  refine keeps_bind (keeps_flag _) ?_
  intro graceful
  split
  · exact keeps_return _
  refine keeps_bind (clean_doReceived length) ?_
  intro ret
  split
  · exact keeps_return _
  refine keeps_bind (keeps_flag _) ?_
  intro rest
  split
  · exact clean_doReceived length
  · exact keeps_return _

/-- Whatever the io answers, an event that comes with no mutex held leaves
    none. -/
theorem clean_onEventOnce (reconnecting : Bool) (action : Action) :
    (onEventOnce reconnecting action).Clean ok := by
  have handshake : (do
      let status ← io (.handshake reconnecting)
      if status = .ok then
        return (if (← onConnected) then 1 else -1, .none)
      else return (afterEvent status, .none) : P (Int × Action)).Clean ok := by
    refine keeps_bind (keeps_io _) ?_
    intro status
    split
    · exact keeps_bind clean_callback fun _ => keeps_return _
    · exact keeps_return _
  cases action with
  | read =>
      rw [onEventOnce]
      refine keeps_bind (keeps_io _) ?_
      intro status
      split
      · refine keeps_bind keeps_query ?_
        intro length
        refine keeps_bind (clean_onReceived length) ?_
        intro ret
        split
        · exact keeps_return _
        split
        · exact keeps_bind (keeps_flag _) fun _ => keeps_return _
        · exact keeps_return _
      · exact keeps_return _
  | write =>
      rw [onEventOnce]
      refine keeps_bind (keeps_flag _) ?_
      intro pending
      split
      · exact keeps_bind (keeps_io _) fun _ => keeps_return _
      refine keeps_bind (keeps_flag _) ?_
      intro graceful
      split
      · exact keeps_return _
      · exact keeps_return _
  | shutdown =>
      rw [onEventOnce]
      refine keeps_bind (keeps_io _) ?_
      intro status
      split
      · exact keeps_return _
      split
      · exact keeps_return _
      · exact keeps_return _
  | none => exact keeps_return _
  | accept => exact handshake
  | connect => exact handshake

theorem clean_onEvent (reconnecting : Bool) (n : Nat) (action : Action) :
    (onEvent reconnecting n action).Clean ok := by
  induction n generalizing action with
  | zero => exact keeps_return _
  | succ n ih =>
      rw [onEvent]
      refine keeps_bind (clean_onEventOnce reconnecting action) ?_
      rintro ⟨ret, next⟩
      show (if next = .none then return ret
        else onEvent reconnecting n next : P Int).Clean ok
      split
      · exact keeps_return _
      · exact ih next

theorem clean_attach (reconnecting : Bool) (setup : Setup) :
    (attach reconnecting setup).Clean ok := by
  rw [attach]
  split
  · exact keeps_return _
  split
  · exact clean_callback
  split
  · exact keeps_return _
  · exact keeps_bind (clean_onEvent _ _ _) fun _ => keeps_return _

theorem clean_disconnectLinkage : disconnectLinkage.Clean ok := by
  rw [disconnectLinkage]
  refine keeps_bind (keeps_flag _) ?_
  intro busy
  split
  · exact keeps_return _
  · exact clean_onEvent _ _ _

-- ── The tables, the connections, the threads ─────────────────────────────────

theorem keeps_sendCommand (h : .commands ∉ held) :
    sendCommand.Keeps ok held := by
  refine safe_acquire_bind h ?_
  exact safe_relinquish rfl

/-- A mutex is locked for what the tables say. -/
theorem clean_locked : (do
    acquire m
    relinquish m : P Unit).Clean ok := by
  refine safe_acquire_bind List.not_mem_nil ?_
  exact safe_relinquish rfl

theorem clean_releaseChannel : (releaseChannel slots channel).Clean ok := by
  rw [releaseChannel]
  split
  · exact keeps_return _
  · exact clean_locked

theorem clean_forget : (forget slots channel).Clean ok := by
  rw [forget]
  split
  · exact keeps_return _
  · exact clean_locked

theorem clean_allocateChannel (t : Nat) : (allocateChannel t).Clean ok := by
  rw [allocateChannel]
  refine keeps_bind (keeps_flag _) ?_
  intro overLimit
  split
  · exact keeps_return _
  refine safe_acquire_bind List.not_mem_nil ?_
  refine keeps_bind (keeps_flag _) ?_
  intro accepted
  exact safe_relinquish_bind (keeps_return _)

theorem clean_connect (t : Nat) : (connect t).Clean ok := by
  rw [connect]
  refine safe_acquire_bind List.not_mem_nil ?_
  refine safe_acquire_bind (by simp) ?_
  refine safe_relinquish_bind ?_
  exact safe_relinquish rfl

theorem clean_disconnect : (disconnect slots channel).Clean ok := by
  rw [disconnect]
  split
  · exact keeps_return _
  refine safe_acquire_bind List.not_mem_nil ?_
  refine keeps_bind (keeps_flag _) ?_
  intro linked
  split
  · exact safe_relinquish rfl
  refine keeps_bind (keeps_flag _) ?_
  intro running
  split
  · refine safe_relinquish_bind ?_
    exact keeps_bind clean_disconnectLinkage fun _ => keeps_return _
  · refine keeps_bind (keeps_sendCommand (by simp [mutex])) ?_
    intro _
    exact safe_relinquish rfl

theorem clean_doRealDisconnect : (doRealDisconnect slots channel).Clean ok := by
  rw [doRealDisconnect]
  split
  · exact keeps_return _
  refine safe_acquire_bind List.not_mem_nil ?_
  refine keeps_bind (keeps_flag _) ?_
  intro linked
  refine safe_relinquish_bind ?_
  split
  · exact keeps_bind clean_disconnectLinkage fun _ => keeps_return _
  · exact keeps_return _

/-- With a mutex held, nothing is called back exactly if the connection is in
    progress: connecting, or, encrypted, in the middle of its handshake. -/
theorem keeps_attachConnected_iff (hheld : held ≠ []) (ret : Int) :
    (attachConnected secure channel ret).Keeps ok held ↔
      (if secure channel then 0 ≤ ret else 0 < ret) ∧ (ret = 0 →
        ∀ status, ok (.io (.handshake true)) status →
          status.incomplete = true) := by
  rcases lt_trichotomy ret 0 with hneg | rfl | hpos
  · -- Failed: `OnError` comes first.
    refine iff_of_false ?_ ?_
    · intro h
      rw [attachConnected, if_pos hneg] at h
      exact hheld h.1
    · rintro ⟨h, -⟩
      split at h
      · exact absurd hneg (not_lt_of_ge h)
      · exact absurd hneg (not_lt_of_gt h)
  · rw [attachConnected, if_neg (lt_irrefl 0), decide_eq_false (lt_irrefl 0)]
    cases secure channel with
    | false =>
        -- Connected: `OnConnected` comes at once.
        refine iff_of_false ?_ ?_
        · intro h
          exact hheld h.1
        · rintro ⟨h, -⟩
          exact absurd h (by simp)
    | true =>
        -- Connected: the handshake begins.
        constructor
        · intro h
          refine ⟨by simp, ?_⟩
          intro _ status hok
          have hstep := h status hok
          cases status with
          | wannaRead => rfl
          | wannaWrite => rfl
          | _ => exact absurd hstep.1 hheld
        · rintro ⟨-, h⟩ status hok
          have hstatus := h rfl status hok
          cases status with
          | wannaRead => exact keeps_return _
          | wannaWrite => exact keeps_return _
          | _ => exact absurd hstatus (by decide)
  · -- Connecting: the io is waited for.
    have hwait : attach true (setup (secure channel) true true) =
        (return true : P Bool) := by
      cases secure channel <;> rfl
    have hsame : attachConnected secure channel ret = (return true : P Bool) := by
      rw [attachConnected, if_neg (not_lt_of_gt hpos), decide_eq_true hpos, hwait]
      rfl
    rw [hsame]
    refine ⟨fun _ => ⟨?_, fun h => absurd h (ne_of_gt hpos)⟩, fun _ => keeps_return _⟩
    split
    · exact le_of_lt hpos
    · exact hpos

/-- **CONNECTED UNDER THE MUTEX**: a connection in progress calls nothing back. -/
theorem keeps_doReconnect (hheld : held ≠ []) :
    (doReconnect secure channel).Keeps (InProgress secure) held := by
  rw [doReconnect]
  refine safe_bind (safe_query ?_)
  intro ret hret
  exact (keeps_attachConnected_iff hheld ret).mpr
    ⟨hret, fun _ status hstatus => hstatus⟩

theorem keeps_findLinkage (hheld : held ≠ []) :
    (findLinkage secure channel).Keeps (InProgress secure) held := by
  rw [findLinkage]
  refine keeps_bind (keeps_flag _) ?_
  intro linked
  split
  · exact keeps_return _
  split
  · exact keeps_return _
  refine keeps_bind (keeps_flag _) ?_
  intro informed
  split
  · exact keeps_return _
  · exact keeps_doReconnect hheld

theorem clean_doRealSend :
    (doRealSend slots secure channel).Clean (InProgress secure) := by
  rw [doRealSend]
  split
  · exact keeps_return _
  refine safe_acquire_bind List.not_mem_nil ?_
  refine keeps_bind (keeps_findLinkage (List.cons_ne_nil _ _)) ?_
  intro linkage
  refine safe_relinquish_bind ?_
  split
  · exact keeps_return _
  refine keeps_bind (keeps_flag _) ?_
  intro buffered
  split
  · exact keeps_return _
  refine keeps_bind (keeps_flag _) ?_
  intro sent
  split
  · exact keeps_return _
  refine keeps_bind clean_onError ?_
  intro _
  exact keeps_bind clean_disconnectLinkage fun _ => keeps_return _

theorem clean_send : (send slots secure channel).Clean (InProgress secure) := by
  rw [send]
  split
  · exact keeps_return _
  refine safe_acquire_bind List.not_mem_nil ?_
  refine keeps_bind (keeps_flag _) ?_
  intro linked
  split
  · refine keeps_bind (keeps_flag _) ?_
    intro buffered
    split
    · exact safe_relinquish rfl
    refine keeps_bind (keeps_flag _) ?_
    intro running
    split
    · refine safe_relinquish_bind ?_
      exact keeps_bind (keeps_flag _) fun _ => keeps_return _
    · refine safe_relinquish_bind ?_
      exact keeps_sendCommand List.not_mem_nil
  split
  · exact safe_relinquish rfl
  refine keeps_bind (keeps_flag _) ?_
  intro informed
  split
  · exact safe_relinquish rfl
  refine keeps_bind (keeps_flag _) ?_
  intro running
  split
  · refine keeps_bind (keeps_doReconnect (List.cons_ne_nil _ _)) ?_
    intro linkage
    refine safe_relinquish_bind ?_
    split
    · exact keeps_return _
    refine keeps_bind (keeps_flag _) ?_
    intro buffered
    split
    · exact keeps_return _
    · exact keeps_bind (keeps_flag _) fun _ => keeps_return _
  · refine safe_relinquish_bind ?_
    exact keeps_sendCommand List.not_mem_nil

theorem clean_doRelease (channel : Channel) : (doRelease slots channel).Clean ok := by
  rw [doRelease]
  refine keeps_bind clean_callback ?_
  intro _
  exact clean_releaseChannel

theorem clean_releaseAll (channels : List Channel) :
    (releaseAll slots channels).Clean ok := by
  induction channels with
  | nil => exact keeps_return _
  | cons channel channels ih =>
      rw [releaseAll]
      exact keeps_bind (clean_doRelease channel) fun _ => ih

theorem clean_onIo (idleAction : Action) :
    (onIo slots channel idleAction).Clean ok := by
  rw [onIo]
  refine keeps_bind keeps_query ?_
  intro action
  refine keeps_bind keeps_query ?_
  intro rounds
  refine keeps_bind (clean_onEvent _ _ _) ?_
  intro ret
  split
  · refine keeps_bind clean_onError ?_
    intro _
    exact clean_doRelease channel
  split
  · exact clean_doRelease channel
  · exact keeps_return _

theorem clean_onAccept (t : Nat) : (onAccept t).Clean ok := by
  rw [onAccept]
  refine keeps_bind (clean_allocateChannel t) ?_
  intro linkage
  split
  · refine keeps_bind (keeps_flag _) ?_
    intro ssl
    exact keeps_bind (clean_attach _ _) fun _ => keeps_return _
  · exact keeps_return _

theorem clean_drops (channels : List Channel) : (drops channels).Clean ok := by
  induction channels with
  | nil => exact keeps_return _
  | cons channel channels ih =>
      rw [drops]
      refine keeps_bind ?_ ?_
      · rw [cleanup]
        refine keeps_bind (keeps_flag _) ?_
        intro timedOut
        split
        · exact keeps_return _
        · exact clean_callback
      · intro kept
        exact keeps_bind ih fun _ => keeps_return _

theorem clean_onHealthCheck : (onHealthCheck slots).Clean ok := by
  rw [onHealthCheck]
  refine keeps_bind keeps_query ?_
  intro channels
  refine keeps_bind (clean_drops channels) ?_
  intro dropped
  exact clean_releaseAll dropped

theorem clean_runJob : (runJob slots channel).Clean ok := by
  rw [runJob]
  refine keeps_bind clean_callback ?_
  intro (ret : Int)
  show Prog.Safe _ (if ret < 0 then _ else _) _ _
  split
  · refine keeps_bind clean_onError ?_
    intro _
    exact clean_disconnect
  split
  · exact clean_disconnect
  · exact keeps_return _

/-- Every program of a thread is clean while reconnections are in progress. -/
theorem clean_program (op : Op) :
    (program slots secure op).Clean (InProgress secure) := by
  cases op with
  | send channel => exact clean_send
  | disconnect channel => exact clean_disconnect
  | forget channel => exact clean_forget
  | connect t => exact clean_connect t
  | doRealSend channel => exact clean_doRealSend
  | doRealDisconnect channel => exact clean_doRealDisconnect
  | onAccept t => exact clean_onAccept t
  | onIo channel idleAction => exact clean_onIo idleAction
  | onHealthCheck => exact clean_onHealthCheck
  | leave => exact keeps_bind keeps_query fun _ => clean_releaseAll _
  | runJob channel => exact clean_runJob

/-- **NO CALLBACK UNDER A MUTEX**: in every run of a thread whose reconnections are
    in progress when they are attached, no callback is called with a mutex
    held, and no mutex is locked that the thread holds. -/
theorem callbacks_unlocked {th : Thread Mutex Answer Reply}
    (h : Reachable ((thread slots secure).restrict (Answering (InProgress secure)))
      th) :
    (∀ c, th.Calling c → th.held = []) ∧ ¬th.WaitsForItself :=
  calls_unlocked clean_program h

/-- A channel connects on `Send`; when the connection is there, `OnConnected` is
    called with no mutex held. -/
theorem callbacks_unlocked_connected :
    ∃ th : Thread Mutex Answer Reply, th.Calling .onConnected ∧ th.held = [] := by
  have hstart : Reachable ((machine (program 1 fun _ => false) Op.entry).restrict
      (Answering (InProgress fun _ => false))) ⟨[], [], .outside⟩ := .start rfl
  have h₁ := run_start hstart (.send 0x8000000000000001) (.inl rfl)
  have h₂ := run_lock h₁ (.context 0) rfl List.not_mem_nil
  have h₃ := run_answer h₂ (.flag (.linked 0x8000000000000001)) false rfl trivial
  have h₄ := run_answer h₃ (.flag (.informed 0x8000000000000001)) true rfl trivial
  have h₅ := run_answer h₄ (.flag .running) true rfl trivial
  have h₆ := run_answer h₅ (.connect 0x8000000000000001) (1 : Int) rfl
    (by simp [InProgress])
  have h₇ := run_unlock h₆ (.context 0) rfl
  have h₈ := run_answer h₇ (.flag .buffered) false rfl trivial
  have h₉ := run_done h₈ rfl
  have h₁₀ := run_start h₉ (.onIo 0x8000000000000001 .write) (.inl rfl)
  have h₁₁ := run_answer h₁₀ .action (.connect : Action) rfl trivial
  have h₁₂ := run_answer h₁₁ .rounds (1 : Nat) rfl trivial
  have h₁₃ := run_answer h₁₂ (.io (.handshake false)) (.ok : Status) rfl trivial
  exact ⟨_, ⟨_, rfl⟩, (callbacks_unlocked h₁₃).1 .onConnected ⟨_, rfl⟩⟩

/-- A channel whose connection fails on `Send`: `OnError` is called with the
    mutex of the context held, and when it calls `Forget` the thread waits for
    itself. -/
theorem callback_under_mutex :
    (∃ th, Reachable (thread 1 fun _ => false) th ∧ th.Calling .onError ∧
      .context 0 ∈ th.held) ∧
    ∃ th, Reachable (thread 1 fun _ => false) th ∧ th.WaitsForItself := by
  have hstart : Reachable ((machine (program 1 fun _ => false) Op.entry).restrict
      (Answering fun _ _ => True)) ⟨[], [], .outside⟩ := .start rfl
  have h₁ := run_start hstart (.send 0x8000000000000001) (.inl rfl)
  have h₂ := run_lock h₁ (.context 0) rfl List.not_mem_nil
  have h₃ := run_answer h₂ (.flag (.linked 0x8000000000000001)) false rfl trivial
  have h₄ := run_answer h₃ (.flag (.informed 0x8000000000000001)) true rfl trivial
  have h₅ := run_answer h₄ (.flag .running) true rfl trivial
  have h₆ := run_answer h₅ (.connect 0x8000000000000001) (-1 : Int) rfl trivial
  have h₇ := run_call h₆ .onError rfl
  have h₈ := run_start h₇ (.forget 0x8000000000000001) (.inr trivial)
  exact ⟨⟨_, h₆.of_restrict, ⟨_, rfl⟩, List.mem_cons_self⟩,
    _, h₈.of_restrict, .context 0, _, rfl, List.mem_cons_self⟩

end FlinterEasyServerLock
