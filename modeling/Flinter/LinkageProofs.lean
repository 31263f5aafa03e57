import Flinter.RunProofs

/-! # A linkage: one connection, its I/O, its handler and its worker

    `Linkage` moves bytes between an `AbstractIo` and a `LinkageHandler` on the
    thread of a `LinkageWorker`.  A `World` is a linkage with what it touches:
    its entry in the worker's table, the monotonic clock, the answers the io
    will give to the calls still to come, and (ghost) the trace of what
    happened.  Every function below is the source function of that name, in
    state-passing style.

    The answers an event consumes come from a finite list.  When it is used up
    the io answers `kStatusBug`, so an event always ends; the events of the
    program that end are those for lists long enough. -/

namespace FlinterLinkage

abbrev Bytes := List UInt8

/-- `AbstractIo::Status`. -/
inductive Status where
  | ok
  | bug
  | error
  | jammed
  | closed
  | wannaRead
  | wannaWrite
deriving DecidableEq, Repr

/-- `AbstractIo::Action`. -/
inductive Action where
  | none
  | read
  | write
  | accept
  | connect
  | shutdown
deriving DecidableEq, Repr

/-- `INCOMPLETE(x)`: the io wants the call again. -/
def Status.incomplete : Status → Bool
  | .wannaRead => true
  | .wannaWrite => true
  | _ => false

/-- What the io says to one call: `bytes` and `more` are for `Read`, `retlen`
    for `Write`. -/
structure Answer where
  status : Status
  bytes : Bytes
  more : Bool
  retlen : Nat
deriving DecidableEq, Repr

/-- The answer of an io that has none left. -/
def Answer.exhausted : Answer := ⟨.bug, [], false, 0⟩

/-- What `AbstractIo::Initialize` says.  `Attach` asserts that at most one of
    the two actions is set, and either is a handshake: both implementations
    ask for an accept, a connect or nothing. -/
structure Setup where
  ok : Bool
  action : Action
  nextAction : Action
  wannaRead : Bool
  wannaWrite : Bool
  exclusive : action = .none ∨ nextAction = .none
  opening : ∀ a ∈ [action, nextAction], a ∈ [Action.none, .accept, .connect]

/-- The calls a handler may make on its own linkage while it runs. -/
inductive Request where
  | send (buffer : Option Bytes)
  | disconnect (finishWrite : Bool)
deriving DecidableEq, Repr

/-- A handler callback: the calls it makes, then what it returns. -/
structure Reply (α : Type) where
  calls : List Request
  ret : α

/-- `LinkageHandler`.  `onMessage` is given the earlier messages and the new
    one, so over one run it may answer anything. -/
structure LinkageHandler where
  getMessageLength : Bytes → Int
  onMessage : List Bytes → Bytes → Reply Int
  onConnected : Reply Bool
  onError : List Request
  onDisconnected : List Request

/-- What happened, as a ghost record.  `pending` is `_wbuffer` at that moment;
    `disconnect` also keeps `_action` as the call found it. -/
inductive Event where
  | read (status : Status)
  | wrote (buffer : Bytes) (status : Status) (retlen : Nat)
  | shutdown (pending : Bytes)
  | connected
  | message (message : Bytes) (ret : Int) (pending : Bytes)
  | sent (buffer : Option Bytes) (ret : Bool)
  | disconnect (finishWrite : Bool) (action : Action) (pending : Bytes)
deriving DecidableEq, Repr

/-- The message an event delivers. -/
def Event.message? : Event → Option Bytes
  | .message m _ _ => some m
  | _ => none

/-- `Linkage`, field by field.  `worker` says whether `_worker` is set. -/
structure Linkage where
  rbuffer : Bytes
  wbuffer : Bytes
  lastWriting : Nat
  receiveTimeout : Int
  connectTimeout : Int
  lastReceived : Int
  idleTimeout : Int
  sendTimeout : Int
  receiveJam : Int
  connectJam : Int
  lastSent : Int
  sendJam : Int
  action : Action
  worker : Bool
  rlength : Nat
  graceful : Bool
  closed : Bool

/-- `LinkageWorker::client_t`: which of the two watchers run. -/
structure Client where
  runningR : Bool
  runningW : Bool
  autoRelease : Bool
deriving DecidableEq, Repr

/-- A linkage and its surroundings.  `client` is its entry in the worker's
    `_events`. -/
structure World extends Linkage where
  client : Option Client
  now : Int
  io : List Answer
  trace : List Event

namespace World

/-- `Linkage::Linkage`: the timeouts are what `set_*_timeout` made of them. -/
def fresh (receiveTimeout connectTimeout sendTimeout idleTimeout now : Int) :
    World where
  rbuffer := []
  wbuffer := []
  lastWriting := 0
  receiveTimeout := receiveTimeout
  connectTimeout := connectTimeout
  lastReceived := now
  idleTimeout := idleTimeout
  sendTimeout := sendTimeout
  receiveJam := 0
  connectJam := 0
  lastSent := now
  sendJam := 0
  action := .none
  worker := false
  rlength := 0
  graceful := false
  closed := false
  client := none
  now := now
  io := []
  trace := []

/-- Append to the ghost trace. -/
def note (w : World) (e : Event) : World := { w with trace := w.trace ++ [e] }

/-- The next answer of the io. -/
def answer (w : World) : Answer := w.io.head?.getD .exhausted

/-- Use that answer up. -/
def answered (w : World) : World := { w with io := w.io.tail }

-- ── The worker's side ────────────────────────────────────────────────────────

/-- `LinkageWorker::SetWanna`. -/
def setWanna (w : World) (wannaRead wannaWrite : Bool) : World :=
  { w with client := w.client.map fun c =>
      { c with runningR := wannaRead, runningW := wannaWrite } }

/-- `LinkageWorker::SetWannaRead`. -/
def setWannaRead (w : World) (wanna : Bool) : World :=
  { w with client := w.client.map fun c => { c with runningR := wanna } }

/-- `LinkageWorker::SetWannaWrite`. -/
def setWannaWrite (w : World) (wanna : Bool) : World :=
  { w with client := w.client.map fun c => { c with runningW := wanna } }

-- ── Time stamps ──────────────────────────────────────────────────────────────

/-- `Linkage::UpdateLastReceived`. -/
def updateLastReceived (w : World) : World := { w with lastReceived := w.now }

/-- `Linkage::UpdateReceiveJam`. -/
def updateReceiveJam (w : World) (jammed : Bool) : World :=
  { w with receiveJam :=
      if jammed then (if w.receiveJam = 0 then w.now else w.receiveJam) else 0 }

/-- `Linkage::UpdateConnectJam`. -/
def updateConnectJam (w : World) (jammed : Bool) : World :=
  { w with connectJam :=
      if jammed then (if w.connectJam = 0 then w.now else w.connectJam) else 0 }

/-- `Linkage::UpdateLastSent`. -/
def updateLastSent (w : World) (sent jammed : Bool) : World :=
  { w with
    lastSent := if sent then w.now else w.lastSent
    sendJam := if jammed then (if w.sendJam = 0 then w.now else w.sendJam) else 0 }

-- ── The sending buffer ───────────────────────────────────────────────────────

/-- `kMaximumBytes` of `AppendSendingBuffer`. -/
def kMaximumBytes : Nat := 64 * 1024 * 1024

/-- `INT_MAX`. -/
def intMax : Nat := 2147483647

/-- `Linkage::AppendSendingBuffer`: `none` when the bytes do not fit. -/
def appendSendingBuffer (w : World) (buffer : Bytes) : Option World :=
  let left := kMaximumBytes - w.wbuffer.length
  if left < buffer.length then none
  else some { w with wbuffer := w.wbuffer ++ buffer }

/-- `Linkage::PickSendingBuffer`: how many bytes of the front to write. -/
def pickSendingBuffer (w : World) : Nat × World :=
  if w.wbuffer = [] then (0, w)
  else if w.lastWriting ≠ 0 then (w.lastWriting, { w with lastWriting := 0 })
  else (w.wbuffer.length, w)

/-- `Linkage::ConsumeSendingBuffer`. -/
def consumeSendingBuffer (w : World) (length : Nat) : World :=
  { w with wbuffer := w.wbuffer.drop length }

/-- `Linkage::DumpSendingBuffer`. -/
def dumpSendingBuffer (w : World) : World := { w with wbuffer := [] }

/-- `retlen` of the next `_io->Write`: the io takes at most what it is given. -/
def retlen (w : World) (buffer : Bytes) : Nat := min w.answer.retlen buffer.length

/-- `_io->Write`, on the record. -/
def ioWrite (w : World) (buffer : Bytes) : World :=
  w.answered.note (.wrote buffer w.answer.status (w.retlen buffer))

-- ── After an event ───────────────────────────────────────────────────────────

/-- `Linkage::AfterEvent`: `kStatusJammed` falls to the default. -/
def afterEvent (w : World) : Status → Int × World
  | .wannaRead => (1, w.setWanna true false)
  | .wannaWrite => (1, w.setWanna false true)
  | .closed => (0, w)
  | .ok => (1, w)
  | .error => (-1, w)
  | .bug => (-1, w)
  | .jammed => (-1, w)

/-- The end of `Linkage::OnEventOnce`: remember an incomplete action. -/
def conclude (w : World) (action : Action) (status : Status) :
    Int × Action × World :=
  let w := { w with action := if status.incomplete then action else .none }
  let r := w.afterEvent status
  (r.1, .none, r.2)

/-- The end of `Linkage::OnEvent`: with no action left incomplete, read, and
    write if something is queued. -/
def rearm (w : World) : World :=
  if w.action = .none then w.setWanna true (!w.wbuffer.isEmpty) else w

-- ── Shutdown and Disconnect ──────────────────────────────────────────────────

/-- `Linkage::Shutdown`.  The status of the caller stays `kStatusBug` when the
    io is not asked. -/
def shutdown (w : World) : Int × Status × World :=
  let w := { w with graceful := true }
  if w.closed then (0, .bug, w)
  else
    let w := w.updateConnectJam true
    let status := w.answer.status
    let w := w.answered.note (.shutdown w.wbuffer)
    match status with
    | .ok => (0, status, { w with closed := true })
    | .closed => (0, status, { w with closed := true })
    | .wannaRead => (1, status, w)
    | .wannaWrite => (1, status, w)
    | _ => (-1, status, w)

/-- The `kActionShutdown` branch of `Linkage::OnEventOnce`. -/
def onEventShutdown (w : World) : Int × Action × World :=
  let r := w.shutdown
  let w := r.2.2
  if r.1 ≤ 0 then (r.1, .none, ({ w with action := .none }).setWannaRead true)
  else w.conclude .shutdown r.2.1

/-- `Linkage::Disconnect`, up to its look at `_action`. -/
def announce (w : World) (finishWrite : Bool) : World :=
  let w := w.note (.disconnect finishWrite w.action w.wbuffer)
  let w := { w with graceful := true }
  if finishWrite then w else w.dumpSendingBuffer

/-- `Linkage::Disconnect`.  Its `OnEvent(_worker, kActionShutdown)` is one
    round of the loop, since a shutdown never names a next action
    (`disconnect_eq_onEvent`). -/
def disconnect (w : World) (finishWrite : Bool) : Int × World :=
  let w := w.announce finishWrite
  if w.action ≠ .none then (1, w)
  else (w.onEventShutdown.1, w.onEventShutdown.2.2.rearm)

-- ── Send ─────────────────────────────────────────────────────────────────────

/-- Queue what `Linkage::Send` could not write, and note what comes with it. -/
def queue (w : World) (buffer : Bytes) (queued : World → World) : Bool × World :=
  match w.appendSendingBuffer buffer with
  | none => (false, w)
  | some w => (true, queued w)

/-- What the two incomplete branches of `Linkage::Send` do once the bytes are
    queued: the write is an action to be resumed with the same length. -/
def awaitWrite (w : World) (wannaRead wannaWrite : Bool) (length : Nat) : World :=
  let w := { w with action := .write }
  let w := (w.setWanna wannaRead wannaWrite).updateLastSent false true
  { w with lastWriting := length }

/-- `Linkage::Send`. -/
def send (w : World) (buffer : Option Bytes) : Bool × World :=
  match buffer with
  | none => (false, w)
  | some buffer =>
    if intMax < buffer.length ∨ ¬w.worker ∨ w.graceful then (false, w)
    else if buffer.length = 0 then (true, w)
    else if w.action ≠ .none ∨ w.wbuffer ≠ [] then w.queue buffer id
    else
      let status := w.answer.status
      let retlen := w.retlen buffer
      let w := w.ioWrite buffer
      match status with
      | .jammed =>
        w.queue buffer fun w => (w.setWanna false true).updateLastSent false true
      | .wannaRead => w.queue buffer fun w => w.awaitWrite true false buffer.length
      | .wannaWrite => w.queue buffer fun w => w.awaitWrite false true buffer.length
      | .ok =>
        if retlen < buffer.length then
          w.queue (buffer.drop retlen) fun w =>
            (w.setWannaWrite true).updateLastSent true true
        else (true, w.updateLastSent true false)
      | _ => (false, w)

/-- A call of `Send`, on the record. -/
def sendCall (w : World) (buffer : Option Bytes) : World :=
  (w.send buffer).2.note (.sent buffer (w.send buffer).1)

/-- One call of a handler on its linkage. -/
def request (w : World) : Request → World
  | .send buffer => w.sendCall buffer
  | .disconnect finishWrite => (w.disconnect finishWrite).2

/-- The calls of a handler, in order. -/
def requests (w : World) (calls : List Request) : World := calls.foldl request w

/-- The messages handed to `OnMessage` so far. -/
def delivered (w : World) : List Bytes := w.trace.filterMap Event.message?

end World

open World

-- ── Receiving ────────────────────────────────────────────────────────────────

/-- `Linkage::OnMessage`: the handler runs, then answers. -/
def onMessage (h : LinkageHandler) (w : World) (message : Bytes) : Int × World :=
  let reply := h.onMessage w.delivered message
  let w := w.requests reply.calls
  (reply.ret, w.note (.message message reply.ret w.wbuffer))

/-- The loop of `Linkage::DoReceived` over what remains at `ptr`.  Each round
    delivers at least one byte, so the length of the buffer bounds the rounds. -/
def doReceivedLoop (h : LinkageHandler) :
    Nat → World → Bytes → Nat → Int × Nat × World
  | 0, w, _, consumed => (1, consumed, w)
  | fuel + 1, w, ptr, consumed =>
    if ptr = [] then (1, consumed, w)
    else
      let ret := if w.rlength = 0 then h.getMessageLength ptr else w.rlength
      if ret < 0 then (-1, consumed, w)
      else if ret = 0 then (1, consumed, w.updateReceiveJam true)
      else
        let w := { w with rlength := ret.toNat }
        if ptr.length < w.rlength then (1, consumed, w.updateReceiveJam true)
        else
          let w := w.updateReceiveJam false
          let r := onMessage h w (ptr.take w.rlength)
          let w := r.2
          if r.1 < 0 then (-1, consumed, w)
          else if r.1 = 0 then (0, consumed, w)
          else
            doReceivedLoop h fuel { w with rlength := 0 }
              (ptr.drop w.rlength) (consumed + w.rlength)

/-- `Linkage::DoReceived`. -/
def doReceived (h : LinkageHandler) (w : World) (buffer : Bytes) :
    Int × Nat × World :=
  doReceivedLoop h buffer.length w buffer 0

/-- Deliver from `ptr`, which is not in `_rbuffer`, and keep the rest there. -/
def receiveDirect (h : LinkageHandler) (w : World) (ptr : Bytes) : Int × World :=
  let r := doReceived h w ptr
  let consumed := r.2.1
  let w := r.2.2
  if r.1 ≤ 0 then (r.1, w)
  else if consumed ≠ ptr.length then
    (1, { w with rbuffer := w.rbuffer ++ ptr.drop consumed })
  else (1, w)

/-- `Linkage::OnReceived`. -/
def onReceived (h : LinkageHandler) (w : World) (buffer : Option Bytes) :
    Int × World :=
  match buffer with
  | none => (-1, w)
  | some ptr =>
    if ptr.length = 0 then (1, w)
    else
      let w := w.updateLastReceived
      if w.graceful then (1, w)
      -- No need to move buffer.
      else if w.rbuffer = [] then receiveDirect h w ptr
      -- Buffer moving unavoidable, but the minimum bytes to move are known.
      else if w.rlength ≠ 0 ∧ w.rlength ≤ w.rbuffer.length + ptr.length then
        let last := w.rbuffer.length
        let w := { w with rbuffer := w.rbuffer ++ ptr.take (w.rlength - last) }
        let r := doReceived h w (w.rbuffer.take w.rlength)
        let w := r.2.2
        if r.1 ≤ 0 then (r.1, w)
        else
          -- Everything must have been extracted.
          let w := { w with rbuffer := [] }
          -- Now the remaining buffer.
          let ptr := ptr.drop (r.2.1 - last)
          if ptr.length ≠ 0 then receiveDirect h w ptr else (1, w)
      -- The worst case, all the buffer must be moved.
      else
        let w := { w with rbuffer := w.rbuffer ++ ptr }
        let r := doReceived h w w.rbuffer
        let w := r.2.2
        if r.1 ≤ 0 then (r.1, w)
        else (1, { w with rbuffer := w.rbuffer.drop r.2.1 })

-- ── Events ───────────────────────────────────────────────────────────────────

/-- `sizeof(buffer)` in the reading branch. -/
def readBufferSize : Nat := 65536

/-- `Linkage::DoConnected`, up to the callback. -/
def establish (w : World) : World :=
  let w := w.setWanna true (!w.wbuffer.isEmpty)
  let w := { w with action := .none }
  ((w.updateConnectJam false).updateLastReceived).note .connected

/-- `Linkage::DoConnected`. -/
def doConnected (h : LinkageHandler) (w : World) : Bool × World :=
  (h.onConnected.ret, (establish w).requests h.onConnected.calls)

/-- The `kActionRead` branch of `Linkage::OnEventOnce`. -/
def onEventRead (h : LinkageHandler) (w : World) : Int × Action × World :=
  let a := w.answer
  let w := w.answered.note (.read a.status)
  if a.status = .ok then
    let w := { w with action := .none }
    let r := onReceived h w (some (a.bytes.take readBufferSize))
    if r.1 = 0 then (1, .shutdown, r.2)
    else if 0 < r.1 then (1, if a.more then .read else .none, r.2)
    else (-1, .none, r.2)
  else w.conclude .read a.status

/-- The `kActionWrite` branch of `Linkage::OnEventOnce`. -/
def onEventWrite (w : World) : Int × Action × World :=
  let length := w.pickSendingBuffer.1
  let w := w.pickSendingBuffer.2
  if length ≠ 0 then
    let buffer := w.wbuffer.take length
    let status := w.answer.status
    let retlen := w.retlen buffer
    let w := w.ioWrite buffer
    if status = .ok then
      let w := { w with action := .none }
      if retlen < length then
        (1, .none, (w.updateLastSent true true).consumeSendingBuffer retlen)
      else (1, .none, (w.updateLastSent true false).consumeSendingBuffer length)
    else
      let w := w.updateLastSent false true
      let w := { w with
        lastWriting := if status.incomplete then length else w.lastWriting }
      w.conclude .write status
  else if w.graceful then (1, .shutdown, { w with action := .none })
  else (1, .none, { w with action := .none })

/-- The `kActionAccept` and `kActionConnect` branches of
    `Linkage::OnEventOnce`, which differ in the call they make. -/
def onEventHandshake (h : LinkageHandler) (w : World) (action : Action) :
    Int × Action × World :=
  let status := w.answer.status
  let w := w.answered
  if status = .ok then
    let r := doConnected h { w with action := .none }
    (if r.1 then 1 else -1, .none, r.2)
  else w.conclude action status

/-- `Linkage::OnEventOnce`: the result, the next action and the state.
    `OnEvent` never passes `kActionNone`, which would fall through with
    `kStatusBug`. -/
def onEventOnce (h : LinkageHandler) (w : World) : Action → Int × Action × World
  | .read => onEventRead h w
  | .write => w |> onEventWrite
  | .accept => onEventHandshake h w .accept
  | .connect => onEventHandshake h w .connect
  | .shutdown => w.onEventShutdown
  | .none => w.conclude .none .bug

/-- The loop of `Linkage::OnEvent`.  A round that names a next action used an
    answer up or goes on to the shutdown, which is the last round. -/
def onEventLoop (h : LinkageHandler) : Nat → World → Action → Int × World
  | 0, w, _ => (-1, w)
  | fuel + 1, w, action =>
    let r := onEventOnce h w action
    if r.2.1 = .none then (r.1, r.2.2) else onEventLoop h fuel r.2.2 r.2.1

/-- `Linkage::OnEvent`. -/
def onEvent (h : LinkageHandler) (w : World) (idleAction : Action) : Int × World :=
  let action := if w.action = .none then idleAction else w.action
  let r := onEventLoop h (w.io.length + 2) w action
  (r.1, r.2.rearm)

/-- `Linkage::Cleanup`, up to the handler's own say. -/
def cleanup (w : World) (now : Int) : Bool :=
  let jammedC := if w.connectJam ≠ 0 then now - w.connectJam else 0
  let jammedW := if w.sendJam ≠ 0 then now - w.sendJam else 0
  let jammedR := if w.receiveJam ≠ 0 then now - w.receiveJam else 0
  let passedW := now - w.lastSent
  let passedR := now - w.lastReceived
  let idle := if passedR < passedW then passedR else passedW
  if w.connectTimeout ≠ 0 ∧ jammedC ≠ 0 ∧ w.connectTimeout ≤ jammedC then false
  else if w.sendTimeout ≠ 0 ∧ jammedW ≠ 0 ∧ w.sendTimeout ≤ jammedW then false
  else if w.receiveTimeout ≠ 0 ∧ jammedR ≠ 0 ∧ w.receiveTimeout ≤ jammedR then
    false
  else if w.idleTimeout ≠ 0 ∧ w.idleTimeout ≤ idle then false
  else true

/-- The linkage is not usable before a handshake. -/
def Setup.connecting (setup : Setup) : Bool :=
  setup.action != .none || setup.nextAction != .none

/-- `DoAttach` in `Linkage::Attach`: reading is on if there is no handshake. -/
def World.hold (w : World) (setup : Setup) : World :=
  { w with
    client := some ⟨!setup.connecting || setup.wannaRead, setup.wannaWrite, true⟩
    worker := true }

/-- `DoDetach` in `Linkage::Attach`. -/
def World.drop (w : World) : World := { w with client := none, worker := false }

/-- `Linkage::Attach` to the one worker there is. -/
def attach (h : LinkageHandler) (w : World) (setup : Setup) : Bool × World :=
  if w.worker then (true, w)
  else if ¬setup.ok then (false, w)
  else if ¬setup.connecting then
    let r := doConnected h (w.hold setup)
    if r.1 then (true, r.2) else (false, r.2.drop)
  else
    let w := (w.hold setup).updateConnectJam true
    -- Wait for events and invoke the next action, or invoke the action now.
    if setup.action = .none then (true, { w with action := setup.nextAction })
    else
      let r := onEvent h { w with action := setup.action } setup.action
      if r.1 ≤ 0 then (false, r.2.drop) else (true, r.2)

-- ── The worker's callbacks ───────────────────────────────────────────────────

/-- `LinkageWorker::DoRelease`: the entry goes, the handler is told, the
    linkage is deleted. -/
def doRelease (h : LinkageHandler) (w : World) : World :=
  ({ w with client := none }).requests h.onDisconnected

/-- `LinkageWorker::OnReadable` and `OnWritable`: what the worker makes of the
    result of an event. -/
def workerEvent (h : LinkageHandler) (w : World) (idleAction : Action) : World :=
  let r := onEvent h w idleAction
  if r.1 < 0 then doRelease h (r.2.requests h.onError)
  else if r.1 = 0 then doRelease h r.2
  else r.2

/-- What can be done to an attached linkage from outside its own callbacks.
    `healthCheck` carries what the handler's `Cleanup` does. -/
inductive Op where
  | send (buffer : Option Bytes)
  | disconnect (finishWrite : Bool)
  | readable
  | writable
  | healthCheck (reply : Reply Bool)

/-- `LinkageWorker::OnHealthCheck`, for this linkage. -/
def healthCheck (h : LinkageHandler) (w : World) (reply : Reply Bool) : World :=
  if ¬cleanup w w.now then doRelease h w
  else
    let w := w.requests reply.calls
    if reply.ret then w else doRelease h w

/-- One operation. -/
def perform (h : LinkageHandler) (w : World) : Op → World
  | .send buffer => w.sendCall buffer
  | .disconnect finishWrite => (w.disconnect finishWrite).2
  | .readable => workerEvent h w .read
  | .writable => workerEvent h w .write
  | .healthCheck reply => healthCheck h w reply

/-- An operation with the time it happens at and the answers the io gives. -/
structure Step where
  op : Op
  io : List Answer
  now : Int

/-- The world as a step finds it. -/
def World.during (w : World) (io : List Answer) (now : Int) : World :=
  { w with io := io, now := now }

/-- The runs of a linkage: a successful `Attach`, then operations for as long
    as the worker holds it. -/
def system (h : LinkageHandler) : Runs.System World Step where
  init := fun w => ∃ (receiveTimeout connectTimeout sendTimeout idleTimeout : Int)
    (now : Int) (io : List Answer) (setup : Setup),
    attach h ((World.fresh receiveTimeout connectTimeout sendTimeout idleTimeout
      now).during io now) setup = (true, w)
  step := fun w s w' =>
    w.client.isSome ∧ w' = perform h (w.during s.io s.now) s.op

end FlinterLinkage
