import Flinter.EasyServerProofs

/-! # LinkageWorker: the table that is walked

    `OnHealthCheck` walks `_events` and calls `Cleanup` of each linkage; the end
    of `Run` walks them and releases each.  Both call the user back, who may
    call the server again.  `version` counts the insertions and erasures of a
    table, so an iterator is good as long as the version is the one it was made
    at.

    At the end of `Run` the worker runs on no thread any more, and whatever is
    sent goes to its commands.  In `OnHealthCheck` it still does: `Send` on a
    channel that has information and no linkage then connects on the spot, and
    the new linkage is inserted into the table that is being walked.

    A callback of `DoReconnect` is a frame: it is called with the mutex of the
    context held, and a call that needs this mutex waits.  What a thread does
    between two callbacks is one step. -/

namespace FlinterWorkerTable

open FlinterEasyServer (Channel Table ProxyLinkage kInvalidChannel kMaximumSlots
  isOutgoingChannel getThreadId)
open Runs

/-- `LinkageBase`. -/
inductive LinkageBase where
  | listener (n : Nat)
  | linkage (l : ProxyLinkage)
deriving DecidableEq, Repr

/-- `_events`, and (ghost) how often it was inserted into and erased from. -/
structure Events where
  clients : List LinkageBase
  version : Nat
deriving DecidableEq, Repr

namespace Events

/-- `LinkageWorker::Attach`. -/
def attach (m : Events) (linkage : LinkageBase) : Events :=
  if linkage ∈ m.clients then m
  else ⟨linkage :: m.clients, m.version + 1⟩

/-- `LinkageWorker::Detach`, and the erasure of `DoRelease`. -/
def detach (m : Events) (linkage : LinkageBase) : Events :=
  if linkage ∈ m.clients then ⟨m.clients.erase linkage, m.version + 1⟩ else m

/-- `_events.clear()`. -/
def clear (m : Events) : Events := ⟨[], m.version + 1⟩

end Events

/-- A thread: that of an I/O worker, or another one. -/
inductive Thread where
  | io (t : Nat)
  | other (n : Nat)
deriving DecidableEq, Repr

/-- What is sent to a worker; `quit` is the null pointer. -/
inductive Command where
  | send (channel : Channel)
  | disconnect (channel : Channel)
  | quit
deriving DecidableEq, Repr

/-- What a worker is at, below the calls of `Send` in progress.  `checking` and
    `leaving` are the loops over `_events`, at the head of what is left of it;
    they keep the version of the table at their start. -/
inductive Phase where
  | constructed
  | polling
  | attaching (linkage : LinkageBase)
  | handling (client : Option LinkageBase)
  | checking (p drops : List LinkageBase) (since : Nat)
  | dropping (drops : List LinkageBase)
  | releasing (linkage : LinkageBase) (drops : List LinkageBase)
  | quitting
  | leaving (p : List LinkageBase) (since : Nat)
  | left
deriving DecidableEq, Repr

/-- Whether code of the user may be running. -/
def Phase.calls : Phase → Bool
  | .constructed => true
  | .attaching _ => true
  | .handling _ => true
  | .checking (.linkage _ :: _) _ _ => true
  | .releasing (.linkage _) _ => true
  | .quitting => true
  | .leaving (.linkage _ :: _) _ => true
  | _ => false

/-- `DoReconnect` in a callback: of `Attach`, or behind its failure. -/
inductive Frame where
  | attaching (linkage : ProxyLinkage)
  | failing (channel : Channel)
deriving DecidableEq, Repr

def Frame.channel : Frame → Channel
  | .attaching linkage => linkage.channel
  | .failing channel => channel

/-- `LinkageWorker`. -/
structure Worker where
  runningThreadId : Option Thread
  events : Events
  commands : List Command
  quit : Bool
  phase : Phase
  frames : List Frame
deriving DecidableEq, Repr

/-- A worker with its listeners attached. -/
def Worker.fresh (listeners : Nat) : Worker where
  runningThreadId := none
  events := ((List.range listeners).map .listener).foldl Events.attach ⟨[], 0⟩
  commands := []
  quit := false
  phase := .constructed
  frames := []

/-- `EasyServer::IoContext`: the thread that a channel connects on, and the
    worker that its linkage is attached to. -/
structure IoContext where
  outgoingInformations : Table Nat
  channelLinkages : Table Nat
  channel : Channel

/-- `IoContext::IoContext`. -/
def IoContext.fresh (threadId : Nat) : IoContext := ⟨∅, ∅, threadId⟩

/-- `EasyServer::AllocateChannel` of a context. -/
def IoContext.allocateChannel (ioc : IoContext) (slots : Nat)
    (incomingOrOutgoing : Bool) : Channel × IoContext :=
  let channel := (ioc.channel + slots) % 2 ^ 64
  (if incomingOrOutgoing then channel else channel ||| 0x8000000000000000,
    { ioc with channel := channel })

/-- `EasyServer`: its contexts, its workers, the contexts whose mutex is held
    over a callback, and how many linkages were made. -/
structure EasyServer where
  slots : Nat
  context : Nat → IoContext
  worker : Nat → Worker
  locked : List Nat
  made : Nat

namespace EasyServer

/-- `EasyServer::EasyServer`. -/
def fresh : EasyServer where
  slots := 0
  context := .fresh
  worker := fun _ => { Worker.fresh 0 with phase := .left }
  locked := []
  made := 0

def setContext (s : EasyServer) (t : Nat) (ioc : IoContext) : EasyServer :=
  { s with context := Function.update s.context t ioc }

def setWorker (s : EasyServer) (t : Nat) (w : Worker) : EasyServer :=
  { s with worker := Function.update s.worker t w }

def setPhase (s : EasyServer) (t : Nat) (phase : Phase) : EasyServer :=
  s.setWorker t { s.worker t with phase := phase }

/-- `tid > 0 && tid == worker->running_thread_id()`. -/
def runs (s : EasyServer) (tid : Thread) (t : Nat) : Bool :=
  (s.worker t).runningThreadId = some tid

/-- The mutex of the context of a channel is free. -/
def unlocked (s : EasyServer) (channel : Channel) : Bool :=
  getThreadId s.slots channel ∉ s.locked

/-- `LinkageWorker::SendCommand`. -/
def sendCommand (s : EasyServer) (t : Nat) (command : Command) : EasyServer :=
  s.setWorker t
    { s.worker t with commands := (s.worker t).commands ++ [command] }

-- ── What may be called ───────────────────────────────────────────────────────

/-- `EasyServer::DoReconnect` on worker `t`, up to its callback: `OnConnected`
    of a linkage that is attached, or `OnError` without one. -/
def doReconnect (s : EasyServer) (t : Nat) (channel : Channel)
    (attached : Bool) : EasyServer :=
  let w := s.worker t
  let s := { s with locked := getThreadId s.slots channel :: s.locked }
  if attached then
    let linkage : ProxyLinkage := ⟨s.made, channel⟩
    { s.setWorker t { w with
        events := w.events.attach (.linkage linkage)
        frames := .attaching linkage :: w.frames } with
      made := s.made + 1 }
  else s.setWorker t { w with frames := .failing channel :: w.frames }

/-- `EasyServer::Send` by thread `tid`. -/
def send (s : EasyServer) (tid : Thread) (channel : Channel)
    (buffered attached : Bool) : EasyServer :=
  if channel = kInvalidChannel then s
  else
    let ioc := s.context (getThreadId s.slots channel)
    match ioc.channelLinkages.lookup channel with
    | some t =>
      if ¬buffered ∨ s.runs tid t then s else s.sendCommand t (.send channel)
    | none =>
      if ¬isOutgoingChannel channel then s
      else
        match ioc.outgoingInformations.lookup channel with
        | none => s
        | some t =>
          if s.runs tid t then s.doReconnect t channel attached
          else s.sendCommand t (.send channel)

/-- `EasyServer::Disconnect`: a linkage of this thread stays in its tables. -/
def disconnect (s : EasyServer) (tid : Thread) (channel : Channel) : EasyServer :=
  if channel = kInvalidChannel then s
  else
    match (s.context (getThreadId s.slots channel)).channelLinkages.lookup
        channel with
    | some t =>
      if s.runs tid t then s else s.sendCommand t (.disconnect channel)
    | none => s

/-- `EasyServer::Forget`, of the information. -/
def forget (s : EasyServer) (channel : Channel) : EasyServer :=
  if channel = kInvalidChannel then s
  else
    let t := getThreadId s.slots channel
    s.setContext t { s.context t with outgoingInformations :=
      (s.context t).outgoingInformations.erase channel }

/-- `EasyServer::Connect` on thread `t`. -/
def connect (s : EasyServer) (t : Nat) : EasyServer :=
  let r := (s.context t).allocateChannel s.slots false
  s.setContext t { r.2 with
    outgoingInformations := r.2.outgoingInformations.insertNew r.1 t }

end EasyServer

/-- What code of the user may call; `attached` says how a connection turns out
    that it starts. -/
inductive Op where
  | send (channel : Channel) (buffered attached : Bool)
  | disconnect (channel : Channel)
  | forget (channel : Channel)
  | connect (t : Nat)
deriving DecidableEq, Repr

namespace EasyServer

/-- The mutex that a call needs is free. -/
def admits (s : EasyServer) : Op → Bool
  | .send channel _ _ => s.unlocked channel
  | .disconnect channel => s.unlocked channel
  | .forget channel => s.unlocked channel
  | .connect t => t < s.slots ∧ t ∉ s.locked

/-- Code of the user runs on `tid`. -/
def callsFrom (s : EasyServer) : Thread → Bool
  | .io t => t < s.slots && (s.worker t).phase.calls
  | .other _ => true

def apply (s : EasyServer) (tid : Thread) : Op → EasyServer
  | .send channel buffered attached => s.send tid channel buffered attached
  | .disconnect channel => s.disconnect tid channel
  | .forget channel => s.forget channel
  | .connect t => s.connect t

/-- A call, after `Initialize`. -/
def call (s : EasyServer) (tid : Thread) (op : Op) : Option EasyServer :=
  if 0 < s.slots ∧ s.callsFrom tid ∧ s.admits op then some (s.apply tid op)
  else none

/-- A callback of `DoReconnect` returns: the linkage is entered in the table, or
    it is detached and `OnError` called, or that returns. -/
def reconnected (s : EasyServer) (t : Nat) (ok : Bool) : Option EasyServer :=
  let w := s.worker t
  match w.frames with
  | [] => none
  | .failing channel :: frames =>
    some { s.setWorker t { w with frames := frames } with
      locked := s.locked.erase (getThreadId s.slots channel) }
  | .attaching linkage :: frames =>
    if ok then
      let c := getThreadId s.slots linkage.channel
      let ioc := { s.context c with channelLinkages :=
        (s.context c).channelLinkages.insertNew linkage.channel t }
      some { (s.setContext c ioc).setWorker t { w with frames := frames } with
        locked := s.locked.erase c }
    else some (s.setWorker t { w with
      events := w.events.detach (.linkage linkage)
      frames := .failing linkage.channel :: frames })

-- ── The server ───────────────────────────────────────────────────────────────

/-- `EasyServer::Initialize` that succeeds. -/
def initializeSlots (s : EasyServer) (slots listeners : Nat) :
    Option EasyServer :=
  if s.slots = 0 ∧ 0 < slots ∧ slots ≤ kMaximumSlots then
    some { s with
      slots := slots
      context := .fresh
      worker := fun _ => .fresh listeners }
  else none

/-- `EasyServer::Shutdown` asks the workers to quit. -/
def shutdown (s : EasyServer) : EasyServer :=
  { s with worker := fun t =>
      { s.worker t with commands := (s.worker t).commands ++ [.quit] } }

/-- The rest of `Shutdown`, with the threads joined. -/
def joined (s : EasyServer) : Option EasyServer :=
  if ∀ t < s.slots, (s.worker t).phase = .left then
    some { s with slots := 0, context := .fresh }
  else none

-- ── A worker ─────────────────────────────────────────────────────────────────

/-- Worker `t` is at `phase`, in no callback of `DoReconnect`. -/
def isAt (s : EasyServer) (t : Nat) (phase : Phase) : Prop :=
  t < s.slots ∧ (s.worker t).phase = phase ∧ (s.worker t).frames = []

instance (s : EasyServer) (t : Nat) (phase : Phase) : Decidable (s.isAt t phase) :=
  inferInstanceAs (Decidable (_ ∧ _))

/-- `LinkageWorker::Run` up to its event loop. -/
def run (s : EasyServer) (t : Nat) : Option EasyServer :=
  if s.isAt t .constructed then
    some (s.setWorker t { s.worker t with
      runningThreadId := some (.io t)
      phase := .polling })
  else none

/-- `Listener::OnReadable` with a connection whose linkage is attached. -/
def accept (s : EasyServer) (t : Nat) : Option EasyServer :=
  if s.isAt t .polling ∧ t ∉ s.locked then
    let r := (s.context t).allocateChannel s.slots true
    let linkage : ProxyLinkage := ⟨s.made, r.1⟩
    let s := s.setContext t { r.2 with
      channelLinkages := r.2.channelLinkages.insertNew r.1 t }
    some { s.setWorker t { s.worker t with
        events := (s.worker t).events.attach (.linkage linkage)
        phase := .attaching (.linkage linkage) } with
      made := s.made + 1 }
  else none

/-- `OnReadable` or `OnWritable` of a client, or a timer of the user. -/
def handle (s : EasyServer) (t : Nat) (client : Option LinkageBase) :
    Option EasyServer :=
  if s.isAt t .polling ∧ ∀ linkage ∈ client, linkage ∈ (s.worker t).events.clients
  then some (s.setPhase t (.handling client)) else none

/-- They return; a client that failed is released. -/
def handled (s : EasyServer) (t : Nat) (ok : Bool) : Option EasyServer :=
  let w := s.worker t
  if ¬(t < s.slots ∧ w.frames = []) then none
  else
    match w.phase with
    | .attaching linkage =>
      some (s.setWorker t { w with
        events := if ok then w.events else w.events.detach linkage
        phase := .polling })
    | .handling client =>
      some (s.setPhase t
        (if ok then .polling else .dropping client.toList))
    | _ => none

/-- One of the commands that `LinkageWorker::OnCommand` runs. -/
def onCommand (s : EasyServer) (t : Nat) (attached : Bool) : Option EasyServer :=
  let w := s.worker t
  if s.isAt t .polling ∧ w.quit = false then
    match w.commands with
    | [] => none
    | .quit :: commands =>
      some (s.setWorker t { w with commands := commands, quit := true })
    | .disconnect channel :: commands =>
      if s.unlocked channel then
        some (s.setWorker t { w with commands := commands })
      else none
    -- `EasyServer::DoRealSend`.
    | .send channel :: commands =>
      if s.unlocked channel then
        let ioc := s.context (getThreadId s.slots channel)
        let s := s.setWorker t
          { w with commands := commands, phase := .handling none }
        if channel ∉ ioc.channelLinkages ∧ isOutgoingChannel channel ∧
            channel ∈ ioc.outgoingInformations then
          some (s.doReconnect t channel attached)
        else some s
      else none
  else none

/-- `LinkageWorker::OnHealthCheck` begins, with `_events` in some order. -/
def onHealthCheck (s : EasyServer) (t : Nat) (p : List LinkageBase) :
    Option EasyServer :=
  if s.isAt t .polling ∧ p.Perm (s.worker t).events.clients then
    some (s.setPhase t (.checking p [] (s.worker t).events.version))
  else none

/-- `Cleanup` returns, and the first loop goes on. -/
def cleanup (s : EasyServer) (t : Nat) (ret : Bool) : Option EasyServer :=
  let w := s.worker t
  if ¬(t < s.slots ∧ w.frames = []) then none
  else
    match w.phase with
    -- `Listener::Cleanup`.
    | .checking (.listener _ :: p) drops since =>
      some (s.setPhase t (.checking p drops since))
    | .checking (.linkage l :: p) drops since =>
      some (s.setPhase t
        (.checking p (if ret then drops else drops ++ [.linkage l]) since))
    | .checking [] drops _ => some (s.setPhase t (.dropping drops))
    | _ => none

/-- `DoRelease` of the next one to be dropped, up to `OnDisconnected`. -/
def drop (s : EasyServer) (t : Nat) : Option EasyServer :=
  let w := s.worker t
  if ¬(t < s.slots ∧ w.frames = []) then none
  else
    match w.phase with
    | .dropping [] => some (s.setPhase t .polling)
    | .dropping (linkage :: drops) =>
      some (s.setWorker t { w with
        events := w.events.detach linkage
        phase := .releasing linkage drops })
    | _ => none

/-- `EasyServer::ReleaseChannel` of a linkage. -/
def releaseChannel (s : EasyServer) : LinkageBase → EasyServer
  | .listener _ => s
  | .linkage l =>
    if l.channel = kInvalidChannel then s
    else
      let c := getThreadId s.slots l.channel
      s.setContext c { s.context c with channelLinkages :=
        (s.context c).channelLinkages.erase l.channel }

/-- `ReleaseChannel` has its mutex. -/
def releases (s : EasyServer) : LinkageBase → Bool
  | .listener _ => true
  | .linkage l => s.unlocked l.channel

/-- `OnDisconnected` of the user returns, and `DoRelease` behind it. -/
def released (s : EasyServer) (t : Nat) : Option EasyServer :=
  let w := s.worker t
  if ¬(t < s.slots ∧ w.frames = []) then none
  else
    match w.phase with
    | .releasing linkage drops =>
      if s.releases linkage then
        some ((s.releaseChannel linkage).setPhase t (.dropping drops))
      else none
    | .leaving (linkage :: p) since =>
      if s.releases linkage then
        some ((s.releaseChannel linkage).setPhase t (.leaving p since))
      else none
    | _ => none

/-- The end of `LinkageWorker::Run`: out of the event loop, then to the loop
    over `_events` in some order, and behind it. -/
def leave (s : EasyServer) (t : Nat) (p : List LinkageBase) : Option EasyServer :=
  let w := s.worker t
  if ¬(t < s.slots ∧ w.frames = []) then none
  else
    match w.phase with
    | .polling =>
      if w.quit then
        some (s.setWorker t
          { w with runningThreadId := none, phase := .quitting })
      else none
    | .quitting =>
      if p.Perm w.events.clients then
        some (s.setPhase t (.leaving p w.events.version))
      else none
    | .leaving [] _ =>
      some (s.setWorker t { w with events := w.events.clear, phase := .left })
    | _ => none

end EasyServer

/-- What can happen next. -/
inductive Action where
  | initializeSlots (slots listeners : Nat)
  | shutdown
  | joined
  | call (tid : Thread) (op : Op)
  | reconnected (t : Nat) (ok : Bool)
  | run (t : Nat)
  | accept (t : Nat)
  | handle (t : Nat) (client : Option LinkageBase)
  | handled (t : Nat) (ok : Bool)
  | onCommand (t : Nat) (attached : Bool)
  | onHealthCheck (t : Nat) (p : List LinkageBase)
  | cleanup (t : Nat) (ret : Bool)
  | drop (t : Nat)
  | released (t : Nat)
  | leave (t : Nat) (p : List LinkageBase)

/-- One step, if it can be taken. -/
def next (s : EasyServer) : Action → Option EasyServer
  | .initializeSlots slots listeners => s.initializeSlots slots listeners
  | .shutdown => some s.shutdown
  | .joined => s.joined
  | .call tid op => s.call tid op
  | .reconnected t ok => s.reconnected t ok
  | .run t => s.run t
  | .accept t => s.accept t
  | .handle t client => s.handle t client
  | .handled t ok => s.handled t ok
  | .onCommand t attached => s.onCommand t attached
  | .onHealthCheck t p => s.onHealthCheck t p
  | .cleanup t ret => s.cleanup t ret
  | .drop t => s.drop t
  | .released t => s.released t
  | .leave t p => s.leave t p

/-- The runs of a server from its construction. -/
def server : System EasyServer Action where
  init := fun s => s = .fresh
  step := fun s a s' => next s a = some s'

-- ── The invariant ────────────────────────────────────────────────────────────

/-- The version a loop over `_events` was started at. -/
def Phase.since : Phase → Option Nat
  | .checking _ _ since => some since
  | .leaving _ since => some since
  | _ => none

/-- `_running_thread_id` is reset. -/
def Phase.off : Phase → Bool
  | .quitting => true
  | .leaving _ _ => true
  | _ => false

def Frame.attached : Frame → Bool
  | .attaching _ => true
  | .failing _ => false

/-- A loop over `_events` has the table it was started with. -/
def Worker.Undisturbed (w : Worker) : Prop :=
  ∀ since, w.phase.since = some since → w.events.version = since

/-- `Send` by `tid` connects `channel` on the spot, on worker `t`. -/
structure EasyServer.Reconnects (s : EasyServer) (tid : Thread)
    (channel : Channel) (t : Nat) : Prop where
  valid : channel ≠ kInvalidChannel
  outgoing : isOutgoingChannel channel = true
  unlinked : (s.context (getThreadId s.slots channel)).channelLinkages.lookup
    channel = none
  informed : (s.context (getThreadId s.slots channel)).outgoingInformations.lookup
    channel = some t
  running : s.runs tid t = true

/-- No code that `OnHealthCheck` calls sends to a channel that the same worker
    connects on the spot, unless the connection fails at once. -/
def Quiet (s : EasyServer) : Action → Prop
  | .call tid (.send channel _ attached) => attached = true →
    ∀ t, s.Reconnects tid channel t → (s.worker t).phase.since = none
  | _ => True

/-- **THE INVARIANT**, of a worker when `made` linkages were made: a loop is
    undisturbed, no connection is being attached in it, and in the last loop the
    worker runs on no thread. -/
structure Worker.Kept (made : Nat) (w : Worker) : Prop where
  undisturbed : w.Undisturbed
  failing : w.phase.since.isSome = true → ∀ f ∈ w.frames, f.attached = false
  off : w.phase.off = true → w.runningThreadId = none
  fresh : ∀ l, .linkage l ∈ w.events.clients → l.address < made

/-- Every worker is kept. -/
def Good (s : EasyServer) : Prop := ∀ t, (s.worker t).Kept s.made

variable {s s' : EasyServer} {w : Worker} {t made : Nat} {phase : Phase}
variable {m : Events} {linkage : LinkageBase} {l : ProxyLinkage}

-- ── The table ────────────────────────────────────────────────────────────────

theorem mem_attach {x : LinkageBase} :
    x ∈ (m.attach linkage).clients ↔ x = linkage ∨ x ∈ m.clients := by
  rw [Events.attach]
  split
  next hmem =>
    constructor
    · exact .inr
    · rintro (rfl | hx)
      · exact hmem
      · exact hx
  next => exact List.mem_cons

theorem mem_of_mem_detach {x : LinkageBase}
    (h : x ∈ (m.detach linkage).clients) : x ∈ m.clients := by
  rw [Events.detach] at h
  split at h
  · exact List.mem_of_mem_erase h
  · exact h

theorem version_attach (h : linkage ∉ m.clients) :
    (m.attach linkage).version = m.version + 1 := by
  rw [Events.attach, if_neg h]

/-- The listeners are all that is attached at first. -/
theorem mem_fresh {n : Nat} {x : LinkageBase}
    (h : x ∈ (Worker.fresh n).events.clients) : ∃ k, x = .listener k := by
  have hfold : ∀ (ls : List Nat) (m : Events),
      (∀ x ∈ m.clients, ∃ k, x = .listener k) →
      ∀ x ∈ ((ls.map .listener).foldl Events.attach m).clients,
        ∃ k, x = .listener k := by
    intro ls
    induction ls with
    | nil => exact fun m hm => hm
    | cons k ls ih =>
        intro m hm
        refine ih (m.attach (.listener k)) ?_
        intro x hx
        rcases mem_attach.mp hx with rfl | hx
        · exact ⟨k, rfl⟩
        · exact hm x hx
  exact hfold (List.range n) ⟨[], 0⟩ (fun x hx => (by cases hx)) x h

-- ── What a worker keeps ──────────────────────────────────────────────────────

namespace Worker.Kept

theorem mono (h : w.Kept made) {made' : Nat} (hle : made ≤ made') :
    w.Kept made' :=
  ⟨h.undisturbed, h.failing, h.off,
    fun l hl => Nat.lt_of_lt_of_le (h.fresh l hl) hle⟩

/-- Commands are sent, frames go. -/
theorem work (h : w.Kept made) {w' : Worker} (hphase : w'.phase = w.phase)
    (hevents : w'.events = w.events)
    (hthread : w'.runningThreadId = w.runningThreadId)
    (hframes : ∀ f ∈ w'.frames, f ∈ w.frames ∨ f.attached = false) :
    w'.Kept made where
  undisturbed := by
    rw [Undisturbed, hphase, hevents]
    exact h.undisturbed
  failing := by
    rw [hphase]
    intro hs f hf
    rcases hframes f hf with hf | hf
    · exact h.failing hs f hf
    · exact hf
  off := by
    rw [hphase, hthread]
    exact h.off
  fresh := by
    rw [hevents]
    exact h.fresh

/-- Outside of the loops the table may change. -/
theorem outside {w : Worker} (hsince : w.phase.since = none)
    (hoff : w.phase.off = true → w.runningThreadId = none)
    (hfresh : ∀ l, .linkage l ∈ w.events.clients → l.address < made) :
    w.Kept made where
  undisturbed := fun since hs => by
    rw [hsince] at hs
    cases hs
  failing := fun hs => by
    rw [hsince] at hs
    cases hs
  off := hoff
  fresh := hfresh

/-- From one phase to another, in no callback of `DoReconnect`. -/
theorem goto (h : w.Kept made) (phase : Phase) (hframes : w.frames = [])
    (hsince : ∀ since, phase.since = some since → w.events.version = since)
    (hoff : phase.off = true → w.phase.off = true) :
    Kept made { w with phase := phase } where
  undisturbed := hsince
  failing := fun _ f hf => by
    rw [show w.frames = [] from hframes] at hf
    cases hf
  off := fun ho => h.off (hoff ho)
  fresh := h.fresh

end Worker.Kept

theorem Good.setWorker (h : Good s) (hw : w.Kept s.made) :
    Good (s.setWorker t w) :=
  (Function.forall_update_iff s.worker fun _ w => w.Kept s.made).mpr
    ⟨hw, fun i _ => h i⟩

/-- One linkage was made. -/
theorem Good.makes (h : Good s) (hw : w.Kept (s.made + 1)) :
    Good { s.setWorker t w with made := s.made + 1 } :=
  (Function.forall_update_iff s.worker fun _ w => w.Kept (s.made + 1)).mpr
    ⟨hw, fun i _ => (h i).mono (Nat.le_succ s.made)⟩

-- ── What may be called ───────────────────────────────────────────────────────

theorem Good.sendCommand (h : Good s) (t : Nat) (command : Command) :
    Good (s.sendCommand t command) :=
  h.setWorker ((h t).work rfl rfl rfl fun _ hf => .inl hf)

/-- `DoReconnect` outside of the loops, or a connection that fails at once. -/
theorem Good.doReconnect (h : Good s) {t : Nat} {channel : Channel}
    {attached : Bool} (hoff : (s.worker t).phase.off = false)
    (hsince : attached = true → (s.worker t).phase.since = none) :
    Good (s.doReconnect t channel attached) := by
  cases attached with
  | false =>
      refine Good.setWorker (s := { s with locked := _ }) h ?_
      refine (h t).work rfl rfl rfl fun f hf => ?_
      rcases List.mem_cons.mp hf with rfl | hf
      · exact .inr rfl
      · exact .inl hf
  | true =>
      refine Good.makes (s := { s with locked := _ }) h ?_
      refine .outside (hsince rfl) (fun ho => ?_) fun l hl => ?_
      · rw [show (s.worker t).phase.off = true from ho] at hoff
        cases hoff
      · rcases mem_attach.mp hl with hl | hl
        · obtain rfl := LinkageBase.linkage.inj hl
          exact Nat.lt_succ_self s.made
        · exact Nat.lt_succ_of_lt ((h t).fresh l hl)

/-- A worker with a thread is in its event loop. -/
theorem Good.running (h : Good s) {tid : Thread} (hruns : s.runs tid t = true) :
    (s.worker t).phase.off = false := by
  rw [Bool.eq_false_iff]
  intro hoff
  have hnone := (h t).off hoff
  rw [EasyServer.runs, hnone] at hruns
  cases hruns

/-- What `Send` does to the workers. -/
theorem send_cases (s : EasyServer) (tid : Thread) (channel : Channel)
    (buffered attached : Bool) :
    s.send tid channel buffered attached = s ∨
    (∃ t command, s.send tid channel buffered attached =
      s.sendCommand t command) ∨
    ∃ t, s.Reconnects tid channel t ∧
      s.send tid channel buffered attached = s.doReconnect t channel attached := by
  rw [EasyServer.send]
  split
  · exact .inl rfl
  next hvalid =>
    extract_lets ioc
    split
    · split
      · exact .inl rfl
      · exact .inr (.inl ⟨_, _, rfl⟩)
    next hunlinked =>
      split
      · exact .inl rfl
      next hout =>
        split
        · exact .inl rfl
        next t hinformed =>
          split
          next hruns =>
            exact .inr (.inr ⟨t, ⟨hvalid, not_not.mp hout, hunlinked,
              hinformed, hruns⟩, rfl⟩)
          · exact .inr (.inl ⟨_, _, rfl⟩)

theorem Good.disconnect (h : Good s) (tid : Thread) (channel : Channel) :
    Good (s.disconnect tid channel) := by
  rw [EasyServer.disconnect]
  split
  · exact h
  · split
    · split
      · exact h
      · exact h.sendCommand _ _
    · exact h

theorem Good.forget (h : Good s) (channel : Channel) : Good (s.forget channel) := by
  rw [EasyServer.forget]
  split
  · exact h
  · exact h

theorem Good.call (h : Good s) {tid : Thread} {op : Op}
    (hquiet : Quiet s (.call tid op)) (hs : s.call tid op = some s') : Good s' := by
  obtain ⟨-, ⟨⟩⟩ := Option.ite_none_right_eq_some.mp hs
  cases op with
  | send channel buffered attached =>
      show Good (s.send tid channel buffered attached)
      rcases send_cases s tid channel buffered attached with
        heq | ⟨t, command, heq⟩ | ⟨t, hre, heq⟩
      · rw [heq]
        exact h
      · rw [heq]
        exact h.sendCommand t command
      · rw [heq]
        exact h.doReconnect (h.running hre.running) fun ha => hquiet ha t hre
  | disconnect channel => exact h.disconnect tid channel
  | forget channel => exact h.forget channel
  | connect t => exact h

/-- In a loop nothing is being attached, so nothing is detached. -/
theorem Good.reconnected (h : Good s) {ok : Bool}
    (hs : s.reconnected t ok = some s') : Good s' := by
  rw [EasyServer.reconnected] at hs
  split at hs
  · cases hs
  next channel frames hframes =>
    obtain rfl := Option.some.inj hs
    refine Good.setWorker h ((h t).work rfl rfl rfl fun f hf => .inl ?_)
    rw [hframes]
    exact List.mem_cons_of_mem _ hf
  next l frames hframes =>
    split at hs
    · obtain rfl := Option.some.inj hs
      refine Good.setWorker h ((h t).work rfl rfl rfl fun f hf => .inl ?_)
      rw [hframes]
      exact List.mem_cons_of_mem _ hf
    · obtain rfl := Option.some.inj hs
      refine Good.setWorker h (.outside ?_ (h t).off fun l' hl' => ?_)
      · rw [← Option.not_isSome_iff_eq_none]
        intro hsince
        have hno := (h t).failing hsince (.attaching l) (by
          rw [hframes]
          exact List.mem_cons_self)
        cases hno
      · exact (h t).fresh l' (mem_of_mem_detach hl')

-- ── The server and its workers ───────────────────────────────────────────────

theorem kept_fresh (listeners made : Nat) : (Worker.fresh listeners).Kept made :=
  .outside rfl (fun ho => (by cases ho)) fun l hl => (by
    obtain ⟨k, hk⟩ := mem_fresh hl
    cases hk)

theorem good_initializeSlots {slots listeners : Nat}
    (hs : s.initializeSlots slots listeners = some s') : Good s' := by
  obtain ⟨-, ⟨⟩⟩ := Option.ite_none_right_eq_some.mp hs
  exact fun t => kept_fresh listeners s.made

theorem Good.shutdown (h : Good s) : Good s.shutdown :=
  fun t => (h t).work rfl rfl rfl fun _ hf => .inl hf

theorem Good.joined (h : Good s) (hs : s.joined = some s') : Good s' := by
  obtain ⟨-, ⟨⟩⟩ := Option.ite_none_right_eq_some.mp hs
  exact h

theorem Good.run (h : Good s) (hs : s.run t = some s') : Good s' := by
  obtain ⟨⟨-, -, hframes⟩, ⟨⟩⟩ := Option.ite_none_right_eq_some.mp hs
  exact h.setWorker (.outside rfl (fun ho => (by cases ho)) (h t).fresh)

theorem Good.accept (h : Good s) (hs : s.accept t = some s') : Good s' := by
  obtain ⟨-, ⟨⟩⟩ := Option.ite_none_right_eq_some.mp hs
  refine Good.makes h (.outside rfl (fun ho => (by cases ho)) fun l hl => ?_)
  rcases mem_attach.mp hl with hl | hl
  · obtain rfl := LinkageBase.linkage.inj hl
    exact Nat.lt_succ_self s.made
  · exact Nat.lt_succ_of_lt ((h t).fresh l hl)

theorem Good.handle (h : Good s) {client : Option LinkageBase}
    (hs : s.handle t client = some s') : Good s' := by
  obtain ⟨⟨⟨-, -, hframes⟩, -⟩, ⟨⟩⟩ := Option.ite_none_right_eq_some.mp hs
  exact h.setWorker ((h t).goto _ hframes nofun nofun)

theorem Good.handled (h : Good s) {ok : Bool} (hs : s.handled t ok = some s') :
    Good s' := by
  rw [EasyServer.handled] at hs
  split at hs
  · cases hs
  next hin =>
    obtain ⟨-, hframes⟩ := not_not.mp hin
    split at hs
    · obtain rfl := Option.some.inj hs
      refine h.setWorker (.outside rfl (fun ho => (by cases ho)) fun l hl => ?_)
      cases ok with
      | true => exact (h t).fresh l hl
      | false => exact (h t).fresh l (mem_of_mem_detach hl)
    · obtain rfl := Option.some.inj hs
      cases ok with
      | true => exact h.setWorker ((h t).goto _ hframes nofun nofun)
      | false => exact h.setWorker ((h t).goto _ hframes nofun nofun)
    · cases hs

theorem Good.onCommand (h : Good s) {attached : Bool}
    (hs : s.onCommand t attached = some s') : Good s' := by
  rw [EasyServer.onCommand] at hs
  obtain ⟨⟨⟨-, -, hframes⟩, -⟩, hs⟩ := Option.ite_none_right_eq_some.mp hs
  split at hs
  · cases hs
  · obtain rfl := Option.some.inj hs
    exact h.setWorker ((h t).work rfl rfl rfl fun _ hf => .inl hf)
  · obtain ⟨-, ⟨⟩⟩ := Option.ite_none_right_eq_some.mp hs
    exact h.setWorker ((h t).work rfl rfl rfl fun _ hf => .inl hf)
  next channel commands hcommands =>
    obtain ⟨-, hs⟩ := Option.ite_none_right_eq_some.mp hs
    extract_lets ioc s₁ at hs
    have h₁ : Good s₁ :=
      h.setWorker (.outside rfl (fun ho => (by cases ho)) (h t).fresh)
    have hphase : (s₁.worker t).phase = .handling none :=
      congrArg Worker.phase (Function.update_self t _ s.worker)
    split at hs
    · obtain rfl := Option.some.inj hs
      refine h₁.doReconnect ?_ fun _ => ?_
      · rw [hphase]
        rfl
      · rw [hphase]
        rfl
    · obtain rfl := Option.some.inj hs
      exact h₁

/-- **THE FIRST LOOP** starts with the table as it is. -/
theorem Good.onHealthCheck (h : Good s) {p : List LinkageBase}
    (hs : s.onHealthCheck t p = some s') : Good s' := by
  obtain ⟨⟨⟨-, -, hframes⟩, -⟩, ⟨⟩⟩ := Option.ite_none_right_eq_some.mp hs
  refine h.setWorker ((h t).goto _ hframes ?_ nofun)
  intro since hs
  exact Option.some.inj hs

theorem Good.cleanup (h : Good s) {ret : Bool} (hs : s.cleanup t ret = some s') :
    Good s' := by
  rw [EasyServer.cleanup] at hs
  split at hs
  · cases hs
  next hin =>
    obtain ⟨-, hframes⟩ := not_not.mp hin
    have hkept := (h t).undisturbed
    split at hs
    next n p drops since hphase =>
      obtain rfl := Option.some.inj hs
      refine h.setWorker ((h t).goto _ hframes ?_ nofun)
      rw [Worker.Undisturbed, hphase] at hkept
      exact hkept
    next l p drops since hphase =>
      obtain rfl := Option.some.inj hs
      refine h.setWorker ((h t).goto _ hframes ?_ nofun)
      rw [Worker.Undisturbed, hphase] at hkept
      exact hkept
    next drops since hphase =>
      obtain rfl := Option.some.inj hs
      exact h.setWorker ((h t).goto _ hframes nofun nofun)
    · cases hs

theorem Good.drop (h : Good s) (hs : s.drop t = some s') : Good s' := by
  rw [EasyServer.drop] at hs
  split at hs
  · cases hs
  next hin =>
    obtain ⟨-, hframes⟩ := not_not.mp hin
    split at hs
    · obtain rfl := Option.some.inj hs
      exact h.setWorker ((h t).goto _ hframes nofun nofun)
    · obtain rfl := Option.some.inj hs
      exact h.setWorker (.outside rfl (fun ho => (by cases ho))
        fun l hl => (h t).fresh l (mem_of_mem_detach hl))
    · cases hs

/-- `ReleaseChannel` leaves the workers alone. -/
theorem Good.releaseChannel (h : Good s) (linkage : LinkageBase) :
    Good (s.releaseChannel linkage) ∧
      (s.releaseChannel linkage).worker = s.worker := by
  cases linkage with
  | listener n => exact ⟨h, rfl⟩
  | linkage l =>
      dsimp only [EasyServer.releaseChannel]
      split
      · exact ⟨h, rfl⟩
      · exact ⟨h, rfl⟩

/-- **THE LAST LOOP** goes on. -/
theorem Good.released (h : Good s) (hs : s.released t = some s') : Good s' := by
  rw [EasyServer.released] at hs
  split at hs
  · cases hs
  next hin =>
    obtain ⟨-, hframes⟩ := not_not.mp hin
    have hkept := (h t).undisturbed
    split at hs
    next linkage drops hphase =>
      obtain ⟨-, ⟨⟩⟩ := Option.ite_none_right_eq_some.mp hs
      obtain ⟨hr, hworker⟩ := h.releaseChannel linkage
      refine hr.setWorker ((hr t).goto _ ?_ nofun nofun)
      rw [hworker]
      exact hframes
    next linkage p since hphase =>
      obtain ⟨-, ⟨⟩⟩ := Option.ite_none_right_eq_some.mp hs
      obtain ⟨hr, hworker⟩ := h.releaseChannel linkage
      rw [Worker.Undisturbed, hphase] at hkept
      refine hr.setWorker ((hr t).goto _ ?_ ?_ ?_)
      · rw [hworker]
        exact hframes
      · rw [hworker]
        exact hkept
      · rw [hworker, hphase]
        exact fun _ => rfl
    · cases hs

theorem Good.leave (h : Good s) {p : List LinkageBase}
    (hs : s.leave t p = some s') : Good s' := by
  rw [EasyServer.leave] at hs
  split at hs
  · cases hs
  next hin =>
    obtain ⟨-, hframes⟩ := not_not.mp hin
    split at hs
    · obtain ⟨-, ⟨⟩⟩ := Option.ite_none_right_eq_some.mp hs
      exact h.setWorker (.outside rfl (fun _ => rfl) (h t).fresh)
    next hphase =>
      obtain ⟨-, ⟨⟩⟩ := Option.ite_none_right_eq_some.mp hs
      refine h.setWorker ((h t).goto _ hframes ?_ ?_)
      · intro since hs
        exact Option.some.inj hs
      · rw [hphase]
        exact fun _ => rfl
    · obtain rfl := Option.some.inj hs
      exact h.setWorker (.outside rfl (fun ho => (by cases ho))
        fun l hl => (by cases hl))
    · cases hs

-- ── The runs ─────────────────────────────────────────────────────────────────

/-- **THE STEP LEMMA**. -/
theorem Good.next (h : Good s) {a : Action} (hquiet : Quiet s a)
    (hs : next s a = some s') : Good s' := by
  cases a with
  | initializeSlots slots listeners => exact good_initializeSlots hs
  | shutdown =>
      obtain rfl := Option.some.inj hs
      exact h.shutdown
  | joined => exact h.joined hs
  | call tid op => exact h.call hquiet hs
  | reconnected t ok => exact h.reconnected hs
  | run t => exact h.run hs
  | accept t => exact h.accept hs
  | handle t client => exact h.handle hs
  | handled t ok => exact h.handled hs
  | onCommand t attached => exact h.onCommand hs
  | onHealthCheck t p => exact h.onHealthCheck hs
  | cleanup t ret => exact h.cleanup hs
  | drop t => exact h.drop hs
  | released t => exact h.released hs
  | leave t p => exact h.leave hs

/-- **THE RUN LEMMA**. -/
theorem good_of_reachable (h : Reachable (server.restrict Quiet) s) : Good s := by
  refine h.invariant ?_ ?_
  · rintro s rfl t
    exact .outside rfl (fun ho => (by cases ho)) fun l hl => (by cases hl)
  · rintro s a s' - hgood ⟨hquiet, hs⟩
    exact hgood.next hquiet hs

theorem send_of_reconnects {tid : Thread} {channel : Channel}
    (hre : s.Reconnects tid channel t) (buffered attached : Bool) :
    s.send tid channel buffered attached = s.doReconnect t channel attached := by
  simp only [EasyServer.send, hre.valid, hre.outgoing, hre.unlinked,
    hre.informed, hre.running, if_false, if_true, not_true_eq_false]

/-- A `Send` that is not quiet inserts into the table that is walked. -/
theorem Good.disturbs (h : Good s) {a : Action} (hloud : ¬Quiet s a)
    (hs : FlinterWorkerTable.next s a = some s') :
    ∃ t, ¬(s'.worker t).Undisturbed := by
  rcases a with _ | _ | _ | ⟨tid, op⟩ | _ | _ | _ | _ | _ | _ | _ | _ | _ | _ | _
  case call =>
    cases op with
    | send channel buffered attached =>
        obtain ⟨rfl, hsome⟩ := Classical.not_imp.mp hloud
        obtain ⟨t, ht⟩ := not_forall.mp hsome
        obtain ⟨hre, hwalks⟩ := Classical.not_imp.mp ht
        obtain ⟨since, hsince⟩ := Option.ne_none_iff_exists'.mp hwalks
        obtain ⟨-, ⟨⟩⟩ := Option.ite_none_right_eq_some.mp hs
        refine ⟨t, fun hkept => ?_⟩
        -- The linkage is a new one, so it is not in the table.
        have hnew : LinkageBase.linkage ⟨s.made, channel⟩ ∉
            (s.worker t).events.clients := fun hmem =>
          absurd ((h t).fresh _ hmem) (Nat.lt_irrefl s.made)
        have hworker : (s.apply tid (.send channel buffered true)).worker t =
            { s.worker t with
              events := (s.worker t).events.attach (.linkage ⟨s.made, channel⟩)
              frames := .attaching ⟨s.made, channel⟩ :: (s.worker t).frames } := by
          show (s.send tid channel buffered true).worker t = _
          rw [send_of_reconnects hre]
          exact Function.update_self t _ s.worker
        rw [hworker] at hkept
        have hversion : (s.worker t).events.version + 1 = since := by
          rw [← version_attach hnew]
          exact hkept since hsince
        have hbefore := (h t).undisturbed since hsince
        omega
    | _ => exact absurd trivial hloud
  all_goals exact absurd trivial hloud

/-- **THE TABLE THAT IS WALKED**: in a run whose callbacks of `OnHealthCheck`
    connect nothing on their own worker, no loop over `_events` sees a change of
    it; and the first such connection is one. -/
theorem walks_undisturbed (h : Reachable (server.restrict Quiet) s) :
    (∀ t, (s.worker t).Undisturbed) ∧
    ∀ a s', ¬Quiet s a → next s a = some s' →
      ∃ t, ¬(s'.worker t).Undisturbed := by
  have hgood := good_of_reachable h
  exact ⟨fun t => (hgood t).undisturbed, fun a s' => hgood.disturbs⟩

-- ── Two channels of one worker ───────────────────────────────────────────────

/-- An action that is no `Send` with a connection. -/
def Action.plain : Action → Bool
  | .call _ (.send _ _ attached) => !attached
  | _ => true

theorem quiet_of_plain {a : Action} (h : a.plain = true) : Quiet s a := by
  cases a with
  | call tid op =>
      cases op with
      | send channel buffered attached =>
          intro hattached
          rw [Action.plain, hattached] at h
          cases h
      | _ => trivial
  | _ => trivial

namespace Heartbeat

/-- The first two outgoing channels of a single worker. -/
def first : Channel := 0x8000000000000001
def second : Channel := 0x8000000000000002

/-- The first one is connected; then the worker checks it. -/
def trace : List Action :=
  [.initializeSlots 1 0, .run 0, .call (.other 0) (.connect 0),
    .call (.other 0) (.connect 0), .call (.other 0) (.send first true false),
    .onCommand 0 true, .reconnected 0 true, .handled 0 true,
    .onHealthCheck 0 [.linkage ⟨0, first⟩]]

/-- Its `Cleanup` sends to the other one. -/
def heartbeat : Action := .call (.io 0) (.send second true true)

/-- The server when `Cleanup` is called. -/
def checking : EasyServer := (trace.foldlM next .fresh).get (by decide)

theorem reachable_checking : Reachable (server.restrict Quiet) checking := by
  have hplain : ∀ a ∈ trace, a.plain = true := by decide
  refine Reachable.follow (fun a ha s s' hs => ?_) (.start rfl)
    (Option.some_get _).symm
  exact ⟨quiet_of_plain (hplain a ha), hs⟩

theorem loud_heartbeat : ¬Quiet checking heartbeat := by
  intro hquiet
  have hre : checking.Reconnects (.io 0) second 0 := by
    constructor
    all_goals decide
  have hnone := hquiet rfl 0 hre
  revert hnone
  decide

/-- It is inserted into the table on the spot. -/
def disturbed : EasyServer := (next checking heartbeat).get (by decide)

theorem next_heartbeat : next checking heartbeat = some disturbed :=
  (Option.some_get _).symm

end Heartbeat

/-- A worker whose `Cleanup` sends a heartbeat on another channel. -/
theorem walks_undisturbed_heartbeat :
    (∀ t, (Heartbeat.checking.worker t).Undisturbed) ∧
    ∃ t, ¬(Heartbeat.disturbed.worker t).Undisturbed := by
  obtain ⟨hkept, hdisturbs⟩ := walks_undisturbed Heartbeat.reachable_checking
  exact ⟨hkept, hdisturbs Heartbeat.heartbeat Heartbeat.disturbed
    Heartbeat.loud_heartbeat Heartbeat.next_heartbeat⟩

/-- **THE TABLE GROWS UNDER THE LOOP**. -/
theorem cleanup_inserts : ¬∀ s, Reachable server s →
    ∀ t, (s.worker t).Undisturbed := by
  intro hclaim
  have hreach : Reachable server Heartbeat.disturbed :=
    .next (l := Heartbeat.heartbeat) Heartbeat.reachable_checking.of_restrict
      Heartbeat.next_heartbeat
  have hkept := hclaim _ hreach 0 1 (by decide)
  revert hkept
  decide

end FlinterWorkerTable
