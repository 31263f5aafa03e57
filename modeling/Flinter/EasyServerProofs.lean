import Flinter.RunProofs
import Mathlib.Data.List.AList
import Mathlib.Algebra.BigOperators.Group.Finset.Basic

/-! # EasyServer: channels, linkages and their counters

    `EasyServer` runs a few I/O threads.  Each has an `IoContext`, with the
    tables of its channels, and a `LinkageWorker`, whose `_events` hold the
    linkages attached to it.

    A callback of an I/O thread is several steps here, cut where another thread
    can come between: `_incoming_connections` is counted before the lock is
    taken, the linkage is attached after the lock is released, and a linkage
    that is released leaves the tables before it is deleted.  `Connect`,
    `Forget` and a reconnect hold the lock of the context throughout and are
    one step each. -/

namespace FlinterEasyServer

/-- `channel_t`, a 64-bit word. -/
abbrev Channel := Nat

/-- `EasyServer::kInvalidChannel`. -/
def kInvalidChannel : Channel := 0

/-- `EasyServer::kMaximumSlots`. -/
def kMaximumSlots : Nat := 128

/-- `EasyServer::IsOutgoingChannel`. -/
def isOutgoingChannel (channel : Channel) : Bool :=
  channel &&& 0x8000000000000000 != 0

/-- `EasyServer::GetThreadId`, with `_slots` as its argument. -/
def getThreadId (slots : Nat) (channel : Channel) : Nat :=
  (channel &&& 0x7fffffffffffffff) % slots

/-- A `ProxyLinkage`: its address, and the channel its context keeps.  No
    address is used twice, so a pointer dangles if its linkage is gone. -/
structure ProxyLinkage where
  address : Nat
  channel : Channel
deriving DecidableEq, Repr

/-- `OutgoingInformation`: the handler, and the thread to connect on. -/
structure OutgoingInformation where
  proxyHandler : Nat
  threadId : Nat
deriving DecidableEq, Repr

/-- An `unordered_map` from channels. -/
abbrev Table (β : Type) := AList fun _ : Channel => β

/-- `unordered_map::insert`: an entry that is there stays. -/
def Table.insertNew {β : Type} (m : Table β) (channel : Channel) (b : β) : Table β :=
  if channel ∈ m then m else m.insert channel b

/-- `EasyServer::IoContext`. -/
structure IoContext where
  outgoingInformations : Table OutgoingInformation
  connectProxyHandlers : Table Nat
  channelLinkages : Table ProxyLinkage
  channel : Channel

/-- `IoContext::IoContext`. -/
def IoContext.fresh (threadId : Nat) : IoContext := ⟨∅, ∅, ∅, threadId⟩

/-- `EasyServer::AllocateChannel` of a context. -/
def IoContext.allocateChannel (ioc : IoContext) (slots : Nat)
    (incomingOrOutgoing : Bool) : Channel × IoContext :=
  let channel := (ioc.channel + slots) % 2 ^ 64
  (if incomingOrOutgoing then channel else channel ||| 0x8000000000000000,
    { ioc with channel := channel })

/-- What an I/O thread is in the middle of: `counted` has added itself to
    `_incoming_connections`, `created` has made its linkage, `releasing` is in
    `DoRelease` and `released` is behind its `ReleaseChannel`. -/
inductive Task where
  | idle
  | counted (inconn : Int)
  | created (linkage : ProxyLinkage)
  | releasing (linkage : ProxyLinkage)
  | released (linkage : ProxyLinkage)
deriving DecidableEq, Repr

/-- An I/O thread: its context, the linkages its worker holds, its task. -/
structure IoThread where
  context : IoContext
  events : List ProxyLinkage
  task : Task

/-- `EasyServer`.  `linkages` (ghost) are the linkages that exist, `made` counts
    the objects made so far, `deletedHandlers` are the proxy handlers deleted,
    and `violated` says that an assertion failed. -/
structure EasyServer where
  maximumIncomingConnections : Nat
  slots : Nat
  thread : Nat → IoThread
  incomingConnections : Int
  outgoingConnections : Int
  linkages : List ProxyLinkage
  made : Nat
  deletedHandlers : List Nat
  violated : Bool

namespace EasyServer

/-- `EasyServer::EasyServer`. -/
def fresh (maximumIncomingConnections : Nat) : EasyServer where
  maximumIncomingConnections := maximumIncomingConnections
  slots := 0
  thread := fun t => ⟨.fresh t, [], .idle⟩
  incomingConnections := 0
  outgoingConnections := 0
  linkages := []
  made := 0
  deletedHandlers := []
  violated := false

def setThread (s : EasyServer) (t : Nat) (thread : IoThread) : EasyServer :=
  { s with thread := Function.update s.thread t thread }

def setContext (s : EasyServer) (t : Nat) (ioc : IoContext) : EasyServer :=
  s.setThread t { s.thread t with context := ioc }

def setTask (s : EasyServer) (t : Nat) (task : Task) : EasyServer :=
  s.setThread t { s.thread t with task := task }

-- ── Initialize and Shutdown ──────────────────────────────────────────────────

/-- `EasyServer::Initialize` that succeeds: new contexts, idle threads. -/
def initializeSlots (s : EasyServer) (slots : Nat) : Option EasyServer :=
  if s.slots = 0 ∧ 0 < slots ∧ slots ≤ kMaximumSlots then
    some { s with
      slots := slots
      thread := fun t => { s.thread t with context := .fresh t } }
  else none

/-- `EasyServer::DoShutdown`, when the I/O threads have released everything and
    are joined.  The contexts go, with the handlers they still own. -/
def shutdown (s : EasyServer) : Option EasyServer :=
  if ∀ t < s.slots, (s.thread t).task = .idle ∧ (s.thread t).events = [] then
    some { s with
      slots := 0
      thread := fun t => { s.thread t with context := .fresh t }
      deletedHandlers := s.deletedHandlers ++ (List.range s.slots).flatMap fun t =>
        (s.thread t).context.connectProxyHandlers.entries.map (·.2) }
  else none

-- ── An accepted connection ───────────────────────────────────────────────────

/-- `EasyServer::AllocateChannel` of a worker, its first line. -/
def count (s : EasyServer) (t : Nat) : Option EasyServer :=
  if t < s.slots ∧ (s.thread t).task = .idle then
    let inconn := s.incomingConnections + 1
    some { s.setTask t (.counted inconn) with incomingConnections := inconn }
  else none

/-- Over the limit. -/
def refuse (s : EasyServer) (t : Nat) : Option EasyServer :=
  match (s.thread t).task with
  | .counted inconn =>
    if s.maximumIncomingConnections ≤ inconn then
      some { s.setTask t .idle with
        incomingConnections := s.incomingConnections - 1 }
    else none
  | _ => none

/-- `interface->Accepted` fails, with a channel allocated already. -/
def reject (s : EasyServer) (t : Nat) : Option EasyServer :=
  match (s.thread t).task with
  | .counted inconn =>
    if inconn < s.maximumIncomingConnections then
      let ioc := ((s.thread t).context.allocateChannel s.slots true).2
      some { s.setThread t { s.thread t with context := ioc, task := .idle } with
        incomingConnections := s.incomingConnections - 1 }
    else none
  | _ => none

/-- The linkage is made and entered in the table. -/
def create (s : EasyServer) (t : Nat) : Option EasyServer :=
  match (s.thread t).task with
  | .counted inconn =>
    if inconn < s.maximumIncomingConnections then
      let r := (s.thread t).context.allocateChannel s.slots true
      let linkage : ProxyLinkage := ⟨s.made, r.1⟩
      let ioc := { r.2 with
        channelLinkages := r.2.channelLinkages.insertNew r.1 linkage }
      some { s.setThread t
          { s.thread t with context := ioc, task := .created linkage } with
        linkages := linkage :: s.linkages
        made := s.made + 1 }
    else none
  | _ => none

/-- The rest of `Listener::OnReadable`: the linkage is attached, or `Attach`
    fails and the linkage is deleted. -/
def attach (s : EasyServer) (t : Nat) (attached : Bool) : Option EasyServer :=
  match (s.thread t).task with
  | .created linkage =>
    if attached then
      some (s.setThread t { s.thread t with
        events := linkage :: (s.thread t).events
        task := .idle })
    else some { s.setTask t .idle with linkages := s.linkages.erase linkage }
  | _ => none

-- ── Outgoing connections ─────────────────────────────────────────────────────

/-- `EasyServer::Connect` on thread `t`. -/
def connect (s : EasyServer) (t : Nat) : Option EasyServer :=
  if t < s.slots then
    let r := (s.thread t).context.allocateChannel s.slots false
    let ioc := { r.2 with
      connectProxyHandlers := r.2.connectProxyHandlers.insertNew r.1 s.made
      outgoingInformations :=
        r.2.outgoingInformations.insertNew r.1 ⟨s.made, t⟩ }
    some { s.setContext t ioc with made := s.made + 1 }
  else none

/-- `EasyServer::DoReconnect`, called by `Send` and `DoRealSend` for an outgoing
    channel that has information and no linkage.  A connection that fails, or
    an `Attach` that does, leaves nothing behind. -/
def reconnect (s : EasyServer) (channel : Channel) (connected : Bool) :
    Option EasyServer :=
  let ioc := (s.thread (getThreadId s.slots channel)).context
  if channel ≠ kInvalidChannel ∧ channel ∉ ioc.channelLinkages ∧
      isOutgoingChannel channel then
    match ioc.outgoingInformations.lookup channel with
    | none => none
    | some info =>
      if ¬connected then some s
      else
        let linkage : ProxyLinkage := ⟨s.made, channel⟩
        let ioc := { ioc with
          channelLinkages := ioc.channelLinkages.insertNew channel linkage }
        let s := s.setContext (getThreadId s.slots channel) ioc
        let thread := s.thread info.threadId
        some { s.setThread info.threadId
            { thread with events := linkage :: thread.events } with
          outgoingConnections := s.outgoingConnections + 1
          linkages := linkage :: s.linkages
          made := s.made + 1 }
  else none

/-- `EasyServer::Forget`. -/
def forget (s : EasyServer) (channel : Channel) : EasyServer :=
  if channel = kInvalidChannel then s
  else
    let t := getThreadId s.slots channel
    let ioc := (s.thread t).context
    let ioc := { ioc with
      outgoingInformations := ioc.outgoingInformations.erase channel }
    -- Still needed.
    if channel ∈ ioc.channelLinkages then s.setContext t ioc
    else
      match ioc.connectProxyHandlers.lookup channel with
      | none => s.setContext t ioc
      | some proxyHandler =>
        { s.setContext t { ioc with
            connectProxyHandlers := ioc.connectProxyHandlers.erase channel } with
          deletedHandlers := s.deletedHandlers ++ [proxyHandler] }

/-- `EasyServer::Disconnect` and `DoRealDisconnect`: the linkage they call, if
    the channel has one.  The tables stay. -/
def disconnect (s : EasyServer) (channel : Channel) : Option ProxyLinkage :=
  if channel = kInvalidChannel then none
  else (s.thread (getThreadId s.slots channel)).context.channelLinkages.lookup channel

-- ── A linkage that ends ──────────────────────────────────────────────────────

/-- `LinkageWorker::DoRelease` begins: the entry leaves `_events`. -/
def release (s : EasyServer) (t : Nat) (linkage : ProxyLinkage) :
    Option EasyServer :=
  if (s.thread t).task = .idle ∧ linkage ∈ (s.thread t).events then
    some (s.setThread t { s.thread t with
      events := (s.thread t).events.erase linkage
      task := .releasing linkage })
  else none

/-- `EasyServer::ReleaseChannel`, called by `OnDisconnected`. -/
def releaseChannel (s : EasyServer) (channel : Channel) : EasyServer :=
  if channel = kInvalidChannel then s
  else
    let t := getThreadId s.slots channel
    let ioc := (s.thread t).context
    let ioc := { ioc with channelLinkages := ioc.channelLinkages.erase channel }
    if ¬isOutgoingChannel channel then
      { s.setContext t ioc with
        incomingConnections := s.incomingConnections - 1 }
    else
      let s := { s with outgoingConnections := s.outgoingConnections - 1 }
      -- Still needed.
      if channel ∈ ioc.outgoingInformations then s.setContext t ioc
      else
        match ioc.connectProxyHandlers.lookup channel with
        | none => { s.setContext t ioc with violated := true }
        | some proxyHandler =>
          { s.setContext t { ioc with
              connectProxyHandlers := ioc.connectProxyHandlers.erase channel } with
            deletedHandlers := s.deletedHandlers ++ [proxyHandler] }

/-- The call of `ReleaseChannel` in `DoRelease`. -/
def releasing (s : EasyServer) (t : Nat) : Option EasyServer :=
  match (s.thread t).task with
  | .releasing linkage =>
    some ((s.releaseChannel linkage.channel).setTask t (.released linkage))
  | _ => none

/-- The end of `DoRelease`: the linkage is deleted. -/
def delete (s : EasyServer) (t : Nat) : Option EasyServer :=
  match (s.thread t).task with
  | .released linkage =>
    some { s.setTask t .idle with linkages := s.linkages.erase linkage }
  | _ => none

end EasyServer

/-- What can happen next. -/
inductive Action where
  | initializeSlots (slots : Nat)
  | shutdown
  | count (t : Nat)
  | refuse (t : Nat)
  | reject (t : Nat)
  | create (t : Nat)
  | attach (t : Nat) (attached : Bool)
  | connect (t : Nat)
  | reconnect (channel : Channel) (connected : Bool)
  | forget (channel : Channel)
  | disconnect (channel : Channel)
  | release (t : Nat) (linkage : ProxyLinkage)
  | releaseChannel (t : Nat)
  | delete (t : Nat)

/-- One step, if it can be taken. -/
def next (s : EasyServer) : Action → Option EasyServer
  | .initializeSlots slots => s.initializeSlots slots
  | .shutdown => s.shutdown
  | .count t => s.count t
  | .refuse t => s.refuse t
  | .reject t => s.reject t
  | .create t => s.create t
  | .attach t attached => s.attach t attached
  | .connect t => s.connect t
  | .reconnect channel connected => s.reconnect channel connected
  -- Before `Initialize` there is no context to look up.
  | .forget channel => if 0 < s.slots then some (s.forget channel) else none
  | .disconnect _ => some s
  | .release t linkage => s.release t linkage
  | .releaseChannel t => s.releasing t
  | .delete t => s.delete t

/-- The runs of a server from its construction. -/
def server : Runs.System EasyServer Action where
  init := fun s => ∃ maximumIncomingConnections,
    s = EasyServer.fresh maximumIncomingConnections
  step := fun s a s' => next s a = some s'

-- ── What a step has done ─────────────────────────────────────────────────────

variable {s s' : EasyServer} {t n : Nat} {linkage : ProxyLinkage}

theorem initializeSlots_eq_some (h : s.initializeSlots n = some s') :
    s.slots = 0 ∧ 0 < n ∧ n ≤ kMaximumSlots ∧ s' = { s with
      slots := n
      thread := fun t => { s.thread t with context := .fresh t } } := by
  obtain ⟨⟨h0, hpos, hmax⟩, h⟩ := Option.ite_none_right_eq_some.mp h
  exact ⟨h0, hpos, hmax, (Option.some.inj h).symm⟩

theorem count_eq_some (h : s.count t = some s') :
    t < s.slots ∧ (s.thread t).task = .idle ∧
      s' = { s.setTask t (.counted (s.incomingConnections + 1)) with
        incomingConnections := s.incomingConnections + 1 } := by
  obtain ⟨⟨ht, htask⟩, h⟩ := Option.ite_none_right_eq_some.mp h
  exact ⟨ht, htask, (Option.some.inj h).symm⟩

theorem refuse_eq_some (h : s.refuse t = some s') :
    ∃ inconn, (s.thread t).task = .counted inconn ∧
      s' = { s.setTask t .idle with
        incomingConnections := s.incomingConnections - 1 } := by
  rw [EasyServer.refuse] at h
  split at h
  case h_2 => exact absurd h (by simp)
  case h_1 inconn htask =>
      obtain ⟨-, h⟩ := Option.ite_none_right_eq_some.mp h
      exact ⟨inconn, htask, (Option.some.inj h).symm⟩

theorem reject_eq_some (h : s.reject t = some s') :
    ∃ inconn, (s.thread t).task = .counted inconn ∧
      ∀ r, (s.thread t).context.allocateChannel s.slots true = r →
        s' = { s.setThread t { s.thread t with
            context := r.2
            task := .idle } with
          incomingConnections := s.incomingConnections - 1 } := by
  rw [EasyServer.reject] at h
  split at h
  case h_2 => exact absurd h (by simp)
  case h_1 inconn htask =>
      obtain ⟨-, h⟩ := Option.ite_none_right_eq_some.mp h
      refine ⟨inconn, htask, ?_⟩
      rintro _ rfl
      exact (Option.some.inj h).symm

theorem create_eq_some (h : s.create t = some s') :
    ∃ inconn, (s.thread t).task = .counted inconn ∧
      ∀ r, (s.thread t).context.allocateChannel s.slots true = r →
        s' = { s.setThread t { s.thread t with
            context := { r.2 with channelLinkages :=
              r.2.channelLinkages.insertNew r.1 ⟨s.made, r.1⟩ }
            task := .created ⟨s.made, r.1⟩ } with
          linkages := ⟨s.made, r.1⟩ :: s.linkages
          made := s.made + 1 } := by
  rw [EasyServer.create] at h
  split at h
  case h_2 => exact absurd h (by simp)
  case h_1 inconn htask =>
      obtain ⟨-, h⟩ := Option.ite_none_right_eq_some.mp h
      refine ⟨inconn, htask, ?_⟩
      rintro _ rfl
      exact (Option.some.inj h).symm

theorem connect_eq_some (h : s.connect t = some s') :
    t < s.slots ∧
      ∀ r, (s.thread t).context.allocateChannel s.slots false = r →
        s' = { s.setContext t { r.2 with
            connectProxyHandlers := r.2.connectProxyHandlers.insertNew r.1 s.made
            outgoingInformations :=
              r.2.outgoingInformations.insertNew r.1 ⟨s.made, t⟩ } with
          made := s.made + 1 } := by
  obtain ⟨ht, h⟩ := Option.ite_none_right_eq_some.mp h
  refine ⟨ht, ?_⟩
  rintro _ rfl
  exact (Option.some.inj h).symm

theorem attach_eq_some {attached : Bool} (h : s.attach t attached = some s') :
    ∃ linkage, (s.thread t).task = .created linkage ∧
      s' = if attached then s.setThread t { s.thread t with
          events := linkage :: (s.thread t).events
          task := .idle }
        else { s.setTask t .idle with linkages := s.linkages.erase linkage } := by
  rw [EasyServer.attach] at h
  split at h
  case h_2 => exact absurd h (by simp)
  case h_1 linkage htask =>
      refine ⟨linkage, htask, ?_⟩
      cases attached with
      | true => exact (Option.some.inj h).symm
      | false => exact (Option.some.inj h).symm

theorem release_eq_some (h : s.release t linkage = some s') :
    (s.thread t).task = .idle ∧ linkage ∈ (s.thread t).events ∧
      s' = s.setThread t { s.thread t with
        events := (s.thread t).events.erase linkage
        task := .releasing linkage } := by
  obtain ⟨⟨htask, hmem⟩, h⟩ := Option.ite_none_right_eq_some.mp h
  exact ⟨htask, hmem, (Option.some.inj h).symm⟩

theorem releasing_eq_some (h : s.releasing t = some s') :
    ∃ linkage, (s.thread t).task = .releasing linkage ∧
      s' = (s.releaseChannel linkage.channel).setTask t (.released linkage) := by
  rw [EasyServer.releasing] at h
  split at h
  case h_2 => exact absurd h (by simp)
  case h_1 linkage htask =>
      exact ⟨linkage, htask, (Option.some.inj h).symm⟩

theorem delete_eq_some (h : s.delete t = some s') :
    ∃ linkage, (s.thread t).task = .released linkage ∧
      s' = { s.setTask t .idle with linkages := s.linkages.erase linkage } := by
  rw [EasyServer.delete] at h
  split at h
  case h_2 => exact absurd h (by simp)
  case h_1 linkage htask =>
      exact ⟨linkage, htask, (Option.some.inj h).symm⟩

end FlinterEasyServer
