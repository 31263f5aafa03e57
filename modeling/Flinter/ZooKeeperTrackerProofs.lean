import Flinter.RunProofs
import Mathlib.Data.Finset.Erase
import Mathlib.Data.Finset.Insert

/-! # ZooKeeperTracker: what covers a tracked node

    A tracker keeps a watch on the data or the children of a node.  Watches are
    one-shot: a node that changed is asked for again, a node that is missing is
    asked for with `exists`, which leaves a watch for its creation.  A request
    that is in flight already is not made twice.

    The session is one side of the model and the tracker the other; `requests`
    and `watches` are the client's, `asked` is what the tracker believes of
    them.  A watch counts as armed until its event is handed to the tracker. -/

namespace FlinterZooKeeper

open Runs

/-- `std::string`. -/
abbrev Text := List Char

def ZOK : Int := 0
def ZINVALIDSTATE : Int := -9
def ZNONODE : Int := -101

def ZOO_CONNECTING_STATE : Int := 1
def ZOO_ASSOCIATING_STATE : Int := 2
def ZOO_CONNECTED_STATE : Int := 3

-- ── The tracker and the client ───────────────────────────────────────────────

/-- What a tracker may ask for. -/
inductive Kind where
  | data
  | children
deriving DecidableEq, Repr

/-- `OP_GET`, `OP_GETC` and `OP_EXISTS`. -/
inductive Request where
  | get
  | getChildren
  | exist
deriving DecidableEq, Repr

/-- A one-shot watch, by the event that it waits for: a change of the data, a
    change of the children, or the creation of a missing node. -/
inductive Watch where
  | data
  | children
  | missing
deriving DecidableEq, Repr

/-- `ZooKeeperTracker::Tracker`. -/
structure Tracker where
  cb : Nat
  data : Bool
  children : Bool
  cancelOnMissing : Bool
  null : Bool
deriving DecidableEq, Repr

def Tracker.wants (tracker : Tracker) : Kind → Bool
  | .data => tracker.data
  | .children => tracker.children

/-- An entry of `_tracks`.  `told` is a ghost: the last call of the callback
    about this path, since the entry was made, was `OnError`. -/
structure Registration where
  path : Text
  tracker : Tracker
  told : Bool
deriving DecidableEq, Repr

/-- A call of `ZooKeeperTracker::Callback`. -/
inductive Notice where
  | onError (cb : Nat) (error : Int) (path : Text)
  | onData (cb : Nat) (path : Text) (data : Option Text)
  | onChildren (cb : Nat) (path : Text) (children : Option (List Text))
deriving DecidableEq, Repr

/-- `ZooKeeperTracker` and its ZooKeeper client.  `zk` says that `_zk` is set,
    `asked` is `_data`, `_children` and `_exists` in one. -/
structure World where
  zk : Bool
  state : Int
  tracks : List Registration
  asked : Finset (Request × Text)
  requests : List (Request × Text)
  watches : List (Watch × Text)
  notices : List Notice

/-- What `zoo_awget`, `zoo_awget_children2` and `zoo_awexists` answer. -/
abbrev Issue := Request → Int

-- ── Callbacks ────────────────────────────────────────────────────────────────

def Notice.cb : Notice → Nat
  | .onError cb _ _ => cb
  | .onData cb _ _ => cb
  | .onChildren cb _ _ => cb

def Notice.path : Notice → Text
  | .onError _ _ path => path
  | .onData _ path _ => path
  | .onChildren _ path _ => path

def Notice.failure : Notice → Bool
  | .onError _ _ _ => true
  | _ => false

/-- A call of the callback of this entry about its path. -/
abbrev Notice.reaches (notice : Notice) (r : Registration) : Prop :=
  notice.cb = r.tracker.cb ∧ notice.path = r.path

/-- The ghost of an entry follows the last call. -/
def Registration.hear (r : Registration) (notice : Notice) : Registration :=
  if notice.reaches r then
    { r with told := notice.failure }
  else r

def World.deliver (w : World) (notices : List Notice) : World :=
  { w with
    tracks := w.tracks.map fun r => notices.foldl Registration.hear r
    notices := w.notices ++ notices }

/-- `std::multimap::equal_range`. -/
def equalRange (tracks : List Registration) (path : Text) :
    List Registration :=
  tracks.filter fun r => r.path = path

/-- The callbacks of the entries under a path that meet `p`, each once; a
    `std::set` of pointers has them in no order that means anything. -/
def callbacks (tracks : List Registration) (path : Text)
    (p : Tracker → Bool) : List Nat :=
  (((equalRange tracks path).map (·.tracker)).filter p).map (·.cb) |>.dedup

/-- `ZooKeeperTracker::NotifyError`. -/
def notifyError (tracks : List Registration) (path : Text) (error : Int) :
    List Notice :=
  (callbacks tracks path fun _ => true).map fun cb => .onError cb error path

/-- `ZooKeeperTracker::NotifyNull`. -/
def notifyNull (tracks : List Registration) (path : Text) : List Notice :=
  ((callbacks tracks path (·.data)).map fun cb => .onData cb path none) ++
    (callbacks tracks path (·.children)).map fun cb => .onChildren cb path none

-- ── Requests ─────────────────────────────────────────────────────────────────

/-- A request that is not in flight yet is made; whether it is accepted is the
    client's answer. -/
def ask (issue : Issue) (w : World) (request : Request) (path : Text) :
    Int × World :=
  if (request, path) ∈ w.asked then (ZOK, w)
  else if issue request ≠ ZOK then (issue request, w)
  else
    (ZOK, { w with
      asked := insert (request, path) w.asked
      requests := w.requests ++ [(request, path)] })

/-- `ZooKeeperTracker::Get`. -/
def get (issue : Issue) (w : World) (path : Text)
    (dreq creq existFirst : Bool) : Int × World :=
  if !w.zk then (ZINVALIDSTATE, w)
  else if w.state ≠ ZOO_CONNECTED_STATE then (ZINVALIDSTATE, w)
  else if existFirst then ask issue w .exist path
  -- The `break` leaves out the children too.
  else if dreq ∧ (.get, path) ∈ w.asked then (ZOK, w)
  else
    let d := if dreq then ask issue w .get path else (ZOK, w)
    if d.1 ≠ ZOK ∨ ¬creq then d else ask issue d.2 .getChildren path

/-- The loop of `ProcessNolock`: an entry wants this kind. -/
def need (tracks : List Registration) (path : Text) (erased : Bool)
    (kind : Kind) : Bool :=
  (equalRange tracks path).any fun r =>
    !(erased && r.tracker.cancelOnMissing) && r.tracker.wants kind

/-- `ZooKeeperTracker::ProcessNolock`. -/
def processNolock (issue : Issue) (w : World) (path : Text)
    (dreq creq erased : Bool) : Int × World :=
  let dneed := need w.tracks path erased .data && dreq
  let cneed := need w.tracks path erased .children && creq
  if !dneed && !cneed then (ZOK, w)
  else get issue w path dneed cneed erased

/-- `ZooKeeperTracker::CancelNolock`; no callback stands for all of them. -/
def cancelNolock (w : World) (path : Text) (cb : Option Nat) : World :=
  { w with
    tracks := w.tracks.filter fun r =>
      !(r.path = path && (cb = none || cb = some r.tracker.cb)) }

/-- `ZooKeeperTracker::Process` of a path. -/
def process (issue : Issue) (w : World) (path : Text)
    (dreq creq erased : Bool) : World :=
  let p := processNolock issue w path dreq creq erased
  if p.1 = ZOK then
    if erased then p.2.deliver (notifyNull p.2.tracks path) else p.2
  else p.2.deliver (notifyError p.2.tracks path p.1)

-- ── Calls of the user ────────────────────────────────────────────────────────

/-- `path && path[0] == '/'`. -/
def absolute (path : Option Text) : Option Text :=
  path.filter fun p => p.head? = some '/'

/-- The loop of `DoTrack`: the callback tracks this kind already, or need not. -/
def covers (w : World) (path : Text) (cb : Nat) (track : Bool)
    (kind : Kind) : Bool :=
  (equalRange w.tracks path).any fun r =>
    r.tracker.cb = cb && (!track || r.tracker.wants kind)

/-- What `DoTrack` makes of its arguments: false, true, or an entry to make. -/
inductive Admission where
  | refused
  | alreadyTracked
  | insert (path : Text) (tracker : Tracker)
deriving DecidableEq, Repr

/-- `DoTrack` up to the insertion. -/
def examine (w : World) (path : Option Text) (trackData trackChildren
    notifyMissing cancelOnMissing : Bool) (cb : Option Nat) : Admission :=
  match absolute path, cb with
  | some path, some cb =>
    if !trackData && !trackChildren then .refused
    else if !w.zk then .refused
    else if covers w path cb trackData .data &&
        covers w path cb trackChildren .children then .alreadyTracked
    else .insert path
      ⟨cb, trackData, trackChildren, cancelOnMissing, notifyMissing⟩
  | _, _ => .refused

def World.insert (w : World) (path : Text) (tracker : Tracker) : World :=
  { w with tracks := w.tracks ++ [⟨path, tracker, false⟩] }

/-- `DoTrack` from the insertion on. -/
def register (issue : Issue) (w : World) (path : Text) (tracker : Tracker) :
    Bool × World :=
  let p := processNolock issue (w.insert path tracker) path true true false
  if p.1 = ZOK then (true, p.2)
  else
    let c := cancelNolock p.2 path (some tracker.cb)
    (false, c.deliver (notifyError c.tracks path p.1))

/-- `ZooKeeperTracker::DoTrack`. -/
def doTrack (issue : Issue) (w : World) (path : Option Text)
    (trackData trackChildren notifyMissing cancelOnMissing : Bool)
    (cb : Option Nat) : Bool × World :=
  match examine w path trackData trackChildren notifyMissing cancelOnMissing cb
    with
  | .refused => (false, w)
  | .alreadyTracked => (true, w)
  | .insert path tracker => register issue w path tracker

/-- `ZooKeeperTracker::Track`. -/
def track (issue : Issue) (w : World) (path : Option Text)
    (trackData trackChildren notifyMissing : Bool) (cb : Option Nat) :
    Bool × World :=
  doTrack issue w path trackData trackChildren notifyMissing false cb

/-- `ZooKeeperTracker::TrackExisting`. -/
def trackExisting (issue : Issue) (w : World) (path : Option Text)
    (trackData trackChildren : Bool) (cb : Option Nat) : Bool × World :=
  doTrack issue w path trackData trackChildren true true cb

/-- `ZooKeeperTracker::Cancel`. -/
def cancel (w : World) (path : Option Text) (cb : Option Nat) : World :=
  match absolute path with
  | some path => cancelNolock w path cb
  | none => w

-- ── Completions and events ───────────────────────────────────────────────────

/-- The watch that a completed request leaves with the client. -/
def arms : Request → Int → Option Watch
  | .get, rc => if rc = ZOK then some .data else none
  | .getChildren, rc => if rc = ZOK then some .children else none
  | .exist, rc =>
    if rc = ZOK then some .data
    else if rc = ZNONODE then some .missing else none

/-- The client and the first lines of a completion: the request is not in
    flight any more, its watch is armed. -/
def World.complete (w : World) (request : Request) (path : Text) (rc : Int) :
    World :=
  { w with
    asked := w.asked.erase (request, path)
    requests := w.requests.erase (request, path)
    watches := w.watches ++ ((arms request rc).map fun k => (k, path)).toList }

/-- `ZooKeeperTracker::OnExists`. -/
def onExists (issue : Issue) (w : World) (rc : Int) (path : Text) : World :=
  let p := if rc = ZOK then processNolock issue w path true true false
    else (rc, w)
  if p.1 = ZOK then p.2
  else if p.1 ≠ ZNONODE then p.2.deliver (notifyError p.2.tracks path p.1)
  else
    ((equalRange p.2.tracks path).filter (·.tracker.cancelOnMissing)).foldl
      (fun w r => cancelNolock w path (some r.tracker.cb)) p.2

/-- What `OnGet` and `OnGetChildren` do when the node is missing. -/
def onMissing (issue : Issue) (w : World) (path : Text) : World :=
  let p := processNolock issue w path true true true
  if p.1 = ZOK then p.2.deliver (notifyNull w.tracks path)
  else p.2.deliver (notifyError w.tracks path p.1)

/-- `ZooKeeperTracker::OnGet`. -/
def onGet (issue : Issue) (w : World) (rc : Int) (path data : Text) : World :=
  if rc = ZNONODE then onMissing issue w path
  else if rc ≠ ZOK then w.deliver (notifyError w.tracks path rc)
  else
    w.deliver ((callbacks w.tracks path (·.data)).map fun cb =>
      .onData cb path (some data))

/-- `ZooKeeperTracker::OnGetChildren`. -/
def onGetChildren (issue : Issue) (w : World) (rc : Int) (path : Text)
    (children : List Text) : World :=
  if rc = ZNONODE then onMissing issue w path
  else if rc ≠ ZOK then w.deliver (notifyError w.tracks path rc)
  else
    w.deliver ((callbacks w.tracks path (·.children)).map fun cb =>
      .onChildren cb path (some children))

/-- `ZOO_CREATED_EVENT` and the other node events. -/
inductive Event where
  | created
  | erased
  | changed
  | child
deriving DecidableEq, Repr

/-- The watches that an event may fire. -/
def Event.fires : Event → Watch → Bool
  | .created, .missing => true
  | .erased, .data => true
  | .erased, .children => true
  | .changed, .data => true
  | .child, .children => true
  | _, _ => false

def World.disarm (w : World) (watch : Watch) (path : Text) : World :=
  { w with watches := w.watches.erase (watch, path) }

/-- `ZooKeeperTracker::Watcher`, `OnCreated` and the others. -/
def onEvent (issue : Issue) (w : World) (event : Event) (path : Text) :
    World :=
  match event with
  | .created => process issue w path true true false
  | .erased => process issue w path true true true
  | .changed => process issue w path true false false
  | .child => process issue w path false true false

-- ── The system ───────────────────────────────────────────────────────────────

inductive Action where
  | track (path : Option Text) (trackData trackChildren notifyMissing : Bool)
      (cb : Option Nat)
  | trackExisting (path : Option Text) (trackData trackChildren : Bool)
      (cb : Option Nat)
  | cancel (path : Option Text) (cb : Option Nat)
  | session (state : Int)
  | event (event : Event) (watch : Watch) (path : Text)
  | exist (rc : Int) (path : Text)
  | get (rc : Int) (path data : Text)
  | getChildren (rc : Int) (path : Text) (children : List Text)
deriving DecidableEq, Repr

/-- A session that is interrupted and resumed, which `Process` of a session
    state ignores. -/
def transient (state : Int) : Bool :=
  state = ZOO_CONNECTED_STATE || state = ZOO_CONNECTING_STATE ||
    state = ZOO_ASSOCIATING_STATE

/-- One call, event or completion; an event needs its watch and a completion
    its request. -/
def next (issue : Issue) (w : World) : Action → Option World
  | .track path d c null cb => some (track issue w path d c null cb).2
  | .trackExisting path d c cb => some (trackExisting issue w path d c cb).2
  | .cancel path cb => some (cancel w path cb)
  | .session state =>
    if transient state then some { w with state := state } else none
  | .event event watch path =>
    if event.fires watch ∧ (watch, path) ∈ w.watches then
      some (onEvent issue (w.disarm watch path) event path)
    else none
  | .exist rc path =>
    if (.exist, path) ∈ w.requests then
      some (onExists issue (w.complete .exist path rc) rc path)
    else none
  | .get rc path data =>
    if (.get, path) ∈ w.requests then
      some (onGet issue (w.complete .get path rc) rc path data)
    else none
  | .getChildren rc path children =>
    if (.getChildren, path) ∈ w.requests then
      some (onGetChildren issue (w.complete .getChildren path rc) rc path
        children)
    else none

/-- After `Initialize`, with the session connected. -/
def World.start : World := ⟨true, ZOO_CONNECTED_STATE, [], ∅, [], [], []⟩

/-- What the client documents of the calls that only make a request: a missing
    node is reported by the completion, never by the call. -/
def Documented (issue : Issue) : Prop := ∀ request, issue request ≠ ZNONODE

/-- Any order of calls, events and completions, in a session that lives. -/
def zooKeeperTracker : System World (Issue × Action) where
  init := fun w => w = .start
  step := fun w a w' => Documented a.1 ∧ next a.1 w a.2 = some w'

end FlinterZooKeeper
