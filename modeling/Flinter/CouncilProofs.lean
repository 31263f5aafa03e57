import Flinter.OrderedMapProofs
import Flinter.RunProofs
import Mathlib.Data.Nat.Digits.Defs
import Mathlib.Logic.Function.Basic

/-! # Council: an election among the children of a ZooKeeper node

    A `Council` makes an ephemeral, sequential child of the election node and is
    elected while at most `_size` candidates are not behind it.  Otherwise it
    tracks as many of those before it, and attends again when one is missing.

    `_mutex` is held from the event that starts something to its end, over the
    ZooKeeper calls in between; `Stage` says which of them is outstanding.  A
    call takes effect on the server in one step, and its answer is dealt with in
    a later one where anything of it shows: the children that `Attend` looks at
    may be out of date, and a node may be gone before the instance resets. -/

namespace FlinterCouncil

open OrderedMaps

/-- `std::string`. -/
abbrev Text := List Char

-- ── Numbers and names ────────────────────────────────────────────────────────

/-- `isspace` of the C locale. -/
def isspace (c : Char) : Bool := c == ' ' || (9 ≤ c.toNat && c.toNat ≤ 13)

/-- The sign of a number: whether it is negative, and the text behind it. -/
def takeSign : Text → Bool × Text
  | '-' :: rest => (true, rest)
  | '+' :: rest => (false, rest)
  | rest => (false, rest)

/-- The value of a text of digits. -/
def valueOf (digits : Text) : Nat :=
  digits.foldl (fun n c => 10 * n + (c.toNat - 48)) 0

/-- `strtol` in base 10: the number, and the text behind it. -/
def strtol (value : Text) : Int × Text :=
  let sign := takeSign (value.dropWhile isspace)
  let digits := sign.2.takeWhile Char.isDigit
  if digits = [] then (0, value)
  else
    let n : Int := valueOf digits
    (if sign.1 then max (-n) (-2 ^ 63) else min n (2 ^ 63 - 1),
      sign.2.dropWhile Char.isDigit)

/-- `atoi32`: -1 for anything that is not an `int32_t` from 0 on. -/
def atoi32 (value : Text) : Int :=
  if value = [] then -1
  else
    let r := strtol value
    -- `LONG_MAX` is above `INT32_MAX`.
    if r.2 ≠ [] ∨ r.1 > 2147483647 ∨ r.1 < 0 then -1 else r.1

/-- `std::setfill('0') << std::setw(10)`. -/
def setw10 (id : Int) : Text :=
  let digits := (Nat.digits 10 id.toNat).reverse.map Nat.digitChar
  List.replicate (10 - digits.length) '0' ++ digits

/-- The name of a candidate node. -/
def childName (nodeName : Text) (id : Int) : Text :=
  nodeName ++ '_' :: setw10 id

/-- The path of a child of the election node. -/
def childPath (electionPath child : Text) : Text := electionPath ++ '/' :: child

/-- `std::string::find_last_of` of one character. -/
def findLastOf (c : Char) : Text → Option Nat
  | [] => none
  | x :: xs =>
    match findLastOf c xs with
    | some pos => some (pos + 1)
    | none => if x = c then some 0 else none

/-- The loop body of `GetCandidates`: the id and the name before it. -/
def getCandidate (s : Text) : Option (Int × Text) :=
  match findLastOf '_' s with
  | none => none
  | some pos =>
    if pos = 0 ∨ pos + 11 ≠ s.length then none
    else
      let i := atoi32 (s.drop (pos + 1))
      if 0 ≤ i then some (i, s.take pos) else none

/-- `Council::GetCandidates` of the children that were listed. -/
def getCandidates (children : List Text) : OrderedMap Int Text :=
  children.foldl (fun candidates s =>
    match getCandidate s with
    | some (i, nodeName) => candidates.insertNew i nodeName
    | none => candidates) .empty

-- ── The instance ─────────────────────────────────────────────────────────────

/-- `Council::Callback`. -/
inductive Notice where
  | onElected (id : Int)
  | onFired (recoverable : Bool)
deriving DecidableEq, Repr

/-- The call that whoever holds `_mutex` waits for, or whose answer is there.
    `quit` is for the `Erase` of a `Shutdown`, which goes on behind it. -/
inductive Stage where
  | idle
  | create
  | eraseInvalid (path : Text)
  | getChildren
  | gotChildren (children : Option (List Text))
  | track (paths : List Text)
  | erase (path : Text) (recoverable quit : Bool)
  | erased (answered recoverable quit : Bool)
deriving DecidableEq, Repr

/-- `Council`.  `tracks` are the paths registered with its `ZooKeeperTracker`,
    `called` is what `_cb` was told, `violated` says that an assertion failed or
    an iterator passed the beginning of the map. -/
structure Council where
  zk : Bool
  electionPath : Text
  name : Text
  nodeName : Text
  actualId : Int
  id : Int
  size : Int
  cb : Bool
  tracks : List Text
  called : List Notice
  violated : Bool
  stage : Stage
deriving DecidableEq, Repr

namespace Council

/-- `Council::Council`, and `set_name`. -/
def fresh (name : Text) : Council where
  zk := false
  electionPath := []
  name := name
  nodeName := []
  actualId := -1
  id := -1
  size := -1
  cb := false
  tracks := []
  called := []
  violated := false
  stage := .idle

def path (c : Council) : Text :=
  childPath c.electionPath (childName c.nodeName c.actualId)

/-- `Council::ResetState`. -/
def resetState (c : Council) (recoverable : Bool) : Council :=
  if recoverable then { c with id := -1 }
  else { c with id := -2, size := -1, actualId := -1 }

/-- `Council::DoLostClean`. -/
def doLostClean (c : Council) (recoverable : Bool) : Council :=
  let notify := decide (0 ≤ c.id) || !recoverable
  let c := c.resetState recoverable
  if notify && c.cb then
    { c with called := c.called ++ [.onFired recoverable] }
  else c

/-- The end of `Council::Shutdown`. -/
def clear (c : Council) : Council :=
  { c with zk := false, cb := false, electionPath := [] }

/-- `Council::DoQuitClean` up to its `Erase`, or all of it without a node. -/
def doQuitClean (c : Council) (recoverable quit : Bool) : Council :=
  let c := { c with violated := c.violated || c.electionPath.isEmpty }
  if 0 ≤ c.actualId then { c with stage := .erase c.path recoverable quit }
  else
    let c := { c.doLostClean recoverable with stage := .idle }
    if quit then c.clear else c

/-- `Council::DoQuitClean` behind its `Erase`, whatever the answer. -/
def finishQuitClean (c : Council) (answered recoverable quit : Bool) : Council :=
  let c := { c with actualId := -1 }
  let c := { c.doLostClean (recoverable && answered) with stage := .idle }
  if quit then c.clear else c

/-- `Council::OnFired`. -/
def onFired (c : Council) (recoverable : Bool) : Council :=
  c.doQuitClean recoverable false

/-- `Council::OnQuit`. -/
def onQuit (c : Council) : Council := c.doQuitClean true true

/-- `Council::OnShrinked`. -/
def onShrinked (c : Council) (recoverable : Bool) : Council :=
  { c.doLostClean recoverable with stage := .idle }

/-- `Council::OnLost`. -/
def onLost (c : Council) : Council :=
  { c.doLostClean true with actualId := -1, size := -1, stage := .idle }

/-- `Council::OnError`. -/
def onError (c : Council) (expired : Bool) : Council :=
  if expired then c.onLost else c.onFired false

/-- `Council::UpdateName`, with what `gethostname` answers. -/
def updateName (c : Council) (hostname : Option Text) : Option Text :=
  if c.name ≠ [] then some c.name else hostname

/-- `Council::Attend` up to its first call.  A name that fails is fired for in
    `CreateNodeAsNeeded` and once more in `Attend`. -/
def attend (c : Council) (hostname : Option Text) : Council :=
  if 0 ≤ c.actualId then { c with stage := .getChildren }
  else
    match c.updateName hostname with
    | none => (c.onFired false).onFired false
    | some nodeName => { c with nodeName := nodeName, stage := .create }

/-- `CreateNodeAsNeeded` behind its `Create`: the path made, if it succeeded. -/
def created (c : Council) (answer : Option Text) : Council :=
  match answer with
  | none => { c with size := -1 }.onFired false
  | some actual =>
    let offset := c.electionPath.length + 1 + c.nodeName.length + 1
    if actual.length ≠ offset + 10 then { c with stage := .eraseInvalid actual }
    else
      let i := atoi32 (actual.drop offset)
      if i < 0 then { c with actualId := i, stage := .eraseInvalid actual }
      else { c with actualId := i, stage := .getChildren }

/-- The `TrackExisting` calls of `Attend` that are left. -/
def trackNext (c : Council) (paths : List Text) : Council :=
  if paths = [] then c.onShrinked true else { c with stage := .track paths }

/-- `Attend` behind its `GetChildren`. -/
def attendAmong (c : Council) (children : Option (List Text)) : Council :=
  match children with
  | none => { c with size := -1, stage := .idle }
  | some children =>
    let candidates := getCandidates children
    if c.actualId ∉ candidates.keys then c.onFired false
    else
      let pos : Int := (candidates.upTo c.actualId).length
      if pos ≤ c.size then
        if 0 ≤ c.id then { c with stage := .idle }
        else
          let c := { c with id := c.actualId, stage := .idle }
          if c.cb then { c with called := c.called ++ [.onElected c.id] } else c
      else
        let before := (candidates.below c.actualId).reverse
        let c := { c with
          violated := c.violated || before.isEmpty ||
            decide (before.length < c.size) }
        c.trackNext ((before.take c.size.toNat).map fun p =>
          childPath c.electionPath (childName p.2 p.1))

/-- One `TrackExisting` of `Attend`, and what its loop goes on to.  A path that
    is registered already needs no request. -/
def tracked (c : Council) (path : Text) (paths : List Text) (ok : Bool) :
    Council :=
  if path ∈ c.tracks then c.trackNext paths
  else if ok then { c with tracks := path :: c.tracks }.trackNext paths
  else c.onShrinked false

/-- `Council::OnData`. -/
def onData (c : Council) (path : Text) (data : Option Text)
    (hostname : Option Text) : Council :=
  if path.take c.electionPath.length ≠ c.electionPath then c
  else if c.electionPath = path then
    match data with
    | none => c.onFired true
    | some data =>
      let size := atoi32 data
      if size ≤ 0 then { c with size := -1 }.onShrinked true
      else { c with size := size }.attend hostname
  else if data.isSome then c
  else if 0 ≤ c.id then c
  else { c with tracks := c.tracks.filter (· ≠ path) }.attend hostname

/-- `Council::Initialize`, with the answer of its `Track`. -/
def initializeOn (c : Council) (electionPath : Text) (cb ok : Bool) : Council :=
  if c.zk ∨ electionPath.length < 2 ∨ electionPath.head? ≠ some '/' ∨
      electionPath.getLast? = some '/' ∨ ¬ok then c
  else
    let c := { c with
      zk := true, cb := cb, electionPath := electionPath,
      tracks := [electionPath] }
    { c.resetState false with id := -1 }

/-- `Council::Shutdown`. -/
def shutdown (c : Council) : Council :=
  if ¬c.zk then c else { c with tracks := [] }.onQuit

end Council

-- ── The server ───────────────────────────────────────────────────────────────

/-- The election node: its children, and the sequence number of the next. -/
structure ZooKeeper where
  children : List Text
  nextSequence : Nat
deriving DecidableEq, Repr

/-- A sequential `Create` below the election node. -/
def ZooKeeper.create (zk : ZooKeeper) (nodeName : Text) : ZooKeeper where
  children := childName nodeName zk.nextSequence :: zk.children
  nextSequence := zk.nextSequence + 1

/-- `Erase`. -/
def ZooKeeper.erase (zk : ZooKeeper) (electionPath path : Text) : ZooKeeper :=
  { zk with children :=
      zk.children.filter fun child => childPath electionPath child ≠ path }

-- ── Instances on one election node ───────────────────────────────────────────

/-- The server and the instances.  `reported` (ghost) are the paths whose nodes
    have been reported missing to an instance. -/
structure Election (ι : Type) where
  zk : ZooKeeper
  council : ι → Council
  reported : ι → List Text

section Election

variable {ι : Type} [DecidableEq ι]

def Election.setCouncil (s : Election ι) (i : ι) (c : Council) : Election ι :=
  { s with council := Function.update s.council i c }

@[simp] theorem setCouncil_self {s : Election ι} {i : ι} {c : Council} :
    (s.setCouncil i c).council i = c := Function.update_self _ _ _

@[simp] theorem setCouncil_of_ne {s : Election ι} {i j : ι} {c : Council}
    (h : j ≠ i) : (s.setCouncil i c).council j = s.council j :=
  Function.update_of_ne h _ _

/-- What can happen next. -/
inductive Action (ι : Type) where
  | initializeOn (i : ι) (cb ok : Bool)
  | onData (i : ι) (path : Text) (data hostname : Option Text)
  | onError (i : ι)
  | shutdown (i : ι)
  | create (i : ι) (made answered : Bool)
  | eraseInvalid (i : ι) (erased : Bool)
  | getChildren (i : ι) (answered : Bool)
  | attendAmong (i : ι)
  | track (i : ι) (ok : Bool)
  | erase (i : ι) (erased answered : Bool)
  | finishQuitClean (i : ι)
  | close (child : Text)

/-- What the tracker may report: the election node holds `size`, or is missing;
    anything of a child that was made, but that it is missing only when it is. -/
def Reports (electionPath size : Text) (zk : ZooKeeper) (path : Text)
    (data : Option Text) : Prop :=
  path = electionPath ∧ (data = none ∨ data = some size) ∨
    ∃ nodeName : Text, ∃ n : Nat, n < zk.nextSequence ∧
      path = childPath electionPath (childName nodeName n) ∧
      (data = none → childName nodeName n ∉ zk.children)

/-- One step on a ZooKeeper that loses no session.  A call may fail with or
    without its effect, but for one that answers success.  A child that no
    instance knows of goes when the session that made it is closed. -/
inductive Step (electionPath size : Text) :
    Election ι → Action ι → Election ι → Prop where
  | initializeOn {s : Election ι} {i : ι} {cb ok : Bool} :
      (s.council i).stage = .idle →
      Step electionPath size s (.initializeOn i cb ok)
        (s.setCouncil i ((s.council i).initializeOn electionPath cb ok))
  | onData {s : Election ι} {i : ι} {path : Text} {data hostname : Option Text} :
      (s.council i).stage = .idle → (s.council i).zk = true →
      Reports electionPath size s.zk path data →
      Step electionPath size s (.onData i path data hostname)
        { s.setCouncil i ((s.council i).onData path data hostname) with
          reported := Function.update s.reported i
            (if data.isNone then path :: s.reported i else s.reported i) }
  | onError {s : Election ι} {i : ι} :
      (s.council i).stage = .idle → (s.council i).zk = true →
      Step electionPath size s (.onError i)
        (s.setCouncil i ((s.council i).onError false))
  | shutdown {s : Election ι} {i : ι} :
      (s.council i).stage = .idle →
      Step electionPath size s (.shutdown i)
        (s.setCouncil i (s.council i).shutdown)
  | create {s : Election ι} {i : ι} {made answered : Bool} :
      (s.council i).stage = .create → (answered = true → made = true) →
      (made = true → '/' ∉ (s.council i).nodeName ∧
        s.zk.nextSequence < 2 ^ 31) →
      Step electionPath size s (.create i made answered)
        { s.setCouncil i ((s.council i).created
            (if answered then
              some (childPath electionPath
                (childName (s.council i).nodeName s.zk.nextSequence))
            else none)) with
          zk := if made then s.zk.create (s.council i).nodeName else s.zk }
  | eraseInvalid {s : Election ι} {i : ι} {path : Text} {erased : Bool} :
      (s.council i).stage = .eraseInvalid path →
      Step electionPath size s (.eraseInvalid i erased)
        { s.setCouncil i ((s.council i).onFired false) with
          zk := if erased then s.zk.erase electionPath path else s.zk }
  | getChildren {s : Election ι} {i : ι} {answered : Bool} :
      (s.council i).stage = .getChildren →
      Step electionPath size s (.getChildren i answered)
        (s.setCouncil i { s.council i with
          stage := .gotChildren (if answered then some s.zk.children else none) })
  | attendAmong {s : Election ι} {i : ι} {children : Option (List Text)} :
      (s.council i).stage = .gotChildren children →
      Step electionPath size s (.attendAmong i)
        (s.setCouncil i ((s.council i).attendAmong children))
  | track {s : Election ι} {i : ι} {path : Text} {paths : List Text} {ok : Bool} :
      (s.council i).stage = .track (path :: paths) →
      Step electionPath size s (.track i ok)
        (s.setCouncil i ((s.council i).tracked path paths ok))
  | erase {s : Election ι} {i : ι} {path : Text}
      {recoverable quit erased answered : Bool} :
      (s.council i).stage = .erase path recoverable quit →
      (answered = true → erased = true) →
      Step electionPath size s (.erase i erased answered)
        { s.setCouncil i { s.council i with
            stage := .erased answered recoverable quit } with
          zk := if erased then s.zk.erase electionPath path else s.zk }
  | finishQuitClean {s : Election ι} {i : ι} {answered recoverable quit : Bool} :
      (s.council i).stage = .erased answered recoverable quit →
      Step electionPath size s (.finishQuitClean i)
        (s.setCouncil i
          ((s.council i).finishQuitClean answered recoverable quit))
  | close {s : Election ι} {child : Text} :
      (∀ i, 0 ≤ (s.council i).actualId →
        childName (s.council i).nodeName (s.council i).actualId ≠ child) →
      Step electionPath size s (.close child)
        { s with zk := s.zk.erase electionPath (childPath electionPath child) }

/-- The runs of any number of instances on one election node that holds
    `size`. -/
def election (ι : Type) [DecidableEq ι] (electionPath size : Text) :
    Runs.System (Election ι) (Action ι) where
  init := fun s => s.zk = ⟨[], 0⟩ ∧ (∀ i, ∃ name, s.council i = .fresh name) ∧
    ∀ i, s.reported i = []
  step := Step electionPath size

end Election

end FlinterCouncil
