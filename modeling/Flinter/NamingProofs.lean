import Flinter.CandidateNameProofs
import Flinter.ZooKeeperTrackProofs

/-! # Naming: a name that is attended

    `Attend` makes an ephemeral, sequential node under the naming path and then
    watches the path with a tracker of its own; `Watch` only watches.  `_zk` is
    set when all of that has worked.  `_mutex` is held throughout, so a call is
    one step; what ZooKeeper answers is an argument of it.

    When the watch cannot be set up the node is there already, and its path is
    kept.  `CreateNode` takes that for its own node later on, whoever it is
    asked for. -/

namespace FlinterNaming

open FlinterCandidates FlinterCouncil OrderedMaps Runs

-- ── The tracker ──────────────────────────────────────────────────────────────

/-- `ZooKeeperTracker` with the client it is given. -/
abbrev Tracker := FlinterZooKeeper.World

/-- What `zoo_awget_children2` and its like answer. -/
abbrev Issue := FlinterZooKeeper.Issue

/-- A tracker without a client. -/
def off : Tracker := ⟨false, 0, [], ∅, [], [], []⟩

/-- `ZooKeeperTracker::Initialize` with a client in this session state. -/
def initializeTracker (zkt : Tracker) (session : Int) : Bool × Tracker :=
  if zkt.zk then (false, zkt) else (true, { zkt with zk := true, state := session })

/-- `ZooKeeperTracker::Shutdown`; what the client still has of it is detached. -/
def shutdownTracker (zkt : Tracker) : Tracker := if zkt.zk then off else zkt

-- ── The object ───────────────────────────────────────────────────────────────

/-- `Naming`; `zk` tells ZooKeeper clients apart. -/
structure Naming where
  cb : Option Nat
  zk : Option Nat
  zkt : Tracker
  path : Text
  actualPath : Text
  naming : OrderedMap Int Text

/-- A call of `Naming::Callback`. -/
inductive Call where
  | onError (cb : Nat) (path : Option Text)
  | onChanged (cb : Nat) (naming : OrderedMap Int Text)

/-- The object, the nodes on the server, and the calls that were made. -/
structure World where
  object : Naming
  nodes : List Text
  calls : List Call

/-- What becomes of `Create`: a node of this number, a node whose path is lost
    with the answer, or none. -/
inductive Reply where
  | made (n : Nat)
  | lost (n : Nat)
  | refused
deriving DecidableEq, Repr

/-- The arguments that `Watch` and `Attend` share, and the state of the client. -/
structure Request where
  zk : Option Nat
  session : Int
  namingPath : Text
  cb : Option Nat
deriving DecidableEq, Repr

/-- The node that `Create` makes: the path it is asked for, and a number. -/
def nodePath (namingPath identity : Text) (n : Nat) : Text :=
  cString (namingPath ++ '/' :: identity ++ ['_']) ++ setw10 n

variable {w w' : World} {r r' : Request} {identity identity' : Text} {reply : Reply}
  {issue issue' : Issue} {n : Nat}

/-- `Naming::RemoveNode`; whether `Erase` works is the server's answer. -/
def removeNode (w : World) (erased : Bool) : Bool × World :=
  if w.object.actualPath = [] then (true, w)
  else if !erased then (false, w)
  else
    (true, { w with
      object := { w.object with actualPath := [] }
      nodes := w.nodes.erase w.object.actualPath })

/-- A node is made, and its path is kept. -/
def World.created (w : World) (node : Text) : World :=
  { w with
    object := { w.object with actualPath := node }
    nodes := w.nodes ++ [node] }

/-- `Naming::CreateNode`. -/
def createNode (w : World) (namingPath identity : Text) (reply : Reply) : Bool × World :=
  if w.object.actualPath ≠ [] then (true, w)
  else
    match reply with
    | .made n => (true, w.created (nodePath namingPath identity n))
    | .lost n => (false, { w with nodes := w.nodes ++ [nodePath namingPath identity n] })
    | .refused => (false, w)

/-- `Naming::Get`; there is a map to fill. -/
def get (w : World) : OrderedMap Int Text := w.object.naming

/-- `Naming::Shutdown`. -/
def shutdown (w : World) (erased : Bool) : World :=
  if w.object.zk = none then w
  else
    let stopped : World :=
      { w with object := { w.object with zkt := shutdownTracker w.object.zkt } }
    let removed := (removeNode stopped erased).2
    { removed with
      object := { removed.object with actualPath := [], path := [], zk := none, cb := none } }

/-- `Naming::OnError`. -/
def onError (w : World) (erased : Bool) (path : Option Text) : World :=
  let removed := (removeNode w erased).2
  { removed with calls := removed.calls ++ (w.object.cb.map (.onError · path)).toList }

/-- `Naming::OnChildren`. -/
def onChildrenOf (w : World) (path : Option Text) (children : Option (List Text)) : World :=
  if (path.bind List.head?) ≠ some '/' then w
  else
    let naming := onChildren w.object.naming path children
    { w with
      object := { w.object with naming := naming }
      calls := w.calls ++ (w.object.cb.map (.onChanged · naming)).toList }

/-- The object as its tracker's callback. -/
def this : Nat := 0

/-- `Naming::DoWatch`. -/
def doWatch (w : World) (zk : Nat) (r : Request) (issue : Issue) : Bool × World :=
  let i := initializeTracker w.object.zkt r.session
  if !i.1 then (false, w)
  else
    let t := FlinterZooKeeper.track issue i.2 (some (cString r.namingPath)) false true false
      (some this)
    if !t.1 then
      (false, { w with object := { w.object with zkt := shutdownTracker t.2 } })
    else
      (true, { w with
        object := { w.object with zkt := t.2, path := r.namingPath, cb := r.cb, zk := some zk } })

/-- The client, unless the arguments are refused. -/
def admitted (r : Request) : Option Nat :=
  if r.namingPath.length < 2 ∨ r.namingPath.head? ≠ some '/' ∨
      r.namingPath.getLast? = some '/' then none
  else r.zk

/-- `Naming::Watch`. -/
def watch (w : World) (r : Request) (issue : Issue) : Bool × World :=
  match admitted r with
  | none => (false, w)
  | some zk => if w.object.zk ≠ none then (false, w) else doWatch w zk r issue

/-- `Naming::Attend`. -/
def attend (w : World) (r : Request) (identity : Text) (reply : Reply) (issue : Issue) :
    Bool × World :=
  match admitted r with
  | none => (false, w)
  | some zk =>
    if identity = [] then (false, w)
    else if w.object.zk ≠ none then (false, w)
    else
      let c := createNode w r.namingPath identity reply
      if !c.1 then (false, c.2) else doWatch c.2 zk r issue

-- ── The system ───────────────────────────────────────────────────────────────

inductive Action where
  | watch (r : Request) (issue : Issue)
  | attend (r : Request) (identity : Text) (reply : Reply) (issue : Issue)
  | shutdown (erased : Bool)
  | onError (erased : Bool) (path : Option Text)
  | onChildren (path : Option Text) (children : Option (List Text))
  | tracker (issue : Issue) (a : FlinterZooKeeper.Action)
  | server (nodes : List Text)

/-- What a tracker does by itself, not called by anybody. -/
def unasked : FlinterZooKeeper.Action → Bool
  | .track _ _ _ _ _ => false
  | .trackExisting _ _ _ _ => false
  | .cancel _ _ => false
  | _ => true

/-- One call, something of the tracker's, or a change that others make on the
    server.  `RemoveNode` without a client is no step, nor is a call of the user
    with NULL for a string. -/
def next (w : World) : Action → Option World
  | .watch r issue => some (watch w r issue).2
  | .attend r identity reply issue => some (attend w r identity reply issue).2
  | .shutdown erased => some (shutdown w erased)
  | .onError erased path =>
    if w.object.actualPath ≠ [] ∧ w.object.zk = none then none
    else if w.object.cb ≠ none ∧ path = none then none
    else some (onError w erased path)
  | .onChildren path children => some (onChildrenOf w path children)
  | .tracker issue a =>
    if w.object.zkt.zk ∧ unasked a then
      (FlinterZooKeeper.next issue w.object.zkt a).map fun zkt =>
        { w with object := { w.object with zkt := zkt } }
    else none
  | .server nodes => some { w with nodes := nodes }

/-- `Naming::Naming`, before a server with these nodes. -/
def World.start (nodes : List Text) : World :=
  ⟨⟨none, none, off, [], [], .empty⟩, nodes, []⟩

/-- Any order of calls and answers. -/
def namings : System World Action where
  init := fun w => ∃ nodes, w = .start nodes
  step := fun w a w' => next w a = some w'

-- ── What a failure changes ───────────────────────────────────────────────────

/-- The tracker has a client while the object has, and nothing otherwise. -/
def Paired (w : World) : Prop :=
  (w.object.zk = none → w.object.zkt = off) ∧ (w.object.zk ≠ none → w.object.zkt.zk = true)

/-- The children of the path can be asked for. -/
def Watchable (session : Int) (issue : Issue) : Prop :=
  session = FlinterZooKeeper.ZOO_CONNECTED_STATE ∧
    issue .getChildren = FlinterZooKeeper.ZOK

/-- The arguments are good, and the object is free. -/
def Goes (w : World) (r : Request) (identity : Text) : Prop :=
  admitted r ≠ none ∧ identity ≠ [] ∧ w.object.zk = none

/-- A node is made and not kept track of: its path is lost, or the path it is
    under cannot be watched. -/
def Strays (w : World) (r : Request) (identity : Text) (reply : Reply) (issue : Issue) :
    Prop :=
  Goes w r identity ∧ w.object.actualPath = [] ∧
    ∃ n, reply = .lost n ∨ reply = .made n ∧ ¬Watchable r.session issue

/-- A naming path that is admitted is absolute, as a C string too. -/
theorem absolute_of_admitted (h : admitted r ≠ none) :
    FlinterZooKeeper.absolute (some (cString r.namingPath)) =
      some (cString r.namingPath) := by
  rw [admitted] at h
  split at h
  · exact absurd rfl h
  next hgood =>
    rw [not_or, not_or, not_not] at hgood
    obtain ⟨rest, hpath⟩ : ∃ rest, r.namingPath = '/' :: rest :=
      List.head?_eq_some_iff.mp hgood.2.1
    refine Option.filter_eq_some_iff.mpr ⟨rfl, decide_eq_true ?_⟩
    rw [hpath, cString, List.takeWhile_cons_of_pos (by decide)]
    rfl

/-- `Track` works if and only if the children can be asked for. -/
theorem track_initialized (h : admitted r ≠ none) :
    (FlinterZooKeeper.track issue (initializeTracker off r.session).2
      (some (cString r.namingPath)) false true false (some this)).1 = true ↔
        Watchable r.session issue := by
  have habsolute := absolute_of_admitted h
  generalize cString r.namingPath = p at habsolute ⊢
  have hneed : ∀ kind, FlinterZooKeeper.need
      ((initializeTracker off r.session).2.insert p ⟨this, false, true, false, false⟩).tracks
        p false kind =
      FlinterZooKeeper.Tracker.wants ⟨this, false, true, false, false⟩ kind := by
    intro kind
    simp [FlinterZooKeeper.need, FlinterZooKeeper.equalRange, FlinterZooKeeper.World.insert,
      initializeTracker, off]
  have hexamine : FlinterZooKeeper.examine (initializeTracker off r.session).2 (some p) false
      true false false (some this) = .insert p ⟨this, false, true, false, false⟩ := by
    rw [FlinterZooKeeper.examine.eq_def, habsolute]
    rfl
  have hasked : (FlinterZooKeeper.Request.getChildren, p) ∉ off.asked := Finset.notMem_empty _
  rw [FlinterZooKeeper.track, FlinterZooKeeper.doTrack, hexamine]
  refine FlinterZooKeeper.register_ok_iff.trans
    ((FlinterZooKeeper.processNolock_children_ok_iff (hneed .data) (hneed .children)).trans ?_)
  exact and_congr (and_iff_right rfl) (or_iff_right hasked)

/-- A tracker without a client takes one. -/
theorem initialize_off {session : Int} : ¬(!(initializeTracker off session).1) = true :=
  Bool.false_ne_true

/-- A watch that is set up. -/
theorem doWatch_watchable (zk : Nat) (hoff : w.object.zkt = off) (h : admitted r ≠ none)
    (hwatchable : Watchable r.session issue) :
    (doWatch w zk r issue).1 = true ∧ (doWatch w zk r issue).2.object.zk = some zk ∧
      (doWatch w zk r issue).2.object.zkt.zk = true ∧
      (doWatch w zk r issue).2.nodes = w.nodes ∧
      (doWatch w zk r issue).2.object.actualPath = w.object.actualPath := by
  have htracked := (track_initialized h).mpr hwatchable
  have hzk : (FlinterZooKeeper.track issue (initializeTracker off r.session).2
      (some (cString r.namingPath)) false true false (some this)).2.zk = true :=
    FlinterZooKeeper.zk_doTrack
  rw [doWatch, hoff, if_neg initialize_off,
    if_neg (by rw [htracked]; decide)]
  exact ⟨rfl, rfl, hzk, rfl, rfl⟩

/-- A watch that is not: the tracker is as it was. -/
theorem doWatch_unwatchable {zk : Nat} (hoff : w.object.zkt = off) (h : admitted r ≠ none)
    (hwatchable : ¬Watchable r.session issue) : doWatch w zk r issue = (false, w) := by
  have htracked := Bool.eq_false_iff.mpr (mt (track_initialized h).mp hwatchable)
  have hzk : (FlinterZooKeeper.track issue (initializeTracker off r.session).2
      (some (cString r.namingPath)) false true false (some this)).2.zk = true :=
    FlinterZooKeeper.zk_doTrack
  rw [doWatch, hoff, if_neg initialize_off,
    if_pos (by rw [htracked]; decide), shutdownTracker, if_pos hzk, ← hoff]

/-- `Watch` refuses, or goes on to set the watch up. -/
theorem watch_cases (w : World) (r : Request) (issue : Issue) :
    watch w r issue = (false, w) ∨
      admitted r ≠ none ∧ w.object.zk = none ∧ ∃ zk, watch w r issue = doWatch w zk r issue := by
  rw [watch]
  cases ha : admitted r with
  | none => exact .inl rfl
  | some zk =>
      dsimp only
      split
      next hbusy => exact .inl rfl
      next hfree => exact .inr ⟨Option.some_ne_none zk, not_not.mp hfree, zk, rfl⟩

/-- **A WATCH THAT FAILS** changes nothing. -/
theorem watch_failed (hp : Paired w) (h : (watch w r issue).1 = false) :
    (watch w r issue).2 = w := by
  rcases watch_cases w r issue with heq | ⟨hadmitted, hfree, zk, heq⟩
  · rw [heq]
  · rw [heq] at h ⊢
    by_cases hw : Watchable r.session issue
    · have htrue := (doWatch_watchable zk (hp.1 hfree) hadmitted hw).1
      exact absurd (h.symm.trans htrue) Bool.false_ne_true
    · rw [doWatch_unwatchable (hp.1 hfree) hadmitted hw]

theorem watch_succeeded (hp : Paired w) (h : (watch w r issue).1 = true) :
    (watch w r issue).2.object.zk ≠ none ∧ (watch w r issue).2.object.zkt.zk = true := by
  rcases watch_cases w r issue with heq | ⟨hadmitted, hfree, zk, heq⟩
  · rw [heq] at h
    exact absurd h Bool.false_ne_true
  · rw [heq] at h ⊢
    by_cases hw : Watchable r.session issue
    · obtain ⟨-, hzk, hzkt, -⟩ := doWatch_watchable zk (hp.1 hfree) hadmitted hw
      exact ⟨hzk ▸ Option.some_ne_none zk, hzkt⟩
    · rw [doWatch_unwatchable (hp.1 hfree) hadmitted hw] at h
      exact absurd h Bool.false_ne_true

theorem attend_refused (h : ¬Goes w r identity) :
    attend w r identity reply issue = (false, w) := by
  rw [attend]
  cases ha : admitted r with
  | none => rfl
  | some zk =>
      dsimp only
      split
      next hempty => rfl
      next hidentity =>
      split
      next hbusy => rfl
      next hfree =>
        exact absurd ⟨ha ▸ Option.some_ne_none zk, hidentity, not_not.mp hfree⟩ h

/-- An `Attend` that is not refused makes its node and sets up the watch. -/
theorem attend_goes (reply : Reply) (issue : Issue) (h : Goes w r identity) :
    ∃ zk, attend w r identity reply issue =
      if (createNode w r.namingPath identity reply).1 = true then
        doWatch (createNode w r.namingPath identity reply).2 zk r issue
      else (false, (createNode w r.namingPath identity reply).2) := by
  obtain ⟨hadmitted, hidentity, hfree⟩ := h
  obtain ⟨zk, ha⟩ := Option.ne_none_iff_exists'.mp hadmitted
  refine ⟨zk, ?_⟩
  rw [attend, ha]
  dsimp only
  rw [if_neg hidentity, if_neg (not_not.mpr hfree)]
  cases (createNode w r.namingPath identity reply).1 <;> rfl

/-- What `CreateNode` comes to: there is a node, it makes one and keeps its path,
    it makes one and does not, or it makes none. -/
theorem createNode_cases (w : World) (path identity : Text) (reply : Reply) :
    (w.object.actualPath ≠ [] ∧ createNode w path identity reply = (true, w)) ∨
      w.object.actualPath = [] ∧
        ((∃ n, reply = .made n ∧ createNode w path identity reply =
            (true, w.created (nodePath path identity n))) ∨
          (∃ n, reply = .lost n ∧ createNode w path identity reply =
            (false, { w with nodes := w.nodes ++ [nodePath path identity n] })) ∨
          (reply = .refused ∧ createNode w path identity reply = (false, w))) := by
  rw [createNode.eq_def]
  by_cases hactual : w.object.actualPath = []
  · rw [if_neg (not_not.mpr hactual)]
    refine .inr ⟨hactual, ?_⟩
    cases reply with
    | made n => exact .inl ⟨n, rfl, rfl⟩
    | lost n => exact .inr (.inl ⟨n, rfl, rfl⟩)
    | refused => exact .inr (.inr ⟨rfl, rfl⟩)
  · rw [if_pos hactual]
    exact .inl ⟨hactual, rfl⟩

/-- **AN ATTENDANCE THAT FAILS** changes nothing, or leaves a node behind. -/
theorem attend_failed (hp : Paired w) (h : (attend w r identity reply issue).1 = false) :
    ¬Strays w r identity reply issue ∧ (attend w r identity reply issue).2 = w ∨
      Strays w r identity reply issue ∧ w.object.zk = none ∧
        (attend w r identity reply issue).2.object.zk = none ∧
        (attend w r identity reply issue).2.object.zkt = w.object.zkt ∧
        ∃ n, (attend w r identity reply issue).2.nodes =
          w.nodes ++ [nodePath r.namingPath identity n] := by
  by_cases hgoes : Goes w r identity
  · obtain ⟨zk, heq⟩ := attend_goes reply issue hgoes
    obtain ⟨hadmitted, -, hfree⟩ := id hgoes
    have hoff := hp.1 hfree
    -- the watch of a call that fails is not set up
    have hunwatchable : ∀ w' : World, w'.object.zkt = off →
        (doWatch w' zk r issue).1 = false → ¬Watchable r.session issue := by
      intro w' hoff' hfail hw
      rw [(doWatch_watchable zk hoff' hadmitted hw).1] at hfail
      exact Bool.false_ne_true hfail.symm
    rw [heq] at h ⊢
    rcases createNode_cases w r.namingPath identity reply with
      ⟨hactual, hc⟩ | ⟨hactual, ⟨n, rfl, hc⟩ | ⟨n, rfl, hc⟩ | ⟨rfl, hc⟩⟩
    · rw [hc, if_pos rfl] at h ⊢
      rw [doWatch_unwatchable hoff hadmitted (hunwatchable w hoff h)]
      exact .inl ⟨fun hs => hactual hs.2.1, rfl⟩
    · rw [hc, if_pos rfl] at h ⊢
      have hoff' : (w.created (nodePath r.namingPath identity n)).object.zkt = off := hoff
      have hw := hunwatchable _ hoff' h
      rw [doWatch_unwatchable hoff' hadmitted hw]
      exact .inr ⟨⟨hgoes, hactual, n, .inr ⟨rfl, hw⟩⟩, hfree, hfree, rfl, n, rfl⟩
    · rw [hc, if_neg Bool.false_ne_true]
      exact .inr ⟨⟨hgoes, hactual, n, .inl rfl⟩, hfree, hfree, rfl, n, rfl⟩
    · rw [hc, if_neg Bool.false_ne_true]
      refine .inl ⟨?_, rfl⟩
      rintro ⟨-, -, n, hn | ⟨hn, -⟩⟩ <;> cases hn
  · rw [attend_refused hgoes]
    exact .inl ⟨fun hs => hgoes hs.1, rfl⟩

/-- What succeeds sets `_zk`. -/
theorem attend_succeeded (hp : Paired w) (h : (attend w r identity reply issue).1 = true) :
    w.object.zk = none ∧ (attend w r identity reply issue).2.object.zk ≠ none ∧
      (attend w r identity reply issue).2.object.zkt.zk = true := by
  by_cases hgoes : Goes w r identity
  · obtain ⟨zk, heq⟩ := attend_goes reply issue hgoes
    obtain ⟨hadmitted, -, hfree⟩ := hgoes
    rw [heq] at h ⊢
    split at h
    next hcreated =>
      have hoff : (createNode w r.namingPath identity reply).2.object.zkt = off := by
        rcases createNode_cases w r.namingPath identity reply with
          ⟨-, hc⟩ | ⟨-, ⟨n, -, hc⟩ | ⟨n, -, hc⟩ | ⟨-, hc⟩⟩ <;> (rw [hc]; exact hp.1 hfree)
      rw [if_pos hcreated]
      by_cases hw : Watchable r.session issue
      · obtain ⟨-, hzk, hzkt, -⟩ := doWatch_watchable zk hoff hadmitted hw
        exact ⟨hfree, hzk ▸ Option.some_ne_none zk, hzkt⟩
      · rw [doWatch_unwatchable hoff hadmitted hw] at h
        exact absurd h Bool.false_ne_true
    next => exact absurd h Bool.false_ne_true
  · rw [attend_refused hgoes] at h
    exact absurd h Bool.false_ne_true

/-- **A NODE OF ITS OWN**: an object that is free and keeps no path makes the
    node it is asked for. -/
theorem attend_made (hp : Paired w) (hgoes : Goes w r identity)
    (hactual : w.object.actualPath = []) :
    (attend w r identity (.made n) issue).2.nodes =
        w.nodes ++ [nodePath r.namingPath identity n] ∧
      (attend w r identity (.made n) issue).2.object.actualPath =
        nodePath r.namingPath identity n := by
  have hoff : (w.created (nodePath r.namingPath identity n)).object.zkt = off :=
    hp.1 hgoes.2.2
  have hc : createNode w r.namingPath identity (.made n) =
      (true, w.created (nodePath r.namingPath identity n)) := by
    rw [createNode.eq_def, if_neg (not_not.mpr hactual)]
  obtain ⟨zk, heq⟩ := attend_goes (.made n) issue hgoes
  rw [heq, hc, if_pos rfl]
  by_cases hw : Watchable r.session issue
  · obtain ⟨-, -, -, hnodes, hpath⟩ := doWatch_watchable zk hoff hgoes.1 hw
    exact ⟨hnodes, hpath⟩
  · rw [doWatch_unwatchable hoff hgoes.1 hw]
    exact ⟨rfl, rfl⟩

-- ── Runs ─────────────────────────────────────────────────────────────────────

/-- What `RemoveNode` leaves alone. -/
theorem removeNode_keeps {erased : Bool} :
    (removeNode w erased).2.object.zk = w.object.zk ∧
      (removeNode w erased).2.object.zkt = w.object.zkt ∧
      (w.object.actualPath = [] → (removeNode w erased).2.object.actualPath = []) := by
  rw [removeNode]
  split
  · exact ⟨rfl, rfl, id⟩
  split
  · exact ⟨rfl, rfl, id⟩
  · exact ⟨rfl, rfl, fun _ => rfl⟩

theorem shutdown_free (erased : Bool) (hp : Paired w) (hbusy : w.object.zk ≠ none) :
    (shutdown w erased).object.zk = none ∧ (shutdown w erased).object.zkt = off ∧
      (shutdown w erased).object.actualPath = [] := by
  rw [shutdown, if_neg hbusy]
  refine ⟨rfl, ?_, rfl⟩
  refine removeNode_keeps.2.1.trans ?_
  show shutdownTracker w.object.zkt = off
  rw [shutdownTracker, if_pos (hp.2 hbusy)]

theorem Paired.next {a : Action} (hp : Paired w) (h : next w a = some w') : Paired w' := by
  -- most steps leave both sides of the pair where they are
  have hsame : w'.object.zk = w.object.zk → w'.object.zkt = w.object.zkt → Paired w' := by
    intro hzk hzkt
    rw [Paired, hzk, hzkt]
    exact hp
  cases a with
  | watch r issue =>
      obtain rfl := Option.some.inj h
      cases hok : (watch w r issue).1 with
      | false => rw [watch_failed hp hok]; exact hp
      | true =>
          obtain ⟨hzk, hzkt⟩ := watch_succeeded hp hok
          exact ⟨fun hnone => absurd hnone hzk, fun _ => hzkt⟩
  | attend r identity reply issue =>
      obtain rfl := Option.some.inj h
      cases hok : (attend w r identity reply issue).1 with
      | false =>
          rcases attend_failed hp hok with ⟨-, heq⟩ | ⟨-, hfree, hfree', hzkt, -⟩
          · rw [heq]; exact hp
          · exact hsame (hfree'.trans hfree.symm) hzkt
      | true =>
          obtain ⟨-, hzk, hzkt⟩ := attend_succeeded hp hok
          exact ⟨fun hnone => absurd hnone hzk, fun _ => hzkt⟩
  | shutdown erased =>
      obtain rfl := Option.some.inj h
      by_cases hfree : w.object.zk = none
      · rw [shutdown, if_pos hfree]; exact hp
      · obtain ⟨hzk, hzkt, -⟩ := shutdown_free erased hp hfree
        exact ⟨fun _ => hzkt, fun hne => absurd hzk hne⟩
  | onError erased path =>
      obtain ⟨-, h⟩ := Option.ite_none_left_eq_some.mp h
      obtain ⟨-, h⟩ := Option.ite_none_left_eq_some.mp h
      obtain rfl := Option.some.inj h
      exact hsame removeNode_keeps.1 removeNode_keeps.2.1
  | onChildren path children =>
      obtain rfl := Option.some.inj h
      rw [onChildrenOf] at hsame ⊢
      split at hsame
      next hbad => rw [if_pos hbad]; exact hp
      next hgood => rw [if_neg hgood]; exact hsame rfl rfl
  | tracker issue a =>
      obtain ⟨⟨hzk, -⟩, h⟩ := Option.ite_none_right_eq_some.mp h
      obtain ⟨zkt, hnext, rfl⟩ := Option.map_eq_some_iff.mp h
      have hzkt : zkt.zk = true := (FlinterZooKeeper.zk_next hnext).trans hzk
      refine ⟨fun hnone => ?_, fun _ => hzkt⟩
      rw [hp.1 hnone] at hzk
      exact absurd hzk Bool.false_ne_true
  | server nodes =>
      obtain rfl := Option.some.inj h
      exact hp

theorem paired_of_reachable (h : Reachable namings w) : Paired w := by
  refine h.invariant ?_ fun w a w' _ hp hs => hp.next hs
  rintro w ⟨nodes, rfl⟩
  exact ⟨fun _ => rfl, fun hne => absurd rfl hne⟩

/-- A step that leaves no node behind. -/
def Tidy (w : World) : Action → Prop
  | .attend r identity reply issue => ¬Strays w r identity reply issue
  | _ => True

/-- An object that is free keeps no path. -/
theorem actualPath_of_free (h : Reachable (namings.restrict Tidy) w)
    (hfree : w.object.zk = none) : w.object.actualPath = [] := by
  refine h.invariant (I := fun w => w.object.zk = none → w.object.actualPath = []) ?_ ?_ hfree
  · rintro w ⟨nodes, rfl⟩ -
    rfl
  rintro w a w' hr ih ⟨htidy, hs⟩ hfree'
  have hp := paired_of_reachable hr.of_restrict
  cases a with
  | watch r issue =>
      obtain rfl := Option.some.inj hs
      cases hok : (watch w r issue).1 with
      | false =>
          rw [watch_failed hp hok] at hfree' ⊢
          exact ih hfree'
      | true => exact absurd hfree' (watch_succeeded hp hok).1
  | attend r identity reply issue =>
      obtain rfl := Option.some.inj hs
      cases hok : (attend w r identity reply issue).1 with
      | false =>
          rcases attend_failed hp hok with ⟨-, heq⟩ | ⟨hstrays, -⟩
          · rw [heq] at hfree' ⊢
            exact ih hfree'
          · exact absurd hstrays htidy
      | true => exact absurd hfree' (attend_succeeded hp hok).2.1
  | shutdown erased =>
      obtain rfl := Option.some.inj hs
      by_cases hfree : w.object.zk = none
      · rw [shutdown, if_pos hfree]
        exact ih hfree
      · exact (shutdown_free _ hp hfree).2.2
  | onError erased path =>
      obtain ⟨-, hs⟩ := Option.ite_none_left_eq_some.mp hs
      obtain ⟨-, hs⟩ := Option.ite_none_left_eq_some.mp hs
      obtain rfl := Option.some.inj hs
      exact removeNode_keeps.2.2 (ih (removeNode_keeps.1.symm.trans hfree'))
  | onChildren path children =>
      obtain rfl := Option.some.inj hs
      rw [onChildrenOf] at hfree' ⊢
      split at hfree'
      next hbad => rw [if_pos hbad]; exact ih hfree'
      next hgood => rw [if_neg hgood]; exact ih hfree'
  | tracker issue a =>
      obtain ⟨-, hs⟩ := Option.ite_none_right_eq_some.mp hs
      obtain ⟨zkt, -, rfl⟩ := Option.map_eq_some_iff.mp hs
      exact ih hfree'
  | server nodes =>
      obtain rfl := Option.some.inj hs
      exact ih hfree'

/-- **WHEN A FAILURE IS CLEAN**: an `Attend` that returns false leaves the
    server and the object as they were if and only if it makes no node that it
    does not keep track of.  In a run of such steps a later `Attend` of a free
    object makes its own node. -/
theorem attend_fails_cleanly (w : World) (r : Request) (identity : Text) (reply : Reply)
    (issue : Issue) (hfail : (attend w r identity reply issue).1 = false) :
    (Reachable namings w →
      (((attend w r identity reply issue).2.nodes = w.nodes ∧
        (attend w r identity reply issue).2.object = w.object) ↔
          ¬Strays w r identity reply issue)) ∧
    (Reachable (namings.restrict Tidy) w → ¬Strays w r identity reply issue →
      w.object.zk = none → ∀ r' identity' n issue', admitted r' ≠ none → identity' ≠ [] →
        (attend (attend w r identity reply issue).2 r' identity' (.made n) issue').2.nodes =
            w.nodes ++ [nodePath r'.namingPath identity' n] ∧
          (attend (attend w r identity reply issue).2 r' identity' (.made n)
            issue').2.object.actualPath = nodePath r'.namingPath identity' n) := by
  constructor
  · intro hr
    rcases attend_failed (paired_of_reachable hr) hfail with
      ⟨hclean, heq⟩ | ⟨hstrays, -, -, -, n, hnodes⟩
    · rw [heq]
      exact iff_of_true ⟨rfl, rfl⟩ hclean
    · refine iff_of_false (fun hsame => ?_) (not_not.mpr hstrays)
      have hlen := congrArg List.length (hnodes.symm.trans hsame.1)
      rw [List.length_append, List.length_singleton] at hlen
      omega
  · intro hr hclean hfree r' identity' n issue' hadmitted hidentity
    have hp := paired_of_reachable hr.of_restrict
    rcases attend_failed hp hfail with ⟨-, heq⟩ | ⟨hstrays, -⟩
    · rw [heq]
      exact attend_made hp ⟨hadmitted, hidentity, hfree⟩ (actualPath_of_free hr hfree)
    · exact absurd hstrays hclean

/-- A connected client, and a path to attend. -/
def request : Request := ⟨some 1, FlinterZooKeeper.ZOO_CONNECTED_STATE, ['/', 'n'], none⟩

def grants : Issue := fun _ => FlinterZooKeeper.ZOK

def denies : Issue := fun _ => FlinterZooKeeper.ZINVALIDSTATE

/-- After a node that is refused the next one is made. -/
theorem attend_fails_cleanly_refused :
    (attend (attend (.start []) request ['a'] .refused grants).2 request ['b'] (.made 1)
      grants).2.nodes = [nodePath ['/', 'n'] ['b'] 1] :=
  ((attend_fails_cleanly (.start []) request ['a'] .refused grants (by decide)).2
    (.start ⟨[], rfl⟩) (by rintro ⟨-, -, n, hn | ⟨hn, -⟩⟩ <;> cases hn) rfl request ['b'] 1
    grants (by decide) (by decide)).1

/-- **A NODE LEFT BEHIND**: the path cannot be watched once the node is there.
    The node stays, and what attends next is given it for its own. -/
theorem attend_leaves_node :
    Reachable namings (.start []) ∧
      (attend (.start []) request ['a'] (.made 0) denies).1 = false ∧
      (attend (.start []) request ['a'] (.made 0) denies).2.nodes =
        [nodePath ['/', 'n'] ['a'] 0] ∧
      (attend (attend (.start []) request ['a'] (.made 0) denies).2 request ['b'] (.made 1)
        grants).1 = true ∧
      (attend (attend (.start []) request ['a'] (.made 0) denies).2 request ['b'] (.made 1)
        grants).2.nodes = [nodePath ['/', 'n'] ['a'] 0] :=
  ⟨.start ⟨[], rfl⟩, by decide, by decide, by decide, by decide⟩

end FlinterNaming
