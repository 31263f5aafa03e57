import Flinter.CouncilAttendProofs

/-! # Council: notifications that come late

    The tracker copies whom to call under its own lock and calls without it, so
    a call may get `_mutex` behind a `Shutdown` that was not there when it was
    dispatched.  Then the path, the ZooKeeper and the callback are gone, or
    those of another `Initialize` are there.

    A call does nothing when its handler has nothing to do in the state it finds
    (`Ignores`), and the handlers look for no more than that: nodes' data are
    dropped by a stopped instance, but a missing node makes it attend, without a
    ZooKeeper, and an error fires it, without a path (`late_calls`,
    `late_error_asserts`). -/

namespace FlinterCouncil

open Runs

-- ── Calls on their way ───────────────────────────────────────────────────────

/-- A call of the tracker. -/
inductive Call where
  | onData (path : Text) (data : Option Text)
  | onError (expired : Bool)
deriving DecidableEq, Repr

/-- One that is on its way.  It is `late` (ghost) once the instance has been
    shut down behind it. -/
structure Dispatch where
  call : Call
  late : Bool
deriving DecidableEq, Repr

/-- An instance, what is on its way to it, and `_error_has_broadcasted` of its
    tracker, which an `OnError` that is not over `clears` at its end.
    `disturbed` (ghost): a late call has done something. -/
structure Delivery where
  council : Council
  inFlight : List Dispatch
  broadcasted : Bool
  clears : Bool
  disturbed : Bool
deriving DecidableEq, Repr

/-- `Council::OnData` or `Council::OnError`. -/
def Council.receive (c : Council) (call : Call) (hostname : Option Text) :
    Council :=
  match call with
  | .onData path data => c.onData path data hostname
  | .onError expired => c.onError expired

def Call.isError : Call → Bool
  | .onData _ _ => false
  | .onError _ => true

/-- `ZooKeeperTracker::ClearErrorState`, by an `OnError` that is over. -/
def Delivery.settle (d : Delivery) : Delivery :=
  if d.council.stage = .idle ∧ d.clears = true then
    { d with broadcasted := false, clears := false }
  else d

/-- A call has got `_mutex`. -/
def Delivery.receive (d : Delivery) (call : Call) (hostname : Option Text) :
    Delivery :=
  { d with
    council := d.council.receive call hostname
    clears := d.clears || call.isError }.settle

/-- What a critical section of the tracker can copy. -/
def Call.Copied (c : Council) : Call → Prop
  | .onData path _ => path ∈ c.tracks
  | .onError _ => c.tracks ≠ []

instance (c : Council) (call : Call) : Decidable (call.Copied c) := by
  cases call with
  | onData path data => exact inferInstanceAs (Decidable (path ∈ c.tracks))
  | onError expired => exact inferInstanceAs (Decidable (c.tracks ≠ []))

/-- Whether `Council::Initialize` gets as far as that of the tracker. -/
def Council.opens (c : Council) : Happening → Bool
  | .initializeOn electionPath _ _ =>
    !c.zk && decide (2 ≤ electionPath.length) &&
      electionPath.head? == some '/' && electionPath.getLast? != some '/'
  | _ => false

/-- Whether `Council::Shutdown` does anything. -/
def Council.closes (c : Council) : Happening → Bool
  | .shutdown => c.zk
  | _ => false

/-- The tracker calls; nobody else does. -/
def Happening.isCall : Happening → Bool
  | .onData _ _ _ => true
  | .onError _ => true
  | _ => false

/-- What happens among the tracker and the instance. -/
inductive Move where
  | dispatch (call : Call)
  | broadcast (expired : Bool)
  | deliver (x : Dispatch) (hostname : Option Text)
  | happen (e : Happening)

/-- One step, if it can be taken. -/
def next (d : Delivery) : Move → Option Delivery
  | .dispatch call =>
    if call.Copied d.council then
      some { d with inFlight := d.inFlight ++ [⟨call, false⟩] }
    else none
  | .broadcast expired =>
    -- `ZooKeeperTracker::Process` of a session event.
    if d.broadcasted then none
    else if d.council.tracks = [] then some { d with broadcasted := true }
    else some { d with
      broadcasted := true
      inFlight := d.inFlight ++ [⟨.onError expired, false⟩] }
  | .deliver x hostname =>
    if x ∈ d.inFlight ∧ d.council.stage = .idle then
      let taken := { d with inFlight := d.inFlight.erase x }
      let d' := taken.receive x.call hostname
      some { d' with disturbed := d.disturbed || x.late && decide (d' ≠ taken) }
    else none
  | .happen e =>
    if e.isCall then none
    else
      (happen d.council e).map fun c => Delivery.settle { d with
        council := c
        inFlight := d.inFlight.map fun x =>
          { x with late := x.late || d.council.closes e }
        broadcasted := d.broadcasted && !d.council.opens e }

/-- The runs of one instance and its tracker. -/
def delivery : System Delivery Move where
  init := fun d => ∃ name, d = ⟨.fresh name, [], false, false, false⟩
  step := fun d m d' => next d m = some d'

-- ── What is ignored ──────────────────────────────────────────────────────────

variable {c : Council} {d d' : Delivery} {hostname : Option Text}

/-- Failed already, with nobody to be told. -/
def Council.Silent (c : Council) : Prop :=
  c.electionPath ≠ [] ∧ c.cb = false ∧ c.id = -2 ∧ c.actualId = -1 ∧ c.size = -1

/-- `OnData` of the election node has nothing to do. -/
def Council.IgnoresSize (c : Council) (data hostname : Option Text) : Prop :=
  match data with
  | none => c.electionPath ≠ [] ∧ c.id = -1 ∧ c.actualId < 0
  | some data =>
    if atoi32 data ≤ 0 then c.id = -1 ∧ c.size = -1
    else c.Silent ∧ c.updateName hostname = none

/-- A call has nothing to do. -/
def Council.Ignores (c : Council) (call : Call) (hostname : Option Text) :
    Prop :=
  match call with
  | .onData path data =>
    if path.take c.electionPath.length ≠ c.electionPath then True
    else if c.electionPath = path then c.IgnoresSize data hostname
    else data ≠ none ∨ 0 ≤ c.id ∨
      path ∉ c.tracks ∧ c.Silent ∧ c.updateName hostname = none
  | .onError expired =>
    if expired then c.id = -1 ∧ c.actualId = -1 ∧ c.size = -1 else c.Silent

/-- Nor has the tracker. -/
def Delivery.Ignores (d : Delivery) (call : Call) (hostname : Option Text) :
    Prop :=
  d.council.Ignores call hostname ∧
    (call.isError = true → d.broadcasted = false)

-- ── What the handlers come to ────────────────────────────────────────────────

theorem doLostClean_false_eq : c.doLostClean false = { c with
    id := -2, size := -1, actualId := -1
    called := c.called ++ if c.cb then [.onFired false] else [] } := by
  cases hcb : c.cb with
  | false => simp [Council.doLostClean, Council.resetState, hcb]
  | true => simp [Council.doLostClean, Council.resetState, hcb]

theorem doLostClean_true_eq : c.doLostClean true = { c with
    id := -1
    called := c.called ++
      if decide (0 ≤ c.id) && c.cb then [.onFired true] else [] } := by
  cases hcb : c.cb with
  | false => simp [Council.doLostClean, Council.resetState, hcb]
  | true =>
      by_cases hid : 0 ≤ c.id
      · simp [Council.doLostClean, Council.resetState, hcb, hid]
      · simp [Council.doLostClean, Council.resetState, hcb, hid]

/-- Without a node to be erased, an instance is fired at once. -/
theorem onFired_eq (hnode : c.actualId < 0) (recoverable : Bool) :
    c.onFired recoverable = { Council.doLostClean
        { c with violated := c.violated || c.electionPath.isEmpty }
        recoverable with stage := .idle } := by
  rw [Council.onFired, Council.doQuitClean, if_neg (Int.not_le.mpr hnode)]
  exact if_neg Bool.false_ne_true

/-- With one, it waits for the `Erase`. -/
theorem onFired_stage (hnode : 0 ≤ c.actualId) (recoverable : Bool) :
    (c.onFired recoverable).stage ≠ .idle := by
  rw [Council.onFired, Council.doQuitClean, if_pos hnode]
  exact Stage.noConfusion

/-- An `Attend` without a name comes to two failures. -/
theorem attend_nameless (hnode : c.actualId < 0)
    (hname : c.updateName hostname = none) : c.attend hostname = { c with
      violated := c.violated || c.electionPath.isEmpty
      id := -2, size := -1, actualId := -1, stage := .idle
      called := c.called ++ ((if c.cb then [.onFired false] else []) ++
        if c.cb then [.onFired false] else []) } := by
  rw [Council.attend, if_neg (Int.not_le.mpr hnode), hname]
  show (c.onFired false).onFired false = _
  have hneg : (-1 : Int) < 0 := by decide
  rw [onFired_eq hnode, doLostClean_false_eq, onFired_eq hneg,
    doLostClean_false_eq]
  simp

/-- Every other `Attend` waits for a call. -/
theorem attend_stage (hidle : (c.attend hostname).stage = .idle) :
    c.actualId < 0 ∧ c.updateName hostname = none := by
  rw [Council.attend] at hidle
  split at hidle
  · cases hidle
  next hnode =>
    refine ⟨Int.not_le.mp hnode, ?_⟩
    cases hname : c.updateName hostname with
    | none => rfl
    | some nodeName =>
        rw [hname] at hidle
        cases hidle

-- ── What shows ───────────────────────────────────────────────────────────────

theorem ite_eq_nil {x : Notice} {told : Bool}
    (h : (if told then [x] else []) = []) : told = false := by
  cases told with
  | false => rfl
  | true => exact absurd h (List.cons_ne_nil _ _)

theorem isEmpty_eq_false {path : Text} (h : path ≠ []) : path.isEmpty = false :=
  Bool.eq_false_iff.mpr fun he => h (List.isEmpty_iff.mp he)

/-- A silent instance fails again, and nobody notices. -/
theorem Council.Silent.onFired (h : c.Silent) (hidle : c.stage = .idle) :
    c.onFired false = c := by
  obtain ⟨hpath, hcb, hid, hnode, hsize⟩ := h
  rw [onFired_eq (by rw [hnode]; decide), doLostClean_false_eq,
    isEmpty_eq_false hpath, hcb, Bool.or_false]
  obtain ⟨⟩ := c
  simp_all

/-- Any other failure shows, if no assertion has failed before. -/
theorem silent_of_onFired (hidle : c.stage = .idle) (hkept : c.violated = false)
    (heq : c.onFired false = c) : c.Silent := by
  have hnode : c.actualId < 0 := by
    by_contra hnode
    have hstage := onFired_stage (Int.not_lt.mp hnode) false
    rw [heq] at hstage
    exact hstage hidle
  rw [onFired_eq hnode, doLostClean_false_eq] at heq
  have hpath := congrArg Council.violated heq
  have hid := congrArg Council.id heq
  have hsize := congrArg Council.size heq
  have hactual := congrArg Council.actualId heq
  have hcb : c.cb = false :=
    ite_eq_nil (List.append_right_eq_self.mp (congrArg Council.called heq))
  refine ⟨fun he => ?_, hcb, hid.symm, hactual.symm, hsize.symm⟩
  rw [hkept, he] at hpath
  cases hpath

/-- The election node is missing, and there is nothing to lose. -/
theorem onFired_of_waiting (hidle : c.stage = .idle)
    (h : c.electionPath ≠ [] ∧ c.id = -1 ∧ c.actualId < 0) :
    c.onFired true = c := by
  obtain ⟨hpath, hid, hnode⟩ := h
  rw [onFired_eq hnode, doLostClean_true_eq, isEmpty_eq_false hpath,
    Bool.or_false]
  obtain ⟨⟩ := c
  simp_all

theorem waiting_of_onFired (hidle : c.stage = .idle)
    (hkept : c.violated = false) (heq : c.onFired true = c) :
    c.electionPath ≠ [] ∧ c.id = -1 ∧ c.actualId < 0 := by
  have hnode : c.actualId < 0 := by
    by_contra hnode
    have hstage := onFired_stage (Int.not_lt.mp hnode) true
    rw [heq] at hstage
    exact hstage hidle
  rw [onFired_eq hnode, doLostClean_true_eq] at heq
  have hpath := congrArg Council.violated heq
  have hid := congrArg Council.id heq
  refine ⟨fun he => ?_, hid.symm, hnode⟩
  rw [hkept, he] at hpath
  cases hpath

/-- An invalid size shows unless there was none. -/
theorem onShrinked_iff (hidle : c.stage = .idle) :
    ({ c with size := -1 } : Council).onShrinked true = c ↔
      c.id = -1 ∧ c.size = -1 := by
  rw [Council.onShrinked, doLostClean_true_eq]
  constructor
  · intro heq
    exact ⟨(congrArg Council.id heq).symm, (congrArg Council.size heq).symm⟩
  · rintro ⟨hid, hsize⟩
    obtain ⟨⟩ := c
    simp_all

/-- A lost session shows unless there was nothing to lose. -/
theorem onLost_iff (hidle : c.stage = .idle) :
    c.onLost = c ↔ c.id = -1 ∧ c.actualId = -1 ∧ c.size = -1 := by
  rw [Council.onLost, doLostClean_true_eq]
  constructor
  · intro heq
    exact ⟨(congrArg Council.id heq).symm, (congrArg Council.actualId heq).symm,
      (congrArg Council.size heq).symm⟩
  · rintro ⟨hid, hnode, hsize⟩
    obtain ⟨⟩ := c
    simp_all

/-- A silent instance without a name attends, and nobody notices. -/
theorem Council.Silent.attend {size : Int} (h : c.Silent)
    (hidle : c.stage = .idle) (hnone : c.updateName hostname = none) :
    ({ c with size := size } : Council).attend hostname = c := by
  obtain ⟨hne, hquiet, hid, hactual, hsize⟩ := h
  have hnode : c.actualId < 0 := by rw [hactual]; decide
  rw [attend_nameless (c := { c with size := size }) hnode hnone,
    isEmpty_eq_false hne, hquiet, Bool.or_false]
  obtain ⟨⟩ := c
  simp_all

/-- Any other `Attend` shows, with another size or with other nodes tracked. -/
theorem silent_of_attend {size : Int} {tracks : List Text}
    (hidle : c.stage = .idle) (hkept : c.violated = false)
    (heq : Council.attend { c with size := size, tracks := tracks } hostname =
      c) : tracks = c.tracks ∧ c.Silent ∧ c.updateName hostname = none := by
  obtain ⟨hneg, hnone⟩ := attend_stage (by rw [heq]; exact hidle)
  rw [attend_nameless hneg hnone] at heq
  have hfails := congrArg Council.violated heq
  have hid := congrArg Council.id heq
  have hsize := congrArg Council.size heq
  have hactual := congrArg Council.actualId heq
  have htold := List.append_right_eq_self.mp (congrArg Council.called heq)
  refine ⟨congrArg Council.tracks heq,
    ⟨fun he => ?_, ?_, hid.symm, hactual.symm, hsize.symm⟩, hnone⟩
  · dsimp only at hfails
    rw [hkept, he] at hfails
    cases hfails
  · exact ite_eq_nil (List.append_eq_nil_iff.mp htold).1

theorem filter_ne_eq_self {path : Text} {paths : List Text} :
    paths.filter (· ≠ path) = paths ↔ path ∉ paths := by
  rw [List.filter_eq_self]
  constructor
  · intro h hmem
    exact absurd (h path hmem) (by simp)
  · intro h p hp
    exact decide_eq_true fun heq => h (heq ▸ hp)

/-- **NOTHING TO DO**: what is ignored leaves the instance as it was. -/
theorem receive_of_ignores (hidle : c.stage = .idle) {call : Call}
    (h : c.Ignores call hostname) : c.receive call hostname = c := by
  cases call with
  | onError expired =>
      cases expired with
      | true => exact (onLost_iff hidle).mpr h
      | false => exact Council.Silent.onFired h hidle
  | onData path data =>
      show c.onData path data hostname = c
      rw [Council.onData.eq_def]
      rw [Council.Ignores] at h
      split
      · rfl
      next hprefix =>
      rw [if_neg hprefix] at h
      split
      next hpath =>
        rw [if_pos hpath] at h
        cases data with
        | none => exact onFired_of_waiting hidle h
        | some data =>
            dsimp only [Council.IgnoresSize] at h ⊢
            split
            next hsize =>
              rw [if_pos hsize] at h
              exact (onShrinked_iff hidle).mpr h
            next hsize =>
              rw [if_neg hsize] at h
              exact h.1.attend hidle h.2
      next hpath =>
        rw [if_neg hpath] at h
        split
        · rfl
        split
        · rfl
        next hdata hid =>
          obtain ⟨hmem, hsilent, hnone⟩ :=
            (h.resolve_left (by simpa using hdata)).resolve_left hid
          rw [filter_ne_eq_self.mpr hmem]
          exact hsilent.attend hidle hnone

/-- **SOMETHING TO DO**: anything else shows. -/
theorem ignores_of_receive (hidle : c.stage = .idle)
    (hkept : c.violated = false) {call : Call}
    (heq : c.receive call hostname = c) : c.Ignores call hostname := by
  cases call with
  | onError expired =>
      cases expired with
      | true => exact (onLost_iff hidle).mp heq
      | false => exact silent_of_onFired hidle hkept heq
  | onData path data =>
      have heq : c.onData path data hostname = c := heq
      rw [Council.onData.eq_def] at heq
      rw [Council.Ignores]
      split
      · trivial
      next hprefix =>
      rw [if_neg hprefix] at heq
      split
      next hpath =>
        rw [if_pos hpath] at heq
        cases data with
        | none => exact waiting_of_onFired hidle hkept heq
        | some data =>
            dsimp only [Council.IgnoresSize] at heq ⊢
            split
            next hsize =>
              rw [if_pos hsize] at heq
              exact (onShrinked_iff hidle).mp heq
            next hsize =>
              rw [if_neg hsize] at heq
              exact (silent_of_attend hidle hkept heq).2
      next hpath =>
        rw [if_neg hpath] at heq
        by_cases hdata : data ≠ none
        · exact Or.inl hdata
        by_cases hid : 0 ≤ c.id
        · exact Or.inr (Or.inl hid)
        rw [if_neg (by simpa using hdata), if_neg hid] at heq
        have hsilent := silent_of_attend hidle hkept heq
        rw [filter_ne_eq_self] at hsilent
        exact Or.inr (Or.inr hsilent)

-- ── The runs ─────────────────────────────────────────────────────────────────

/-- No `OnError` is over that has not cleared. -/
def Delivery.Settled (d : Delivery) : Prop :=
  d.council.stage = .idle → d.clears = false

theorem settled_settle (d : Delivery) : d.settle.Settled := by
  intro hidle
  rw [Delivery.settle] at hidle ⊢
  split
  · rfl
  next hopen =>
    rw [if_neg hopen] at hidle
    exact Bool.eq_false_iff.mpr fun hclears => hopen ⟨hidle, hclears⟩

theorem settle_eq_self (h : d.clears = false) : d.settle = d := by
  rw [Delivery.settle, if_neg]
  rintro ⟨-, hclears⟩
  rw [h] at hclears
  cases hclears

/-- One step leaves nothing to clear. -/
theorem Delivery.Settled.next (h : d.Settled) {m : Move}
    (hs : next d m = some d') : d'.Settled := by
  cases m with
  | dispatch call =>
      obtain ⟨-, ⟨⟩⟩ := Option.ite_none_right_eq_some.mp hs
      exact h
  | broadcast expired =>
      obtain ⟨-, hs⟩ := Option.ite_none_left_eq_some.mp hs
      split at hs
      · obtain rfl := Option.some.inj hs
        exact h
      · obtain rfl := Option.some.inj hs
        exact h
  | deliver x hostname =>
      obtain ⟨-, ⟨⟩⟩ := Option.ite_none_right_eq_some.mp hs
      exact settled_settle _
  | happen e =>
      obtain ⟨-, hs⟩ := Option.ite_none_left_eq_some.mp hs
      obtain ⟨c, -, rfl⟩ := Option.map_eq_some_iff.mp hs
      exact settled_settle _

theorem settled_of_reachable (h : Reachable delivery d) : d.Settled := by
  refine h.invariant ?_ ?_
  · rintro d ⟨name, rfl⟩ -
    rfl
  · rintro d m d' - hd hs
    exact hd.next hs

/-- Nor does the tracker notice. -/
theorem Delivery.Ignores.receive {call : Call} (h : d.Ignores call hostname)
    (hidle : d.council.stage = .idle) (hclears : d.clears = false) :
    d.receive call hostname = d := by
  obtain ⟨hcouncil, hbroadcasted⟩ := h
  rw [Delivery.receive, receive_of_ignores hidle hcouncil]
  cases call with
  | onData path data =>
      have hopen : (d.clears || (Call.onData path data).isError) = false := by
        rw [hclears]
        rfl
      rw [hopen, ← hclears]
      exact settle_eq_self hclears
  | onError expired =>
      rw [Delivery.settle, if_pos ⟨hidle, Bool.or_true _⟩]
      obtain ⟨⟩ := d
      simp_all [Call.isError]

theorem ignores_of_delivery_receive {call : Call}
    (hidle : d.council.stage = .idle) (hkept : d.council.violated = false)
    (heq : d.receive call hostname = d) : d.Ignores call hostname := by
  have hcouncil : d.council.receive call hostname = d.council := by
    have h := congrArg Delivery.council heq
    rw [Delivery.receive, Delivery.settle] at h
    split at h
    · exact h
    · exact h
  refine ⟨ignores_of_receive hidle hkept hcouncil, fun herror => ?_⟩
  rw [Delivery.receive, hcouncil, Delivery.settle, herror, Bool.or_true,
    if_pos ⟨hidle, rfl⟩] at heq
  exact (congrArg Delivery.broadcasted heq).symm

/-- The ghost tells nothing that the call has not done. -/
theorem receive_of_deliver {call : Call} {disturbed : Bool}
    (heq : { d.receive call hostname with disturbed := disturbed } = d) :
    d.receive call hostname = d := by
  have hghost : (d.receive call hostname).disturbed = d.disturbed := by
    rw [Delivery.receive, Delivery.settle]
    split
    · rfl
    · rfl
  have hself : { ({ d.receive call hostname with
      disturbed := disturbed } : Delivery) with
        disturbed := (d.receive call hostname).disturbed } =
      d.receive call hostname := rfl
  rw [heq, hghost] at hself
  exact hself.symm

/-- What is ignored is only taken off its way. -/
theorem deliver_of_ignores (hsettled : d.Settled) {x : Dispatch}
    (hmem : x ∈ d.inFlight) (hidle : d.council.stage = .idle)
    (h : d.Ignores x.call hostname) :
    next d (.deliver x hostname) =
      some { d with inFlight := d.inFlight.erase x } := by
  have hsame : Delivery.receive { d with inFlight := d.inFlight.erase x }
      x.call hostname = { d with inFlight := d.inFlight.erase x } :=
    Delivery.Ignores.receive h hidle (hsettled hidle)
  rw [next, if_pos ⟨hmem, hidle⟩]
  dsimp only
  rw [hsame]
  simp

/-- Once an instance has been stopped, it ignores nodes' data, and nothing else
    of what is not about its session. -/
theorem ignores_of_stopped (hpath : c.electionPath = []) (hid : c.id < 0)
    {path : Text} (hne : path ≠ []) (data : Option Text) :
    (c.Ignores (.onData path data) hostname ↔ data ≠ none) ∧
      ¬c.Ignores (.onError false) hostname := by
  have hsilent : ¬c.Silent := fun h => h.1 hpath
  constructor
  · rw [Council.Ignores, hpath]
    rw [List.length_nil, List.take_zero, if_neg (not_not.mpr rfl),
      if_neg hne.symm]
    constructor
    · rintro (hdata | hid' | ⟨-, h, -⟩)
      · exact hdata
      · exact absurd hid' (Int.not_le.mpr hid)
      · exact absurd h hsilent
    · exact Or.inl
  · exact hsilent

-- ── The runs without a disturbance ───────────────────────────────────────────

/-- Late calls are ones that are ignored. -/
def Heeds (d : Delivery) (m : Move) : Prop :=
  ∀ x hostname, m = .deliver x hostname → x.late = true →
    d.Ignores x.call hostname

theorem undisturbed (h : Reachable (delivery.restrict Heeds) d) :
    d.disturbed = false := by
  refine h.invariant (I := fun d => d.disturbed = false) ?_ ?_
  · rintro d ⟨name, rfl⟩
    rfl
  · rintro d m d' hr hd ⟨hheeds, hs⟩
    cases m with
    | dispatch call =>
        obtain ⟨-, ⟨⟩⟩ := Option.ite_none_right_eq_some.mp hs
        exact hd
    | broadcast expired =>
        obtain ⟨-, hs⟩ := Option.ite_none_left_eq_some.mp hs
        split at hs
        · obtain rfl := Option.some.inj hs
          exact hd
        · obtain rfl := Option.some.inj hs
          exact hd
    | deliver x hostname =>
        obtain ⟨⟨hmem, hidle⟩, -⟩ := Option.ite_none_right_eq_some.mp hs
        cases hlate : x.late with
        | true =>
            have hsettled := settled_of_reachable hr.of_restrict
            have hdrop := deliver_of_ignores hsettled hmem hidle
              (hheeds x hostname rfl hlate)
            obtain rfl := Option.some.inj (hdrop.symm.trans hs)
            exact hd
        | false =>
            obtain ⟨-, ⟨⟩⟩ := Option.ite_none_right_eq_some.mp hs
            show (d.disturbed || x.late && _) = false
            rw [hd, hlate]
            rfl
    | happen e =>
        obtain ⟨-, hs⟩ := Option.ite_none_left_eq_some.mp hs
        obtain ⟨c, -, rfl⟩ := Option.map_eq_some_iff.mp hs
        rw [Delivery.settle]
        split
        · exact hd
        · exact hd

/-- **NOTIFICATIONS IN FLIGHT**: while all late calls are ones that are ignored,
    none of them does anything; and in every state of every run in which no
    assertion has failed, a late call does nothing but leave its way if and only
    if it is ignored. -/
theorem late_calls (h : Reachable delivery d) :
    (Reachable (delivery.restrict Heeds) d → d.disturbed = false) ∧
    (d.council.violated = false → d.council.stage = .idle →
      ∀ x ∈ d.inFlight, x.late = true → ∀ hostname,
        (next d (.deliver x hostname) =
            some { d with inFlight := d.inFlight.erase x } ↔
          d.Ignores x.call hostname)) := by
  refine ⟨undisturbed, fun hkept hidle x hmem _ hostname => ?_⟩
  have hsettled := settled_of_reachable h
  constructor
  · intro heq
    rw [next, if_pos ⟨hmem, hidle⟩] at heq
    have hsame := receive_of_deliver (Option.some.inj heq)
    exact ignores_of_delivery_receive
      (d := { d with inFlight := d.inFlight.erase x }) hidle hkept hsame
  · exact deliver_of_ignores hsettled hmem hidle

-- ── An error behind a shutdown ───────────────────────────────────────────────

namespace Late

def path : Text := ['/', 'e']
def fresh : Delivery := ⟨.fresh ['a'], [], false, false, false⟩

/-- An error, and the size, are on their way while the instance is shut down. -/
def moves : List Move :=
  [.happen (.initializeOn path true true), .dispatch (.onError false),
    .dispatch (.onData path (some ['1'])), .happen .shutdown]

def stopped : Delivery := (moves.foldlM next fresh).get (by decide)

def error : Dispatch := ⟨.onError false, true⟩
def sized : Dispatch := ⟨.onData path (some ['1']), true⟩

theorem reachable_stopped : Reachable delivery stopped :=
  Reachable.follow (fun _ _ _ _ hs => hs) (.start ⟨['a'], rfl⟩)
    (Option.some_get _).symm

end Late

/-- The late size is ignored. -/
theorem late_calls_sized :
    next Late.stopped (.deliver Late.sized none) =
      some { Late.stopped with
        inFlight := Late.stopped.inFlight.erase Late.sized } := by
  refine ((late_calls Late.reachable_stopped).2 (by decide) (by decide)
    Late.sized (by decide) rfl none).mpr ⟨?_, nofun⟩
  exact (ignores_of_stopped (by decide) (by decide) (by decide) _).1.mpr nofun

/-- **AN ASSERTION**: the late error is not. -/
theorem late_error_asserts :
    ¬∀ d, Reachable delivery d → d.council.violated = false →
      d.council.stage = .idle → ∀ x ∈ d.inFlight, x.late = true → ∀ hostname d',
        next d (.deliver x hostname) = some d' →
          d'.council.violated = false := by
  intro hclaim
  have hkept := hclaim _ Late.reachable_stopped (by decide) (by decide)
    Late.error (by decide) rfl none _ rfl
  revert hkept
  decide

end FlinterCouncil
