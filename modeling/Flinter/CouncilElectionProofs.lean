import Flinter.CouncilNameProofs
import Flinter.TicketProofs

/-! # Council: no more are elected than there are seats

    An instance that is attached knows its node, and its node is there until the
    `Erase` of its own `DoQuitClean`.  The ids of the candidates are the tickets
    of `Tickets.seats`, and the elected ids are seated: every step of the
    election is one of its steps, or none.

    Between that `Erase` and `ResetState` an instance is seated with a ticket
    that is gone, and its seat may be taken; so it is not counted. -/

namespace FlinterCouncil

open OrderedMaps

variable {electionPath size : Text} {zk zk' : ZooKeeper} {c c' : Council}
variable {recoverable quit : Bool}

-- ── What an instance knows ───────────────────────────────────────────────────

/-- What holds of an attached instance throughout. -/
structure Council.Known (electionPath size : Text) (zk : ZooKeeper)
    (c : Council) : Prop where
  minted : c.actualId < zk.nextSequence
  zk : c.zk = true
  path : c.electionPath = electionPath
  id : 0 ≤ c.id → c.id = c.actualId ∧ c.nodeName ≠ []
  size : c.size < 0 ∨ c.size = atoi32 size ∧ 0 < c.size

/-- The instance's own child. -/
def Council.child (c : Council) : Text := childName c.nodeName c.actualId

/-- The list `children` has every candidate that is not behind the instance,
    and the instance only as a candidate with a name. -/
structure Council.Lists (zk : ZooKeeper) (c : Council)
    (children : List Text) : Prop where
  complete : ∀ id nodeName, ValidId id → id ≤ c.actualId →
    childName nodeName id ∈ zk.children → childName nodeName id ∈ children
  named : c.actualId ∈ (getCandidates children).keys → c.nodeName ≠ []

/-- What holds at each stage, other than behind an `Erase`. -/
def Council.AtStage (zk : ZooKeeper) (c : Council) : Prop :=
  match c.stage with
  | .idle => True
  | .create => c.actualId < 0
  | .eraseInvalid _ => False
  | .getChildren => 0 ≤ c.actualId
  | .gotChildren none => 0 ≤ c.actualId
  | .gotChildren (some children) => 0 ≤ c.actualId ∧ c.Lists zk children
  | .track _ => 0 ≤ c.actualId
  | .erase path _ _ => 0 ≤ c.actualId ∧ path = c.path
  | .erased _ _ _ => False

/-- An instance that is not attached, that has its node if it has made one, or
    whose node has been erased by its own `DoQuitClean`. -/
inductive Council.Ok (electionPath size : Text) (zk : ZooKeeper)
    (c : Council) : Prop where
  | away : c.zk = false → c.actualId < 0 → c.id < 0 → c.stage = .idle →
      Ok electionPath size zk c
  | held : c.Known electionPath size zk →
      (0 ≤ c.actualId → c.child ∈ zk.children) → c.AtStage zk →
      Ok electionPath size zk c
  | gone {answered recoverable quit : Bool} : c.Known electionPath size zk →
      0 ≤ c.actualId → c.stage = .erased answered recoverable quit →
      Ok electionPath size zk c

-- ── What the functions do ────────────────────────────────────────────────────

theorem neg_one_neg : (-1 : Int) < 0 := by decide

/-- The term is over, and `_mutex` is released.  What cannot be recovered loses
    its node without erasing it. -/
structure Council.Ended (c c' : Council) : Prop where
  id : c'.id < 0
  zk : c'.zk = c.zk
  path : c'.electionPath = c.electionPath
  nodeName : c'.nodeName = c.nodeName
  tracks : c'.tracks = c.tracks
  stage : c'.stage = .idle
  node : c'.actualId = c.actualId ∧ c'.size = c.size ∨
    c'.actualId = -1 ∧ c'.size = -1

/-- The instance is in order, not elected anew, and has no new node. -/
def Council.Goes (electionPath size : Text) (zk : ZooKeeper)
    (c c' : Council) : Prop :=
  c'.Ok electionPath size zk ∧ (c'.id = c.id ∨ c'.id < 0) ∧
    (c'.actualId = c.actualId ∨ c'.actualId < 0)

/-- What `Known` is about. -/
def Council.standing (c : Council) : Int × Bool × Text × Int × Text × Int :=
  (c.actualId, c.zk, c.electionPath, c.id, c.nodeName, c.size)

/-- Where nothing of that has changed, what was known still is. -/
theorem Council.Known.same (h : c.Known electionPath size zk)
    (hs : c'.standing = c.standing) : c'.Known electionPath size zk := by
  simp only [Council.standing, Prod.mk.injEq] at hs
  obtain ⟨hactual, hzk, hpath, hid, hname, hsize⟩ := hs
  constructor
  · rw [hactual]
    exact h.minted
  · rw [hzk]
    exact h.zk
  · rw [hpath]
    exact h.path
  · rw [hid, hactual, hname]
    exact h.id
  · rw [hsize]
    exact h.size

/-- A new size is a valid one, or none. -/
theorem Council.Known.sized (h : c.Known electionPath size zk) {size' : Int}
    {stage : Stage} (hsize : size' < 0 ∨ size' = atoi32 size ∧ 0 < size') :
    Council.Known electionPath size zk
      { c with size := size', stage := stage } :=
  ⟨h.minted, h.zk, h.path, h.id, hsize⟩

/-- Without a node nobody is elected. -/
theorem Council.Known.id_neg (h : c.Known electionPath size zk)
    (hid : c.actualId < 0) : c.id < 0 := by
  by_contra h0
  rw [not_lt] at h0
  exact absurd hid (not_lt.mpr ((h.id h0).1 ▸ h0))

theorem Council.Goes.id_neg (h : c.Goes electionPath size zk c')
    (hlow : c.id < 0) : c'.id < 0 := by
  rcases h.2.1 with hsame | hneg
  · exact lt_of_eq_of_lt hsame hlow
  · exact hneg

theorem Council.Goes.actualId_neg (h : c.Goes electionPath size zk c')
    (hid : c.actualId < 0) : c'.actualId < 0 := by
  rcases h.2.2 with hsame | hneg
  · exact lt_of_eq_of_lt hsame hid
  · exact hneg

theorem Council.Ended.trans {c'' : Council} (h : c.Ended c')
    (h' : c'.Ended c'') : c.Ended c'' where
  id := h'.id
  zk := h'.zk.trans h.zk
  path := h'.path.trans h.path
  nodeName := h'.nodeName.trans h.nodeName
  tracks := h'.tracks.trans h.tracks
  stage := h'.stage
  node := by
    rcases h'.node with ⟨hid, hsize⟩ | hlost
    · rcases h.node with ⟨hid', hsize'⟩ | ⟨hid', hsize'⟩
      · exact .inl ⟨hid.trans hid', hsize.trans hsize'⟩
      · exact .inr ⟨hid.trans hid', hsize.trans hsize'⟩
    · exact .inr hlost

theorem Council.Ended.actualId_neg (h : c.Ended c') (hid : c.actualId < 0) :
    c'.actualId < 0 := by
  rcases h.node with ⟨heq, -⟩ | ⟨heq, -⟩
  · exact lt_of_eq_of_lt heq hid
  · exact lt_of_eq_of_lt heq neg_one_neg

theorem doLostClean_true (c : Council) : ∃ called,
    c.doLostClean true = { c with id := -1, called := called } := by
  simp only [Council.doLostClean]
  split
  · exact ⟨_, rfl⟩
  · exact ⟨_, rfl⟩

theorem doLostClean_false (c : Council) : ∃ called,
    c.doLostClean false =
      { c with id := -2, size := -1, actualId := -1, called := called } := by
  simp only [Council.doLostClean]
  split
  · exact ⟨_, rfl⟩
  · exact ⟨_, rfl⟩

/-- `DoLostClean` before `_mutex` is released. -/
theorem ended_doLostClean (c : Council) (recoverable : Bool) :
    c.Ended { c.doLostClean recoverable with stage := .idle } := by
  cases recoverable with
  | false =>
      obtain ⟨called, heq⟩ := doLostClean_false c
      rw [heq]
      exact ⟨show (-2 : Int) < 0 by decide, rfl, rfl, rfl, rfl, rfl,
        .inr ⟨rfl, rfl⟩⟩
  | true =>
      obtain ⟨called, heq⟩ := doLostClean_true c
      rw [heq]
      exact ⟨show (-1 : Int) < 0 by decide, rfl, rfl, rfl, rfl, rfl,
        .inl ⟨rfl, rfl⟩⟩

theorem ended_onShrinked (c : Council) (recoverable : Bool) :
    c.Ended (c.onShrinked recoverable) := ended_doLostClean c recoverable

/-- Without a node there is nothing to erase. -/
theorem doQuitClean_of_neg (h : c.actualId < 0) (recoverable quit : Bool) :
    ∃ c', c.Ended c' ∧
      c.doQuitClean recoverable quit = if quit then c'.clear else c' := by
  let c₁ := { c with violated := c.violated || c.electionPath.isEmpty }
  have hended := ended_doLostClean c₁ recoverable
  refine ⟨_, ⟨hended.id, hended.zk, hended.path, hended.nodeName, hended.tracks,
    hended.stage, hended.node⟩, ?_⟩
  rw [Council.doQuitClean]
  exact if_neg (not_le.mpr h)

/-- With a node, the node is to be erased. -/
theorem doQuitClean_of_nonneg (h : 0 ≤ c.actualId) (recoverable quit : Bool) :
    c.doQuitClean recoverable quit = { c with
      violated := c.violated || c.electionPath.isEmpty
      stage := .erase c.path recoverable quit } := by
  rw [Council.doQuitClean]
  exact if_pos h

theorem ended_onFired (h : c.actualId < 0) (recoverable : Bool) :
    c.Ended (c.onFired recoverable) := by
  obtain ⟨c', hended, heq⟩ := doQuitClean_of_neg h recoverable false
  rw [Council.onFired, heq]
  exact hended

theorem Council.Known.ended (h : c.Known electionPath size zk)
    (hnode : 0 ≤ c.actualId → c.child ∈ zk.children) (he : c.Ended c') :
    c.Goes electionPath size zk c' := by
  have hstage : c'.AtStage zk := by
    rw [Council.AtStage, he.stage]
    trivial
  refine ⟨?_, .inr he.id, he.node.imp (·.1) fun h1 => ?_⟩
  rotate_left
  · rw [h1.1]
    exact neg_one_neg
  rcases he.node with ⟨hid, hsize⟩ | ⟨hid, hsize⟩
  · refine .held ⟨?_, he.zk.trans h.zk, he.path.trans h.path, ?_, ?_⟩ ?_ hstage
    · rw [hid]
      exact h.minted
    · exact fun h0 => absurd he.id (not_lt.mpr h0)
    · rw [hsize]
      exact h.size
    · rw [Council.child, he.nodeName, hid]
      exact hnode
  · refine .held ⟨?_, he.zk.trans h.zk, he.path.trans h.path, ?_, ?_⟩ ?_ hstage
    · rw [hid]
      omega
    · exact fun h0 => absurd he.id (not_lt.mpr h0)
    · rw [hsize]
      exact .inl (by decide)
    · rw [hid]
      exact fun h0 => absurd h0 (by decide)

/-- `OnFired` goes on to erase the node, if there is one. -/
theorem Council.Known.onFired (h : c.Known electionPath size zk)
    (hnode : 0 ≤ c.actualId → c.child ∈ zk.children) (recoverable : Bool) :
    c.Goes electionPath size zk (c.onFired recoverable) := by
  by_cases hid : 0 ≤ c.actualId
  · rw [Council.onFired, doQuitClean_of_nonneg hid]
    exact ⟨.held (h.same rfl) hnode ⟨hid, rfl⟩, .inl rfl, .inl rfl⟩
  · exact h.ended hnode (ended_onFired (not_le.mp hid) recoverable)

/-- `Attend` lists the children, or makes a node first. -/
theorem Council.Known.attend (h : c.Known electionPath size zk)
    (hnode : 0 ≤ c.actualId → c.child ∈ zk.children) (hostname : Option Text) :
    c.Goes electionPath size zk (c.attend hostname) := by
  rw [Council.attend]
  split
  case isTrue hid =>
      exact ⟨.held (h.same rfl) hnode hid, .inl rfl, .inl rfl⟩
  case isFalse hid =>
      rw [not_le] at hid
      split
      · -- No name: fired for twice, each time without a node.
        have hfired := ended_onFired hid false
        have hid' := hfired.actualId_neg hid
        exact h.ended hnode (hfired.trans (ended_onFired hid' false))
      · exact ⟨.held ⟨h.minted, h.zk, h.path,
            fun h0 => absurd (h.id_neg hid) (not_lt.mpr h0), h.size⟩
          (fun h0 => absurd h0 (not_le.mpr hid)) hid, .inl rfl, .inl rfl⟩

/-- `OnData`: nothing, the end of a term, or `Attend`. -/
theorem Council.Known.onData (h : c.Known electionPath size zk)
    (hnode : 0 ≤ c.actualId → c.child ∈ zk.children) (hidle : c.stage = .idle)
    {path : Text} {data hostname : Option Text}
    (hdata : path = electionPath → data = none ∨ data = some size) :
    c.Goes electionPath size zk (c.onData path data hostname) := by
  have hsame : c.Goes electionPath size zk c := by
    refine ⟨.held h hnode ?_, .inl rfl, .inl rfl⟩
    rw [Council.AtStage, hidle]
    trivial
  unfold Council.onData
  split
  · exact hsame
  · split
    case isTrue hpath =>
        rcases hdata (hpath.symm.trans h.path) with rfl | rfl
        · exact h.onFired hnode true
        · by_cases hsize : atoi32 size ≤ 0
          · simp only [if_pos hsize]
            have h' : Council.Known electionPath size zk { c with size := -1 } :=
              h.sized (.inl neg_one_neg)
            exact h'.ended hnode (ended_onShrinked _ true)
          · simp only [if_neg hsize]
            have h' : Council.Known electionPath size zk
                { c with size := atoi32 size } :=
              h.sized (.inr ⟨rfl, not_le.mp hsize⟩)
            exact h'.attend hnode hostname
    case isFalse =>
        split
        · exact hsame
        · split
          · exact hsame
          · have h' : Council.Known electionPath size zk
                { c with tracks := c.tracks.filter (· ≠ path) } := h.same rfl
            exact h'.attend hnode hostname

/-- `Initialize` starts without a node. -/
theorem initializeOn_goes (haway : c.zk = false) (hactual : c.actualId < 0)
    (hid : c.id < 0) (hidle : c.stage = .idle) (cb ok : Bool) :
    c.Goes electionPath size zk (c.initializeOn electionPath cb ok) := by
  rw [Council.initializeOn]
  split
  · exact ⟨.away haway hactual hid hidle, .inl rfl, .inl rfl⟩
  · refine ⟨.held ⟨?_, rfl, rfl, ?_, .inl neg_one_neg⟩ ?_ ?_, .inr neg_one_neg,
      .inr neg_one_neg⟩
    · exact lt_of_lt_of_le neg_one_neg (Int.natCast_nonneg _)
    · exact fun h0 => absurd h0 (not_le.mpr neg_one_neg)
    · exact fun h0 => absurd h0 (not_le.mpr neg_one_neg)
    · simp only [Council.AtStage, Council.resetState, Bool.false_eq_true,
        if_false, hidle]

/-- The end of a `Shutdown`. -/
theorem Council.Ended.clear (h : c.Ended c') (hid : c'.actualId < 0) :
    c.Goes electionPath size zk c'.clear :=
  ⟨.away rfl hid h.id h.stage, .inr h.id, .inr hid⟩

/-- `Shutdown` without a node is over at once. -/
theorem Council.Known.shutdown (h : c.Known electionPath size zk)
    (hnode : 0 ≤ c.actualId → c.child ∈ zk.children) :
    c.Goes electionPath size zk c.shutdown := by
  rw [Council.shutdown, if_neg (by simp [h.zk]), Council.onQuit]
  by_cases hid : 0 ≤ c.actualId
  · rw [doQuitClean_of_nonneg (c := { c with tracks := [] }) hid]
    exact ⟨.held (h.same rfl) hnode ⟨hid, rfl⟩, .inl rfl, .inl rfl⟩
  · obtain ⟨c', hended, heq⟩ := doQuitClean_of_neg
      (c := { c with tracks := [] }) (not_le.mp hid) true true
    rw [heq]
    exact hended.clear (hended.actualId_neg (not_le.mp hid))

/-- The answer of `Create`, with the node on the server. -/
theorem Council.Known.created_some (h : c.Known electionPath size zk)
    (hid : c.actualId < 0) (hvalid : ValidId zk.nextSequence) :
    ∃ c', c.created (some (childPath electionPath
        (childName c.nodeName zk.nextSequence))) = c' ∧
      c'.Ok electionPath size (zk.create c.nodeName) ∧ c'.id = c.id ∧
      c'.actualId = zk.nextSequence := by
  have hsplit : childPath electionPath (childName c.nodeName zk.nextSequence) =
      (electionPath ++ '/' :: c.nodeName ++ ['_']) ++ setw10 zk.nextSequence := by
    simp [childPath, childName]
  have hoffset : (electionPath ++ '/' :: c.nodeName ++ ['_']).length =
      c.electionPath.length + 1 + c.nodeName.length + 1 := by
    rw [h.path]
    simp only [List.length_append, List.length_cons, List.length_nil]
    omega
  simp only [Council.created]
  rw [hsplit, List.drop_left' hoffset, List.length_append, setw10_length hvalid,
    hoffset, if_neg (not_not.mpr rfl), atoi32_setw10 hvalid,
    if_neg (not_lt.mpr hvalid.1)]
  refine ⟨_, rfl, ?_, rfl, rfl⟩
  have hlow := h.id_neg hid
  refine .held ⟨?_, h.zk, h.path, ?_, h.size⟩ ?_ hvalid.1
  · show (zk.nextSequence : Int) < (zk.nextSequence + 1 : Nat)
    omega
  · exact fun h0 => absurd hlow (not_lt.mpr h0)
  · exact fun _ => List.mem_cons_self

/-- `Create` failed: fired for without a node. -/
theorem Council.Known.created_none (h : c.Known electionPath size zk)
    (hid : c.actualId < 0) :
    c.Goes electionPath size zk (c.created none) := by
  have h' : Council.Known electionPath size zk { c with size := -1 } :=
    h.sized (.inl neg_one_neg)
  exact h'.ended (fun h0 => absurd hid (not_lt.mpr h0))
    (ended_onFired (c := { c with size := -1 }) hid false)

/-- The loop of `Attend` goes on, or the term is over. -/
theorem Council.Known.trackNext (h : c.Known electionPath size zk)
    (hid : 0 ≤ c.actualId) (hnode : c.child ∈ zk.children) (paths : List Text) :
    c.Goes electionPath size zk (c.trackNext paths) := by
  rw [Council.trackNext]
  split
  · exact h.ended (fun _ => hnode) (ended_onShrinked c true)
  · exact ⟨.held (h.same rfl) (fun _ => hnode) hid,
      .inl rfl, .inl rfl⟩

theorem Council.Known.tracked (h : c.Known electionPath size zk)
    (hid : 0 ≤ c.actualId) (hnode : c.child ∈ zk.children) (path : Text)
    (paths : List Text) (ok : Bool) :
    c.Goes electionPath size zk (c.tracked path paths ok) := by
  rw [Council.tracked]
  split
  · exact h.trackNext hid hnode paths
  · split
    · have h' : Council.Known electionPath size zk
          { c with tracks := path :: c.tracks } := h.same rfl
      exact h'.trackNext hid hnode paths
    · exact h.ended (fun _ => hnode) (ended_onShrinked c false)

/-- `Attend` among the children it listed: nobody is elected, or the instance
    is, by its own count. -/
theorem Council.Known.attendAmong (h : c.Known electionPath size zk)
    (hid : 0 ≤ c.actualId) (hnode : c.child ∈ zk.children)
    {children : Option (List Text)} (hlists : ∀ listed,
      children = some listed → c.Lists zk listed) :
    c.Goes electionPath size zk (c.attendAmong children) ∨
      (c.attendAmong children).Ok electionPath size zk ∧ c.id < 0 ∧
        (c.attendAmong children).id = c.actualId ∧
        (c.attendAmong children).actualId = c.actualId ∧
        ∃ listed, children = some listed ∧
          (((getCandidates listed).upTo c.actualId).length : Int) ≤ c.size := by
  cases children with
  | none =>
      exact .inl ⟨.held (h.sized (.inl neg_one_neg)) (fun _ => hnode) trivial,
        .inl rfl, .inl rfl⟩
  | some listed =>
      simp only [Council.attendAmong]
      split
      · exact .inl (h.onFired (fun _ => hnode) false)
      case isFalse hmem =>
        have hnamed := (hlists listed rfl).named (not_not.mp hmem)
        split
        case isTrue hpos =>
            split
            · exact .inl ⟨.held (h.same rfl)
                (fun _ => hnode) trivial, .inl rfl, .inl rfl⟩
            case isFalse hlow =>
                refine .inr ⟨?_, not_le.mp hlow, ?_, ?_, listed, rfl, hpos⟩
                · split
                  · exact .held
                      ⟨h.minted, h.zk, h.path, fun _ => ⟨rfl, hnamed⟩, h.size⟩
                      (fun _ => hnode) trivial
                  · exact .held
                      ⟨h.minted, h.zk, h.path, fun _ => ⟨rfl, hnamed⟩, h.size⟩
                      (fun _ => hnode) trivial
                · split
                  · rfl
                  · rfl
                · split
                  · rfl
                  · rfl
        case isFalse =>
            have h' (violated : Bool) : Council.Known electionPath size zk
                { c with violated := violated } := h.same rfl
            have hgoes (violated : Bool) (paths : List Text) :
                c.Goes electionPath size zk
                  ({ c with violated := violated }.trackNext paths) :=
              (h' violated).trackNext hid hnode paths
            exact .inl (hgoes _ _)

/-- `DoQuitClean` behind its `Erase`. -/
theorem Council.Known.finishQuitClean (h : c.Known electionPath size zk)
    (answered recoverable quit : Bool) :
    c.Goes electionPath size zk
        (c.finishQuitClean answered recoverable quit) ∧
      (c.finishQuitClean answered recoverable quit).id < 0 := by
  have h' : Council.Known electionPath size zk
      { c with actualId := -1, id := -1 } :=
    ⟨lt_of_lt_of_le neg_one_neg (Int.natCast_nonneg _), h.zk, h.path,
      fun h0 => absurd h0 (not_le.mpr neg_one_neg), h.size⟩
  have hended := ended_doLostClean { c with actualId := -1 }
    (recoverable && answered)
  have hid := hended.actualId_neg neg_one_neg
  rw [Council.finishQuitClean]
  split
  · exact ⟨⟨.away rfl hid hended.id rfl, .inr hended.id, .inr hid⟩, hended.id⟩
  · obtain ⟨hok, -, -⟩ := h'.ended
      (fun h0 => absurd h0 (not_le.mpr neg_one_neg))
      ⟨hended.id, hended.zk, hended.path, hended.nodeName, hended.tracks, rfl,
        hended.node⟩
    exact ⟨⟨hok, .inr hended.id, .inr hid⟩, hended.id⟩

-- ── The server ───────────────────────────────────────────────────────────────

/-- Every child was made by a `Create`, and the next one has a number. -/
structure ZooKeeper.Ok (zk : ZooKeeper) : Prop where
  minted : ∀ child ∈ zk.children, ∃ nodeName, ∃ n : Nat,
    child = childName nodeName n ∧ n < zk.nextSequence
  unique : ∀ id nodeName nodeName', ValidId id →
    childName nodeName id ∈ zk.children →
    childName nodeName' id ∈ zk.children → nodeName = nodeName'
  bound : zk.nextSequence ≤ 2 ^ 31

theorem validId_of_lt (hbound : zk.nextSequence ≤ 2 ^ 31) {id : Int}
    (h0 : 0 ≤ id) (hlt : id < zk.nextSequence) : ValidId id :=
  ⟨h0, by omega⟩

theorem ZooKeeper.Ok.create (h : zk.Ok) (hseq : zk.nextSequence < 2 ^ 31)
    (nodeName : Text) : (zk.create nodeName).Ok where
  minted := by
    intro child hc
    rcases List.mem_cons.mp hc with rfl | hc
    · exact ⟨nodeName, zk.nextSequence, rfl, Nat.lt_succ_self _⟩
    · obtain ⟨nodeName', n, heq, hn⟩ := h.minted child hc
      exact ⟨nodeName', n, heq, Nat.lt_succ_of_lt hn⟩
  unique := by
    have hnew := validId_natCast hseq
    -- No child that is there has the number of the new one.
    have hfresh (name : Text) :
        childName name zk.nextSequence ∉ zk.children := by
      intro hmem
      obtain ⟨name', n, heq, hn⟩ := h.minted _ hmem
      exact childName_ne_of_lt hn hseq heq.symm
    intro id name name' hvalid hc hc'
    rcases List.mem_cons.mp hc with heq | hold
    · obtain ⟨rfl, rfl⟩ := childName_inj hvalid hnew heq
      rcases List.mem_cons.mp hc' with heq' | hold'
      · exact (childName_inj hvalid hnew heq').1.symm
      · exact absurd hold' (hfresh name')
    · rcases List.mem_cons.mp hc' with heq' | hold'
      · obtain ⟨rfl, rfl⟩ := childName_inj hvalid hnew heq'
        exact absurd hold (hfresh name)
      · exact h.unique id name name' hvalid hold hold'
  bound := hseq

theorem ZooKeeper.mem_erase {child path : Text} :
    child ∈ (zk.erase electionPath path).children ↔
      child ∈ zk.children ∧ childPath electionPath child ≠ path := by
  rw [ZooKeeper.erase, List.mem_filter, decide_eq_true_eq]

theorem ZooKeeper.Ok.erase (h : zk.Ok) (electionPath path : Text) :
    (zk.erase electionPath path).Ok where
  minted := fun child hc => h.minted child (ZooKeeper.mem_erase.mp hc).1
  unique := fun id name name' hvalid hc hc' => h.unique id name name' hvalid
    (ZooKeeper.mem_erase.mp hc).1 (ZooKeeper.mem_erase.mp hc').1
  bound := h.bound

/-- A candidate among the children is a child of this id and name. -/
theorem ZooKeeper.Ok.candidate (h : zk.Ok) {child : Text} {e : Int × Text}
    (hmem : child ∈ zk.children) (hc : getCandidate child = some e) :
    child = childName e.2 e.1 ∧ ValidId e.1 ∧ e.1 < zk.nextSequence ∧
      e.2 ≠ [] := by
  obtain ⟨name, n, rfl, hn⟩ := h.minted child hmem
  have hvalid := validId_natCast (Nat.lt_of_lt_of_le hn h.bound)
  by_cases hne : name = []
  · rw [hne, getCandidate_nil] at hc
    exact absurd hc (by simp)
  · rw [getCandidate_childName hvalid hne] at hc
    obtain rfl := Option.some.inj hc
    exact ⟨rfl, hvalid, by omega, hne⟩

/-- What `GetChildren` answers. -/
theorem ZooKeeper.Ok.lists (h : zk.Ok) (hnode : c.child ∈ zk.children) :
    c.Lists zk zk.children where
  complete := fun _ _ _ _ hmem => hmem
  named := by
    intro hkey
    obtain ⟨child, hmem, name, hc⟩ := mem_keys_getCandidates.mp hkey
    obtain ⟨rfl, hvalid, -, hne⟩ := h.candidate hmem hc
    rw [h.unique c.actualId c.nodeName name hvalid hnode hmem]
    exact hne

/-- An instance is as good when the server goes on without taking its node:
    the children that come are behind it. -/
theorem Council.Ok.server (h : c.Ok electionPath size zk)
    (hseq : zk.nextSequence ≤ zk'.nextSequence)
    (hnode : 0 ≤ c.actualId → c.child ∈ zk.children → c.child ∈ zk'.children)
    (hbehind : ∀ id nodeName, ValidId id → id ≤ c.actualId →
      childName nodeName id ∈ zk'.children →
      childName nodeName id ∈ zk.children) :
    c.Ok electionPath size zk' := by
  have hknown : c.Known electionPath size zk → c.Known electionPath size zk' :=
    fun hk => ⟨lt_of_lt_of_le hk.minted (by omega), hk.zk, hk.path, hk.id, hk.size⟩
  cases h with
  | away hzk hactual hid hidle => exact .away hzk hactual hid hidle
  | held hk hn hstage =>
      refine .held (hknown hk) (fun h0 => hnode h0 (hn h0)) ?_
      rw [Council.AtStage] at hstage ⊢
      cases hs : c.stage with
      | gotChildren children =>
          rw [hs] at hstage
          cases children with
          | none => exact hstage
          | some children =>
              exact ⟨hstage.1, fun id nodeName hvalid hle hmem =>
                hstage.2.complete id nodeName hvalid hle
                  (hbehind id nodeName hvalid hle hmem), hstage.2.named⟩
      | idle => trivial
      | create => rw [hs] at hstage; exact hstage
      | eraseInvalid path => rw [hs] at hstage; exact hstage
      | getChildren => rw [hs] at hstage; exact hstage
      | track paths => rw [hs] at hstage; exact hstage
      | erase path recoverable quit => rw [hs] at hstage; exact hstage
      | erased answered recoverable quit => rw [hs] at hstage; exact hstage
  | gone hk h0 hstage => exact .gone (hknown hk) h0 hstage

theorem Council.Ok.minted (h : c.Ok electionPath size zk) :
    c.actualId < zk.nextSequence := by
  cases h with
  | away hzk hactual =>
      exact lt_of_lt_of_le hactual (Int.natCast_nonneg _)
  | held hk => exact hk.minted
  | gone hk => exact hk.minted

/-- A child made by another instance. -/
theorem Council.Ok.create (h : c.Ok electionPath size zk)
    (hseq : zk.nextSequence < 2 ^ 31) (nodeName : Text) :
    c.Ok electionPath size (zk.create nodeName) := by
  refine h.server (Nat.le_succ _) (fun _ => List.mem_cons_of_mem _) ?_
  intro id nodeName' hvalid hle hmem
  rcases List.mem_cons.mp hmem with heq | hmem
  · -- The new child has a greater id.
    have hid := (childName_inj hvalid (validId_natCast hseq) heq).2
    have hlt := h.minted
    omega
  · exact hmem

/-- A child that is not the instance's own is erased. -/
theorem Council.Ok.erase (h : c.Ok electionPath size zk) {path : Text}
    (hother : 0 ≤ c.actualId → childPath electionPath c.child ≠ path) :
    c.Ok electionPath size (zk.erase electionPath path) := by
  refine h.server (Nat.le_refl _) (fun h0 hmem => ?_) ?_
  · exact ZooKeeper.mem_erase.mpr ⟨hmem, hother h0⟩
  · intro id nodeName _ _ hmem
    exact (ZooKeeper.mem_erase.mp hmem).1

-- ── The election ─────────────────────────────────────────────────────────────

section Election

variable {ι : Type} [DecidableEq ι] {s s' : Election ι} {i j : ι}

/-- **THE INVARIANT**: server and instances are in order, and no two instances
    have one node. -/
structure Election.Ok (electionPath size : Text) (s : Election ι) : Prop where
  zk : s.zk.Ok
  council : ∀ i, (s.council i).Ok electionPath size s.zk
  unique : ∀ i j, 0 ≤ (s.council i).actualId →
    (s.council i).actualId = (s.council j).actualId → i = j

/-- The invariant after a step of one instance. -/
theorem Election.Ok.update (inv : s.Ok electionPath size) (hzk : zk'.Ok)
    (hc : c'.Ok electionPath size zk')
    (hothers : ∀ j, j ≠ i → (s.council j).Ok electionPath size zk')
    (hunique : 0 ≤ c'.actualId →
      ∀ j, j ≠ i → (s.council j).actualId ≠ c'.actualId)
    {reported : ι → List Text} :
    Election.Ok electionPath size
      ⟨zk', Function.update s.council i c', reported⟩ := by
  refine ⟨hzk, fun j => ?_, fun j k h0 heq => ?_⟩
  · show (Function.update s.council i c' j).Ok electionPath size zk'
    by_cases hj : j = i
    · rw [hj, Function.update_self]
      exact hc
    · rw [Function.update_of_ne hj]
      exact hothers j hj
  · replace h0 : 0 ≤ (Function.update s.council i c' j).actualId := h0
    replace heq : (Function.update s.council i c' j).actualId =
      (Function.update s.council i c' k).actualId := heq
    by_cases hj : j = i
    · by_cases hk : k = i
      · rw [hj, hk]
      · rw [hj, Function.update_self] at h0 heq
        rw [Function.update_of_ne hk] at heq
        exact absurd heq.symm (hunique h0 k hk)
    · rw [Function.update_of_ne hj] at h0 heq
      by_cases hk : k = i
      · rw [hk, Function.update_self] at heq
        exact absurd heq (hunique (heq ▸ h0) j hj)
      · rw [Function.update_of_ne hk] at heq
        exact inv.unique j k h0 heq

/-- The invariant after a step of one instance that leaves the server alone. -/
theorem Election.Ok.goes (inv : s.Ok electionPath size)
    (hc : (s.council i).Goes electionPath size s.zk c')
    {reported : ι → List Text} :
    Election.Ok electionPath size
      ⟨s.zk, Function.update s.council i c', reported⟩ := by
  refine inv.update inv.zk hc.1 (fun j _ => inv.council j) fun h0 j hj heq => ?_
  rcases hc.2.2 with hsame | hneg
  · rw [hsame] at heq h0
    exact hj (inv.unique j i (heq ▸ h0) heq)
  · exact absurd hneg (not_lt.mpr h0)

/-- What a step can do: one instance goes on, is elected, or makes a node, or a
    child is erased that is nobody's or that its own instance gives up. -/
inductive Election.Moves (electionPath size : Text) (s : Election ι) :
    Election ι → Prop where
  | goes {i : ι} {c' : Council} {reported : ι → List Text} :
      (s.council i).Goes electionPath size s.zk c' →
      Moves electionPath size s
        ⟨s.zk, Function.update s.council i c', reported⟩
  | elected {i : ι} {c' : Council} {listed : List Text}
      {reported : ι → List Text} :
      (s.council i).Known electionPath size s.zk → 0 ≤ (s.council i).actualId →
      (s.council i).Lists s.zk listed → c'.Ok electionPath size s.zk →
      (s.council i).id < 0 → c'.id = (s.council i).actualId →
      c'.actualId = (s.council i).actualId →
      (((getCandidates listed).upTo (s.council i).actualId).length : Int) ≤
        (s.council i).size →
      Moves electionPath size s
        ⟨s.zk, Function.update s.council i c', reported⟩
  | made {i : ι} {c' : Council} {nodeName : Text} {reported : ι → List Text} :
      s.zk.nextSequence < 2 ^ 31 →
      c'.Ok electionPath size (s.zk.create nodeName) →
      (s.council i).id < 0 → c'.id < 0 →
      (c'.actualId = s.zk.nextSequence ∨ c'.actualId < 0) →
      Moves electionPath size s
        ⟨s.zk.create nodeName, Function.update s.council i c', reported⟩
  | erased {council : ι → Council} {path : Text} {reported : ι → List Text} :
      (∀ j, (council j).Ok electionPath size (s.zk.erase electionPath path) ∧
        (council j).id = (s.council j).id ∧
        (council j).actualId = (s.council j).actualId) →
      Moves electionPath size s
        ⟨s.zk.erase electionPath path, council, reported⟩

/-- One step keeps the invariant. -/
theorem Election.Ok.moved (inv : s.Ok electionPath size)
    (h : s.Moves electionPath size s') : s'.Ok electionPath size := by
  cases h with
  | goes hgoes => exact inv.goes hgoes
  | elected hknown h0 hlists hok hlow hid hactual hpos =>
      refine inv.update inv.zk hok (fun j _ => inv.council j) fun h0 j hj heq => ?_
      rw [hactual] at heq h0
      exact hj (inv.unique j _ (heq ▸ h0) heq)
  | made hseq hok hlow hlow' hactual =>
      refine inv.update (inv.zk.create hseq _) hok
        (fun j _ => (inv.council j).create hseq _) fun h0 j hj heq => ?_
      rcases hactual with hnew | hneg
      · have hlt := (inv.council j).minted
        omega
      · exact absurd hneg (not_lt.mpr h0)
  | erased hall =>
      refine ⟨inv.zk.erase electionPath _, fun j => (hall j).1, fun j k h0 heq => ?_⟩
      refine inv.unique j k ?_ ?_
      · rw [← (hall j).2.2]
        exact h0
      · rw [← (hall j).2.2, ← (hall k).2.2]
        exact heq

/-- An instance that is doing something is attached. -/
theorem Council.Ok.known (h : c.Ok electionPath size zk) (hzk : c.zk = true) :
    c.Known electionPath size zk := by
  cases h with
  | away hfalse => exact absurd hzk (by simp [hfalse])
  | held hk => exact hk
  | gone hk => exact hk

/-- Other than behind an `Erase`, the node is there. -/
theorem Council.Ok.held_of_stage (h : c.Ok electionPath size zk)
    (hidle : c.stage = .idle → c.zk = true)
    (hstage : ∀ answered recoverable quit,
      c.stage ≠ .erased answered recoverable quit) :
    c.Known electionPath size zk ∧
      (0 ≤ c.actualId → c.child ∈ zk.children) ∧ c.AtStage zk := by
  cases h with
  | away hfalse _ _ hs => exact absurd (hidle hs) (by simp [hfalse])
  | held hk hn hs => exact ⟨hk, hn, hs⟩
  | gone hk _ hs => exact absurd hs (hstage _ _ _)

/-- `OnData` reports the election node as it is. -/
theorem Reports.data {path : Text} {data : Option Text}
    (h : Reports electionPath size zk path data) (hpath : path = electionPath) :
    data = none ∨ data = some size := by
  rcases h with ⟨-, hdata⟩ | ⟨nodeName, n, -, heq, -⟩
  · exact hdata
  · rw [hpath] at heq
    exact absurd heq ne_childPath

/-- `Initialize` attaches an instance that is not attached. -/
theorem Council.Ok.initializeOn (h : c.Ok electionPath size zk) (cb ok : Bool) :
    c.Goes electionPath size zk (c.initializeOn electionPath cb ok) := by
  cases hzk : c.zk with
  | false =>
      cases h with
      | away hfalse hactual hid hs =>
          exact initializeOn_goes hfalse hactual hid hs cb ok
      | held hk => exact absurd hk.zk (by simp [hzk])
      | gone hk => exact absurd hk.zk (by simp [hzk])
  | true =>
      have hsame : c.initializeOn electionPath cb ok = c := if_pos (.inl hzk)
      rw [hsame]
      exact ⟨h, .inl rfl, .inl rfl⟩

/-- `Shutdown` is for one that is. -/
theorem Council.Ok.shutdown (h : c.Ok electionPath size zk) (hidle : c.stage = .idle) :
    c.Goes electionPath size zk c.shutdown := by
  cases hzk : c.zk with
  | false =>
      have hsame : c.shutdown = c := if_pos (by simp [hzk])
      rw [hsame]
      exact ⟨h, .inl rfl, .inl rfl⟩
  | true =>
      obtain ⟨hk, hn, -⟩ := h.held_of_stage (fun _ => hzk) (by simp [hidle])
      exact hk.shutdown hn

section

variable {i : ι} (inv : s.Ok electionPath size)
include inv

/-- A `Create` makes a node and says so, makes one unheard, or makes none. -/
theorem Election.Ok.created {made answered : Bool} {reported : ι → List Text}
    (hstage : (s.council i).stage = .create) (hans : answered = true → made = true)
    (hseq : made = true → s.zk.nextSequence < 2 ^ 31) :
    s.Moves electionPath size
      ⟨if made then s.zk.create (s.council i).nodeName else s.zk,
        Function.update s.council i ((s.council i).created
          (if answered then
            some (childPath electionPath
              (childName (s.council i).nodeName s.zk.nextSequence))
          else none)), reported⟩ := by
  obtain ⟨hk, hn, hs⟩ := (inv.council i).held_of_stage (by simp [hstage])
    (by simp [hstage])
  rw [Council.AtStage, hstage] at hs
  have hlow := hk.id_neg hs
  have hnone := hk.created_none hs
  cases made with
  | false =>
      have hno : answered = false := by
        cases answered with
        | false => rfl
        | true => exact (hans rfl).symm
      rw [hno]
      exact .goes hnone
  | true =>
      have hvalid := validId_natCast (hseq rfl)
      cases answered with
      | false =>
          exact .made (i := i) (hseq rfl) (hnone.1.create (hseq rfl) _) hlow
            (hnone.id_neg hlow) (.inr (hnone.actualId_neg hs))
      | true =>
          obtain ⟨c', heq, hok', hid', hactual'⟩ := hk.created_some hs hvalid
          refine .made (i := i) (hseq rfl) ?_ hlow ?_ (.inl ?_)
          · exact heq ▸ hok'
          · exact heq ▸ hid' ▸ hlow
          · exact heq ▸ hactual'

/-- An instance that has a list of the candidates goes on, or is elected. -/
theorem Election.Ok.attendedAmong {children : Option (List Text)}
    {reported : ι → List Text} (hstage : (s.council i).stage = .gotChildren children) :
    s.Moves electionPath size
      ⟨s.zk, Function.update s.council i ((s.council i).attendAmong children),
        reported⟩ := by
  obtain ⟨hk, hn, hs⟩ := (inv.council i).held_of_stage (by simp [hstage])
    (by simp [hstage])
  rw [Council.AtStage, hstage] at hs
  have h0 : 0 ≤ (s.council i).actualId := by
    cases children with
    | none => exact hs
    | some listed => exact hs.1
  have hlists : ∀ listed, children = some listed →
      (s.council i).Lists s.zk listed := by
    rintro listed rfl
    exact hs.2
  rcases hk.attendAmong h0 (hn h0) hlists with
    hgoes | ⟨hok', hlow, hid, hactual, listed, hlisted, hpos⟩
  · exact .goes hgoes
  · exact .elected hk h0 (hlists listed hlisted) hok' hlow hid hactual hpos

/-- An `Erase` erases the node of the instance that asks for it, or nothing. -/
theorem Election.Ok.erased {path : Text} {recoverable quit erased answered : Bool}
    {reported : ι → List Text}
    (hstage : (s.council i).stage = .erase path recoverable quit) :
    s.Moves electionPath size
      ⟨if erased then s.zk.erase electionPath path else s.zk,
        Function.update s.council i { s.council i with
          stage := .erased answered recoverable quit }, reported⟩ := by
  have hok := inv.council
  obtain ⟨hk, hn, hs⟩ := (hok i).held_of_stage (by simp [hstage]) (by simp [hstage])
  rw [Council.AtStage, hstage] at hs
  obtain ⟨h0, rfl⟩ := hs
  have hgone (zk : ZooKeeper) (hseq : zk.nextSequence = s.zk.nextSequence) :
      Council.Ok electionPath size zk { s.council i with
        stage := .erased answered recoverable quit } :=
    .gone ⟨hseq ▸ hk.minted, hk.zk, hk.path, hk.id, hk.size⟩ h0 rfl
  cases erased with
  | false => exact .goes (i := i) ⟨hgone s.zk rfl, .inl rfl, .inl rfl⟩
  | true =>
      refine .erased fun j => ?_
      by_cases hj : j = i
      · rw [hj, Function.update_self]
        exact ⟨hgone _ rfl, rfl, rfl⟩
      · rw [Function.update_of_ne hj]
        refine ⟨(hok j).erase fun hj0 heq => hj ?_, rfl, rfl⟩
        -- Another instance has another node.
        rw [Council.path, hk.path, childPath_inj] at heq
        have hbound := inv.zk.bound
        exact inv.unique j i hj0 (childName_inj
          (validId_of_lt hbound hj0 (hok j).minted)
          (validId_of_lt hbound h0 hk.minted) heq).2

/-- Every step is one of the moves. -/
theorem Election.Ok.moves {a : Action ι} (h : Step electionPath size s a s') :
    s.Moves electionPath size s' := by
  have hok := inv.council
  cases h with
  | @initializeOn i cb ok hidle => exact .goes ((hok i).initializeOn cb ok)
  | @onData i path data hostname hidle hzk hreports =>
      obtain ⟨hk, hn, -⟩ := (hok i).held_of_stage (fun _ => hzk)
        (by simp [hidle])
      exact .goes (hk.onData hn hidle hreports.data)
  | @onError i hidle hzk =>
      obtain ⟨hk, hn, -⟩ := (hok i).held_of_stage (fun _ => hzk)
        (by simp [hidle])
      exact .goes (hk.onFired hn false)
  | @shutdown i hidle => exact .goes ((hok i).shutdown hidle)
  | @create i made answered hstage hans hmade =>
      exact inv.created hstage hans fun hm => (hmade hm).2
  | @eraseInvalid i path erased hstage =>
      obtain ⟨-, -, hs⟩ := (hok i).held_of_stage (by simp [hstage])
        (by simp [hstage])
      rw [Council.AtStage, hstage] at hs
      exact hs.elim
  | @getChildren i answered hstage =>
      obtain ⟨hk, hn, hs⟩ := (hok i).held_of_stage (by simp [hstage])
        (by simp [hstage])
      rw [Council.AtStage, hstage] at hs
      have hlists := inv.zk.lists (hn hs)
      refine .goes (i := i) ⟨.held (hk.same rfl) hn ?_,
        .inl rfl, .inl rfl⟩
      cases answered with
      | false => exact hs
      | true => exact ⟨hs, hlists.complete, hlists.named⟩
  | @attendAmong i children hstage => exact inv.attendedAmong hstage
  | @track i path paths ok hstage =>
      obtain ⟨hk, hn, hs⟩ := (hok i).held_of_stage (by simp [hstage])
        (by simp [hstage])
      rw [Council.AtStage, hstage] at hs
      exact .goes (hk.tracked hs (hn hs) path paths ok)
  | @erase i path recoverable quit erased answered hstage hans =>
      exact inv.erased hstage
  | @finishQuitClean i answered recoverable quit hstage =>
      cases hok i with
      | away _ _ _ hs => exact absurd hs (by simp [hstage])
      | held _ _ hs =>
          rw [Council.AtStage, hstage] at hs
          exact hs.elim
      | gone hk => exact .goes (hk.finishQuitClean answered recoverable quit).1
  | @close child hnobody =>
      have herase (j : ι) : (s.council j).Ok electionPath size
          (s.zk.erase electionPath (childPath electionPath child)) := by
        refine (hok j).erase fun hj0 heq => ?_
        exact hnobody j hj0 (childPath_inj.mp heq)
      exact .erased fun j => ⟨herase j, rfl, rfl⟩

end

/-- Every run keeps the invariant. -/
theorem Election.Ok.reachable
    (h : Runs.Reachable (election ι electionPath size) s) :
    s.Ok electionPath size := by
  refine h.invariant ?_ ?_
  · rintro s ⟨hzk, hfresh, -⟩
    refine ⟨?_, fun i => ?_, fun i j h0 => ?_⟩
    · rw [hzk]
      exact ⟨fun _ hc => absurd hc List.not_mem_nil,
        fun _ _ _ _ hc => absurd hc List.not_mem_nil, Nat.zero_le _⟩
    · obtain ⟨name, heq⟩ := hfresh i
      rw [heq]
      exact .away rfl neg_one_neg neg_one_neg rfl
    · obtain ⟨name, heq⟩ := hfresh i
      rw [heq] at h0
      exact absurd h0 (not_le.mpr neg_one_neg)
  · intro s a s' _ inv hs
    exact inv.moved (inv.moves hs)

-- ── The seats ────────────────────────────────────────────────────────────────

/-- The ids of the candidates, and the ids of the elected. -/
def Election.tickets (s : Election ι) : Tickets.State Int where
  live := (getCandidates s.zk.children).keys
  seated := {k | 0 ≤ k ∧ ∃ i, (s.council i).id = k}

theorem Council.Ok.elected (h : c.Ok electionPath size zk) (hid : 0 ≤ c.id) :
    c.id = c.actualId ∧ c.nodeName ≠ [] := by
  cases h with
  | away _ _ hlow => exact absurd hid (not_le.mpr hlow)
  | held hk => exact hk.id hid
  | gone hk => exact hk.id hid

/-- The ids of the candidates behind a `Create`. -/
theorem keys_create (hseq : zk.nextSequence < 2 ^ 31) (nodeName : Text) :
    (getCandidates (zk.create nodeName).children).keys =
        (getCandidates zk.children).keys ∨
      (getCandidates (zk.create nodeName).children).keys =
        insert (zk.nextSequence : Int) (getCandidates zk.children).keys := by
  have hvalid := validId_natCast hseq
  by_cases hne : nodeName = []
  · refine .inl (Finset.ext fun k => ?_)
    rw [mem_keys_getCandidates, mem_keys_getCandidates, ZooKeeper.create, hne]
    simp only [List.mem_cons, exists_eq_or_imp, getCandidate_nil]
    simp
  · refine .inr (Finset.ext fun k => ?_)
    rw [Finset.mem_insert, mem_keys_getCandidates, mem_keys_getCandidates,
      ZooKeeper.create]
    simp only [List.mem_cons, exists_eq_or_imp, getCandidate_childName hvalid hne,
      Option.some.injEq, Prod.mk.injEq]
    simp [eq_comm]

/-- The ids of the candidates behind an `Erase`. -/
theorem keys_erase (zk : ZooKeeper) (electionPath path : Text) :
    (getCandidates (zk.erase electionPath path).children).keys =
        (getCandidates zk.children).keys ∨
      ∃ k, (getCandidates (zk.erase electionPath path).children).keys =
        (getCandidates zk.children).keys.erase k := by
  have hsub : ∀ k ∈ (getCandidates (zk.erase electionPath path).children).keys,
      k ∈ (getCandidates zk.children).keys := by
    intro k hk
    obtain ⟨child, hmem, name, hc⟩ := mem_keys_getCandidates.mp hk
    exact mem_keys_getCandidates.mpr
      ⟨child, (ZooKeeper.mem_erase.mp hmem).1, name, hc⟩
  by_cases hall : ∀ k ∈ (getCandidates zk.children).keys,
      k ∈ (getCandidates (zk.erase electionPath path).children).keys
  · exact .inl (Finset.ext fun k => ⟨hsub k, hall k⟩)
  · push Not at hall
    obtain ⟨k, hk, hgone⟩ := hall
    -- The child of this id is the one erased.
    obtain ⟨child, hmem, name, hc⟩ := mem_keys_getCandidates.mp hk
    have hpath : childPath electionPath child = path := by
      by_contra hne
      exact hgone (mem_keys_getCandidates.mpr
        ⟨child, ZooKeeper.mem_erase.mpr ⟨hmem, hne⟩, name, hc⟩)
    refine .inr ⟨k, Finset.ext fun k' => ?_⟩
    rw [Finset.mem_erase]
    constructor
    · intro hk'
      refine ⟨?_, hsub k' hk'⟩
      rintro rfl
      exact hgone hk'
    · rintro ⟨hne, hk'⟩
      obtain ⟨child', hmem', name', hc'⟩ := mem_keys_getCandidates.mp hk'
      refine mem_keys_getCandidates.mpr
        ⟨child', ZooKeeper.mem_erase.mpr ⟨hmem', fun hpath' => hne ?_⟩, name', hc'⟩
      obtain rfl := childPath_inj.mp (hpath'.trans hpath.symm)
      rw [hc] at hc'
      exact (congrArg Prod.fst (Option.some.inj hc')).symm

/-- An instance that lists the candidates overestimates its rank. -/
theorem Council.Lists.rank_le {listed : List Text} (h : c.Lists zk listed)
    (hzk : zk.Ok) :
    Tickets.rank (getCandidates zk.children).keys c.actualId ≤
      ((getCandidates listed).upTo c.actualId).length := by
  rw [OrderedMap.length_upTo]
  refine Tickets.rank_mono fun k hk hle => ?_
  obtain ⟨child, hmem, name, hc⟩ := mem_keys_getCandidates.mp hk
  obtain ⟨rfl, hvalid, -⟩ := hzk.candidate hmem hc
  exact mem_keys_getCandidates.mpr
    ⟨_, h.complete k name hvalid hle hmem, name, hc⟩

omit [DecidableEq ι] in
/-- The seats depend on the instances that are elected only. -/
theorem seated_congr {council council' : ι → Council}
    (h : ∀ j, (council' j).id = (council j).id ∨
      (council' j).id < 0 ∧ (council j).id < 0) :
    {k : Int | 0 ≤ k ∧ ∃ j, (council' j).id = k} =
      {k : Int | 0 ≤ k ∧ ∃ j, (council j).id = k} := by
  ext k
  constructor
  · rintro ⟨h0, j, rfl⟩
    rcases h j with hsame | ⟨hlow, -⟩
    · exact ⟨h0, j, hsame.symm⟩
    · exact absurd h0 (not_le.mpr hlow)
  · rintro ⟨h0, j, rfl⟩
    rcases h j with hsame | ⟨-, hlow⟩
    · exact ⟨h0, j, hsame⟩
    · exact absurd h0 (not_le.mpr hlow)

theorem update_id_congr {council : ι → Council}
    (h : c'.id = (council i).id ∨ c'.id < 0 ∧ (council i).id < 0) (j : ι) :
    (Function.update council i c' j).id = (council j).id ∨
      (Function.update council i c' j).id < 0 ∧ (council j).id < 0 := by
  by_cases hj : j = i
  · rw [hj, Function.update_self]
    exact h
  · rw [Function.update_of_ne hj]
    exact .inl rfl

/-- An instance that is elected sits down. -/
theorem seated_update_sit {council : ι → Council} (hlow : (council i).id < 0)
    (h0 : 0 ≤ c'.id) :
    {k : Int | 0 ≤ k ∧ ∃ j, (Function.update council i c' j).id = k} =
      insert c'.id {k : Int | 0 ≤ k ∧ ∃ j, (council j).id = k} := by
  ext k
  constructor
  · rintro ⟨hk, j, rfl⟩
    by_cases hj : j = i
    · rw [hj, Function.update_self]
      exact .inl rfl
    · rw [Function.update_of_ne hj] at hk ⊢
      exact .inr ⟨hk, j, rfl⟩
  · rintro (rfl | ⟨hk, j, rfl⟩)
    · exact ⟨h0, i, by rw [Function.update_self]⟩
    · have hj : j ≠ i := by
        rintro rfl
        exact absurd hk (not_le.mpr hlow)
      exact ⟨hk, j, by rw [Function.update_of_ne hj]⟩

/-- An instance whose term ends stands up, and nobody else had its id. -/
theorem Election.Ok.seated_update_stand (inv : s.Ok electionPath size)
    (hlow : c'.id < 0) (h0 : 0 ≤ (s.council i).id) :
    {k : Int | 0 ≤ k ∧ ∃ j, (Function.update s.council i c' j).id = k} =
      {k : Int | 0 ≤ k ∧ ∃ j, (s.council j).id = k} \ {(s.council i).id} := by
  have hi := ((inv.council i).elected h0).1
  ext k
  constructor
  · rintro ⟨hk, j, rfl⟩
    by_cases hj : j = i
    · rw [hj, Function.update_self] at hk
      exact absurd hk (not_le.mpr hlow)
    · rw [Function.update_of_ne hj] at hk ⊢
      refine ⟨⟨hk, j, rfl⟩, fun heq => hj ?_⟩
      have hid := ((inv.council j).elected hk).1
      rw [Set.mem_singleton_iff, hid, hi] at heq
      exact inv.unique j i (hid ▸ hk) heq
  · rintro ⟨⟨hk, j, rfl⟩, hne⟩
    have hj : j ≠ i := by
      rintro rfl
      exact hne rfl
    exact ⟨hk, j, by rw [Function.update_of_ne hj]⟩

/-- **THE ELECTION TAKES SEATS**: every move is a step of the tickets, or none. -/
theorem Election.Ok.tickets_moves (inv : s.Ok electionPath size)
    (h : s.Moves electionPath size s') :
    s'.tickets = s.tickets ∨
      ∃ k, Tickets.Step (atoi32 size).toNat s.tickets k s'.tickets := by
  cases h with
  | @goes i c' reported hgoes =>
      by_cases h0 : 0 ≤ (s.council i).id
      · rcases hgoes.2.1 with hsame | hlow
        · exact .inl (congrArg (Tickets.State.mk _)
            (seated_congr (update_id_congr (.inl hsame))))
        · refine .inr ⟨.stand (s.council i).id, ?_⟩
          rw [Election.tickets, Election.tickets,
            inv.seated_update_stand hlow h0]
          exact .stand
      · rw [not_le] at h0
        exact .inl (congrArg (Tickets.State.mk _)
          (seated_congr (update_id_congr (.inr ⟨hgoes.id_neg h0, h0⟩))))
  | @elected i c' listed reported hknown h0 hlists hok hlow hid hactual hpos =>
      refine .inr ⟨.sit (s.council i).actualId, ?_⟩
      rw [Election.tickets, Election.tickets,
        seated_update_sit hlow (hid ▸ h0), hid]
      refine .sit (Nat.le_trans (hlists.rank_le inv.zk) ?_)
      rcases hknown.size with hneg | ⟨hsize, -⟩
      · omega
      · rw [hsize] at hpos
        omega
  | @made i c' nodeName reported hseq hok hlow hlow' hactual =>
      have hids : c'.id = (s.council i).id ∨
          c'.id < 0 ∧ (s.council i).id < 0 := .inr ⟨hlow', hlow⟩
      have hseated := seated_congr (update_id_congr hids)
      rcases keys_create hseq nodeName with hkeys | hkeys
      · refine .inl ?_
        rw [Election.tickets, hseated, hkeys]
        rfl
      · refine .inr ⟨.draw s.zk.nextSequence, ?_⟩
        rw [Election.tickets, Election.tickets, hseated, hkeys]
        refine .draw ?_
        rintro k ⟨hk, j, rfl⟩
        rw [((inv.council j).elected hk).1]
        exact (inv.council j).minted
  | @erased council path reported hall =>
      have hseated := seated_congr fun j => .inl (hall j).2.1
      rcases keys_erase s.zk electionPath path with hkeys | ⟨k, hkeys⟩
      · refine .inl ?_
        rw [Election.tickets, hseated, hkeys]
        rfl
      · refine .inr ⟨.leave k, ?_⟩
        rw [Election.tickets, Election.tickets, hseated, hkeys]
        exact .leave

/-- The tickets of every reachable state are reachable. -/
theorem tickets_reachable (h : Runs.Reachable (election ι electionPath size) s) :
    Runs.Reachable (Tickets.seats Int (atoi32 size).toNat) s.tickets := by
  refine h.abstracts Election.tickets ?_ ?_
  · rintro s ⟨hzk, hfresh, -⟩
    refine ⟨by rw [Election.tickets, hzk]; rfl, ?_⟩
    refine Set.eq_empty_of_forall_notMem ?_
    rintro k ⟨h0, i, rfl⟩
    obtain ⟨name, heq⟩ := hfresh i
    rw [heq] at h0
    exact absurd h0 (not_le.mpr neg_one_neg)
  · intro s a s' hr hs
    have inv := Election.Ok.reachable hr
    exact inv.tickets_moves (inv.moves hs)

/-- The instance is behind the `Erase` of its `DoQuitClean`, and its node is
    gone: `ResetState` is still to come. -/
def Council.Leaving (zk : ZooKeeper) (c : Council) : Prop :=
  (∃ answered recoverable quit, c.stage = .erased answered recoverable quit) ∧
    c.child ∉ zk.children

/-- **NO MORE ELECTED THAN SEATS**: in every reachable state of any number of
    instances on one election node, at most as many believe they are elected as
    the node says, not counting those that are leaving. -/
theorem elected_at_most (h : Runs.Reachable (election ι electionPath size) s)
    {elected : Finset ι} (hid : ∀ i ∈ elected, 0 ≤ (s.council i).id)
    (hstay : ∀ i ∈ elected, ¬(s.council i).Leaving s.zk) :
    elected.card ≤ (atoi32 size).toNat := by
  have inv := Election.Ok.reachable h
  have hinj : Set.InjOn (fun i => (s.council i).id) elected := by
    intro i hi j hj heq
    have hi' := ((inv.council i).elected (hid i hi)).1
    have hj' := ((inv.council j).elected (hid j hj)).1
    exact inv.unique i j (hi' ▸ hid i hi) (hi'.symm.trans (heq.trans hj'))
  rw [← Finset.card_image_of_injOn hinj]
  refine Tickets.seated_card_le (tickets_reachable h) ?_ ?_
  · intro k hk
    obtain ⟨i, hi, rfl⟩ := Finset.mem_image.mp hk
    obtain ⟨hactual, hne⟩ := (inv.council i).elected (hid i hi)
    have h0 : 0 ≤ (s.council i).actualId := hactual ▸ hid i hi
    have hnode : (s.council i).child ∈ s.zk.children := by
      cases inv.council i with
      | away _ _ hlow => exact absurd (hid i hi) (not_le.mpr hlow)
      | held _ hn => exact hn h0
      | gone _ _ hs =>
          by_contra hgone
          exact hstay i hi ⟨⟨_, _, _, hs⟩, hgone⟩
    have hvalid := validId_of_lt inv.zk.bound h0 (inv.council i).minted
    refine mem_keys_getCandidates.mpr
      ⟨_, hnode, (s.council i).nodeName, ?_⟩
    rw [Council.child, getCandidate_childName hvalid hne, hactual]
  · intro k hk
    obtain ⟨i, hi, rfl⟩ := Finset.mem_image.mp hk
    exact ⟨hid i hi, i, rfl⟩

end Election

-- ── Two instances and one seat ───────────────────────────────────────────────

/-- Two instances. -/
def duo (zk : ZooKeeper) (a b : Council) (ra rb : List Text) :
    Election Bool where
  zk := zk
  council := fun i => cond i b a
  reported := fun i => cond i rb ra

theorem reachable_duo {s s' : Election Bool} {a b : Council}
    {ra rb : List Text} (h : Runs.Reachable (election Bool electionPath size) s)
    (act : Action Bool) (hs : Step electionPath size s act s') (hzk : s'.zk = zk)
    (ha : s'.council false = a) (hb : s'.council true = b)
    (hra : s'.reported false = ra) (hrb : s'.reported true = rb) :
    Runs.Reachable (election Bool electionPath size) (duo zk a b ra rb) := by
  have heq : s' = duo zk a b ra rb := by
    obtain ⟨zk', council, reported⟩ := s'
    have hcouncil : council = fun i => cond i b a := by
      funext i
      cases i
      · exact ha
      · exact hb
    have hreported : reported = fun i => cond i rb ra := by
      funext i
      cases i
      · exact hra
      · exact hrb
    rw [duo, ← hcouncil, ← hreported, ← hzk]
  exact heq ▸ h.next hs

namespace Sample

/-- The election node `/c`, which holds `1`. -/
def path : Text := ['/', 'c']
def one : Text := ['1']

def zk₀ : ZooKeeper := ⟨[], 0⟩
def zk₁ : ZooKeeper := zk₀.create ['a']
def zk₂ : ZooKeeper := zk₁.create ['b']

/-- The path of the first node. -/
def first : Text := childPath path (childName ['a'] 0)

def zk₃ : ZooKeeper := zk₂.erase path first

/-- The first instance: elected, then shutting down behind its `Erase`. -/
def a₀ : Council := .fresh ['a']
def a₁ : Council := a₀.initializeOn path true true
def a₂ : Council := a₁.onData path (some one) none
def a₃ : Council := a₂.created (some (childPath path (childName a₂.nodeName 0)))
def a₄ : Council := { a₃ with stage := .gotChildren (some zk₁.children) }
def a₅ : Council := a₄.attendAmong (some zk₁.children)
def a₆ : Council := a₅.shutdown
def a₇ : Council := { a₆ with stage := .erased true true true }

/-- The second instance: it tracks the first, and is elected in its place. -/
def b₀ : Council := .fresh ['b']
def b₁ : Council := b₀.initializeOn path true true
def b₂ : Council := b₁.onData path (some one) none
def b₃ : Council := b₂.created (some (childPath path (childName b₂.nodeName 1)))
def b₄ : Council := { b₃ with stage := .gotChildren (some zk₂.children) }
def b₅ : Council := b₄.attendAmong (some zk₂.children)
def b₆ : Council := b₅.tracked first [] true
def b₇ : Council := b₆.onData first none none
def b₈ : Council := { b₇ with stage := .gotChildren (some zk₃.children) }
def b₉ : Council := b₈.attendAmong (some zk₃.children)

/-- The first instance is elected. -/
theorem reachable_elected :
    Runs.Reachable (election Bool path one) (duo zk₁ a₅ b₀ [] []) := by
  have h₀ : Runs.Reachable (election Bool path one) (duo zk₀ a₀ b₀ [] []) := by
    refine .start ⟨rfl, fun i => ?_, fun i => ?_⟩
    · cases i
      · exact ⟨['a'], rfl⟩
      · exact ⟨['b'], rfl⟩
    · cases i <;> rfl
  have h₁ : Runs.Reachable (election Bool path one) (duo zk₀ a₁ b₀ [] []) :=
    reachable_duo h₀ (.initializeOn false true true) (.initializeOn rfl)
      rfl rfl rfl rfl rfl
  have h₂ : Runs.Reachable (election Bool path one) (duo zk₀ a₂ b₀ [] []) :=
    reachable_duo h₁ (.onData false path (some one) none)
      (.onData rfl rfl (.inl ⟨rfl, .inr rfl⟩)) rfl rfl rfl rfl rfl
  have h₃ : Runs.Reachable (election Bool path one) (duo zk₁ a₃ b₀ [] []) :=
    reachable_duo h₂ (.create false true true)
      (.create (show a₂.stage = .create by decide) (fun _ => rfl)
        fun _ => ⟨show '/' ∉ a₂.nodeName by decide, by decide⟩)
      rfl rfl rfl rfl rfl
  have h₄ : Runs.Reachable (election Bool path one) (duo zk₁ a₄ b₀ [] []) :=
    reachable_duo h₃ (.getChildren false true)
      (.getChildren (show a₃.stage = .getChildren by decide))
      rfl rfl rfl rfl rfl
  exact reachable_duo h₄ (.attendAmong false)
    (.attendAmong (show a₄.stage = _ from rfl)) rfl rfl rfl rfl rfl

/-- The second instance waits for the first. -/
theorem reachable_waiting :
    Runs.Reachable (election Bool path one) (duo zk₂ a₅ b₆ [] []) := by
  have h₁ : Runs.Reachable (election Bool path one) (duo zk₁ a₅ b₁ [] []) :=
    reachable_duo reachable_elected (.initializeOn true true true)
      (.initializeOn rfl) rfl rfl rfl rfl rfl
  have h₂ : Runs.Reachable (election Bool path one) (duo zk₁ a₅ b₂ [] []) :=
    reachable_duo h₁ (.onData true path (some one) none)
      (.onData rfl rfl (.inl ⟨rfl, .inr rfl⟩)) rfl rfl rfl rfl rfl
  have h₃ : Runs.Reachable (election Bool path one) (duo zk₂ a₅ b₃ [] []) :=
    reachable_duo h₂ (.create true true true)
      (.create (show b₂.stage = .create by decide) (fun _ => rfl)
        fun _ => ⟨show '/' ∉ b₂.nodeName by decide, by decide⟩)
      rfl rfl rfl rfl rfl
  have h₄ : Runs.Reachable (election Bool path one) (duo zk₂ a₅ b₄ [] []) :=
    reachable_duo h₃ (.getChildren true true)
      (.getChildren (show b₃.stage = .getChildren by decide))
      rfl rfl rfl rfl rfl
  have h₅ : Runs.Reachable (election Bool path one) (duo zk₂ a₅ b₅ [] []) :=
    reachable_duo h₄ (.attendAmong true)
      (.attendAmong (show b₄.stage = _ from rfl)) rfl rfl rfl rfl rfl
  exact reachable_duo h₅ (.track true true)
    (.track (show b₅.stage = .track [first] by decide)) rfl rfl rfl rfl rfl

/-- The first instance has erased its node, and not reset yet. -/
theorem reachable_leaving :
    Runs.Reachable (election Bool path one) (duo zk₃ a₇ b₆ [] []) := by
  have h₁ : Runs.Reachable (election Bool path one) (duo zk₂ a₆ b₆ [] []) :=
    reachable_duo reachable_waiting (.shutdown false)
      (.shutdown (show a₅.stage = .idle by decide)) rfl rfl rfl rfl rfl
  exact reachable_duo h₁ (.erase false true true)
    (.erase (show a₆.stage = .erase first true true by decide) fun _ => rfl)
    rfl rfl rfl rfl rfl

end Sample

/-- One instance elected to one seat. -/
theorem elected_at_most_one : ({false} : Finset Bool).card ≤ 1 ∧
    0 ≤ ((duo Sample.zk₁ Sample.a₅ Sample.b₀ [] []).council false).id := by
  refine ⟨elected_at_most Sample.reachable_elected ?_ ?_, by decide⟩
  · intro i hi
    rw [Finset.mem_singleton.mp hi]
    decide
  · intro i hi
    rw [Finset.mem_singleton.mp hi]
    rintro ⟨⟨answered, recoverable, quit, hs⟩, -⟩
    exact absurd hs (by decide +revert)

/-- **TWO ON ONE SEAT**: while the first instance waits for the answer of its
    `Erase`, the second learns that the node is missing and is elected. -/
theorem elected_while_leaving :
    ¬∀ s, Runs.Reachable (election Bool Sample.path Sample.one) s →
      ∀ elected : Finset Bool, (∀ i ∈ elected, 0 ≤ (s.council i).id) →
        elected.card ≤ (atoi32 Sample.one).toNat := by
  open Sample in
  have h₁ : Runs.Reachable (election Bool path one)
      (duo zk₃ a₇ b₇ [] [first]) :=
    reachable_duo reachable_leaving (.onData true first none none)
      (.onData (show b₆.stage = .idle by decide) rfl
        (.inr ⟨['a'], 0, by decide, rfl, fun _ => by decide⟩)) rfl rfl rfl rfl rfl
  open Sample in
  have h₂ : Runs.Reachable (election Bool path one)
      (duo zk₃ a₇ b₈ [] [first]) :=
    reachable_duo h₁ (.getChildren true true)
      (.getChildren (show b₇.stage = .getChildren by decide))
      rfl rfl rfl rfl rfl
  open Sample in
  have h₃ : Runs.Reachable (election Bool path one)
      (duo zk₃ a₇ b₉ [] [first]) :=
    reachable_duo h₂ (.attendAmong true)
      (.attendAmong (show b₈.stage = _ from rfl)) rfl rfl rfl rfl rfl
  intro hclaim
  have hcard := hclaim _ h₃ Finset.univ fun i _ => by
    cases i
    · show 0 ≤ Sample.a₇.id
      decide
    · show 0 ≤ Sample.b₉.id
      decide
  exact absurd hcard (by decide)

end FlinterCouncil
