import Flinter.CouncilElectionProofs

/-! # Council: who waits while a seat is free waits for a node that is gone

    An instance that is not elected tracks as many candidates before it as there
    are seats, those nearest to it in its list.  While a seat is free for it
    fewer than that are out, so one of these is gone (`Tickets.exists_gone`).

    It has not been told yet: a path is tracked only behind a list that has its
    node, and a node that was reported missing is on no later list, since its
    number is not used again. -/

namespace FlinterCouncil

open OrderedMaps

variable {electionPath size : Text} {zk zk' : ZooKeeper} {c c' : Council}
variable {reported : List Text}

-- ── Waiting ──────────────────────────────────────────────────────────────────

/-- The paths have as many candidates before the instance as there are seats,
    and none that was reported missing. -/
def Council.Waits (electionPath : Text) (reported : List Text) (c : Council)
    (paths : List Text) : Prop :=
  ∃ t : Finset Int, c.size ≤ t.card ∧ ∀ k ∈ t, ValidId k ∧ k < c.actualId ∧
    ∃ nodeName, nodeName ≠ [] ∧
      childPath electionPath (childName nodeName k) ∈ paths ∧
      childPath electionPath (childName nodeName k) ∉ reported

/-- The children are named as they were made, and none was reported missing. -/
def Unreported (electionPath : Text) (reported children : List Text) : Prop :=
  ∀ child ∈ children, childPath electionPath child ∉ reported ∧
    ∀ e, getCandidate child = some e →
      child = childName e.2 e.1 ∧ ValidId e.1 ∧ e.2 ≠ []

/-- What was reported missing stays so. -/
def Missing (electionPath : Text) (zk : ZooKeeper) (reported : List Text) :
    Prop :=
  ∀ path ∈ reported, path = electionPath ∨
    ∃ nodeName : Text, ∃ n : Nat, n < zk.nextSequence ∧
      path = childPath electionPath (childName nodeName n) ∧
      childName nodeName n ∉ zk.children

/-- What holds at the stages that lead to waiting, and while it waits. -/
def Council.Watches (electionPath : Text) (reported : List Text)
    (c : Council) : Prop :=
  match c.stage with
  | .idle => 0 ≤ c.actualId → c.id < 0 → 0 < c.size →
      c.Waits electionPath reported c.tracks
  | .gotChildren (some children) => Unreported electionPath reported children
  | .track paths => c.Waits electionPath reported (c.tracks ++ paths)
  | _ => True

/-- The instance has nothing to wait for, or has yet to find out. -/
def Council.Free (c : Council) : Prop :=
  match c.stage with
  | .idle => c.actualId < 0 ∨ 0 ≤ c.id ∨ c.size ≤ 0
  | .gotChildren (some _) => False
  | .track _ => False
  | _ => True

theorem Council.Free.watches (h : c.Free) :
    c.Watches electionPath reported := by
  rw [Council.Free] at h
  rw [Council.Watches]
  cases hs : c.stage with
  | idle =>
      rw [hs] at h
      intro h0 hid hsize
      rcases h with hneg | helected | hnone
      · exact absurd hneg (not_lt.mpr h0)
      · exact absurd hid (not_lt.mpr helected)
      · exact absurd hsize (not_lt.mpr hnone)
  | gotChildren children =>
      rw [hs] at h
      cases children with
      | none => trivial
      | some children => exact h.elim
  | track paths =>
      rw [hs] at h
      exact h.elim
  | create => trivial
  | eraseInvalid path => trivial
  | getChildren => trivial
  | erase path recoverable quit => trivial
  | erased answered recoverable quit => trivial

/-- More paths are as good. -/
theorem Council.Waits.mono {paths paths' : List Text}
    (h : c.Waits electionPath reported paths) (hsub : paths ⊆ paths') :
    c.Waits electionPath reported paths' := by
  obtain ⟨t, hcard, ht⟩ := h
  refine ⟨t, hcard, fun k hk => ?_⟩
  obtain ⟨hvalid, hlt, nodeName, hne, hmem, hnew⟩ := ht k hk
  exact ⟨hvalid, hlt, nodeName, hne, hsub hmem, hnew⟩

-- ── Nothing to wait for ──────────────────────────────────────────────────────

theorem Council.Ended.free (h : c.Ended c')
    (hc : c.actualId < 0 ∨ c.size ≤ 0) : c'.Free := by
  rw [Council.Free, h.stage]
  rcases hc with hid | hsize
  · exact .inl (h.actualId_neg hid)
  · refine .inr (.inr ?_)
    rcases h.node with ⟨-, heq⟩ | ⟨-, heq⟩
    · rw [heq]
      exact hsize
    · rw [heq]
      decide

theorem doQuitClean_free (c : Council) (recoverable quit : Bool) :
    (c.doQuitClean recoverable quit).Free := by
  by_cases hid : 0 ≤ c.actualId
  · rw [doQuitClean_of_nonneg hid]
    trivial
  · rw [not_le] at hid
    obtain ⟨c', hended, heq⟩ := doQuitClean_of_neg hid recoverable quit
    rw [heq]
    split
    · rw [Council.Free, Council.clear, hended.stage]
      exact .inl (hended.actualId_neg hid)
    · exact hended.free (.inl hid)

theorem onFired_free (c : Council) (recoverable : Bool) :
    (c.onFired recoverable).Free := doQuitClean_free c recoverable false

theorem attend_free (c : Council) (hostname : Option Text) :
    (c.attend hostname).Free := by
  rw [Council.attend]
  split
  · trivial
  · split
    · exact onFired_free _ false
    · trivial

theorem created_free (c : Council) (answer : Option Text) :
    (c.created answer).Free := by
  cases answer with
  | none => exact onFired_free _ false
  | some actual =>
      simp only [Council.created]
      split
      · trivial
      · split
        · trivial
        · trivial

theorem finishQuitClean_free (c : Council) (answered recoverable quit : Bool) :
    (c.finishQuitClean answered recoverable quit).Free := by
  have hended := ended_doLostClean { c with actualId := -1 }
    (recoverable && answered)
  have hid := hended.actualId_neg (show (-1 : Int) < 0 from neg_one_neg)
  rw [Council.finishQuitClean]
  split
  · exact .inl hid
  · exact .inl hid

theorem initializeOn_free (c : Council) (electionPath : Text) (cb ok : Bool)
    (hidle : c.stage = .idle) :
    c.initializeOn electionPath cb ok = c ∨
      (c.initializeOn electionPath cb ok).Free := by
  rw [Council.initializeOn]
  split
  · exact .inl rfl
  · refine .inr ?_
    simp only [Council.Free, Council.resetState, Bool.false_eq_true, if_false,
      hidle]
    exact .inl neg_one_neg

theorem shutdown_free (c : Council) : c.shutdown = c ∨ c.shutdown.Free := by
  rw [Council.shutdown]
  split
  · exact .inl rfl
  · exact .inr (doQuitClean_free _ true true)

-- ── What is reported ─────────────────────────────────────────────────────────

/-- Reports are of the election node or of a child of it. -/
theorem Reports.take {path : Text} {data : Option Text}
    (h : Reports electionPath size zk path data) :
    path.take electionPath.length = electionPath := by
  rcases h with ⟨rfl, -⟩ | ⟨nodeName, n, -, rfl, -⟩
  · exact List.take_length
  · exact take_childPath

/-- A node reported missing is attended for, but by those who are elected;
    anything else is ignored, or of the election node. -/
theorem onData_watches {path : Text} {data hostname : Option Text}
    (hpath : c.electionPath = electionPath) (hidle : c.stage = .idle)
    (hreports : Reports electionPath size zk path data)
    (h : c.Watches electionPath reported) :
    (c.onData path data hostname).Watches electionPath
      (if data.isNone then path :: reported else reported) := by
  have hprefix : ¬path.take c.electionPath.length ≠ c.electionPath :=
    not_not.mpr (hpath ▸ hreports.take)
  cases data with
  | none =>
      show (c.onData path none hostname).Watches electionPath (path :: reported)
      refine Council.Free.watches ?_
      rw [Council.onData]
      rw [if_neg hprefix]
      split
      · exact onFired_free c true
      · rw [if_neg (by simp)]
        split
        case isTrue helected =>
            rw [Council.Free, hidle]
            exact .inr (.inl helected)
        case isFalse => exact attend_free _ hostname
  | some data =>
      show (c.onData path (some data) hostname).Watches electionPath reported
      rw [Council.onData]
      rw [if_neg hprefix]
      split
      · dsimp only
        split
        · have hended := ended_onShrinked { c with size := -1 } true
          exact (hended.free (.inr (le_of_lt neg_one_neg))).watches
        · exact (attend_free _ hostname).watches
      · exact h

/-- Missing children are not listed. -/
theorem Missing.unreported (h : Missing electionPath zk reported)
    (hzk : zk.Ok) : Unreported electionPath reported zk.children := by
  intro child hmem
  refine ⟨fun hreported => ?_, fun e hc => ?_⟩
  · rcases h _ hreported with heq | ⟨nodeName, n, -, heq, hgone⟩
    · exact ne_childPath heq.symm
    · rw [childPath_inj] at heq
      exact hgone (heq ▸ hmem)
  · obtain ⟨heq, hvalid, -, hne⟩ := hzk.candidate hmem hc
    exact ⟨heq, hvalid, hne⟩

theorem Missing.create (h : Missing electionPath zk reported)
    (hseq : zk.nextSequence < 2 ^ 31) (nodeName : Text) :
    Missing electionPath (zk.create nodeName) reported := by
  intro path hp
  rcases h path hp with heq | ⟨nodeName', n, hn, heq, hgone⟩
  · exact .inl heq
  · refine .inr ⟨nodeName', n, Nat.lt_succ_of_lt hn, heq, fun hmem => ?_⟩
    rcases List.mem_cons.mp hmem with hnew | hmem
    · -- The number of the new one has not been used.
      exact childName_ne_of_lt hn hseq hnew
    · exact hgone hmem

theorem Missing.erase (h : Missing electionPath zk reported) (path : Text) :
    Missing electionPath (zk.erase electionPath path) reported := by
  intro path' hp
  rcases h path' hp with heq | ⟨nodeName, n, hn, heq, hgone⟩
  · exact .inl heq
  · exact .inr ⟨nodeName, n, hn, heq, fun hmem =>
      hgone (ZooKeeper.mem_erase.mp hmem).1⟩

theorem Missing.report (h : Missing electionPath zk reported) {path : Text}
    {data : Option Text} (hreports : Reports electionPath size zk path data) :
    Missing electionPath zk
      (if data.isNone then path :: reported else reported) := by
  cases data with
  | some data => exact h
  | none =>
      intro path' hp
      rcases List.mem_cons.mp hp with rfl | hp
      · rcases hreports with ⟨heq, -⟩ | ⟨nodeName, n, hn, heq, hgone⟩
        · exact .inl heq
        · exact .inr ⟨nodeName, n, hn, heq, hgone rfl⟩
      · exact h path' hp

-- ── What is tracked ──────────────────────────────────────────────────────────

/-- The loop of `Attend` keeps what it waits for. -/
theorem trackNext_watches {paths : List Text}
    (h : c.Waits electionPath reported (c.tracks ++ paths)) :
    (c.trackNext paths).Watches electionPath reported := by
  rw [Council.trackNext]
  split
  case isTrue hnil =>
      rw [hnil, List.append_nil] at h
      obtain ⟨called, heq⟩ := doLostClean_true c
      rw [Council.onShrinked, heq]
      exact fun _ _ _ => h
  case isFalse => exact h

theorem tracked_watches {path : Text} {paths : List Text}
    (h : c.Waits electionPath reported (c.tracks ++ path :: paths)) (ok : Bool) :
    (c.tracked path paths ok).Watches electionPath reported := by
  rw [Council.tracked]
  split
  case isTrue hmem =>
      have hcons : path :: (c.tracks ++ paths) ⊆ c.tracks ++ paths :=
        List.cons_subset.mpr
          ⟨List.mem_append_left _ hmem, List.Subset.refl _⟩
      exact trackNext_watches
        (h.mono (List.Subset.trans List.perm_middle.subset hcons))
  case isFalse =>
      split
      · exact trackNext_watches (c := { c with tracks := path :: c.tracks })
          (h.mono List.perm_middle.subset)
      · -- The node is given up without being erased.
        obtain ⟨called, heq⟩ := doLostClean_false c
        rw [Council.onShrinked, heq]
        exact fun h0 => absurd h0 (not_le.mpr neg_one_neg)

/-- **ENOUGH ARE TRACKED**: the nearest candidates before the instance are as
    many as there are seats, if by its own count it is not elected. -/
theorem waits_nearest {listed : List Text}
    (h : Unreported electionPath reported listed)
    (hmem : c.actualId ∈ (getCandidates listed).keys)
    (hpos : c.size < ((getCandidates listed).upTo c.actualId).length) :
    c.Waits electionPath reported
      ((((getCandidates listed).below c.actualId).reverse.take
        c.size.toNat).map fun p => childPath electionPath (childName p.2 p.1)) := by
  refine ⟨((((getCandidates listed).below c.actualId).reverse.take
    c.size.toNat).map (·.1)).toFinset, ?_, ?_⟩
  · rw [OrderedMap.card_nearest]
    rw [OrderedMap.length_upTo_of_mem hmem] at hpos
    omega
  · intro k hk
    obtain ⟨e, he, rfl⟩ := List.mem_map.mp (List.mem_toFinset.mp hk)
    have hbelow := List.mem_reverse.mp (List.mem_of_mem_take he)
    obtain ⟨hentry, hlt⟩ := OrderedMap.mem_below.mp hbelow
    obtain ⟨child, hchild, hc⟩ := mem_entries_getCandidates hentry
    obtain ⟨hnew, hnamed⟩ := h child hchild
    obtain ⟨rfl, hvalid, hne⟩ := hnamed e hc
    exact ⟨hvalid, hlt, e.2, hne, List.mem_map.mpr ⟨e, he, rfl⟩, hnew⟩

/-- `Attend` among the children it listed. -/
theorem attendAmong_watches (hpath : c.electionPath = electionPath)
    (h0 : 0 ≤ c.actualId) {children : Option (List Text)}
    (h : ∀ listed, children = some listed →
      Unreported electionPath reported listed) :
    (c.attendAmong children).Watches electionPath reported := by
  cases children with
  | none =>
      exact Council.Free.watches (.inr (.inr (le_of_lt neg_one_neg)))
  | some listed =>
      simp only [Council.attendAmong]
      split
      · exact (onFired_free c false).watches
      case isFalse hmem =>
        rw [not_not] at hmem
        split
        · split
          case isTrue helected =>
              exact Council.Free.watches (.inr (.inl helected))
          case isFalse =>
              split
              · exact Council.Free.watches (.inr (.inl h0))
              · exact Council.Free.watches (.inr (.inl h0))
        case isFalse hpos =>
            have hnearest := waits_nearest (h listed rfl) hmem (not_le.mp hpos)
            rw [← hpath] at hnearest ⊢
            have hall := hnearest.mono (List.subset_append_right c.tracks _)
            exact trackNext_watches (c := { c with violated := _ }) hall

-- ── The election ─────────────────────────────────────────────────────────────

section Election

variable {ι : Type} [DecidableEq ι] {s s' : Election ι} {i : ι}

/-- **THE INVARIANT**: every instance watches what it waits for, and what was
    reported missing stays so. -/
structure Election.Watched (electionPath : Text) (s : Election ι) : Prop where
  watches : ∀ i, (s.council i).Watches electionPath (s.reported i)
  missing : ∀ i, Missing electionPath s.zk (s.reported i)

/-- The invariant after a step of one instance. -/
theorem Election.Watched.update (inv : s.Watched electionPath)
    {reported : ι → List Text} (hothers : ∀ j, j ≠ i → reported j = s.reported j)
    (hc : c'.Watches electionPath (reported i))
    (hmissing : ∀ j, Missing electionPath zk' (reported j)) :
    Election.Watched electionPath
      ⟨zk', Function.update s.council i c', reported⟩ := by
  refine ⟨fun j => ?_, hmissing⟩
  show (Function.update s.council i c' j).Watches electionPath (reported j)
  by_cases hj : j = i
  · rw [hj, Function.update_self]
    exact hc
  · rw [Function.update_of_ne hj, hothers j hj]
    exact inv.watches j

/-- The invariant after a step that reports nothing. -/
theorem Election.Watched.goes (inv : s.Watched electionPath)
    (hc : c'.Watches electionPath (s.reported i))
    (hserver : ∀ reported, Missing electionPath s.zk reported →
      Missing electionPath zk' reported) :
    Election.Watched electionPath
      ⟨zk', Function.update s.council i c', s.reported⟩ :=
  inv.update (fun _ _ => rfl) hc fun j => hserver _ (inv.missing j)

/-- One step keeps the invariant. -/
theorem Election.Watched.step {a : Action ι} (inv : s.Watched electionPath)
    (hok : s.Ok electionPath size) (hs : Step electionPath size s a s') :
    s'.Watched electionPath := by
  cases hs with
  | @initializeOn i cb ok hidle =>
      refine inv.goes (i := i) ?_ fun _ h => h
      rcases initializeOn_free (s.council i) electionPath cb ok hidle with
        heq | hfree
      · rw [heq]
        exact inv.watches i
      · exact hfree.watches
  | @onData i path data hostname hidle hzk hreports =>
      have hknown := (hok.council i).known hzk
      refine inv.update (i := i) (fun j hj => Function.update_of_ne hj _ _) ?_
        fun j => ?_
      · rw [Function.update_self]
        exact onData_watches hknown.path hidle hreports (inv.watches i)
      · by_cases hj : j = i
        · rw [hj, Function.update_self]
          exact (inv.missing i).report hreports
        · rw [Function.update_of_ne hj]
          exact inv.missing j
  | @onError i hidle hzk =>
      exact inv.goes (onFired_free _ false).watches fun _ h => h
  | @shutdown i hidle =>
      refine inv.goes (i := i) ?_ fun _ h => h
      rcases shutdown_free (s.council i) with heq | hfree
      · rw [heq]
        exact inv.watches i
      · exact hfree.watches
  | @create i made answered hstage hans hmade =>
      refine inv.goes (created_free _ _).watches fun _ h => ?_
      cases made with
      | false => exact h
      | true => exact h.create (hmade rfl).2 _
  | @eraseInvalid i path erased hstage =>
      refine inv.goes (onFired_free _ false).watches fun _ h => ?_
      cases erased with
      | false => exact h
      | true => exact h.erase path
  | @getChildren i answered hstage =>
      refine inv.goes (i := i) ?_ fun _ h => h
      cases answered with
      | false => trivial
      | true => exact (inv.missing i).unreported hok.zk
  | @attendAmong i children hstage =>
      obtain ⟨hknown, -, hat⟩ := (hok.council i).held_of_stage (by simp [hstage])
        (by simp [hstage])
      rw [Council.AtStage, hstage] at hat
      have hwatches := inv.watches i
      rw [Council.Watches, hstage] at hwatches
      refine inv.goes (i := i) ?_ fun _ h => h
      cases children with
      | none => exact attendAmong_watches hknown.path hat fun _ h => by simp at h
      | some listed =>
          refine attendAmong_watches hknown.path hat.1 fun _ h => ?_
          rw [← Option.some.inj h]
          exact hwatches
  | @track i path paths ok hstage =>
      have hwatches := inv.watches i
      rw [Council.Watches, hstage] at hwatches
      exact inv.goes (tracked_watches hwatches ok) fun _ h => h
  | @erase i path recoverable quit erased answered hstage hans =>
      refine inv.goes (i := i) trivial fun _ h => ?_
      cases erased with
      | false => exact h
      | true => exact h.erase path
  | @finishQuitClean i answered recoverable quit hstage =>
      exact inv.goes (finishQuitClean_free _ _ _ _).watches fun _ h => h
  | @close child hnobody =>
      exact ⟨inv.watches, fun j => (inv.missing j).erase _⟩

/-- Every run keeps the invariant. -/
theorem Election.Watched.reachable
    (h : Runs.Reachable (election ι electionPath size) s) :
    s.Watched electionPath := by
  refine h.invariant ?_ ?_
  · rintro s ⟨-, hfresh, hreported⟩
    refine ⟨fun i => ?_, fun i => ?_⟩
    · obtain ⟨name, heq⟩ := hfresh i
      rw [heq]
      exact Council.Free.watches (.inl neg_one_neg)
    · rw [hreported i]
      exact fun _ hp => absurd hp List.not_mem_nil
  · intro s a s' hr inv hs
    exact inv.step (Election.Ok.reachable hr) hs

-- ── A free seat ──────────────────────────────────────────────────────────────

/-- Who is told that a node is missing lists the children again. -/
theorem onData_missing (h0 : 0 ≤ c.actualId) (hid : c.id < 0) (child : Text)
    (hostname : Option Text) :
    (c.onData (childPath c.electionPath child) none hostname).stage =
      .getChildren := by
  rw [Council.onData]
  rw [if_neg (not_not.mpr take_childPath), if_neg ne_childPath, if_neg (by simp),
    if_neg (not_le.mpr hid), Council.attend, if_pos h0]

/-- **NO MISSED ELECTION**: in every reachable state, an instance that has its
    node, is not elected and in no step, while fewer candidates than its size
    are before it, tracks one that is gone.  It has not been told, and when it is
    it lists the children again. -/
theorem tracks_missing (h : Runs.Reachable (election ι electionPath size) s)
    (hidle : (s.council i).stage = .idle) (h0 : 0 ≤ (s.council i).actualId)
    (hid : (s.council i).id < 0)
    (hfew : (((getCandidates s.zk.children).below
      (s.council i).actualId).length : Int) < (s.council i).size) :
    ∃ path ∈ (s.council i).tracks, path ∉ s.reported i ∧
      (∃ child, path = childPath electionPath child ∧
        child ∉ s.zk.children) ∧
      ∀ hostname, ∃ s', Step electionPath size s (.onData i path none hostname) s' ∧
        (s'.council i).stage = .getChildren := by
  have hok := Election.Ok.reachable h
  have hzk : (s.council i).zk = true := by
    cases hok.council i with
    | away _ hneg => exact absurd h0 (not_le.mpr hneg)
    | held hk => exact hk.zk
    | gone hk => exact hk.zk
  have hknown := (hok.council i).known hzk
  have hwatches := (Election.Watched.reachable h).watches i
  rw [Council.Watches, hidle] at hwatches
  obtain ⟨t, hcard, ht⟩ := hwatches h0 hid (by omega)
  rw [OrderedMap.length_below] at hfew
  obtain ⟨k, hk, hgone⟩ := Tickets.exists_gone (fun k hk => (ht k hk).2.1)
    (Int.ofNat_lt.mp (lt_of_lt_of_le hfew hcard))
  obtain ⟨hvalid, hlt, nodeName, hne, hmem, hnew⟩ := ht k hk
  -- Its number is one that was given out, and its node is no child.
  obtain ⟨n, rfl⟩ := Int.eq_ofNat_of_zero_le hvalid.1
  have hminted := hknown.minted
  have hchild : childName nodeName n ∉ s.zk.children := by
    intro hc
    exact hgone (mem_keys_getCandidates.mpr
      ⟨_, hc, nodeName, getCandidate_childName hvalid hne⟩)
  refine ⟨_, hmem, hnew, ⟨_, rfl, hchild⟩, fun hostname => ⟨_, .onData hidle hzk
    (.inr ⟨nodeName, n, by omega, rfl, fun _ => hchild⟩), ?_⟩⟩
  show ((s.setCouncil i _).council i).stage = .getChildren
  rw [setCouncil_self, ← hknown.path]
  exact onData_missing h0 hid _ hostname

end Election

/-- The first instance has erased its node, and the second has not been told. -/
theorem tracks_missing_first : ∃ path ∈ Sample.b₆.tracks, path ∉ [] ∧
    (∃ child, path = childPath Sample.path child ∧
      child ∉ Sample.zk₃.children) ∧
    ∀ hostname, ∃ s', Step Sample.path Sample.one
      (duo Sample.zk₃ Sample.a₇ Sample.b₆ [] [])
      (.onData true path none hostname) s' ∧
        (s'.council true).stage = .getChildren :=
  tracks_missing Sample.reachable_leaving (i := true)
    (show Sample.b₆.stage = .idle by decide)
    (show 0 ≤ Sample.b₆.actualId by decide) (show Sample.b₆.id < 0 by decide)
    (show (((getCandidates Sample.zk₃.children).below
      Sample.b₆.actualId).length : Int) < Sample.b₆.size by decide)

end FlinterCouncil
