import Flinter.CouncilProofs

/-! # Council: the assertions of Attend

    One instance among notifications, errors and session losses of any kind and
    in any order, with any answers of ZooKeeper: `council` below asks nothing of
    its environment.

    `Attend` walks back from its own candidate over `_size` predecessors when
    more than `_size` candidates are not behind it, so that with a size of at
    least one the walk stays within the map.  It also runs when a predecessor is
    reported missing, and by then the size may be -1: an invalid size or a list
    that could not be had leave the predecessors tracked.  If the own candidate
    is the first one then, the assertion fails (`attend_asserts`,
    `walks_back_from_first`). -/

namespace FlinterCouncil

open OrderedMaps Runs

-- ── One instance in any environment ──────────────────────────────────────────

/-- What can happen to an instance, with what the calls are answered. -/
inductive Happening where
  | initializeOn (electionPath : Text) (cb ok : Bool)
  | onData (path : Text) (data hostname : Option Text)
  | onError (expired : Bool)
  | shutdown
  | create (answer : Option Text)
  | eraseInvalid
  | getChildren (children : Option (List Text))
  | attendAmong
  | track (ok : Bool)
  | erase (answered : Bool)
  | finishQuitClean

/-- One step, if it can be taken. -/
def happen (c : Council) : Happening → Option Council
  | .initializeOn electionPath cb ok =>
    if c.stage = .idle then some (c.initializeOn electionPath cb ok) else none
  | .onData path data hostname =>
    if c.stage = .idle ∧ c.zk = true then some (c.onData path data hostname)
    else none
  | .onError expired =>
    if c.stage = .idle ∧ c.zk = true then some (c.onError expired) else none
  | .shutdown => if c.stage = .idle then some c.shutdown else none
  | .create answer =>
    if c.stage = .create then some (c.created answer) else none
  | .eraseInvalid =>
    match c.stage with
    | .eraseInvalid _ => some (c.onFired false)
    | _ => none
  | .getChildren children =>
    if c.stage = .getChildren then some { c with stage := .gotChildren children }
    else none
  | .attendAmong =>
    match c.stage with
    | .gotChildren children => some (c.attendAmong children)
    | _ => none
  | .track ok =>
    match c.stage with
    | .track (path :: paths) => some (c.tracked path paths ok)
    | _ => none
  | .erase answered =>
    match c.stage with
    | .erase _ recoverable quit =>
      some { c with stage := .erased answered recoverable quit }
    | _ => none
  | .finishQuitClean =>
    match c.stage with
    | .erased answered recoverable quit =>
      some (c.finishQuitClean answered recoverable quit)
    | _ => none

/-- The runs of one instance. -/
def council : System Council Happening where
  init := fun c => ∃ name, c = .fresh name
  step := fun c e c' => happen c e = some c'

-- ── The invariant ────────────────────────────────────────────────────────────

variable {c : Council} {children : List Text}

/-- `Attend` has its node, and looks at the candidates or is about to. -/
def Stage.attends : Stage → Bool
  | .getChildren => true
  | .gotChildren _ => true
  | _ => false

/-- **THE INVARIANT**: a busy instance is initialised, an initialised one has a
    path, and `Attend` goes on only with a node of its own. -/
structure Tended (c : Council) : Prop where
  path : c.zk = true → c.electionPath ≠ []
  busy : c.stage ≠ .idle → c.zk = true
  node : c.stage.attends = true → 0 ≤ c.actualId
  kept : c.violated = false

/-- An instance that is initialised, whatever its stage. -/
structure Inited (c : Council) : Prop where
  zk : c.zk = true
  path : c.electionPath ≠ []
  kept : c.violated = false

theorem Tended.inited (h : Tended c) (hzk : c.zk = true) : Inited c :=
  ⟨hzk, h.path hzk, h.kept⟩

/-- An instance is at rest, with or without its election. -/
theorem Inited.idle (h : Inited c) : Tended { c with stage := .idle } :=
  ⟨fun _ => h.path, fun hb => absurd rfl hb, fun ha => (by cases ha), h.kept⟩

theorem Inited.waits (h : Inited c) {stage : Stage}
    (hstage : stage.attends = false) : Tended { c with stage := stage } := by
  refine ⟨fun _ => h.path, fun _ => h.zk, fun ha => ?_, h.kept⟩
  rw [show stage.attends = true from ha] at hstage
  cases hstage

theorem Inited.doLostClean (h : Inited c) (recoverable : Bool) :
    Inited (c.doLostClean recoverable) := by
  have hreset : Inited (c.resetState recoverable) := by
    rw [Council.resetState]
    split
    · exact ⟨h.zk, h.path, h.kept⟩
    · exact ⟨h.zk, h.path, h.kept⟩
  rw [Council.doLostClean]
  split
  · exact ⟨hreset.zk, hreset.path, hreset.kept⟩
  · exact hreset

theorem Inited.clear (h : Inited c) :
    Tended (Council.clear { c with stage := .idle }) :=
  ⟨fun hz => (by cases hz), fun hb => absurd rfl hb, fun ha => (by cases ha),
    h.kept⟩

/-- The end of `DoQuitClean`, and of `Shutdown` if it is one. -/
theorem Inited.finish (h : Inited c) (quit : Bool) :
    Tended (if quit then Council.clear { c with stage := .idle }
      else { c with stage := .idle }) := by
  cases quit with
  | true => exact h.clear
  | false => exact h.idle

/-- The assertion of `DoQuitClean`. -/
theorem Inited.asserted (h : Inited c) :
    Inited { c with violated := c.violated || c.electionPath.isEmpty } := by
  have hpath : c.electionPath.isEmpty = false :=
    Bool.eq_false_iff.mpr fun he => h.path (List.isEmpty_iff.mp he)
  exact ⟨h.zk, h.path, by rw [h.kept, hpath]; rfl⟩

theorem Inited.doQuitClean (h : Inited c) (recoverable quit : Bool) :
    Tended (c.doQuitClean recoverable quit) := by
  rw [Council.doQuitClean]
  extract_lets c₁ c₂
  split
  · exact h.asserted.waits rfl
  · exact (h.asserted.doLostClean recoverable).finish quit

theorem Inited.onFired (h : Inited c) (recoverable : Bool) :
    Tended (c.onFired recoverable) := h.doQuitClean recoverable false

/-- Without a node `OnFired` has nothing to erase. -/
theorem Inited.onFired_unmade (h : Inited c) (hnode : ¬ 0 ≤ c.actualId)
    (recoverable : Bool) : Inited (c.onFired recoverable) := by
  have hlost := h.asserted.doLostClean recoverable
  rw [Council.onFired, Council.doQuitClean, if_neg hnode]
  exact ⟨hlost.zk, hlost.path, hlost.kept⟩

theorem Inited.onShrinked (h : Inited c) (recoverable : Bool) :
    Tended (c.onShrinked recoverable) := (h.doLostClean recoverable).idle

theorem Inited.finishQuitClean (h : Inited c) (answered recoverable quit : Bool) :
    Tended (c.finishQuitClean answered recoverable quit) := by
  have hc : Inited { c with actualId := -1 } := ⟨h.zk, h.path, h.kept⟩
  exact (hc.doLostClean (recoverable && answered)).finish quit

-- ── The methods ──────────────────────────────────────────────────────────────

/-- The first assertion of `Attend`. -/
theorem Inited.attend (h : Inited c) (hostname : Option Text) :
    Tended (c.attend hostname) := by
  rw [Council.attend]
  split
  next hnode => exact ⟨fun _ => h.path, fun _ => h.zk, fun _ => hnode, h.kept⟩
  next hnode =>
    split
    · exact (h.onFired_unmade hnode false).onFired false
    · exact ⟨fun _ => h.path, fun _ => h.zk, fun ha => (by cases ha), h.kept⟩

theorem Inited.created (h : Inited c) (answer : Option Text) :
    Tended (c.created answer) := by
  cases answer with
  | none => exact Inited.onFired (c := { c with size := -1 }) ⟨h.zk, h.path, h.kept⟩ _
  | some actual =>
      dsimp only [Council.created]
      split
      · exact h.waits rfl
      split
      · exact ⟨fun _ => h.path, fun _ => h.zk, fun ha => (by cases ha), h.kept⟩
      next hi =>
        exact ⟨fun _ => h.path, fun _ => h.zk, fun _ => Int.not_lt.mp hi, h.kept⟩

theorem Inited.trackNext (h : Inited c) (paths : List Text) :
    Tended (c.trackNext paths) := by
  rw [Council.trackNext]
  split
  · exact h.onShrinked true
  · exact h.waits rfl

theorem Inited.tracked (h : Inited c) (path : Text) (paths : List Text)
    (ok : Bool) : Tended (c.tracked path paths ok) := by
  rw [Council.tracked]
  split
  · exact h.trackNext paths
  split
  · exact Inited.trackNext (c := { c with tracks := path :: c.tracks })
      ⟨h.zk, h.path, h.kept⟩ paths
  · exact h.onShrinked false

theorem doLostClean_violated (c : Council) (recoverable : Bool) :
    (c.doLostClean recoverable).violated = c.violated := by
  have hreset : (c.resetState recoverable).violated = c.violated := by
    rw [Council.resetState]
    split
    · rfl
    · rfl
  rw [Council.doLostClean]
  split
  · exact hreset
  · exact hreset

/-- Tracking asserts nothing. -/
theorem trackNext_violated (c : Council) (paths : List Text) :
    (c.trackNext paths).violated = c.violated := by
  rw [Council.trackNext]
  split
  · exact doLostClean_violated c true
  · rfl

/-- The own candidate is the first of those listed, and the size is not one. -/
def Council.Unsized (c : Council) (children : List Text) : Prop :=
  c.size < 1 ∧ c.actualId ∈ (getCandidates children).keys ∧
    (getCandidates children).below c.actualId = []

/-- **THE WALK**: behind at least `_size` predecessors it stays in the map, and
    it starts at the first candidate only without a size. -/
theorem walk_iff (hmem : c.actualId ∈ (getCandidates children).keys)
    (hover : c.size < ((getCandidates children).upTo c.actualId).length) :
    (((getCandidates children).below c.actualId).reverse.isEmpty ||
      decide ((((getCandidates children).below c.actualId).reverse.length : Int) <
        c.size)) = true ↔ c.Unsized children := by
  rw [OrderedMap.length_upTo_of_mem hmem] at hover
  rw [Bool.or_eq_true, List.isEmpty_iff, List.reverse_eq_nil_iff,
    decide_eq_true_eq, List.length_reverse]
  constructor
  · rintro (hfirst | hshort)
    · rw [hfirst] at hover
      refine ⟨?_, hmem, hfirst⟩
      simpa using hover
    · omega
  · rintro ⟨-, -, hfirst⟩
    exact Or.inl hfirst

theorem Inited.attendAmong (h : Inited c) (answer : Option (List Text))
    (hsized : ∀ children, answer = some children → ¬ c.Unsized children) :
    Tended (c.attendAmong answer) := by
  cases answer with
  | none => exact ⟨fun _ => h.path, fun hb => absurd rfl hb,
      fun ha => (by cases ha), h.kept⟩
  | some children =>
      rw [Council.attendAmong]
      extract_lets candidates pos before c₂
      split
      · exact h.onFired false
      next hmem =>
      have hmem' : c.actualId ∈ (getCandidates children).keys := not_not.mp hmem
      split
      · split
        · exact h.idle
        · split
          · exact ⟨fun _ => h.path, fun hb => absurd rfl hb,
              fun ha => (by cases ha), h.kept⟩
          · exact ⟨fun _ => h.path, fun hb => absurd rfl hb,
              fun ha => (by cases ha), h.kept⟩
      next hover =>
        have hwalk := walk_iff hmem' (Int.not_le.mp hover)
        have hc₂ : Inited c₂ := by
          refine ⟨h.zk, h.path, ?_⟩
          show (c.violated || before.isEmpty || _) = false
          rw [h.kept, Bool.false_or, Bool.eq_false_iff]
          exact fun hbad => hsized children rfl (hwalk.mp hbad)
        exact hc₂.trackNext _

theorem Inited.onData (h : Inited c) (path : Text) (data hostname : Option Text)
    (hidle : c.stage = .idle) : Tended (c.onData path data hostname) := by
  have hrest : Tended c :=
    ⟨fun _ => h.path, fun _ => h.zk, fun ha => (by rw [hidle] at ha; cases ha),
      h.kept⟩
  rw [Council.onData.eq_def]
  split
  · exact hrest
  split
  · split
    · exact h.onFired true
    next data =>
      extract_lets size
      split
      · exact Inited.onShrinked (c := { c with size := -1 })
          ⟨h.zk, h.path, h.kept⟩ true
      · exact Inited.attend (c := { c with size := size })
          ⟨h.zk, h.path, h.kept⟩ hostname
  split
  · exact hrest
  split
  · exact hrest
  · exact Inited.attend (c := { c with tracks := c.tracks.filter (· ≠ path) })
      ⟨h.zk, h.path, h.kept⟩ hostname

theorem Inited.onError (h : Inited c) (expired : Bool) :
    Tended (c.onError expired) := by
  cases expired with
  | false => exact h.onFired false
  | true =>
      have hc := h.doLostClean true
      exact Inited.idle
        (c := { c.doLostClean true with actualId := -1, size := -1 })
        ⟨hc.zk, hc.path, hc.kept⟩

theorem Tended.initializeOn (h : Tended c) (hidle : c.stage = .idle)
    (electionPath : Text) (cb ok : Bool) :
    Tended (c.initializeOn electionPath cb ok) := by
  rw [Council.initializeOn]
  split
  · exact h
  next hbad =>
    have hlong : ¬electionPath.length < 2 := fun hl => hbad (.inr (.inl hl))
    refine ⟨fun _ he => hlong ?_, fun _ => rfl, fun ha => ?_, h.kept⟩
    · rw [show electionPath = [] from he]
      decide
    · have ha' : c.stage.attends = true := ha
      rw [hidle] at ha'
      cases ha'

theorem Tended.shutdown (h : Tended c) : Tended c.shutdown := by
  rw [Council.shutdown]
  split
  · exact h
  next hzk =>
    have hi := h.inited (not_not.mp hzk)
    exact Inited.doQuitClean (c := { c with tracks := [] })
      ⟨hi.zk, hi.path, hi.kept⟩ true true

-- ── The runs ─────────────────────────────────────────────────────────────────

/-- `Attend` does not look at the candidates without a size while its own is the
    first one. -/
def Sized (c : Council) (e : Happening) : Prop :=
  e = .attendAmong → ∀ children, c.stage = .gotChildren (some children) →
    ¬c.Unsized children

/-- **THE STEP LEMMA**. -/
theorem Tended.happen (h : Tended c) {e : Happening} {c' : Council}
    (hsized : Sized c e) (hstep : happen c e = some c') : Tended c' := by
  have hbusy : c.stage ≠ .idle → Inited c := fun hb => h.inited (h.busy hb)
  cases e with
  | initializeOn electionPath cb ok =>
      obtain ⟨hidle, ⟨⟩⟩ := Option.ite_none_right_eq_some.mp hstep
      exact h.initializeOn hidle electionPath cb ok
  | onData path data hostname =>
      obtain ⟨⟨hidle, hzk⟩, ⟨⟩⟩ := Option.ite_none_right_eq_some.mp hstep
      exact (h.inited hzk).onData path data hostname hidle
  | onError expired =>
      obtain ⟨⟨-, hzk⟩, ⟨⟩⟩ := Option.ite_none_right_eq_some.mp hstep
      exact (h.inited hzk).onError expired
  | shutdown =>
      obtain ⟨-, ⟨⟩⟩ := Option.ite_none_right_eq_some.mp hstep
      exact h.shutdown
  | create answer =>
      obtain ⟨hstage, ⟨⟩⟩ := Option.ite_none_right_eq_some.mp hstep
      exact (hbusy (by rw [hstage]; exact nofun)).created answer
  | eraseInvalid =>
      rw [FlinterCouncil.happen] at hstep
      split at hstep
      next path hstage =>
        obtain rfl := Option.some.inj hstep
        exact (hbusy (by rw [hstage]; exact nofun)).onFired false
      · cases hstep
  | getChildren children =>
      obtain ⟨hstage, ⟨⟩⟩ := Option.ite_none_right_eq_some.mp hstep
      have hi := hbusy (by rw [hstage]; exact nofun)
      have hnode : 0 ≤ c.actualId := h.node (by rw [hstage]; rfl)
      exact ⟨fun _ => hi.path, fun _ => hi.zk, fun _ => hnode, hi.kept⟩
  | attendAmong =>
      rw [FlinterCouncil.happen] at hstep
      split at hstep
      next answer hstage =>
        obtain rfl := Option.some.inj hstep
        refine (hbusy (by rw [hstage]; exact nofun)).attendAmong answer ?_
        rintro children rfl
        exact hsized rfl children hstage
      · cases hstep
  | track ok =>
      rw [FlinterCouncil.happen] at hstep
      split at hstep
      next path paths hstage =>
        obtain rfl := Option.some.inj hstep
        exact (hbusy (by rw [hstage]; exact nofun)).tracked path paths ok
      · cases hstep
  | erase answered =>
      rw [FlinterCouncil.happen] at hstep
      split at hstep
      next path recoverable quit hstage =>
        obtain rfl := Option.some.inj hstep
        exact (hbusy (by rw [hstage]; exact nofun)).waits rfl
      · cases hstep
  | finishQuitClean =>
      rw [FlinterCouncil.happen] at hstep
      split at hstep
      next answered recoverable quit hstage =>
        obtain rfl := Option.some.inj hstep
        exact (hbusy (by rw [hstage]; exact nofun)).finishQuitClean
          answered recoverable quit
      · cases hstep

/-- **THE RUN LEMMA**. -/
theorem tended_of_reachable (h : Reachable (council.restrict Sized) c) :
    Tended c := by
  refine h.invariant ?_ ?_
  · rintro c ⟨name, rfl⟩
    exact ⟨fun hz => (by cases hz), fun hb => absurd rfl hb,
      fun ha => (by cases ha), rfl⟩
  · rintro c e c' - hc ⟨hsized, hstep⟩
    exact hc.happen hsized hstep

/-- **THE ASSERTIONS OF ATTEND**: while no `Attend` is without a size behind the
    first candidate, none of them fails; and the next one that is fails. -/
theorem attend_asserts (h : Reachable (council.restrict Sized) c) :
    c.violated = false ∧ (c.stage.attends = true → 0 ≤ c.actualId) ∧
    ∀ children, c.stage = .gotChildren (some children) →
      ((c.attendAmong (some children)).violated = true ↔
        c.Unsized children) := by
  have ht := tended_of_reachable h
  refine ⟨ht.kept, ht.node, fun children hstage => ?_⟩
  have hi : Inited c := ht.inited (ht.busy (by rw [hstage]; exact nofun))
  constructor
  · intro hviolated
    by_contra hsized
    have hkept := (hi.attendAmong (some children) fun children' heq => by
      obtain rfl := Option.some.inj heq
      exact hsized).kept
    rw [hkept] at hviolated
    cases hviolated
  · rintro ⟨hsize, hmem, hfirst⟩
    have hover : ¬((((getCandidates children).upTo c.actualId).length : Int) ≤
        c.size) := by
      rw [OrderedMap.length_upTo_of_mem hmem]
      omega
    rw [Council.attendAmong]
    extract_lets candidates pos before c₂
    rw [if_neg (not_not.mpr hmem), if_neg hover, trackNext_violated]
    show (c.violated || before.isEmpty || _) = true
    rw [show before = [] from List.reverse_eq_nil_iff.mpr hfirst]
    simp

-- ── Two instances' nodes, and a size that is taken back ──────────────────────

namespace Narrow

/-- The election node `/e`, and the nodes of two instances. -/
def path : Text := ['/', 'e']
def first : Text := childName ['a'] 0
def second : Text := childName ['b'] 1

/-- The second instance makes its node behind the first one's, and tracks it. -/
def c₀ : Council := .fresh ['b']
def c₁ : Council := c₀.initializeOn path true true
def c₂ : Council := c₁.onData path (some ['1']) none
def c₃ : Council := c₂.created (some (childPath path second))
def c₄ : Council := { c₃ with stage := .gotChildren (some [first, second]) }
def c₅ : Council := c₄.attendAmong (some [first, second])
def c₆ : Council := c₅.tracked (childPath path first) [] true

/-- The election node holds `0` now, and the first node goes. -/
def c₇ : Council := c₆.onData path (some ['0']) none
def c₈ : Council := c₇.onData (childPath path first) none none
def c₉ : Council := { c₈ with stage := .gotChildren (some [second]) }

theorem sized_of_ne {c : Council} {e : Happening} (h : e ≠ .attendAmong) :
    Sized c e := fun heq => absurd heq h

/-- Up to here the size is at least one whenever the candidates are looked at. -/
theorem reachable_narrow : Reachable (council.restrict Sized) c₉ := by
  have h₀ : Reachable (council.restrict Sized) c₀ := .start ⟨['b'], rfl⟩
  have h₁ : Reachable (council.restrict Sized) c₁ :=
    .next (l := .initializeOn path true true) h₀ ⟨sized_of_ne nofun, rfl⟩
  have h₂ : Reachable (council.restrict Sized) c₂ :=
    .next (l := .onData path (some ['1']) none) h₁ ⟨sized_of_ne nofun, rfl⟩
  have h₃ : Reachable (council.restrict Sized) c₃ :=
    .next (l := .create (some (childPath path second))) h₂
      ⟨sized_of_ne nofun, rfl⟩
  have h₄ : Reachable (council.restrict Sized) c₄ := by
    refine .next (l := .getChildren (some [first, second])) h₃
      ⟨sized_of_ne nofun, ?_⟩
    show happen c₃ _ = some c₄
    rw [happen, if_pos (show c₃.stage = .getChildren by decide)]
    rfl
  have h₅ : Reachable (council.restrict Sized) c₅ := by
    refine .next (l := .attendAmong) h₄ ⟨?_, rfl⟩
    rintro - children - ⟨hsize, -⟩
    exact absurd hsize (by decide)
  have h₆ : Reachable (council.restrict Sized) c₆ := by
    refine .next (l := .track true) h₅ ⟨sized_of_ne nofun, ?_⟩
    show happen c₅ _ = _
    rw [happen, show c₅.stage = .track [childPath path first] by decide]
    rfl
  have h₇ : Reachable (council.restrict Sized) c₇ := by
    refine .next (l := .onData path (some ['0']) none) h₆
      ⟨sized_of_ne nofun, ?_⟩
    show happen c₆ _ = some c₇
    rw [happen, if_pos (show c₆.stage = .idle ∧ c₆.zk = true by decide)]
    rfl
  have h₈ : Reachable (council.restrict Sized) c₈ := by
    refine .next (l := .onData (childPath path first) none none) h₇
      ⟨sized_of_ne nofun, ?_⟩
    show happen c₇ _ = some c₈
    rw [happen, if_pos (show c₇.stage = .idle ∧ c₇.zk = true by decide)]
    rfl
  refine .next (l := .getChildren (some [second])) h₈ ⟨sized_of_ne nofun, ?_⟩
  show happen c₈ _ = some c₉
  rw [happen, if_pos (show c₈.stage = .getChildren by decide)]
  rfl

end Narrow

/-- The second instance, behind the first until it is gone. -/
theorem attend_asserts_narrow :
    Narrow.c₉.violated = false ∧ 0 ≤ Narrow.c₉.actualId ∧
    (Narrow.c₉.attendAmong (some [Narrow.second])).violated = true := by
  obtain ⟨hkept, hnode, hfails⟩ := attend_asserts Narrow.reachable_narrow
  refine ⟨hkept, hnode rfl, (hfails [Narrow.second] rfl).mpr ⟨?_, ?_, ?_⟩⟩
  · decide
  · decide
  · decide

/-- **FROM THE FIRST CANDIDATE**: the size is taken back while a predecessor is
    tracked, and it goes. -/
theorem walks_back_from_first :
    ¬∀ c, Reachable council c → c.violated = false := by
  intro hclaim
  have hlast : Reachable council (Narrow.c₉.attendAmong (some [Narrow.second])) :=
    .next (l := .attendAmong) Narrow.reachable_narrow.of_restrict rfl
  have hkept := hclaim _ hlast
  revert hkept
  decide

end FlinterCouncil
