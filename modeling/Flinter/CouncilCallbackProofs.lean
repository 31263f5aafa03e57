import Flinter.CouncilDeliveryProofs

/-! # Council: what the callback is told

    `_id` and `_actual_id` are taken back on five routes: fired, shrinked, lost,
    quit and reset.  All of them end in `DoLostClean`, which looks at `_id` to
    see whether the callback was told of an election.  So the callback's view
    is kept by one fact: the last it was told is an election if and only if
    `_id` is one and there is a callback (`Telling`).

    `Attend` elects only without an `_id`, and makes a node only without one, so
    that nothing is told twice (`callback_protocol`). -/

namespace FlinterCouncil

open OrderedMaps Runs

-- ── What is told ─────────────────────────────────────────────────────────────

/-- Elected, and not fired since. -/
def Outstanding (called : List Notice) : Prop :=
  ∃ id, called.getLast? = some (.onElected id)

/-- What may be told behind `called`. -/
def Protocol (called : List Notice) : Notice → Prop
  | .onElected _ => ¬Outstanding called
  | .onFired recoverable => recoverable = true → Outstanding called

variable {c : Council} {d d' : Delivery} {called : List Notice}

theorem outstanding_elected (id : Int) :
    Outstanding (called ++ [.onElected id]) :=
  ⟨id, List.getLast?_concat⟩

theorem not_outstanding_fired (recoverable : Bool) :
    ¬Outstanding (called ++ [.onFired recoverable]) := by
  rintro ⟨id, hlast⟩
  rw [List.getLast?_concat] at hlast
  cases hlast

/-- **ALTERNATION**: there is a firing between two elections. -/
theorem fired_between (h : Throughout Protocol called)
    {pre mid post : List Notice} {i j : Int} (heq : called =
      pre ++ .onElected i :: (mid ++ .onElected j :: post)) :
    ∃ recoverable, .onFired recoverable ∈ mid := by
  have hlast : ¬Outstanding (pre ++ .onElected i :: mid) := by
    refine h _ (.onElected j) post ?_
    rw [heq, List.append_assoc, List.cons_append]
  rcases List.eq_nil_or_concat mid with rfl | ⟨mid', x, rfl⟩
  · exact absurd (outstanding_elected i) hlast
  · cases x with
    | onElected k =>
        refine absurd ?_ hlast
        rw [List.concat_eq_append, ← List.cons_append, ← List.append_assoc]
        exact outstanding_elected k
    | onFired recoverable =>
        exact ⟨recoverable, by rw [List.concat_eq_append]; simp⟩

-- ── The invariant ────────────────────────────────────────────────────────────

/-- What the callback was told last is what `_id` says. -/
structure Telling (c : Council) : Prop where
  protocol : Throughout Protocol c.called
  outstanding : Outstanding c.called ↔ 0 ≤ c.id ∧ c.cb = true
  heard : c.zk = false → c.cb = false
  failed : c.id = -2 → c.cb = true →
    c.called.getLast? = some (.onFired false)

/-- An elected instance has its node. -/
structure Seated (c : Council) : Prop extends Telling c where
  elected : 0 ≤ c.id → c.id = c.actualId

/-- **THE INVARIANT**: no node is made for an elected instance, and whoever
    looks at the candidates has one. -/
structure Told (c : Council) : Prop extends Seated c where
  making : c.stage = .create → c.id < 0
  attending : c.stage.attends = true → 0 ≤ c.actualId

/-- An instance that is not elected. -/
structure Untold (c : Council) : Prop extends Telling c where
  unelected : c.id < 0

/-- Nothing else of the instance has to do with its callback. -/
theorem Telling.frame (h : Telling c) {nodeName : Text} {actualId size : Int}
    {tracks : List Text} {stage : Stage} {violated : Bool} :
    Telling { c with nodeName := nodeName, actualId := actualId, size := size,
                     tracks := tracks, stage := stage, violated := violated } :=
  ⟨h.protocol, h.outstanding, h.heard, h.failed⟩

theorem Untold.frame (h : Untold c) {actualId size : Int} {stage : Stage} :
    Untold { c with actualId := actualId, size := size, stage := stage } :=
  ⟨h.toTelling.frame, h.unelected⟩

theorem Seated.frame (h : Seated c) {nodeName : Text} {size : Int}
    {tracks : List Text} {stage : Stage} {violated : Bool} :
    Seated { c with nodeName := nodeName, size := size, tracks := tracks,
                    stage := stage, violated := violated } :=
  ⟨h.toTelling.frame, h.elected⟩

theorem Told.frame (h : Told c) {size : Int} {tracks : List Text}
    {violated : Bool} :
    Told { c with size := size, tracks := tracks, violated := violated } :=
  ⟨h.toSeated.frame, h.making, h.attending⟩

/-- An instance that waits for a call, or for none, and makes no node. -/
theorem Seated.waits (h : Seated c) {stage : Stage} (hmakes : stage ≠ .create)
    (hattends : stage.attends = true → 0 ≤ c.actualId) :
    Told { c with stage := stage } :=
  ⟨h.frame, fun hs => absurd hs hmakes, hattends⟩

/-- It waits for something else than the rest of an `Attend`. -/
theorem Seated.rests (h : Seated c) {stage : Stage} (hmakes : stage ≠ .create)
    (hattends : stage.attends = false) : Told { c with stage := stage } :=
  h.waits hmakes fun ha => by rw [hattends] at ha; cases ha

theorem Untold.seated (h : Untold c) : Seated c :=
  ⟨h.toTelling, fun h0 => absurd h0 (Int.not_le.mpr h.unelected)⟩

theorem Untold.told (h : Untold c)
    (hnode : c.stage.attends = true → 0 ≤ c.actualId) : Told c :=
  ⟨h.seated, fun _ => h.unelected, hnode⟩

theorem Untold.quiet (h : Untold c) : ¬Outstanding c.called := fun ho =>
  absurd (h.outstanding.mp ho).1 (Int.not_le.mpr h.unelected)

theorem not_nonneg {i : Int} (h : i < 0) {p : Prop} : ¬(0 ≤ i ∧ p) := fun ho =>
  absurd ho.1 (Int.not_le.mpr h)

/-- The callback may be another one, or none. -/
theorem Untold.clear (h : Untold c) : Untold c.clear :=
  ⟨⟨h.protocol, iff_of_false h.quiet (not_nonneg h.unelected), fun _ => rfl,
    fun _ hcb => (by cases hcb)⟩, h.unelected⟩

/-- Whoever has no node is not elected. -/
theorem Told.untold (h : Told c) (hnode : c.actualId < 0) : Untold c := by
  refine ⟨h.toTelling, ?_⟩
  by_contra hid
  have heq := h.elected (Int.not_lt.mp hid)
  omega

/-- A firing that is told only to whom was told of an election. -/
theorem throughout_fired {recoverable told : Bool}
    (h : Throughout Protocol called)
    (htold : told = true → recoverable = true → Outstanding called) :
    Throughout Protocol
      (called ++ if told then [.onFired recoverable] else []) := by
  cases told with
  | false => exact (List.append_nil called).symm ▸ h
  | true => exact throughout_snoc.mpr ⟨h, htold rfl⟩

theorem quiet_fired {recoverable told : Bool}
    (htold : told = false → ¬Outstanding called) :
    ¬Outstanding (called ++ if told then [.onFired recoverable] else []) := by
  cases told with
  | false => exact (List.append_nil called).symm ▸ htold rfl
  | true => exact not_outstanding_fired recoverable

/-- **THE ONE PLACE WHERE IT IS FIRED**. -/
theorem Telling.doLostClean (h : Telling c) (recoverable : Bool) :
    Untold (c.doLostClean recoverable) := by
  cases recoverable with
  | false =>
      rw [doLostClean_false_eq]
      have hquiet : c.cb = false → ¬Outstanding c.called := fun hcb ho => by
        rw [(h.outstanding.mp ho).2] at hcb
        cases hcb
      have hid : (-2 : Int) < 0 := by decide
      refine ⟨⟨throughout_fired h.protocol nofun,
        iff_of_false (quiet_fired hquiet) (not_nonneg hid), h.heard, ?_⟩, hid⟩
      intro _ hcb
      have hcb : c.cb = true := hcb
      show (c.called ++ if c.cb = true then [Notice.onFired false]
        else []).getLast? = _
      rw [hcb, if_pos rfl, List.getLast?_concat]
  | true =>
      rw [doLostClean_true_eq]
      have htold : (decide (0 ≤ c.id) && c.cb) = true ↔
          Outstanding c.called := by
        rw [h.outstanding, Bool.and_eq_true, decide_eq_true_eq]
      have hquiet : (decide (0 ≤ c.id) && c.cb) = false →
          ¬Outstanding c.called := fun hcb ho => by
        rw [htold.mpr ho] at hcb
        cases hcb
      have hid : (-1 : Int) < 0 := by decide
      have hne : (-1 : Int) ≠ -2 := by decide
      exact ⟨⟨throughout_fired h.protocol fun ht _ => htold.mp ht,
        iff_of_false (quiet_fired hquiet) (not_nonneg hid), h.heard,
        fun hminus => absurd hminus hne⟩, hid⟩

-- ── The methods ──────────────────────────────────────────────────────────────

/-- The end of `DoQuitClean`, and of `Shutdown` if it is one. -/
theorem Untold.finish (h : Untold c) (quit : Bool) :
    Told (if quit then Council.clear { c with stage := .idle }
      else { c with stage := .idle }) := by
  have hidle : Untold { c with stage := .idle } := h.frame
  cases quit with
  | true => exact hidle.clear.told fun ha => (by cases ha)
  | false => exact hidle.told fun ha => (by cases ha)

theorem Seated.doQuitClean (h : Seated c) (recoverable quit : Bool) :
    Told (c.doQuitClean recoverable quit) := by
  dsimp only [Council.doQuitClean]
  split
  · exact Seated.rests
      (c := { c with violated := c.violated || c.electionPath.isEmpty })
      h.frame (fun hs => by cases hs) rfl
  · have hc : Telling { c with
        violated := c.violated || c.electionPath.isEmpty } :=
      h.toTelling.frame
    exact (hc.doLostClean recoverable).finish quit

theorem Seated.onFired (h : Seated c) (recoverable : Bool) :
    Told (c.onFired recoverable) := h.doQuitClean recoverable false

theorem Telling.onShrinked (h : Telling c) (recoverable : Bool) :
    Told (c.onShrinked recoverable) := (h.doLostClean recoverable).finish false

theorem Telling.finishQuitClean (h : Telling c)
    (answered recoverable quit : Bool) :
    Told (c.finishQuitClean answered recoverable quit) := by
  have hc : Telling { c with actualId := -1 } := h.frame
  exact (hc.doLostClean (recoverable && answered)).finish quit

/-- A node is made only for an instance that has none. -/
theorem Told.attend (h : Told c) (hostname : Option Text) :
    Told (c.attend hostname) := by
  rw [Council.attend]
  split
  next hnode =>
    exact h.toSeated.waits (fun hs => by cases hs) fun _ => hnode
  next hnode =>
    split
    · exact (h.toSeated.onFired false).toSeated.onFired false
    · have hu := h.untold (Int.not_le.mp hnode)
      exact ⟨h.toSeated.frame, fun _ => hu.unelected, fun ha => by cases ha⟩

theorem Untold.created (h : Untold c) (answer : Option Text) :
    Told (c.created answer) := by
  cases answer with
  | none =>
      have hunsized : Untold { c with size := -1 } := h.frame
      exact hunsized.seated.onFired false
  | some actual =>
      dsimp only [Council.created]
      split
      · exact h.frame.told fun ha => (by cases ha)
      split
      · exact h.frame.told fun ha => (by cases ha)
      next hi => exact h.frame.told fun _ => Int.not_lt.mp hi

theorem Told.trackNext (h : Told c) (paths : List Text) :
    Told (c.trackNext paths) := by
  rw [Council.trackNext]
  split
  · exact h.onShrinked true
  · exact h.toSeated.rests (fun hs => by cases hs) rfl

theorem Told.tracked (h : Told c) (path : Text) (paths : List Text)
    (ok : Bool) : Told (c.tracked path paths ok) := by
  rw [Council.tracked]
  split
  · exact h.trackNext paths
  split
  · exact Told.trackNext (c := { c with tracks := path :: c.tracks })
      h.frame paths
  · exact h.onShrinked false

/-- **THE ONE PLACE WHERE IT IS ELECTED**. -/
theorem Told.attendAmong (h : Told c) (hnode : 0 ≤ c.actualId)
    (children : Option (List Text)) : Told (c.attendAmong children) := by
  cases children with
  | none =>
      exact Seated.rests (c := { c with size := -1 }) h.toSeated.frame
        (fun hs => by cases hs) rfl
  | some children =>
      rw [Council.attendAmong]
      extract_lets candidates pos before c₂
      split
      · exact h.toSeated.onFired false
      split
      · split
        · exact h.toSeated.rests (fun hs => by cases hs) rfl
        next hid =>
          have hu : Untold c := ⟨h.toTelling, Int.not_le.mp hid⟩
          have hne : c.actualId = -2 → False := by omega
          split
          next hcb =>
            exact ⟨⟨⟨throughout_snoc.mpr ⟨h.protocol, hu.quiet⟩,
              iff_of_true (outstanding_elected _) ⟨hnode, hcb⟩, h.heard,
              fun hminus => absurd hminus hne⟩, fun _ => rfl⟩,
              fun hs => (by cases hs), fun ha => (by cases ha)⟩
          next hcb =>
            exact ⟨⟨⟨h.protocol, iff_of_false hu.quiet fun ho => hcb ho.2,
              h.heard, fun _ htrue => absurd htrue hcb⟩, fun _ => rfl⟩,
              fun hs => (by cases hs), fun ha => (by cases ha)⟩
      · exact Told.trackNext (c := c₂) h.frame _

theorem Told.onData (h : Told c) (path : Text) (data hostname : Option Text) :
    Told (c.onData path data hostname) := by
  rw [Council.onData.eq_def]
  split
  · exact h
  split
  · split
    · exact h.toSeated.onFired true
    next data =>
      extract_lets size
      split
      · exact Telling.onShrinked (c := { c with size := -1 })
          h.toTelling.frame true
      · exact Told.attend (c := { c with size := size }) h.frame hostname
  split
  · exact h
  split
  · exact h
  · exact Told.attend (c := { c with tracks := c.tracks.filter (· ≠ path) })
      h.frame hostname

theorem Told.onError (h : Told c) (expired : Bool) :
    Told (c.onError expired) := by
  cases expired with
  | false => exact h.toSeated.onFired false
  | true =>
      have hu := h.toTelling.doLostClean true
      exact Untold.told (c := c.onLost)
        ⟨⟨hu.protocol, hu.outstanding, hu.heard, hu.failed⟩, hu.unelected⟩
        fun ha => (by cases ha)

theorem Told.receive (h : Told c) (call : Call) (hostname : Option Text) :
    Told (c.receive call hostname) := by
  cases call with
  | onData path data => exact h.onData path data hostname
  | onError expired => exact h.onError expired

/-- A callback that was not there has been told nothing. -/
theorem Told.initializeOn (h : Told c) (hidle : c.stage = .idle)
    (electionPath : Text) (cb ok : Bool) :
    Told (c.initializeOn electionPath cb ok) := by
  rw [Council.initializeOn]
  split
  · exact h
  next hbad =>
    have hcb : c.cb = false :=
      h.heard (Bool.eq_false_iff.mpr fun hzk => hbad (Or.inl hzk))
    have hquiet : ¬Outstanding c.called := fun ho => by
      rw [(h.outstanding.mp ho).2] at hcb
      cases hcb
    have hid : (-1 : Int) < 0 := by decide
    have hne : (-1 : Int) ≠ -2 := by decide
    refine Untold.told ⟨⟨h.protocol, ?_, fun hz => (by cases hz),
      fun hminus => absurd hminus hne⟩, hid⟩ ?_
    · exact iff_of_false hquiet (not_nonneg hid)
    · intro ha
      have ha' : c.stage.attends = true := ha
      rw [hidle] at ha'
      cases ha'

theorem Told.shutdown (h : Told c) : Told c.shutdown := by
  rw [Council.shutdown]
  split
  · exact h
  · exact Seated.doQuitClean (c := { c with tracks := [] }) h.toSeated.frame
      true true

-- ── The runs ─────────────────────────────────────────────────────────────────

/-- **THE STEP LEMMA**. -/
theorem Told.happen (h : Told c) {e : Happening} {c' : Council}
    (hs : happen c e = some c') : Told c' := by
  cases e with
  | initializeOn electionPath cb ok =>
      obtain ⟨hidle, ⟨⟩⟩ := Option.ite_none_right_eq_some.mp hs
      exact h.initializeOn hidle electionPath cb ok
  | onData path data hostname =>
      obtain ⟨-, ⟨⟩⟩ := Option.ite_none_right_eq_some.mp hs
      exact h.onData path data hostname
  | onError expired =>
      obtain ⟨-, ⟨⟩⟩ := Option.ite_none_right_eq_some.mp hs
      exact h.onError expired
  | shutdown =>
      obtain ⟨-, ⟨⟩⟩ := Option.ite_none_right_eq_some.mp hs
      exact h.shutdown
  | create answer =>
      obtain ⟨hstage, ⟨⟩⟩ := Option.ite_none_right_eq_some.mp hs
      exact Untold.created ⟨h.toTelling, h.making hstage⟩ answer
  | eraseInvalid =>
      rw [FlinterCouncil.happen] at hs
      split at hs
      · obtain rfl := Option.some.inj hs
        exact h.toSeated.onFired false
      · cases hs
  | getChildren children =>
      obtain ⟨hstage, ⟨⟩⟩ := Option.ite_none_right_eq_some.mp hs
      have hnode : 0 ≤ c.actualId := h.attending (by rw [hstage]; rfl)
      exact h.toSeated.waits (fun hs => by cases hs) fun _ => hnode
  | attendAmong =>
      rw [FlinterCouncil.happen] at hs
      split at hs
      next children hstage =>
        obtain rfl := Option.some.inj hs
        exact h.attendAmong (h.attending (by rw [hstage]; rfl)) children
      · cases hs
  | track ok =>
      rw [FlinterCouncil.happen] at hs
      split at hs
      next path paths hstage =>
        obtain rfl := Option.some.inj hs
        exact h.tracked path paths ok
      · cases hs
  | erase answered =>
      rw [FlinterCouncil.happen] at hs
      split at hs
      · obtain rfl := Option.some.inj hs
        exact h.toSeated.rests (fun hs => by cases hs) rfl
      · cases hs
  | finishQuitClean =>
      rw [FlinterCouncil.happen] at hs
      split at hs
      next answered recoverable quit hstage =>
        obtain rfl := Option.some.inj hs
        exact h.toTelling.finishQuitClean answered recoverable quit
      · cases hs

theorem told_fresh (name : Text) : Told (.fresh name) := by
  have hquiet : ¬Outstanding [] := fun ⟨_, hlast⟩ => by cases hlast
  have hid : (-1 : Int) < 0 := by decide
  refine Untold.told ⟨⟨throughout_nil, ?_, fun _ => rfl,
    fun _ hcb => (by cases hcb)⟩, hid⟩ fun ha => ?_
  · exact iff_of_false hquiet (not_nonneg hid)
  · cases ha

/-- **THE RUN LEMMA**, without calls that come late. -/
theorem told_of_council (h : Reachable council c) : Told c := by
  refine h.invariant ?_ ?_
  · rintro c ⟨name, rfl⟩
    exact told_fresh name
  · rintro c e c' - hc hs
    exact hc.happen hs

/-- **THE RUN LEMMA**: whoever is called, and however late. -/
theorem told_of_reachable (h : Reachable delivery d) : Told d.council := by
  refine h.invariant (I := fun d => Told d.council) ?_ ?_
  · rintro d ⟨name, rfl⟩
    exact told_fresh name
  · rintro d m d' - hd hs
    have hsettle : ∀ d : Delivery, d.settle.council = d.council := by
      intro d
      rw [Delivery.settle]
      split
      · rfl
      · rfl
    cases m with
    | dispatch call =>
        obtain ⟨-, ⟨⟩⟩ := Option.ite_none_right_eq_some.mp hs
        exact hd
    | broadcast expired =>
        obtain ⟨-, hs⟩ := Option.ite_none_left_eq_some.mp hs
        split at hs
        · obtain rfl := Option.some.inj hs
          exact hd
        · obtain rfl := Option.some.inj hs
          exact hd
    | deliver x hostname =>
        obtain ⟨-, ⟨⟩⟩ := Option.ite_none_right_eq_some.mp hs
        show Told (Delivery.receive _ x.call hostname).council
        rw [Delivery.receive, hsettle]
        exact hd.receive x.call hostname
    | happen e =>
        obtain ⟨-, hs⟩ := Option.ite_none_left_eq_some.mp hs
        obtain ⟨c, hc, rfl⟩ := Option.map_eq_some_iff.mp hs
        rw [hsettle]
        exact hd.happen hc

/-- **THE CALLBACK PROTOCOL**: in every state of every run, the callback has
    been fired between any two elections, a firing that is recoverable came
    behind an election with nothing between, and an elected instance has its
    node. -/
theorem callback_protocol (h : Reachable delivery d) :
    (∀ pre i mid j post, d.council.called =
        pre ++ .onElected i :: (mid ++ .onElected j :: post) →
      ∃ recoverable, .onFired recoverable ∈ mid) ∧
    (∀ pre post, d.council.called = pre ++ .onFired true :: post →
      ∃ i, pre.getLast? = some (.onElected i)) ∧
    (0 ≤ d.council.id → d.council.id = d.council.actualId) := by
  have ht := told_of_reachable h
  refine ⟨fun pre i mid j post heq => fired_between ht.protocol heq,
    fun pre post heq => ?_, ht.elected⟩
  exact ht.protocol pre (.onFired true) post heq rfl

-- ── Elected, fired and elected again ─────────────────────────────────────────

namespace Recalled

def path : Text := ['/', 'e']
def fresh : Delivery := ⟨.fresh ['a'], [], false, false, false⟩
def own (n : Int) : Text := childName ['a'] n

/-- What `Attend` does with a size of one, behind `Create`. -/
def elects (n : Int) : List Move :=
  [.deliver ⟨.onData path (some ['1']), false⟩ none,
    .happen (.create (some (childPath path (own n)))),
    .happen (.getChildren (some [own n])), .happen .attendAmong]

/-- The session is lost in between. -/
def moves : List Move :=
  .happen (.initializeOn path true true) ::
    .dispatch (.onData path (some ['1'])) :: elects 0 ++
    .broadcast true :: .deliver ⟨.onError true, false⟩ none ::
    .dispatch (.onData path (some ['1'])) :: elects 1

def elected : Delivery := (moves.foldlM next fresh).get (by decide)

theorem reachable_elected : Reachable delivery elected :=
  Reachable.follow (fun _ _ _ _ hs => hs) (.start ⟨['a'], rfl⟩)
    (Option.some_get _).symm

end Recalled

/-- The first election, the loss of the session, and the second. -/
theorem callback_protocol_recalled :
    Recalled.elected.council.called =
      [.onElected 0, .onFired true, .onElected 1] ∧
    (∃ recoverable, Notice.onFired recoverable ∈ [.onFired true]) ∧
    (∃ i, [Notice.onElected 0].getLast? = some (.onElected i)) ∧
    Recalled.elected.council.id = Recalled.elected.council.actualId := by
  obtain ⟨hbetween, hfired, hid⟩ := callback_protocol Recalled.reachable_elected
  have hcalled : Recalled.elected.council.called =
      [.onElected 0, .onFired true, .onElected 1] := by decide
  exact ⟨hcalled, hbetween [] 0 [.onFired true] 1 [] hcalled,
    hfired [.onElected 0] [.onElected 1] hcalled, hid (by decide)⟩

end FlinterCouncil
