import Flinter.CouncilCallbackProofs

/-! # Council: a failure that is not final

    An unrecoverable failure leaves the instance idle, without a node and with
    -2 for its `_id`.  Nothing else remembers it: the nodes stay tracked, and no
    handler looks at that -2 but to overwrite it.  So what keeps a failed
    instance from a new node is only that `Attend` is not called, or that it
    finds no name (`failure_final`); a size that is reported behind the failure
    has it make a node and be elected (`elected_behind_failure`). -/

namespace FlinterCouncil

open Runs

-- ── What calls Attend ────────────────────────────────────────────────────────

variable {c c' : Council}

/-- Whether `OnData` comes to its `Attend`. -/
def Council.calls (c : Council) (path : Text) (data : Option Text) : Bool :=
  if path.take c.electionPath.length ≠ c.electionPath then false
  else if c.electionPath = path then
    match data with
    | none => false
    | some data => decide (0 < atoi32 data)
  else data.isNone && decide (c.id < 0)

theorem onData_of_calls {path : Text} {data : Option Text}
    (h : c.calls path data = true) (hostname : Option Text) : ∃ size tracks,
    c.onData path data hostname =
      Council.attend { c with size := size, tracks := tracks } hostname := by
  rw [Council.calls.eq_def] at h
  rw [Council.onData.eq_def]
  split at h
  · cases h
  next hprefix =>
  rw [if_neg hprefix]
  split at h
  next hpath =>
    rw [if_pos hpath]
    cases data with
    | none => cases h
    | some data =>
        have hsize : ¬atoi32 data ≤ 0 := Int.not_le.mpr (of_decide_eq_true h)
        exact ⟨_, _, if_neg hsize⟩
  next hpath =>
    obtain ⟨hdata, hid⟩ := (Bool.and_eq_true _ _).mp h
    rw [if_neg hpath, if_neg (by simpa using hdata),
      if_neg (Int.not_le.mpr (of_decide_eq_true hid))]
    exact ⟨_, _, rfl⟩

/-- Otherwise nothing happens, or the instance loses what it has. -/
theorem onData_of_not_calls {path : Text} {data : Option Text}
    (h : c.calls path data = false) (hostname : Option Text) :
    c.onData path data hostname = c ∨
    c.onData path data hostname = c.onFired true ∨
    c.onData path data hostname =
      Council.onShrinked { c with size := -1 } true := by
  rw [Council.calls.eq_def] at h
  rw [Council.onData.eq_def]
  split at h
  next hprefix =>
    rw [if_pos hprefix]
    exact Or.inl rfl
  next hprefix =>
  rw [if_neg hprefix]
  split at h
  next hpath =>
    rw [if_pos hpath]
    cases data with
    | none => exact Or.inr (Or.inl rfl)
    | some data =>
        have hsize : atoi32 data ≤ 0 := Int.not_lt.mp (of_decide_eq_false h)
        exact Or.inr (Or.inr (if_pos hsize))
  next hpath =>
    rw [if_neg hpath]
    cases data with
    | some data => exact Or.inl rfl
    | none =>
        have hid : 0 ≤ c.id := Int.not_lt.mp (of_decide_eq_false h)
        rw [if_neg (by simp), if_pos hid]
        exact Or.inl rfl

/-- A step that would make a node: `OnData` calls `Attend`, and there is a
    name. -/
def Council.makes (c : Council) : Happening → Bool
  | .onData path data hostname =>
    c.calls path data && (c.updateName hostname).isSome
  | _ => false

/-- Whether an `Initialize` has succeeded. -/
def opened (c : Council) (e : Happening) (c' : Council) : Bool :=
  match e with
  | .initializeOn _ _ _ => !c.zk && c'.zk
  | _ => false

-- ── The record ───────────────────────────────────────────────────────────────

/-- Whether the instance has failed for good since it was initialised, and how
    many notices there were by then (ghost). -/
structure Failure where
  failed : Bool
  mark : Nat
deriving DecidableEq, Repr

/-- What a step adds to the record. -/
def note (c : Council) (e : Happening) (f : Failure) : Failure :=
  match happen c e with
  | none => f
  | some c' =>
    if opened c e c' then ⟨false, 0⟩
    else if !f.failed && decide (c'.id = -2) then ⟨true, c'.called.length⟩
    else f

/-- The runs of one instance, with their failures. -/
def failing : System (Council × Failure) Happening :=
  council.record ⟨false, 0⟩ note

/-- One step, if it can be taken. -/
def step (p : Council × Failure) (e : Happening) : Option (Council × Failure) :=
  (happen p.1 e).map fun c' => (c', note p.1 e p.2)

theorem failing_step {p p' : Council × Failure} {e : Happening}
    (hs : step p e = some p') : failing.step p e p' := by
  obtain ⟨c', hc', rfl⟩ := Option.map_eq_some_iff.mp hs
  exact ⟨hc', rfl⟩

-- ── A failed instance ────────────────────────────────────────────────────────

variable {p : Council × Failure}

/-- Nothing goes on, and there is nothing to lose. -/
structure Failed (c : Council) : Prop where
  idle : c.stage = .idle
  node : c.actualId < 0
  unelected : c.id < 0

/-- Only firings are told. -/
def Fires (c c' : Council) : Prop :=
  ∃ told : List Notice, c'.called = c.called ++ told ∧
    ∀ n ∈ told, ∃ recoverable, n = .onFired recoverable

theorem Fires.refl : Fires c c := ⟨[], by simp, nofun⟩

theorem fires_ite {told recoverable : Bool} (hcalled : c'.called = c.called ++
    if told then [.onFired recoverable] else []) : Fires c c' := by
  refine ⟨_, hcalled, fun n hn => ⟨recoverable, ?_⟩⟩
  cases told with
  | true => exact List.mem_singleton.mp hn
  | false => cases hn

/-- A failed instance is fired without anything to erase. -/
theorem Failed.onFired (h : Failed c) (recoverable : Bool) :
    Failed (c.onFired recoverable) ∧ Fires c (c.onFired recoverable) := by
  rw [onFired_eq h.node]
  cases recoverable with
  | true =>
      rw [doLostClean_true_eq]
      have hid : (-1 : Int) < 0 := by decide
      exact ⟨⟨rfl, h.node, hid⟩, fires_ite rfl⟩
  | false =>
      rw [doLostClean_false_eq]
      have hid : (-2 : Int) < 0 := by decide
      have hnode : (-1 : Int) < 0 := by decide
      exact ⟨⟨rfl, hnode, hid⟩, fires_ite rfl⟩

theorem Failed.onShrinked (h : Failed c) :
    Failed ({ c with size := -1 }.onShrinked true) ∧
      Fires c ({ c with size := -1 }.onShrinked true) := by
  rw [Council.onShrinked, doLostClean_true_eq]
  have hid : (-1 : Int) < 0 := by decide
  exact ⟨⟨rfl, h.node, hid⟩, fires_ite rfl⟩

theorem Failed.onError (h : Failed c) (expired : Bool) :
    Failed (c.onError expired) ∧ Fires c (c.onError expired) := by
  cases expired with
  | false => exact h.onFired false
  | true =>
      show Failed c.onLost ∧ Fires c c.onLost
      rw [Council.onLost, doLostClean_true_eq]
      have hid : (-1 : Int) < 0 := by decide
      exact ⟨⟨rfl, hid, hid⟩, fires_ite rfl⟩

theorem Failed.shutdown (h : Failed c) :
    Failed c.shutdown ∧ Fires c c.shutdown := by
  rw [Council.shutdown]
  split
  · exact ⟨h, Fires.refl⟩
  · rw [Council.onQuit, Council.doQuitClean, if_neg (Int.not_le.mpr h.node),
      if_pos rfl, doLostClean_true_eq]
    have hid : (-1 : Int) < 0 := by decide
    exact ⟨⟨rfl, h.node, hid⟩, fires_ite rfl⟩

/-- Without a name, `Attend` fails once more, and again. -/
theorem Failed.attend_nameless (h : Failed c) {size : Int} {tracks : List Text}
    {hostname : Option Text} (hname : c.updateName hostname = none) :
    Failed ({ c with size := size, tracks := tracks }.attend hostname) ∧
      Fires c ({ c with size := size, tracks := tracks }.attend hostname) := by
  rw [FlinterCouncil.attend_nameless
    (c := { c with size := size, tracks := tracks }) h.node hname]
  have hid : (-2 : Int) < 0 := by decide
  have hnode : (-1 : Int) < 0 := by decide
  refine ⟨⟨rfl, hnode, hid⟩, _, rfl, fun n hn => ⟨false, ?_⟩⟩
  cases hcb : c.cb with
  | true =>
      rw [hcb] at hn
      rcases List.mem_append.mp hn with hn | hn
      · exact List.mem_singleton.mp hn
      · exact List.mem_singleton.mp hn
  | false =>
      rw [hcb] at hn
      cases hn

/-- With a name, it makes a node. -/
theorem Failed.attend_named (h : Failed c) {size : Int} {tracks : List Text}
    {hostname : Option Text} (hname : (c.updateName hostname).isSome = true) :
    ({ c with size := size, tracks := tracks }.attend hostname).stage =
      .create := by
  obtain ⟨nodeName, hname⟩ := Option.isSome_iff_exists.mp hname
  have hname' : Council.updateName { c with size := size, tracks := tracks }
      hostname = some nodeName := hname
  rw [Council.attend, if_neg (Int.not_le.mpr h.node), hname']

/-- **OUT OF A FAILURE**: a step makes a node if it comes to `Attend` and there
    is a name; else the instance is initialised again, or nothing changes but
    that it is fired. -/
theorem Failed.happen (h : Failed c) {e : Happening}
    (hs : happen c e = some c') :
    if c.makes e = true then c'.stage = .create
    else c'.stage = .idle ∧
      (opened c e c' = true ∨ Failed c' ∧ Fires c c') := by
  have hsame : Failed c ∧ Fires c c := ⟨h, Fires.refl⟩
  have hlost : Failed c' ∧ Fires c c' →
      c'.stage = .idle ∧ (opened c e c' = true ∨ Failed c' ∧ Fires c c') :=
    fun hf => ⟨hf.1.idle, Or.inr hf⟩
  cases e with
  | initializeOn electionPath cb ok =>
      obtain ⟨-, ⟨⟩⟩ := Option.ite_none_right_eq_some.mp hs
      rw [if_neg (show ¬c.makes (.initializeOn electionPath cb ok) = true from
        Bool.false_ne_true), Council.initializeOn]
      split
      next hbad => exact ⟨h.idle, Or.inr hsame⟩
      next hbad =>
        refine ⟨h.idle, Or.inl ?_⟩
        have hzk : c.zk = false :=
          Bool.eq_false_iff.mpr fun hzk => hbad (Or.inl hzk)
        rw [opened, hzk]
        rfl
  | onData path data hostname =>
      obtain ⟨-, ⟨⟩⟩ := Option.ite_none_right_eq_some.mp hs
      cases hcalls : c.calls path data with
      | true =>
          obtain ⟨size, tracks, heq⟩ := onData_of_calls hcalls hostname
          rw [heq] at hlost ⊢
          rw [Council.makes, hcalls, Bool.true_and]
          split
          next hname => exact h.attend_named hname
          next hname =>
            have hnone := Option.not_isSome_iff_eq_none.mp hname
            exact hlost (h.attend_nameless hnone)
      | false =>
          rw [Council.makes, hcalls, Bool.false_and, if_neg Bool.false_ne_true]
          refine hlost ?_
          rcases onData_of_not_calls hcalls hostname with heq | heq | heq
          · rw [heq]
            exact hsame
          · rw [heq]
            exact h.onFired true
          · rw [heq]
            exact h.onShrinked
  | onError expired =>
      obtain ⟨-, ⟨⟩⟩ := Option.ite_none_right_eq_some.mp hs
      rw [if_neg (show ¬c.makes (.onError expired) = true from
        Bool.false_ne_true)]
      exact hlost (h.onError expired)
  | shutdown =>
      obtain ⟨-, ⟨⟩⟩ := Option.ite_none_right_eq_some.mp hs
      rw [if_neg (show ¬c.makes .shutdown = true from Bool.false_ne_true)]
      exact hlost h.shutdown
  | create answer =>
      obtain ⟨hstage, -⟩ := Option.ite_none_right_eq_some.mp hs
      rw [h.idle] at hstage
      cases hstage
  | getChildren children =>
      obtain ⟨hstage, -⟩ := Option.ite_none_right_eq_some.mp hs
      rw [h.idle] at hstage
      cases hstage
  | eraseInvalid =>
      rw [FlinterCouncil.happen, h.idle] at hs
      cases hs
  | attendAmong =>
      rw [FlinterCouncil.happen, h.idle] at hs
      cases hs
  | track ok =>
      rw [FlinterCouncil.happen, h.idle] at hs
      cases hs
  | erase answered =>
      rw [FlinterCouncil.happen, h.idle] at hs
      cases hs
  | finishQuitClean =>
      rw [FlinterCouncil.happen, h.idle] at hs
      cases hs

-- ── Into a failure ───────────────────────────────────────────────────────────

/-- With -2 for its `_id`, an instance has failed. -/
def Fails (c : Council) : Prop := c.id = -2 → Failed c

theorem fails_of_ne (h : c.id ≠ -2) : Fails c := fun hid => absurd hid h

theorem failed_of_node (hidle : c.stage = .idle) (hnode : c.actualId = -1)
    (hid : c.id = -2) : Failed c :=
  ⟨hidle, by rw [hnode]; decide, by rw [hid]; decide⟩

/-- `DoLostClean`, and `Shutdown` behind it. -/
theorem fails_doLostClean (c : Council) (recoverable quit : Bool) :
    Fails (if quit then
        Council.clear { c.doLostClean recoverable with stage := .idle }
      else { c.doLostClean recoverable with stage := .idle }) := by
  cases recoverable with
  | true =>
      rw [doLostClean_true_eq]
      have hid : (-1 : Int) ≠ -2 := by decide
      cases quit with
      | true => exact fails_of_ne hid
      | false => exact fails_of_ne hid
  | false =>
      rw [doLostClean_false_eq]
      cases quit with
      | true => exact failed_of_node rfl rfl
      | false => exact failed_of_node rfl rfl

theorem fails_doQuitClean (h : c.id ≠ -2) (recoverable quit : Bool) :
    Fails (c.doQuitClean recoverable quit) := by
  dsimp only [Council.doQuitClean]
  split
  · exact fails_of_ne h
  · exact fails_doLostClean _ recoverable quit

theorem fails_onShrinked (c : Council) (recoverable : Bool) :
    Fails (c.onShrinked recoverable) := fails_doLostClean c recoverable false

theorem fails_attend (h : c.id ≠ -2) (hostname : Option Text) :
    Fails (c.attend hostname) := by
  rw [Council.attend]
  split
  · exact fails_of_ne h
  next hnode =>
    split
    next hname =>
      have heq := attend_nameless (Int.not_le.mp hnode) hname
      rw [Council.attend, if_neg hnode, hname] at heq
      show Fails ((c.onFired false).onFired false)
      rw [show (c.onFired false).onFired false = _ from heq]
      exact failed_of_node rfl rfl
    · exact fails_of_ne h

theorem fails_created (h : c.id ≠ -2) (answer : Option Text) :
    Fails (c.created answer) := by
  cases answer with
  | none => exact fails_doQuitClean (c := { c with size := -1 }) h false false
  | some actual =>
      dsimp only [Council.created]
      split
      · exact fails_of_ne h
      split
      · exact fails_of_ne h
      · exact fails_of_ne h

theorem fails_trackNext (h : c.id ≠ -2) (paths : List Text) :
    Fails (c.trackNext paths) := by
  rw [Council.trackNext]
  split
  · exact fails_onShrinked c true
  · exact fails_of_ne h

theorem fails_tracked (h : c.id ≠ -2) (path : Text) (paths : List Text)
    (ok : Bool) : Fails (c.tracked path paths ok) := by
  rw [Council.tracked]
  split
  · exact fails_trackNext h paths
  split
  · exact fails_trackNext (c := { c with tracks := path :: c.tracks }) h paths
  · exact fails_onShrinked c false

theorem fails_attendAmong (h : c.id ≠ -2) (hnode : 0 ≤ c.actualId)
    (children : Option (List Text)) : Fails (c.attendAmong children) := by
  have hactual : c.actualId ≠ -2 := fun heq => by
    rw [heq] at hnode
    exact absurd hnode (by decide)
  cases children with
  | none => exact fails_of_ne h
  | some children =>
      rw [Council.attendAmong]
      extract_lets candidates pos before c₂
      split
      · exact fails_doQuitClean h false false
      split
      · split
        · exact fails_of_ne h
        · split
          · exact fails_of_ne hactual
          · exact fails_of_ne hactual
      · exact fails_trackNext (c := c₂) h _

theorem fails_onData (h : c.id ≠ -2) (path : Text)
    (data hostname : Option Text) : Fails (c.onData path data hostname) := by
  cases hcalls : c.calls path data with
  | true =>
      obtain ⟨size, tracks, heq⟩ := onData_of_calls hcalls hostname
      rw [heq]
      exact fails_attend (c := { c with size := size, tracks := tracks }) h
        hostname
  | false =>
      rcases onData_of_not_calls hcalls hostname with heq | heq | heq
      · rw [heq]
        exact fails_of_ne h
      · rw [heq]
        exact fails_doQuitClean h true false
      · rw [heq]
        exact fails_onShrinked _ true

theorem fails_onError (h : c.id ≠ -2) (expired : Bool) :
    Fails (c.onError expired) := by
  cases expired with
  | false => exact fails_doQuitClean h false false
  | true =>
      show Fails c.onLost
      rw [Council.onLost, doLostClean_true_eq]
      exact fails_of_ne (show (-1 : Int) ≠ -2 by decide)

/-- **INTO A FAILURE**: a step that leaves -2 has ended. -/
theorem fails_happen (h : c.id ≠ -2) (hnode : c.stage.attends = true →
    0 ≤ c.actualId) {e : Happening} (hs : happen c e = some c') : Fails c' := by
  cases e with
  | initializeOn electionPath cb ok =>
      obtain ⟨-, ⟨⟩⟩ := Option.ite_none_right_eq_some.mp hs
      rw [Council.initializeOn]
      split
      · exact fails_of_ne h
      · exact fails_of_ne (show (-1 : Int) ≠ -2 by decide)
  | onData path data hostname =>
      obtain ⟨-, ⟨⟩⟩ := Option.ite_none_right_eq_some.mp hs
      exact fails_onData h path data hostname
  | onError expired =>
      obtain ⟨-, ⟨⟩⟩ := Option.ite_none_right_eq_some.mp hs
      exact fails_onError h expired
  | shutdown =>
      obtain ⟨-, ⟨⟩⟩ := Option.ite_none_right_eq_some.mp hs
      rw [Council.shutdown]
      split
      · exact fails_of_ne h
      · exact fails_doQuitClean (c := { c with tracks := [] }) h true true
  | create answer =>
      obtain ⟨-, ⟨⟩⟩ := Option.ite_none_right_eq_some.mp hs
      exact fails_created h answer
  | eraseInvalid =>
      rw [FlinterCouncil.happen] at hs
      split at hs
      · obtain rfl := Option.some.inj hs
        exact fails_doQuitClean h false false
      · cases hs
  | getChildren children =>
      obtain ⟨-, ⟨⟩⟩ := Option.ite_none_right_eq_some.mp hs
      exact fails_of_ne h
  | attendAmong =>
      rw [FlinterCouncil.happen] at hs
      split at hs
      next children hstage =>
        obtain rfl := Option.some.inj hs
        exact fails_attendAmong h (hnode (by rw [hstage]; rfl)) children
      · cases hs
  | track ok =>
      rw [FlinterCouncil.happen] at hs
      split at hs
      next path paths hstage =>
        obtain rfl := Option.some.inj hs
        exact fails_tracked h path paths ok
      · cases hs
  | erase answered =>
      rw [FlinterCouncil.happen] at hs
      split at hs
      · obtain rfl := Option.some.inj hs
        exact fails_of_ne h
      · cases hs
  | finishQuitClean =>
      rw [FlinterCouncil.happen] at hs
      split at hs
      next answered recoverable quit hstage =>
        obtain rfl := Option.some.inj hs
        exact fails_doLostClean { c with actualId := -1 }
          (recoverable && answered) quit
      · cases hs

-- ── The runs ─────────────────────────────────────────────────────────────────

/-- A failed instance makes no node. -/
def Final (p : Council × Failure) (e : Happening) : Prop :=
  ¬(p.2.failed = true ∧ p.1.makes e = true)

/-- **THE INVARIANT**: -2 is recorded, a failed instance is at rest, and it has
    told of nothing but firings since. -/
structure Recorded (p : Council × Failure) : Prop where
  minus : p.1.id = -2 → p.2.failed = true
  rests : p.2.failed = true → Failed p.1
  marked : p.2.failed = true → p.2.mark ≤ p.1.called.length
  told : p.2.failed = true →
    ∀ n ∈ p.1.called.drop p.2.mark, ∃ recoverable, n = .onFired recoverable

theorem opened_id {e : Happening} (hs : happen c e = some c')
    (hopened : opened c e c' = true) : c'.id = -1 := by
  cases e with
  | initializeOn electionPath cb ok =>
      obtain ⟨-, ⟨⟩⟩ := Option.ite_none_right_eq_some.mp hs
      rw [Council.initializeOn] at hopened ⊢
      split
      next hbad =>
        rw [if_pos hbad, opened, Bool.not_and_self] at hopened
        cases hopened
      · rfl
  | _ => cases hopened

/-- **THE STEP LEMMA**. -/
theorem Recorded.step (h : Recorded p) (ht : Told p.1) {e : Happening}
    (hs : happen p.1 e = some c') (hfinal : Final p e) :
    Recorded (c', note p.1 e p.2) := by
  have hnote : note p.1 e p.2 = if opened p.1 e c' then ⟨false, 0⟩
      else if !p.2.failed && decide (c'.id = -2) then ⟨true, c'.called.length⟩
      else p.2 := by
    rw [note, hs]
  rw [hnote]
  cases hopened : opened p.1 e c' with
  | true =>
      have hid := opened_id hs hopened
      refine ⟨fun hminus => ?_, nofun, nofun, nofun⟩
      rw [hid] at hminus
      exact absurd hminus (by decide)
  | false =>
      rw [if_neg Bool.false_ne_true]
      cases hfailed : p.2.failed with
      | true =>
          have hout := (h.rests hfailed).happen hs
          rw [if_neg fun hmakes => hfinal ⟨hfailed, hmakes⟩, hopened] at hout
          obtain ⟨-, hbad | ⟨hrests, told, hcalled, hfires⟩⟩ := hout
          · cases hbad
          refine ⟨fun _ => hfailed, fun _ => hrests, fun _ => ?_,
            fun _ n hn => ?_⟩
          · show p.2.mark ≤ c'.called.length
            rw [hcalled, List.length_append]
            exact Nat.le_add_right_of_le (h.marked hfailed)
          · have hn : n ∈ c'.called.drop p.2.mark := hn
            rw [hcalled, List.drop_append_of_le_length (h.marked hfailed)] at hn
            rcases List.mem_append.mp hn with hn | hn
            · exact h.told hfailed n hn
            · exact hfires n hn
      | false =>
          have hne : p.1.id ≠ -2 := fun hid => by
            rw [h.minus hid] at hfailed
            cases hfailed
          have hfails := fails_happen hne ht.attending hs
          by_cases hid : c'.id = -2
          · rw [if_pos (by rw [decide_eq_true hid]; rfl)]
            refine ⟨fun _ => rfl, fun _ => hfails hid, fun _ => le_refl _,
              fun _ n hn => ?_⟩
            rw [List.drop_length] at hn
            cases hn
          · rw [if_neg (by rw [decide_eq_false hid]; nofun)]
            have hno : ¬p.2.failed = true := by
              rw [hfailed]
              exact Bool.false_ne_true
            exact ⟨fun hminus => absurd hminus hid, fun hf => absurd hf hno,
              fun hf => absurd hf hno, fun hf => absurd hf hno⟩

theorem recorded_of_reachable (h : Reachable (failing.restrict Final) p) :
    Recorded p := by
  refine h.invariant ?_ ?_
  · rintro ⟨c, f⟩ ⟨⟨name, rfl⟩, rfl⟩
    have hid : (-1 : Int) ≠ -2 := by decide
    exact ⟨fun hminus => absurd hminus hid, nofun, nofun, nofun⟩
  · rintro p e ⟨c', f'⟩ hr hp ⟨hfinal, hs, rfl⟩
    exact hp.step (told_of_council hr.of_restrict.of_record) hs hfinal

/-- **A FINAL FAILURE**: while no failed instance comes to `Attend` with a name,
    one that has failed is not elected, makes no node and has told of nothing
    but firings since; and a step makes a node if and only if it comes to
    `Attend` with a name. -/
theorem failure_final (h : Reachable (failing.restrict Final) p)
    (hfailed : p.2.failed = true) :
    p.1.stage = .idle ∧ p.1.actualId < 0 ∧ p.1.id < 0 ∧
    (∀ n ∈ p.1.called.drop p.2.mark, ∃ recoverable, n = .onFired recoverable) ∧
    ∀ e c', happen p.1 e = some c' →
      (c'.stage = .create ↔ p.1.makes e = true) := by
  have hp := recorded_of_reachable h
  have hf := hp.rests hfailed
  refine ⟨hf.idle, hf.node, hf.unelected, hp.told hfailed, fun e c' hs => ?_⟩
  have hout := hf.happen hs
  constructor
  · intro hstage
    by_contra hmakes
    rw [if_neg hmakes, hstage] at hout
    cases hout.1
  · intro hmakes
    rw [if_pos hmakes] at hout
    exact hout

-- ── Elected behind a failure ─────────────────────────────────────────────────

namespace Revived

def path : Text := ['/', 'e']
def own : Text := childName ['a'] 0
def fresh : Council × Failure := (.fresh ['a'], ⟨false, 0⟩)

/-- The node cannot be made. -/
def fails : List Happening :=
  [.initializeOn path true true, .onData path (some ['1']) none, .create none]

/-- Then the size is taken back, and nothing happens. -/
def rests : List Happening := fails ++ [.onData path (some ['0']) none]

/-- Or it is reported again. -/
def returns : List Happening :=
  fails ++ [.onData path (some ['2']) none, .create (some (childPath path own)),
    .getChildren (some [own]), .attendAmong]

/-- One step, if it can be taken and makes no node of a failed instance. -/
def stepFinal (p : Council × Failure) (e : Happening) :
    Option (Council × Failure) :=
  if p.2.failed && p.1.makes e then none else step p e

def resting : Council × Failure :=
  (rests.foldlM stepFinal fresh).get (by decide)

def elected : Council × Failure := (returns.foldlM step fresh).get (by decide)

theorem reachable_resting : Reachable (failing.restrict Final) resting := by
  have hfollows : ∀ e ∈ rests, ∀ p p', stepFinal p e = some p' →
      (failing.restrict Final).step p e p' := by
    intro e _ p p' hs
    obtain ⟨hfinal, hs⟩ := Option.ite_none_left_eq_some.mp hs
    rw [Bool.and_eq_true] at hfinal
    exact ⟨hfinal, failing_step hs⟩
  exact Reachable.follow hfollows (.start ⟨⟨['a'], rfl⟩, rfl⟩)
    (Option.some_get _).symm

theorem reachable_elected : Reachable failing elected := by
  have hfollows : ∀ e ∈ returns, ∀ p p', step p e = some p' →
      failing.step p e p' := fun _ _ _ _ hs => failing_step hs
  exact Reachable.follow hfollows (.start ⟨⟨['a'], rfl⟩, rfl⟩)
    (Option.some_get _).symm

end Revived

/-- The failed instance at rest. -/
theorem failure_final_resting :
    Revived.resting.1.called.drop Revived.resting.2.mark = [] ∧
    Revived.resting.1.id < 0 :=
  ⟨by decide, (failure_final Revived.reachable_resting (by decide)).2.2.1⟩

/-- **NOT FINAL**: the failed instance makes its node, and is elected. -/
theorem elected_behind_failure :
    ¬∀ p, Reachable failing p → p.2.failed = true →
      ∀ n ∈ p.1.called.drop p.2.mark,
        ∃ recoverable, n = .onFired recoverable := by
  intro hclaim
  obtain ⟨recoverable, heq⟩ := hclaim _ Revived.reachable_elected (by decide)
    (.onElected 0) (by decide)
  cases heq

end FlinterCouncil
