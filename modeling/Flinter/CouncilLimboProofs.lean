import Flinter.CouncilFailureProofs
import Flinter.CouncilNameProofs

/-! # Council: what an Attend leaves behind

    `Attend` is not called again by itself: somebody has to report that a
    tracked candidate is missing, or what the election node holds.  So it may
    return with the instance elected, or failed, or with a candidate tracked,
    and otherwise only while the election node has nothing to attend for.

    The failures of `Create` are told.  The failure of `GetChildren` is only
    logged, and a size of -1 has `Attend` track nobody, so that an instance may
    be left that nothing calls (`Limbo`).  So may one whose predecessors are all
    tracked already, but were reported missing while it was elected: that report
    was ignored, and there is none to come (`attend_settles`,
    `list_fails_in_silence`). -/

namespace FlinterCouncil

open OrderedMaps Runs

-- ── The record ───────────────────────────────────────────────────────────────

/-- What goes on around an instance (ghost): whether an `Attend` runs or was the
    last to return, whether ZooKeeper said last that the election node holds a
    valid size, and what is tracked without a report to come. -/
structure Outlook where
  attending : Bool
  sized : Bool
  deaf : List Text
deriving DecidableEq, Repr

/-- A happening, and whether an answer without what was asked for says that the
    election node does not exist. -/
structure Outcome where
  happening : Happening
  nonode : Bool

def Council.callsAttend (c : Council) : Happening → Bool
  | .onData path data _ => c.calls path data
  | _ => false

/-- What ZooKeeper says of the election node. -/
def Outlook.say (o : Outlook) (c : Council) (x : Outcome) (c' : Council) :
    Bool :=
  match x.happening with
  | .initializeOn electionPath cb ok =>
    o.sized && !opened c (.initializeOn electionPath cb ok) c'
  | .onData path data _ =>
    if c.electionPath = path then
      match data with
      | none => false
      | some data => decide (0 < atoi32 data)
    else o.sized
  | .create none => o.sized && !x.nonode
  | .getChildren none => o.sized && !x.nonode
  | _ => o.sized

/-- What was reported missing and is still registered. -/
def Outlook.hear (o : Outlook) (c : Council) (x : Outcome) (c' : Council) :
    List Text :=
  let deaf := match x.happening with
    | .onData path none _ =>
      if c.electionPath = path then o.deaf else path :: o.deaf
    | _ => o.deaf
  deaf.filter c'.tracks.contains

/-- What a step adds to the record. -/
def Outlook.note (o : Outlook) (c : Council) (x : Outcome) (c' : Council) :
    Outlook where
  attending := c.callsAttend x.happening ||
    o.attending && decide (c.stage ≠ .idle)
  sized := o.say c x c'
  deaf := o.hear c x c'

/-- One step, if it can be taken. -/
def attendStep (p : Council × Outlook) (x : Outcome) :
    Option (Council × Outlook) :=
  (happen p.1 x.happening).map fun c' => (c', p.2.note p.1 x c')

/-- The runs of one instance, with what goes on around it. -/
def attendance : System (Council × Outlook) Outcome where
  init := fun p => (∃ name, p.1 = .fresh name) ∧ p.2 = ⟨false, false, []⟩
  step := fun p x p' => attendStep p x = some p'

-- ── What calls Attend again ──────────────────────────────────────────────────

variable {c c' : Council} {o : Outlook} {p p' : Council × Outlook} {x : Outcome}

/-- Some candidate is tracked, and a report of it is to come. -/
def Listens (c : Council) (o : Outlook) : Prop :=
  ∃ path ∈ c.tracks, path ≠ c.electionPath ∧ path ∉ o.deaf

/-- What `Attend` goes to track among these. -/
def Council.predecessors (c : Council) (children : List Text) : List Text :=
  ((getCandidates children).below c.actualId).reverse.take c.size.toNat |>.map
    fun p => childPath c.electionPath (childName p.2 p.1)

/-- **LIMBO**: the election node holds a size, no tracked candidate will be
    reported, and `Attend` cannot have the children of one that is neither
    elected nor failed, or finds it behind too many and nobody new to track. -/
def Limbo (c : Council) (o : Outlook) (children : Option (List Text)) : Prop :=
  o.sized = true ∧ ¬Listens c o ∧
    match children with
    | none => c.id < 0 ∧ c.id ≠ -2
    | some children => c.actualId ∈ (getCandidates children).keys ∧
        c.size < ((getCandidates children).upTo c.actualId).length ∧
        ∀ path ∈ c.predecessors children, path ∈ c.tracks

/-- No `Attend` comes into limbo. -/
def Answered (p : Council × Outlook) (x : Outcome) : Prop :=
  x.happening = .attendAmong → ∀ children, p.1.stage = .gotChildren children →
    ¬Limbo p.1 p.2 children

/-- What an `Attend` may leave behind. -/
def Settled (c : Council) (o : Outlook) : Prop :=
  0 ≤ c.id ∨ Listens c o ∨ c.id = -2 ∨ o.sized = false

/-- What it may wait for. -/
def Attending (c : Council) (o : Outlook) : Prop :=
  match c.stage with
  | .idle => Settled c o
  | .track paths => (∀ path ∈ paths, path ≠ c.electionPath) ∧
      (o.sized = false ∨ Listens c o ∨ ∃ path ∈ paths, path ∉ c.tracks)
  | .erase _ recoverable quit => recoverable = false ∧ quit = false
  | .erased _ recoverable quit => recoverable = false ∧ quit = false
  | _ => True

/-- **THE INVARIANT**. -/
structure Attended (p : Council × Outlook) : Prop where
  attending : p.2.attending = true → Attending p.1 p.2
  deaf : ∀ path ∈ p.2.deaf, path ∈ p.1.tracks

theorem attending_of_id (hidle : c.stage = .idle) (hid : c.id = -2) :
    Attending c o := by
  rw [Attending, hidle]
  exact Or.inr (Or.inr (Or.inl hid))

/-- What is expected stays so while fewer reports are missed. -/
theorem Attending.mono {o' : Outlook} (h : Attending c o)
    (hsized : o.sized = false → o'.sized = false) (hdeaf : o'.deaf ⊆ o.deaf) :
    Attending c o' := by
  have hlistens : Listens c o → Listens c o' := fun ⟨path, hmem, hne, hnew⟩ =>
    ⟨path, hmem, hne, fun hpath => hnew (hdeaf hpath)⟩
  rw [Attending] at h ⊢
  split at h
  · rcases h with h | h | h | h
    · exact Or.inl h
    · exact Or.inr (Or.inl (hlistens h))
    · exact Or.inr (Or.inr (Or.inl h))
    · exact Or.inr (Or.inr (Or.inr (hsized h)))
  · obtain ⟨hne, h | h | h⟩ := h
    · exact ⟨hne, Or.inl (hsized h)⟩
    · exact ⟨hne, Or.inr (Or.inl (hlistens h))⟩
    · exact ⟨hne, Or.inr (Or.inr h)⟩
  · exact h
  · exact h
  · trivial

-- ── Attend up to its calls ───────────────────────────────────────────────────

/-- A failure is there at once, or when the node has been erased. -/
theorem attending_onFired : Attending (c.onFired false) o := by
  by_cases hnode : 0 ≤ c.actualId
  · rw [Council.onFired, Council.doQuitClean, if_pos hnode]
    exact ⟨rfl, rfl⟩
  · rw [onFired_eq (Int.not_le.mp hnode), doLostClean_false_eq]
    exact attending_of_id rfl rfl

theorem attending_attend (hostname : Option Text) :
    Attending (c.attend hostname) o := by
  rw [Council.attend]
  split
  · trivial
  · split
    · exact attending_onFired
    · trivial

theorem attending_created (answer : Option Text) :
    Attending (c.created answer) o := by
  cases answer with
  | none => exact attending_onFired
  | some actual =>
      dsimp only [Council.created]
      split
      · trivial
      split
      · trivial
      · trivial

-- ── Attend among the candidates ──────────────────────────────────────────────

/-- The loop ends with somebody tracked, or it has still to come to one. -/
theorem attending_trackNext {paths : List Text}
    (hne : ∀ path ∈ paths, path ≠ c.electionPath)
    (h : o.sized = false ∨ Listens c o ∨ ∃ path ∈ paths, path ∉ c.tracks) :
    Attending (c.trackNext paths) o := by
  rw [Council.trackNext]
  split
  next hnil =>
    rw [Council.onShrinked, doLostClean_true_eq]
    rcases h with h | h | ⟨path, hmem, -⟩
    · exact Or.inr (Or.inr (Or.inr h))
    · exact Or.inr (Or.inl h)
    · rw [hnil] at hmem
      cases hmem
  · exact ⟨hne, h⟩

theorem attending_tracked {path : Text} {paths : List Text}
    (hne : ∀ q ∈ path :: paths, q ≠ c.electionPath)
    (h : o.sized = false ∨ Listens c o ∨ ∃ q ∈ path :: paths, q ∉ c.tracks)
    (hdeaf : ∀ q ∈ o.deaf, q ∈ c.tracks) (ok : Bool) :
    Attending (c.tracked path paths ok) o := by
  have hrest : ∀ q ∈ paths, q ≠ c.electionPath := fun q hq =>
    hne q (List.mem_cons_of_mem path hq)
  rw [Council.tracked]
  split
  next hmem =>
    refine attending_trackNext hrest ?_
    rcases h with h | h | ⟨q, hq, hnew⟩
    · exact Or.inl h
    · exact Or.inr (Or.inl h)
    · rcases List.mem_cons.mp hq with rfl | hq
      · exact absurd hmem hnew
      · exact Or.inr (Or.inr ⟨q, hq, hnew⟩)
  next hnew =>
    split
    · -- A path that was not registered has not been reported either.
      have hmem : path ∈ path :: paths := List.mem_cons_self
      exact attending_trackNext (c := { c with tracks := path :: c.tracks })
        hrest (Or.inr (Or.inl ⟨path, List.mem_cons_self, hne path hmem,
          fun hpath => hnew (hdeaf path hpath)⟩))
    · rw [Council.onShrinked, doLostClean_false_eq]
      exact attending_of_id rfl rfl

theorem attending_attendAmong (hnode : 0 ≤ c.actualId)
    {children : Option (List Text)} (h : ¬Limbo c o children) :
    Attending (c.attendAmong children) o := by
  have hout : o.sized = false ∨ Listens c o ∨
      (o.sized = true ∧ ¬Listens c o) := by
    by_cases hlistens : Listens c o
    · exact Or.inr (Or.inl hlistens)
    · cases hsized : o.sized with
      | false => exact Or.inl rfl
      | true => exact Or.inr (Or.inr ⟨rfl, hlistens⟩)
  cases children with
  | none =>
      show Settled { c with size := -1, stage := .idle } o
      rcases hout with hsized | hlistens | hlost
      · exact Or.inr (Or.inr (Or.inr hsized))
      · exact Or.inr (Or.inl hlistens)
      · by_cases hid : 0 ≤ c.id
        · exact Or.inl hid
        · refine Or.inr (Or.inr (Or.inl ?_))
          by_contra hne
          exact h ⟨hlost.1, hlost.2, Int.not_le.mp hid, hne⟩
  | some children =>
      rw [Council.attendAmong]
      extract_lets candidates pos before c₂
      split
      · exact attending_onFired
      next hmem =>
      split
      · split
        next hid => exact Or.inl hid
        · split
          · exact Or.inl hnode
          · exact Or.inl hnode
      next hpos =>
        refine attending_trackNext (c := c₂) ?_ ?_
        · intro path hpath
          obtain ⟨e, -, rfl⟩ := List.mem_map.mp hpath
          exact ne_childPath.symm
        · rcases hout with hsized | hlistens | hlost
          · exact Or.inl hsized
          · exact Or.inr (Or.inl hlistens)
          · refine Or.inr (Or.inr ?_)
            by_contra hall
            refine h ⟨hlost.1, hlost.2, not_not.mp hmem, Int.not_le.mp hpos, ?_⟩
            intro path hpath
            by_contra hnew
            exact hall ⟨path, hpath, hnew⟩

-- ── The runs ─────────────────────────────────────────────────────────────────

/-- A tracked node has been looked at. -/
def Happening.looks : Happening → Bool
  | .onData _ _ _ => true
  | _ => false

theorem hear_subset (h : x.happening.looks = false) :
    o.hear c x c' ⊆ o.deaf := by
  intro path hpath
  rw [Outlook.hear] at hpath
  have hmem := (List.mem_filter.mp hpath).1
  split at hmem
  next path' hostname heq =>
    rw [heq] at h
    cases h
  · exact hmem

theorem say_of_sized (h : x.happening.looks = false)
    (hsized : o.sized = false) : o.say c x c' = false := by
  rw [Outlook.say]
  split
  · rw [hsized]
    rfl
  next path data hostname heq =>
    rw [heq] at h
    cases h
  · rw [hsized]
    rfl
  · rw [hsized]
    rfl
  · exact hsized

/-- **THE STEP LEMMA**: what is done while an `Attend` runs. -/
theorem Attended.happen (h : Attended p) (hnode : p.1.stage.attends = true →
    0 ≤ p.1.actualId) (hs : happen p.1 x.happening = some c')
    (hanswered : Answered p x)
    (hattending : (p.2.note p.1 x c').attending = true) :
    Attending c' (p.2.note p.1 x c') := by
  obtain ⟨c, o⟩ := p
  obtain ⟨e, nonode⟩ := x
  have hcases : c.callsAttend e = true ∨
      o.attending = true ∧ c.stage ≠ .idle := by
    rcases (Bool.or_eq_true _ _).mp hattending with hcalls | hrest
    · exact Or.inl hcalls
    · obtain ⟨hattends, hbusy⟩ := (Bool.and_eq_true _ _).mp hrest
      exact Or.inr ⟨hattends, of_decide_eq_true hbusy⟩
  have hrun : c.callsAttend e = false → Attending c o ∧ c.stage ≠ .idle := by
    intro hcalls
    rcases hcases with hcalls' | ⟨hattends, hbusy⟩
    · rw [hcalls] at hcalls'
      cases hcalls'
    · exact ⟨h.attending hattends, hbusy⟩
  have hmono : e.looks = false →
      Attending c' o → Attending c' (o.note c ⟨e, nonode⟩ c') :=
    fun hother ha => ha.mono (say_of_sized hother) (hear_subset hother)
  cases e with
  | initializeOn electionPath cb ok =>
      obtain ⟨hidle, -⟩ := Option.ite_none_right_eq_some.mp hs
      exact absurd hidle (hrun rfl).2
  | onError expired =>
      obtain ⟨⟨hidle, -⟩, -⟩ := Option.ite_none_right_eq_some.mp hs
      exact absurd hidle (hrun rfl).2
  | shutdown =>
      obtain ⟨hidle, -⟩ := Option.ite_none_right_eq_some.mp hs
      exact absurd hidle (hrun rfl).2
  | onData path data hostname =>
      obtain ⟨⟨hidle, -⟩, ⟨⟩⟩ := Option.ite_none_right_eq_some.mp hs
      cases hcalls : c.calls path data with
      | false => exact absurd hidle (hrun hcalls).2
      | true =>
          obtain ⟨size, tracks, heq⟩ := onData_of_calls hcalls hostname
          rw [heq]
          exact attending_attend hostname
  | create answer =>
      obtain ⟨-, ⟨⟩⟩ := Option.ite_none_right_eq_some.mp hs
      exact hmono rfl (attending_created answer)
  | eraseInvalid =>
      rw [FlinterCouncil.happen] at hs
      split at hs
      · obtain rfl := Option.some.inj hs
        exact hmono rfl attending_onFired
      · cases hs
  | getChildren children =>
      obtain ⟨-, ⟨⟩⟩ := Option.ite_none_right_eq_some.mp hs
      trivial
  | attendAmong =>
      rw [FlinterCouncil.happen] at hs
      split at hs
      next children hstage =>
        obtain rfl := Option.some.inj hs
        have hnode' : 0 ≤ c.actualId := hnode (by
          show c.stage.attends = true
          rw [hstage]
          rfl)
        exact hmono rfl
          (attending_attendAmong hnode' (hanswered rfl children hstage))
      · cases hs
  | track ok =>
      rw [FlinterCouncil.happen] at hs
      split at hs
      next path paths hstage =>
        obtain rfl := Option.some.inj hs
        have ha := (hrun rfl).1
        rw [Attending, hstage] at ha
        exact hmono rfl (attending_tracked ha.1 ha.2 h.deaf ok)
      · cases hs
  | erase answered =>
      rw [FlinterCouncil.happen] at hs
      split at hs
      next path recoverable quit hstage =>
        obtain rfl := Option.some.inj hs
        have ha := (hrun rfl).1
        rw [Attending, hstage] at ha
        exact ha
      · cases hs
  | finishQuitClean =>
      rw [FlinterCouncil.happen] at hs
      split at hs
      next answered recoverable quit hstage =>
        obtain rfl := Option.some.inj hs
        have ha := (hrun rfl).1
        rw [Attending, hstage] at ha
        obtain ⟨rfl, rfl⟩ := ha
        dsimp only [Council.finishQuitClean]
        rw [if_neg Bool.false_ne_true, Bool.false_and, doLostClean_false_eq]
        exact attending_of_id rfl rfl
      · cases hs

theorem attended_of_reachable (h : Reachable (attendance.restrict Answered) p) :
    Reachable council p.1 ∧ Attended p := by
  refine h.invariant (I := fun p => Reachable council p.1 ∧ Attended p) ?_ ?_
  · rintro ⟨c, o⟩ ⟨⟨name, rfl⟩, rfl⟩
    exact ⟨.start ⟨name, rfl⟩, nofun, nofun⟩
  · rintro p x p' - ⟨hr, hp⟩ ⟨hanswered, hs⟩
    obtain ⟨c', hc', rfl⟩ := Option.map_eq_some_iff.mp hs
    refine ⟨.next hr hc', ?_, ?_⟩
    · exact hp.happen (told_of_council hr).attending hc' hanswered
    · intro path hpath
      exact List.contains_iff_mem.mp (List.mem_filter.mp hpath).2

/-- **NO LIMBO**: while no `Attend` comes into it, an `Attend` that has returned
    leaves the instance elected, or with a candidate tracked that is to be
    reported, or failed with the callback told so last; or ZooKeeper said that
    the election node is missing or holds no valid size. -/
theorem attend_settles (h : Reachable (attendance.restrict Answered) p)
    (hreturned : p.2.attending = true ∧ p.1.stage = .idle) :
    0 ≤ p.1.id ∨
    (∃ path ∈ p.1.tracks, path ≠ p.1.electionPath ∧ path ∉ p.2.deaf) ∨
    (p.1.id = -2 ∧
      (p.1.cb = true → p.1.called.getLast? = some (.onFired false))) ∨
    p.2.sized = false := by
  obtain ⟨hr, hp⟩ := attended_of_reachable h
  have hattending := hp.attending hreturned.1
  rw [Attending, hreturned.2] at hattending
  rcases hattending with hid | hlistens | hid | hsized
  · exact Or.inl hid
  · exact Or.inr (Or.inl hlistens)
  · exact Or.inr (Or.inr (Or.inl ⟨hid, (told_of_council hr).failed hid⟩))
  · exact Or.inr (Or.inr (Or.inr hsized))

-- ── A list that cannot be had ────────────────────────────────────────────────

namespace Silenced

def path : Text := ['/', 'e']
def first : Text := childName ['a'] 0
def second : Text := childName ['b'] 1
def fresh : Council × Outlook := (.fresh ['b'], ⟨false, false, []⟩)

/-- The instance has made its node, and lists the candidates. -/
def lists (children : Option (List Text)) : List Outcome :=
  [⟨.initializeOn path true true, false⟩,
    ⟨.onData path (some ['1']) none, false⟩,
    ⟨.create (some (childPath path second)), false⟩,
    ⟨.getChildren children, false⟩]

/-- What it does then, if it is behind one other. -/
def tracks : List Outcome := [⟨.attendAmong, false⟩, ⟨.track true, false⟩]

/-- It finds one before its own. -/
def listed : Council × Outlook :=
  ((lists (some [first, second])).foldlM attendStep fresh).get (by decide)

/-- It tracks that one. -/
def waiting : Council × Outlook :=
  (tracks.foldlM attendStep listed).get (by decide)

/-- The connection is lost while it lists them. -/
def loses : List Outcome := lists none ++ [⟨.attendAmong, false⟩]

def silent : Council × Outlook :=
  (loses.foldlM attendStep fresh).get (by decide)

theorem reachable_listed : Reachable (attendance.restrict Answered) listed := by
  have hother : ∀ x ∈ lists (some [first, second]),
      x.happening ≠ .attendAmong := by
    intro x hx
    rw [lists] at hx
    simp only [List.mem_cons, List.not_mem_nil, or_false] at hx
    rcases hx with rfl | rfl | rfl | rfl
    · exact nofun
    · exact nofun
    · exact nofun
    · exact nofun
  have hfollows : ∀ x ∈ lists (some [first, second]), ∀ p p',
      attendStep p x = some p' → (attendance.restrict Answered).step p x p' :=
    fun x hx _ _ hs => ⟨fun heq => absurd heq (hother x hx), hs⟩
  exact Reachable.follow hfollows (.start ⟨⟨['b'], rfl⟩, rfl⟩)
    (Option.some_get _).symm

theorem reachable_waiting :
    Reachable (attendance.restrict Answered) waiting := by
  have hnew : ¬Limbo listed.1 listed.2 (some [first, second]) := by
    rintro ⟨-, -, -, -, hall⟩
    exact absurd (hall (childPath path first) (by decide)) (by decide)
  have hanswered : Answered listed ⟨.attendAmong, false⟩ := by
    intro _ children hstage
    obtain rfl : some [first, second] = children :=
      Stage.gotChildren.inj hstage
    exact hnew
  exact .next (l := ⟨.track true, false⟩)
    (.next (l := ⟨.attendAmong, false⟩) reachable_listed ⟨hanswered, rfl⟩)
    ⟨nofun, rfl⟩

theorem reachable_silent : Reachable attendance silent :=
  Reachable.follow (fun _ _ _ _ hs => hs) (.start ⟨⟨['b'], rfl⟩, rfl⟩)
    (Option.some_get _).symm

end Silenced

/-- The instance behind the other waits for it. -/
theorem attend_settles_waiting :
    ∃ path ∈ Silenced.waiting.1.tracks,
      path ≠ Silenced.waiting.1.electionPath ∧
        path ∉ Silenced.waiting.2.deaf := by
  rcases attend_settles Silenced.reachable_waiting (by decide) with
    h | h | h | h
  · revert h
    decide
  · exact h
  · exact absurd h.1 (by decide)
  · revert h
    decide

/-- **IN SILENCE**: the instance has a node of its own, a size to be elected for
    and nothing to wait for, and nobody is told. -/
theorem list_fails_in_silence :
    ¬∀ p, Reachable attendance p →
      p.2.attending = true ∧ p.1.stage = .idle →
        0 ≤ p.1.id ∨
        (∃ path ∈ p.1.tracks, path ≠ p.1.electionPath ∧ path ∉ p.2.deaf) ∨
        (p.1.id = -2 ∧
          (p.1.cb = true → p.1.called.getLast? = some (.onFired false))) ∨
        p.2.sized = false := by
  intro hclaim
  rcases hclaim _ Silenced.reachable_silent (by decide) with h | h | h | h
  · revert h
    decide
  · revert h
    decide
  · exact absurd h.1 (by decide)
  · revert h
    decide

end FlinterCouncil
