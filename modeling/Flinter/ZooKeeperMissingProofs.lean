import Flinter.ZooKeeperCoverageProofs

/-! # ZooKeeperTracker: a node that is missing

    A node is found missing by an event, or by a request for its data or its
    children; then everybody who wants something of it is told NULL, unless the
    `exists` that waits for the node cannot be made.  The answer of that
    `exists` tells nobody, but it is the only one that cancels.

    So an entry that is to be cancelled outlives each NULL, and stays for good
    if nobody else waits for the node; and what goes in the end are all the
    entries of its callback (`existing_cancelled`).  An entry that is not to be
    notified is told NULL like any other (`missing_honoured`). -/

namespace FlinterZooKeeper

open Runs

variable {issue : Issue} {w w' : World} {path p : Text} {kind : Kind}
variable {t : Tracker} {notices : List Notice} {a : Action}

-- ── Entries ──────────────────────────────────────────────────────────────────

/-- The tracker has an entry under the path. -/
def Entry (w : World) (path : Text) (t : Tracker) : Prop :=
  ∃ r ∈ w.tracks, r.path = path ∧ r.tracker = t

instance (w : World) (path : Text) (t : Tracker) : Decidable (Entry w path t) :=
  inferInstanceAs (Decidable (∃ r ∈ w.tracks, _))

/-- The entries are the same. -/
def Keeps (w w' : World) : Prop := ∀ p t, Entry w' p t ↔ Entry w p t

theorem keeps_of_tracks (h : w'.tracks = w.tracks) : Keeps w w' := by
  intro p t
  rw [Entry, h]
  exact Iff.rfl

theorem Keeps.trans {w'' : World} (h : Keeps w w') (h' : Keeps w' w'') :
    Keeps w w'' := fun p t => (h' p t).trans (h p t)

theorem keeps_deliver (w : World) (notices : List Notice) :
    Keeps w (w.deliver notices) := by
  intro p t
  constructor
  · rintro ⟨r, hr, hpath, htracker⟩
    obtain ⟨r', hr', rfl⟩ := mem_deliver.mp hr
    rw [hear_path] at hpath
    rw [hear_tracker] at htracker
    exact ⟨r', hr', hpath, htracker⟩
  · rintro ⟨r, hr, hpath, htracker⟩
    refine ⟨_, mem_deliver.mpr ⟨r, hr, rfl⟩, ?_, ?_⟩
    · rw [hear_path]
      exact hpath
    · rw [hear_tracker]
      exact htracker

theorem keeps_processNolock {dreq creq erased : Bool} :
    Keeps w (processNolock issue w path dreq creq erased).2 :=
  keeps_of_tracks processNolock_asks.tracks

theorem entry_insert {tracker : Tracker} :
    Entry (w.insert path tracker) p t ↔
      Entry w p t ∨ path = p ∧ tracker = t := by
  constructor
  · rintro ⟨r, hr, hpath, htracker⟩
    rcases List.mem_append.mp hr with hr | hr
    · exact Or.inl ⟨r, hr, hpath, htracker⟩
    · obtain rfl := List.mem_singleton.mp hr
      exact Or.inr ⟨hpath, htracker⟩
  · rintro (⟨r, hr, hentry⟩ | hentry)
    · exact ⟨r, List.mem_append_left _ hr, hentry⟩
    · exact ⟨_, List.mem_append_right _ (List.mem_singleton.mpr rfl), hentry⟩

theorem entry_cancelNolock {cb : Option Nat} :
    Entry (cancelNolock w path cb) p t ↔
      Entry w p t ∧ ¬(p = path ∧ (cb = none ∨ cb = some t.cb)) := by
  constructor
  · rintro ⟨r, hr, rfl, rfl⟩
    obtain ⟨hr, hkept⟩ := List.mem_filter.mp hr
    exact ⟨⟨r, hr, rfl, rfl⟩, by simpa [imp_iff_not_or] using hkept⟩
  · rintro ⟨⟨r, hr, rfl, rfl⟩, hkept⟩
    refine ⟨r, List.mem_filter.mpr ⟨hr, ?_⟩, rfl, rfl⟩
    simpa [imp_iff_not_or] using hkept

/-- Cancelling for some callbacks. -/
theorem entry_foldl_cancelNolock {rs : List Registration} :
    Entry (rs.foldl (fun w r => cancelNolock w path (some r.tracker.cb)) w) p t
      ↔ Entry w p t ∧ ¬(p = path ∧ ∃ r ∈ rs, r.tracker.cb = t.cb) := by
  induction rs generalizing w with
  | nil => simp
  | cons r rs ih =>
      rw [List.foldl_cons, ih, entry_cancelNolock]
      simp only [List.mem_cons, exists_eq_or_imp, reduceCtorEq, false_or,
        Option.some.injEq]
      rw [and_assoc, ← not_or, ← and_or_left]

-- ── What is told ─────────────────────────────────────────────────────────────

/-- NULL, of this kind. -/
def nullNotice (kind : Kind) (cb : Nat) (path : Text) : Notice :=
  match kind with
  | .data => .onData cb path none
  | .children => .onChildren cb path none

/-- What was told in a step. -/
def news (w w' : World) : List Notice := w'.notices.drop w.notices.length

/-- A callback was told NULL in a step. -/
def ToldNull (w w' : World) (kind : Kind) (cb : Nat) (path : Text) : Prop :=
  nullNotice kind cb path ∈ news w w'

instance (w w' : World) (kind : Kind) (cb : Nat) (path : Text) :
    Decidable (ToldNull w w' kind cb path) :=
  inferInstanceAs (Decidable (_ ∈ _))

theorem mem_notifyNull {tracks : List Registration} {n : Notice} :
    n ∈ notifyNull tracks path ↔ ∃ r ∈ tracks, r.path = path ∧
      ∃ kind, r.tracker.wants kind = true ∧
        n = nullNotice kind r.tracker.cb path := by
  rw [notifyNull, List.mem_append, List.mem_map, List.mem_map]
  constructor
  · rintro (⟨cb, hcb, rfl⟩ | ⟨cb, hcb, rfl⟩)
    · obtain ⟨r, hr, hpath, hwants, rfl⟩ := mem_callbacks.mp hcb
      exact ⟨r, hr, hpath, .data, hwants, rfl⟩
    · obtain ⟨r, hr, hpath, hwants, rfl⟩ := mem_callbacks.mp hcb
      exact ⟨r, hr, hpath, .children, hwants, rfl⟩
  · rintro ⟨r, hr, hpath, kind, hwants, rfl⟩
    cases kind with
    | data =>
        exact Or.inl ⟨_, mem_callbacks.mpr ⟨r, hr, hpath, hwants, rfl⟩, rfl⟩
    | children =>
        exact Or.inr ⟨_, mem_callbacks.mpr ⟨r, hr, hpath, hwants, rfl⟩, rfl⟩

theorem nullNotice_inj {kind' : Kind} {cb cb' : Nat} {path' : Text}
    (h : nullNotice kind cb path = nullNotice kind' cb' path') :
    kind = kind' ∧ cb = cb' ∧ path = path' := by
  cases kind with
  | data =>
      cases kind' with
      | data =>
          obtain ⟨hcb, hpath, -⟩ := Notice.onData.inj h
          exact ⟨rfl, hcb, hpath⟩
      | children => cases h
  | children =>
      cases kind' with
      | data => cases h
      | children =>
          obtain ⟨hcb, hpath, -⟩ := Notice.onChildren.inj h
          exact ⟨rfl, hcb, hpath⟩

/-- Nothing that is told is NULL. -/
def Present (notices : List Notice) : Prop :=
  ∀ kind cb path, nullNotice kind cb path ∉ notices

theorem present_of_forall (h : ∀ n ∈ notices, ∀ kind cb path,
    n ≠ nullNotice kind cb path) : Present notices := fun kind cb path hmem =>
  h _ hmem kind cb path rfl

theorem present_notifyError {tracks : List Registration} {error : Int} :
    Present (notifyError tracks path error) := by
  refine present_of_forall fun n hn kind cb p heq => ?_
  obtain ⟨cb', -, rfl⟩ := List.mem_map.mp hn
  cases kind with
  | data => cases heq
  | children => cases heq

theorem notices_ask {request : Request} :
    (ask issue w request path).2.notices = w.notices := by
  rw [ask]
  split
  · rfl
  split
  · rfl
  · rfl

theorem notices_get {d c e : Bool} :
    (get issue w path d c e).2.notices = w.notices := by
  have hd : (if d = true then ask issue w .get path else (ZOK, w)).2.notices =
      w.notices := by
    split
    · exact notices_ask
    · rfl
  rw [get]
  generalize (if d = true then ask issue w .get path else (ZOK, w)) = p at hd ⊢
  split
  · rfl
  split
  · rfl
  split
  · exact notices_ask
  split
  · rfl
  show (if p.1 ≠ ZOK ∨ ¬c = true then p
    else ask issue p.2 .getChildren path).2.notices = w.notices
  split
  · exact hd
  · exact notices_ask.trans hd

theorem notices_processNolock {dreq creq erased : Bool} :
    (processNolock issue w path dreq creq erased).2.notices = w.notices := by
  rw [processNolock_eq]
  split
  · rfl
  · exact notices_get

/-- A step that told these. -/
theorem news_eq (h : w'.notices = w.notices ++ notices) :
    news w w' = notices := by
  rw [news, h, List.drop_left]

-- ── Steps that find a node missing ───────────────────────────────────────────

/-- The path that an event or a completion finds missing. -/
def Action.missing : Action → Option Text
  | .event .erased _ path => some path
  | .get rc path _ => if rc = ZNONODE then some path else none
  | .getChildren rc path _ => if rc = ZNONODE then some path else none
  | _ => none

/-- Nobody waits for a missing node, or the `exists` for it is in flight or will
    be made. -/
def MayAsk (issue : Issue) (w : World) (path : Text) : Prop :=
  (∀ kind, need w.tracks path true kind = false) ∨
    (w.zk = true ∧ w.state = ZOO_CONNECTED_STATE) ∧
      ((.exist, path) ∈ w.asked ∨ issue .exist = ZOK)

theorem ask_ok_iff {request : Request} :
    (ask issue w request path).1 = ZOK ↔
      (request, path) ∈ w.asked ∨ issue request = ZOK := by
  rw [ask]
  split
  next hin => exact iff_of_true rfl (Or.inl hin)
  next hnew =>
    split
    next hbad => exact iff_of_false hbad fun h => h.elim hnew hbad
    next hok => exact iff_of_true rfl (Or.inr (not_not.mp hok))

theorem processNolock_ok_iff :
    (processNolock issue w path true true true).1 = ZOK ↔
      MayAsk issue w path := by
  rw [processNolock_eq, MayAsk]
  split
  next hnone =>
    rw [Bool.and_true, Bool.and_true, Bool.and_eq_true, Bool.not_eq_true',
      Bool.not_eq_true'] at hnone
    refine iff_of_true rfl (Or.inl fun kind => ?_)
    cases kind with
    | data => exact hnone.1
    | children => exact hnone.2
  next hsome =>
    have hneed : ¬∀ kind, need w.tracks path true kind = false := fun hall =>
      hsome (by rw [hall .data, hall .children]; rfl)
    have hinvalid : ¬ZINVALIDSTATE = ZOK := by decide
    rw [or_iff_right hneed, get]
    split
    next hzk =>
      have hzk : ¬w.zk = true := by simpa using hzk
      exact iff_of_false hinvalid fun h => hzk h.1.1
    next hzk =>
    split
    next hstate => exact iff_of_false hinvalid fun h => hstate h.1.2
    next hstate =>
    have hzk : w.zk = true := by simpa using hzk
    rw [if_pos rfl, ask_ok_iff]
    exact (and_iff_right ⟨hzk, not_not.mp hstate⟩).symm

/-- What comes of a node that is found missing. -/
structure FoundMissing (issue : Issue) (w : World) (path : Text) (w' : World) :
    Prop where
  keeps : Keeps w w'
  told : MayAsk issue w path → news w w' = notifyNull w.tracks path
  failed : ¬MayAsk issue w path →
    ∃ error, error ≠ ZOK ∧ news w w' = notifyError w.tracks path error

/-- The event and the completions are alike: the tracker is as it was but for
    what has come. -/
theorem foundMissing_of_same (w₀ : World) (htracks : w₀.tracks = w.tracks)
    (hnotices : w₀.notices = w.notices)
    (hask : MayAsk issue w₀ path ↔ MayAsk issue w path)
    (h : w' = if (processNolock issue w₀ path true true true).1 = ZOK then
        (processNolock issue w₀ path true true true).2.deliver
          (notifyNull w₀.tracks path)
      else (processNolock issue w₀ path true true true).2.deliver
        (notifyError w₀.tracks path
          (processNolock issue w₀ path true true true).1)) :
    FoundMissing issue w path w' := by
  have hsame : ∀ ns, ((processNolock issue w₀ path true true true).2.deliver
      ns).notices = w.notices ++ ns := by
    intro ns
    rw [World.deliver, notices_processNolock, hnotices]
  have hkeeps : ∀ ns,
      Keeps w ((processNolock issue w₀ path true true true).2.deliver ns) :=
    fun ns => (keeps_of_tracks htracks).trans
      (keeps_processNolock.trans (keeps_deliver _ ns))
  have hok := processNolock_ok_iff.trans hask
  subst h
  refine ⟨?_, fun hmay => ?_, fun hnot => ?_⟩
  · split
    · exact hkeeps _
    · exact hkeeps _
  · rw [if_pos (hok.mpr hmay), news_eq (hsame _), htracks]
  · have hbad := fun h => hnot (hok.mp h)
    rw [if_neg hbad, news_eq (hsame _), htracks]
    exact ⟨_, hbad, rfl⟩

theorem foundMissing_event {watch : Watch} :
    FoundMissing issue w path
      (onEvent issue (w.disarm watch path) .erased path) := by
  refine foundMissing_of_same (w.disarm watch path) rfl rfl Iff.rfl ?_
  show process issue (w.disarm watch path) path true true true = _
  rw [process_eq, if_pos rfl, processNolock_asks.tracks]

theorem foundMissing_complete {request : Request} {rc : Int}
    (hother : request ≠ .exist) :
    FoundMissing issue w path
      (onMissing issue (w.complete request path rc) path) := by
  refine foundMissing_of_same (w.complete request path rc) rfl rfl ?_ rfl
  have hasked : (.exist, path) ∈ (w.complete request path rc).asked ↔
      (.exist, path) ∈ w.asked := by
    show (.exist, path) ∈ w.asked.erase (request, path) ↔ _
    rw [Finset.mem_erase]
    exact and_iff_right fun heq => hother (Prod.mk.inj heq).1.symm
  rw [MayAsk, MayAsk, hasked]
  exact Iff.rfl

/-- **A MISSING NODE**: everybody is told NULL, or nobody. -/
theorem foundMissing_of_next (hs : next issue w a = some w')
    (ha : a.missing = some path) : FoundMissing issue w path w' := by
  cases a with
  | event event watch p =>
      obtain ⟨-, ⟨⟩⟩ := Option.ite_none_right_eq_some.mp hs
      cases event with
      | erased =>
          obtain rfl := Option.some.inj ha
          exact foundMissing_event
      | _ => cases ha
  | get rc p data =>
      obtain ⟨-, ⟨⟩⟩ := Option.ite_none_right_eq_some.mp hs
      obtain ⟨hrc, ⟨⟩⟩ := Option.ite_none_right_eq_some.mp ha
      rw [onGet, if_pos hrc]
      exact foundMissing_complete (fun heq => by cases heq)
  | getChildren rc p children =>
      obtain ⟨-, ⟨⟩⟩ := Option.ite_none_right_eq_some.mp hs
      obtain ⟨hrc, ⟨⟩⟩ := Option.ite_none_right_eq_some.mp ha
      rw [onGetChildren, if_pos hrc]
      exact foundMissing_complete (fun heq => by cases heq)
  | _ => cases ha

-- ── The other steps ──────────────────────────────────────────────────────────

/-- A step after which nobody has been told NULL. -/
def Mute (w w' : World) : Prop :=
  ∃ notices, w'.notices = w.notices ++ notices ∧ Present notices

theorem present_nil : Present [] := fun _ _ _ hmem => by cases hmem

theorem mute_of_notices (h : w'.notices = w.notices) : Mute w w' :=
  ⟨[], by rw [h, List.append_nil], present_nil⟩

theorem mute_deliver {v : World} (h : v.notices = w.notices)
    (hns : Present notices) : Mute w (v.deliver notices) :=
  ⟨notices, by rw [World.deliver, h], hns⟩

theorem mute_process {dreq creq : Bool} :
    Mute w (process issue w path dreq creq false) := by
  rw [process_eq]
  split
  · exact mute_of_notices notices_processNolock
  · exact mute_deliver notices_processNolock present_notifyError

theorem mute_doTrack {q : Option Text} {d c null missing : Bool}
    {cb : Option Nat} : Mute w (doTrack issue w q d c null missing cb).2 := by
  rw [doTrack]
  split
  · exact mute_of_notices rfl
  · exact mute_of_notices rfl
  next path tracker hadmitted =>
    have hsame : (processNolock issue (w.insert path tracker) path true true
        false).2.notices = w.notices := notices_processNolock
    rw [register_eq]
    split
    · exact mute_of_notices hsame
    · exact mute_deliver hsame present_notifyError

theorem notices_foldl_cancelNolock {rs : List Registration} :
    (rs.foldl (fun w r => cancelNolock w path (some r.tracker.cb)) w).notices =
      w.notices := by
  induction rs generalizing w with
  | nil => rfl
  | cons r rs ih =>
      rw [List.foldl_cons, ih]
      rfl

theorem mute_onExists {rc : Int} :
    Mute w (onExists issue (w.complete .exist path rc) rc path) := by
  have hsame : (if rc = ZOK then
      processNolock issue (w.complete .exist path rc) path true true false
      else (rc, w.complete .exist path rc)).2.notices = w.notices := by
    split
    · exact notices_processNolock
    · rfl
  rw [onExists]
  generalize (if rc = ZOK then
      processNolock issue (w.complete .exist path rc) path true true false
      else (rc, w.complete .exist path rc)) = p at hsame ⊢
  split
  · exact mute_of_notices hsame
  split
  · exact mute_deliver hsame present_notifyError
  · exact mute_of_notices (notices_foldl_cancelNolock.trans hsame)

/-- **THE OTHER STEPS** tell nobody NULL. -/
theorem mute_of_next (hs : next issue w a = some w') (ha : a.missing = none) :
    Mute w w' := by
  cases a with
  | track q d c null cb =>
      obtain rfl := Option.some.inj hs
      exact mute_doTrack
  | trackExisting q d c cb =>
      obtain rfl := Option.some.inj hs
      exact mute_doTrack
  | cancel q cb =>
      obtain rfl := Option.some.inj hs
      rw [cancel]
      split
      · exact mute_of_notices rfl
      · exact mute_of_notices rfl
  | session state =>
      obtain ⟨-, ⟨⟩⟩ := Option.ite_none_right_eq_some.mp hs
      exact mute_of_notices rfl
  | event event watch q =>
      obtain ⟨-, ⟨⟩⟩ := Option.ite_none_right_eq_some.mp hs
      cases event with
      | erased => cases ha
      | created => exact mute_process (w := w.disarm watch q)
      | changed => exact mute_process (w := w.disarm watch q)
      | child => exact mute_process (w := w.disarm watch q)
  | exist rc q =>
      obtain ⟨-, ⟨⟩⟩ := Option.ite_none_right_eq_some.mp hs
      exact mute_onExists
  | get rc q data =>
      obtain ⟨-, ⟨⟩⟩ := Option.ite_none_right_eq_some.mp hs
      have hrc : ¬rc = ZNONODE := fun hrc => by
        rw [Action.missing, if_pos hrc] at ha
        cases ha
      rw [onGet, if_neg hrc]
      split
      · exact mute_deliver (w := w) (v := w.complete .get q rc) rfl
          present_notifyError
      · refine mute_deliver (w := w) (v := w.complete .get q rc) rfl ?_
        refine present_of_forall fun n hn kind cb p heq => ?_
        obtain ⟨cb', -, rfl⟩ := List.mem_map.mp hn
        cases kind with
        | data => cases heq
        | children => cases heq
  | getChildren rc q children =>
      obtain ⟨-, ⟨⟩⟩ := Option.ite_none_right_eq_some.mp hs
      have hrc : ¬rc = ZNONODE := fun hrc => by
        rw [Action.missing, if_pos hrc] at ha
        cases ha
      rw [onGetChildren, if_neg hrc]
      split
      · exact mute_deliver (w := w) (v := w.complete .getChildren q rc) rfl
          present_notifyError
      · refine mute_deliver (w := w) (v := w.complete .getChildren q rc) rfl ?_
        refine present_of_forall fun n hn kind cb p heq => ?_
        obtain ⟨cb', -, rfl⟩ := List.mem_map.mp hn
        cases kind with
        | data => cases heq
        | children => cases heq

/-- **WHO IS TOLD NULL** in a step: whoever wants something of the path that is
    found missing, unless its `exists` cannot be made. -/
theorem toldNull_iff (hs : next issue w a = some w') {cb : Nat} :
    ToldNull w w' kind cb path ↔
      a.missing = some path ∧ MayAsk issue w path ∧
        ∃ t, Entry w path t ∧ t.cb = cb ∧ t.wants kind = true := by
  cases ha : a.missing with
  | none =>
      obtain ⟨notices, heq, hpresent⟩ := mute_of_next hs ha
      rw [ToldNull, news_eq heq]
      exact iff_of_false (hpresent kind cb path) fun h => by cases h.1
  | some q =>
      have hfound := foundMissing_of_next hs ha
      by_cases hmay : MayAsk issue w q
      · rw [ToldNull, hfound.told hmay, mem_notifyNull]
        constructor
        · rintro ⟨r, hr, rfl, kind', hwants, heq⟩
          obtain ⟨rfl, rfl, rfl⟩ := nullNotice_inj heq
          exact ⟨rfl, hmay, r.tracker, ⟨r, hr, rfl, rfl⟩, rfl, hwants⟩
        · rintro ⟨heq, -, t, ⟨r, hr, hpath, rfl⟩, rfl, hwants⟩
          obtain rfl := Option.some.inj heq
          exact ⟨r, hr, hpath, kind, hwants, rfl⟩
      · obtain ⟨error, -, hnews⟩ := hfound.failed hmay
        rw [ToldNull, hnews]
        refine iff_of_false (present_notifyError kind cb path) ?_
        rintro ⟨heq, hmay', -⟩
        obtain rfl := Option.some.inj heq
        exact hmay hmay'

-- ── How entries come and go ──────────────────────────────────────────────────

/-- What `DoTrack` inserts is what it was asked for. -/
theorem examine_insert {q : Option Text} {d c null missing : Bool}
    {cb : Option Nat} {tracker : Tracker}
    (h : examine w q d c null missing cb = .insert path tracker) :
    q = some path ∧ cb = some tracker.cb ∧
      ∃ kind, tracker.wants kind = true := by
  rw [examine.eq_def] at h
  split at h
  next path' cb' hpath =>
    split at h
    · cases h
    next hsome =>
    split at h
    · cases h
    split at h
    · cases h
    obtain ⟨rfl, rfl⟩ := Admission.insert.inj h
    refine ⟨(Option.filter_eq_some_iff.mp hpath).1, rfl, ?_⟩
    cases hd : d with
    | true => exact ⟨.data, rfl⟩
    | false =>
        cases hc : c with
        | true => exact ⟨.children, rfl⟩
        | false =>
            rw [hd, hc] at hsome
            exact absurd rfl hsome
  · cases h

/-- `DoTrack` takes out entries of its callback only, and only if it fails. -/
theorem entry_doTrack {q : Option Text} {d c null missing : Bool}
    {cb : Option Nat} :
    (Entry w p t → Entry (doTrack issue w q d c null missing cb).2 p t ∨
      (q = some p ∧ cb = some t.cb) ∧
        (doTrack issue w q d c null missing cb).1 = false) ∧
    (Entry (doTrack issue w q d c null missing cb).2 p t →
      Entry w p t ∨ ∃ kind, t.wants kind = true) := by
  rw [doTrack]
  split
  · exact ⟨Or.inl, Or.inl⟩
  · exact ⟨Or.inl, Or.inl⟩
  next path tracker hadmitted =>
    obtain ⟨rfl, rfl, hwants⟩ := examine_insert hadmitted
    have hkeeps : Keeps (w.insert path tracker) (processNolock issue
        (w.insert path tracker) path true true false).2 := keeps_processNolock
    dsimp only [register]
    generalize processNolock issue (w.insert path tracker) path true true
      false = r at hkeeps ⊢
    by_cases hok : r.1 = ZOK
    · rw [if_pos hok]
      constructor
      · intro he
        exact Or.inl ((hkeeps p t).mpr (entry_insert.mpr (Or.inl he)))
      · intro he
        rcases entry_insert.mp ((hkeeps p t).mp he) with he | ⟨-, rfl⟩
        · exact Or.inl he
        · exact Or.inr hwants
    · rw [if_neg hok]
      have hiff : ∀ notices, Entry ((cancelNolock r.2 path
          (some tracker.cb)).deliver notices) p t ↔
          Entry (w.insert path tracker) p t ∧
            ¬(p = path ∧ (some tracker.cb = none ∨
              some tracker.cb = some t.cb)) := by
        intro notices
        rw [keeps_deliver, entry_cancelNolock, hkeeps]
      constructor
      · intro he
        by_cases hmine : p = path ∧ tracker.cb = t.cb
        · exact Or.inr ⟨⟨by rw [hmine.1], by rw [hmine.2]⟩, rfl⟩
        · refine Or.inl ((hiff _).mpr ⟨entry_insert.mpr (Or.inl he), ?_⟩)
          rintro ⟨hpath, hcb⟩
          have hsome : some tracker.cb = some t.cb :=
            hcb.resolve_left fun hnone => by cases hnone
          exact hmine ⟨hpath, Option.some.inj hsome⟩
      · intro he
        rcases entry_insert.mp ((hiff _).mp he).1 with he | ⟨-, rfl⟩
        · exact Or.inl he
        · exact Or.inr hwants

/-- **THE ONE CANCELLATION**: it takes out every entry of a callback that has
    one to be cancelled. -/
theorem entry_onExists (hi : Documented issue) {rc : Int} :
    Entry (onExists issue (w.complete .exist path rc) rc path) p t ↔
      Entry w p t ∧ ¬(rc = ZNONODE ∧ p = path ∧
        ∃ t', Entry w path t' ∧ t'.cancelOnMissing = true ∧ t'.cb = t.cb) := by
  have hcompleted : Keeps w (w.complete .exist path rc) := keeps_of_tracks rfl
  rw [onExists]
  by_cases hrc : rc = ZOK
  · have hkeeps : Keeps w (processNolock issue (w.complete .exist path rc) path
        true true false).2 := hcompleted.trans keeps_processNolock
    have hne : ¬rc = ZNONODE := by
      rw [hrc]
      decide
    simp only [if_pos hrc]
    rw [and_iff_left fun h => hne h.1]
    split
    · exact hkeeps p t
    · rw [if_pos (processNolock_documented hi)]
      exact hkeeps.trans (keeps_deliver _ _) p t
  · simp only [if_neg hrc]
    split
    next hother =>
      rw [and_iff_left fun h => hother h.1]
      exact hcompleted.trans (keeps_deliver _ _) p t
    next hmissing =>
      rw [entry_foldl_cancelNolock, hcompleted]
      refine and_congr_right fun _ => not_congr ?_
      rw [and_iff_right (not_not.mp hmissing)]
      refine and_congr_right fun _ => ?_
      constructor
      · rintro ⟨r, hr, hcb⟩
        obtain ⟨hr, hcancel⟩ := List.mem_filter.mp hr
        obtain ⟨hr, hpath⟩ := mem_equalRange.mp hr
        exact ⟨r.tracker, ⟨r, hr, hpath, rfl⟩, hcancel, hcb⟩
      · rintro ⟨_, ⟨r, hr, hpath, rfl⟩, hcancel, hcb⟩
        exact ⟨r, List.mem_filter.mpr ⟨mem_equalRange.mpr ⟨hr, hpath⟩, hcancel⟩,
          hcb⟩

theorem keeps_process {dreq creq erased : Bool} :
    Keeps w (process issue w path dreq creq erased) := by
  rw [process_eq]
  split
  · split
    · exact keeps_processNolock.trans (keeps_deliver _ _)
    · exact keeps_processNolock
  · exact keeps_processNolock.trans (keeps_deliver _ _)

theorem keeps_onMissing : Keeps w (onMissing issue w path) := by
  dsimp only [onMissing]
  split
  · exact keeps_processNolock.trans (keeps_deliver _ _)
  · exact keeps_processNolock.trans (keeps_deliver _ _)

/-- A step takes out an entry: the user cancels it, its callback tracks in vain,
    or its callback is cancelled. -/
def Removes (issue : Issue) (w : World) (a : Action) (path : Text)
    (t : Tracker) : Prop :=
  match a with
  | .cancel q cb => q = some path ∧ (cb = none ∨ cb = some t.cb)
  | .track q d c null cb => (q = some path ∧ cb = some t.cb) ∧
      (track issue w q d c null cb).1 = false
  | .trackExisting q d c cb => (q = some path ∧ cb = some t.cb) ∧
      (trackExisting issue w q d c cb).1 = false
  | .exist rc q => rc = ZNONODE ∧ path = q ∧
      ∃ t', Entry w q t' ∧ t'.cancelOnMissing = true ∧ t'.cb = t.cb
  | _ => False

/-- **HOW ENTRIES COME AND GO**: a step takes out those that it removes, and
    what it makes wants something. -/
theorem entry_next (hi : Documented issue) (hs : next issue w a = some w') :
    (Entry w p t → Entry w' p t ∨ Removes issue w a p t) ∧
    (Entry w' p t → Entry w p t ∨ ∃ kind, t.wants kind = true) := by
  have hkept : Keeps w w' →
      (Entry w p t → Entry w' p t ∨ Removes issue w a p t) ∧
      (Entry w' p t → Entry w p t ∨ ∃ kind, t.wants kind = true) := fun hk =>
    ⟨fun he => Or.inl ((hk p t).mpr he), fun he => Or.inl ((hk p t).mp he)⟩
  cases a with
  | track q d c null cb =>
      obtain rfl := Option.some.inj hs
      exact entry_doTrack
  | trackExisting q d c cb =>
      obtain rfl := Option.some.inj hs
      exact entry_doTrack
  | cancel q cb =>
      obtain rfl := Option.some.inj hs
      rw [cancel]
      split
      next q' hq =>
        have hq' := (Option.filter_eq_some_iff.mp hq).1
        constructor
        · intro he
          by_cases hmine : p = q' ∧ (cb = none ∨ cb = some t.cb)
          · exact Or.inr ⟨by rw [hmine.1]; exact hq', hmine.2⟩
          · exact Or.inl (entry_cancelNolock.mpr ⟨he, hmine⟩)
        · exact fun he => Or.inl (entry_cancelNolock.mp he).1
      · exact ⟨Or.inl, Or.inl⟩
  | session state =>
      obtain ⟨-, ⟨⟩⟩ := Option.ite_none_right_eq_some.mp hs
      exact hkept (keeps_of_tracks rfl)
  | event event watch q =>
      obtain ⟨-, ⟨⟩⟩ := Option.ite_none_right_eq_some.mp hs
      have hdisarmed : Keeps w (w.disarm watch q) := keeps_of_tracks rfl
      cases event with
      | created => exact hkept (hdisarmed.trans keeps_process)
      | erased => exact hkept (hdisarmed.trans keeps_process)
      | changed => exact hkept (hdisarmed.trans keeps_process)
      | child => exact hkept (hdisarmed.trans keeps_process)
  | exist rc q =>
      obtain ⟨-, ⟨⟩⟩ := Option.ite_none_right_eq_some.mp hs
      have hiff : Entry (onExists issue (w.complete .exist q rc) rc q) p t ↔
        _ := entry_onExists hi
      constructor
      · intro he
        by_cases hmine : rc = ZNONODE ∧ p = q ∧
            ∃ t', Entry w q t' ∧ t'.cancelOnMissing = true ∧ t'.cb = t.cb
        · exact Or.inr hmine
        · exact Or.inl (hiff.mpr ⟨he, hmine⟩)
      · exact fun he => Or.inl (hiff.mp he).1
  | get rc q data =>
      obtain ⟨-, ⟨⟩⟩ := Option.ite_none_right_eq_some.mp hs
      have hcompleted : Keeps w (w.complete .get q rc) := keeps_of_tracks rfl
      refine hkept (hcompleted.trans ?_)
      rw [onGet]
      split
      · exact keeps_onMissing
      split
      · exact keeps_deliver _ _
      · exact keeps_deliver _ _
  | getChildren rc q children =>
      obtain ⟨-, ⟨⟩⟩ := Option.ite_none_right_eq_some.mp hs
      have hcompleted : Keeps w (w.complete .getChildren q rc) :=
        keeps_of_tracks rfl
      refine hkept (hcompleted.trans ?_)
      rw [onGetChildren]
      split
      · exact keeps_onMissing
      split
      · exact keeps_deliver _ _
      · exact keeps_deliver _ _

/-- Every entry wants something. -/
theorem wants_of_reachable (h : Reachable zooKeeperTracker w)
    (he : Entry w p t) : ∃ kind, t.wants kind = true := by
  refine h.invariant (I := fun w => ∀ p t, Entry w p t →
    ∃ kind, t.wants kind = true) ?_ ?_ p t he
  · rintro _ rfl p t ⟨r, hr, -⟩
    exact absurd hr List.not_mem_nil
  · rintro w l w' - ih ⟨hi, hs⟩ p t he
    exact ((entry_next hi hs).2 he).elim (ih p t) id

-- ── Cancelled when missing ───────────────────────────────────────────────────

/-- Somebody was told NULL of a path, and an entry there that is to be cancelled
    is still there. -/
def LeavesBehind (w w' : World) : Prop :=
  ∃ path t, (Entry w' path t ∧ t.cancelOnMissing = true) ∧
    ∃ kind cb, ToldNull w w' kind cb path

/-- The answer of an `exists` took out an entry that is not to be cancelled. -/
def TakesAlong (w : World) (a : Action) (w' : World) : Prop :=
  ∃ rc path t, a = .exist rc path ∧ t.cancelOnMissing = false ∧
    Entry w path t ∧ ¬Entry w' path t

/-- **WHEN ONE IS LEFT BEHIND**: a path with an entry that is to be cancelled is
    found missing. -/
def Unheeded (issue : Issue) (w : World) (a : Action) : Prop :=
  ∃ path t, a.missing = some path ∧ MayAsk issue w path ∧
    Entry w path t ∧ t.cancelOnMissing = true

/-- **WHEN ONE IS TAKEN ALONG**: an `exists` finds its node missing, and a
    callback has both kinds of entries there. -/
def Shared (w : World) (a : Action) : Prop :=
  ∃ path t t', a = .exist ZNONODE path ∧
    (Entry w path t ∧ t.cancelOnMissing = false) ∧
    (Entry w path t' ∧ t'.cancelOnMissing = true) ∧ t'.cb = t.cb

/-- An entry that is found missing stays. -/
theorem entry_of_missing (hs : next issue w a = some w')
    (ha : a.missing = some path) : Keeps w w' :=
  (foundMissing_of_next hs ha).keeps

theorem leavesBehind_iff (h : Reachable zooKeeperTracker w)
    (hs : next issue w a = some w') :
    LeavesBehind w w' ↔ Unheeded issue w a := by
  constructor
  · rintro ⟨path, t, ⟨he, hcancel⟩, kind, cb, htold⟩
    obtain ⟨hmissing, hmay, -⟩ := (toldNull_iff hs).mp htold
    exact ⟨path, t, hmissing, hmay,
      (entry_of_missing hs hmissing path t).mp he, hcancel⟩
  · rintro ⟨path, t, hmissing, hmay, he, hcancel⟩
    obtain ⟨kind, hwants⟩ := wants_of_reachable h he
    exact ⟨path, t, ⟨(entry_of_missing hs hmissing path t).mpr he, hcancel⟩,
      kind, t.cb, (toldNull_iff hs).mpr ⟨hmissing, hmay, t, he, rfl, hwants⟩⟩

theorem takesAlong_iff (hi : Documented issue) (hs : next issue w a = some w') :
    TakesAlong w a w' ↔ Shared w a := by
  constructor
  · rintro ⟨rc, path, t, rfl, hkeep, he, hgone⟩
    obtain ⟨rfl, -, t', he', hcancel, hcb⟩ :=
      ((entry_next hi hs).1 he).resolve_left hgone
    exact ⟨path, t, t', rfl, ⟨he, hkeep⟩, ⟨he', hcancel⟩, hcb⟩
  · rintro ⟨path, t, t', rfl, ⟨he, hkeep⟩, ⟨he', hcancel⟩, hcb⟩
    refine ⟨ZNONODE, path, t, rfl, hkeep, he, fun hstays => ?_⟩
    obtain ⟨-, ⟨⟩⟩ := Option.ite_none_right_eq_some.mp hs
    have hiff : Entry (onExists issue (w.complete .exist path ZNONODE) ZNONODE
      path) path t ↔ _ := entry_onExists hi
    exact (hiff.mp hstays).2 ⟨rfl, rfl, t', he', hcancel, hcb⟩

/-- Some NULL leaves one behind, or some cancellation takes one along. -/
def Amiss (w : World) (a : Issue × Action) : Prop :=
  ∃ w', next a.1 w a.2 = some w' ∧ (LeavesBehind w w' ∨ TakesAlong w a.2 w')

/-- A step of which nothing goes amiss. -/
def Clear (w : World) (a : Issue × Action) : Prop :=
  ¬Unheeded a.1 w a.2 ∧ ¬Shared w a.2

/-- **CANCELLED WHEN MISSING**: in a run of clear steps no entry that is to be
    cancelled outlives a NULL, and no other one goes with it; any other step
    does one or the other.  An entry goes only if it is cancelled, by its user,
    by a call that fails, or since its node is missing. -/
theorem existing_cancelled {r : World × Prop} :
    (Reachable
      ((zooKeeperTracker.restrict Clear).record False (marks Amiss)) r →
      ¬r.2) ∧
    ∀ w a w', Reachable zooKeeperTracker w → zooKeeperTracker.step w a w' →
      (LeavesBehind w w' ↔ Unheeded a.1 w a.2) ∧
      (TakesAlong w a.2 w' ↔ Shared w a.2) ∧
      ∀ path t, Entry w path t → ¬Entry w' path t →
        Removes a.1 w a.2 path t := by
  constructor
  · intro hp
    refine hp.unmarked ?_
    rintro w a w' hr ⟨hi, -⟩ hclear ⟨v, hs, hleft | htook⟩
    · exact hclear.1 ((leavesBehind_iff hr hs).mp hleft)
    · exact hclear.2 ((takesAlong_iff hi hs).mp htook)
  · rintro w a w' hr ⟨hi, hs⟩
    exact ⟨leavesBehind_iff hr hs, takesAlong_iff hi hs, fun path t he hgone =>
      ((entry_next hi hs).1 he).resolve_left hgone⟩

theorem clear_of_tracks {a : Issue × Action}
    (h : ∀ r ∈ w.tracks, r.tracker.cancelOnMissing = false) : Clear w a := by
  have hno : ∀ path t, Entry w path t → ¬t.cancelOnMissing = true := by
    rintro path _ ⟨r, hr, -, rfl⟩ hcancel
    rw [h r hr] at hcancel
    cases hcancel
  constructor
  · rintro ⟨path, t, -, -, he, hcancel⟩
    exact hno path t he hcancel
  · rintro ⟨path, t, t', -, -, ⟨he, hcancel⟩, -⟩
    exact hno path t' he hcancel

/-- Callback 1 tracks the data of a node. -/
def tracked (notifyMissing cancelOnMissing : Bool) : World :=
  (doTrack accepts .start (some ['/', 'a']) true false notifyMissing
    cancelOnMissing (some 1)).2

/-- The answer is that the node is missing. -/
def absence : Issue × Action := (accepts, .get ZNONODE ['/', 'a'] [])

def answered (notifyMissing cancelOnMissing : Bool) : World :=
  onGet accepts ((tracked notifyMissing cancelOnMissing).complete .get
    ['/', 'a'] ZNONODE) ZNONODE ['/', 'a'] []

theorem step_track (null : Bool) : zooKeeperTracker.step .start
    (accepts, .track (some ['/', 'a']) true false null (some 1))
    (tracked null false) := ⟨accepts_documented, rfl⟩

theorem step_trackExisting : zooKeeperTracker.step .start
    (accepts, .trackExisting (some ['/', 'a']) true false (some 1))
    (tracked true true) := ⟨accepts_documented, rfl⟩

theorem step_absence (null cancel : Bool) : zooKeeperTracker.step
    (tracked null cancel) absence (answered null cancel) := by
  have hasked : ∀ null cancel, (.get, ['/', 'a']) ∈
      (tracked null cancel).requests := by decide
  refine ⟨accepts_documented, ?_⟩
  show (if (.get, ['/', 'a']) ∈ (tracked null cancel).requests then
    some (answered null cancel) else none) = _
  rw [if_pos (hasked null cancel)]

theorem existing_cancelled_tracked :
    ∃ p : World × Prop, p.1.notices = [.onData 1 ['/', 'a'] none] ∧ ¬p.2 := by
  have hstart : Reachable
      ((zooKeeperTracker.restrict Clear).record False (marks Amiss))
      (.start, False) := .start ⟨rfl, rfl⟩
  have htracked : Reachable _ (tracked true false, _) := hstart.next
    ⟨⟨clear_of_tracks (by decide), step_track true⟩, rfl⟩
  have hanswered : Reachable _ (answered true false, _) := htracked.next
    ⟨⟨clear_of_tracks (by decide), step_absence true false⟩, rfl⟩
  exact ⟨_, by decide, existing_cancelled.1 hanswered⟩

/-- **LEFT BEHIND**: a node that is tracked as long as it exists is asked for in
    vain.  Its callback is told, and its entry is still there. -/
theorem existing_left_behind :
    ¬∀ w a w', Reachable zooKeeperTracker w → zooKeeperTracker.step w a w' →
      ¬LeavesBehind w w' ∧ ¬TakesAlong w a.2 w' := by
  intro h
  have hr : Reachable zooKeeperTracker (tracked true true) :=
    .next (.start rfl) step_trackExisting
  refine (h _ absence _ hr (step_absence true true)).1 ?_
  exact ⟨['/', 'a'], ⟨1, true, false, true, true⟩, by decide, .data, 1,
    by decide⟩

/-- To track the node again asks for nothing. -/
example : (trackExisting accepts (answered true true) (some ['/', 'a']) true
    false (some 1)).2.requests = (answered true true).requests := by decide

-- ── Whether one is to be notified ────────────────────────────────────────────

/-- A callback was told of a failure in a step. -/
def ToldError (w w' : World) (cb : Nat) (path : Text) : Prop :=
  ∃ error, error ≠ ZOK ∧ .onError cb error path ∈ news w w'

/-- An entry of the callback is to be notified, of this kind. -/
def Wishes (w : World) (path : Text) (kind : Kind) (cb : Nat) : Prop :=
  ∃ t, Entry w path t ∧ t.cb = cb ∧ t.null = true ∧ t.wants kind = true

/-- The flag is honoured in a step: NULL is told on account of an entry that is
    to be notified; and if the path is found missing, each of those is told,
    NULL of what it wants or, where the tracker cannot wait for the node, the
    failure. -/
def Honours (issue : Issue) (w : World) (a : Action) (w' : World) : Prop :=
  (∀ kind cb path, ToldNull w w' kind cb path → Wishes w path kind cb) ∧
  ∀ path t, a.missing = some path → Entry w path t → t.null = true →
    (MayAsk issue w path → ∀ kind, t.wants kind = true →
      ToldNull w w' kind t.cb path) ∧
    (¬MayAsk issue w path → ToldError w w' t.cb path)

/-- **WHEN THE FLAG IS HONOURED**: if everybody who wants something of a path
    that is found missing is to be notified. -/
def Willing (w : World) (a : Issue × Action) : Prop :=
  ∀ path t kind, a.2.missing = some path → MayAsk a.1 w path →
    Entry w path t → t.wants kind = true → Wishes w path kind t.cb

/-- Those that are to be notified are told, whatever the others want. -/
theorem told_of_missing (hs : next issue w a = some w')
    (ha : a.missing = some path) (he : Entry w path t) :
    (MayAsk issue w path → ∀ kind, t.wants kind = true →
      ToldNull w w' kind t.cb path) ∧
    (¬MayAsk issue w path → ToldError w w' t.cb path) := by
  constructor
  · intro hmay kind hwants
    exact (toldNull_iff hs).mpr ⟨ha, hmay, t, he, rfl, hwants⟩
  · intro hnot
    obtain ⟨error, herror, hnews⟩ := (foundMissing_of_next hs ha).failed hnot
    obtain ⟨r, hr, hpath, rfl⟩ := he
    refine ⟨error, herror, ?_⟩
    rw [hnews]
    exact List.mem_map.mpr ⟨_, mem_callbacks.mpr ⟨r, hr, hpath, rfl, rfl⟩, rfl⟩

theorem honours_iff (hs : next issue w a = some w') :
    Honours issue w a w' ↔ Willing w (issue, a) := by
  constructor
  · intro h path t kind ha hmay he hwants
    exact h.1 kind t.cb path
      ((toldNull_iff hs).mpr ⟨ha, hmay, t, he, rfl, hwants⟩)
  · intro h
    refine ⟨fun kind cb path htold => ?_, fun path t ha he _ =>
      told_of_missing hs ha he⟩
    obtain ⟨ha, hmay, t, he, rfl, hwants⟩ := (toldNull_iff hs).mp htold
    exact h path t kind ha hmay he hwants

/-- The flag is not honoured. -/
def Ignored (w : World) (a : Issue × Action) : Prop :=
  ∃ w', next a.1 w a.2 = some w' ∧ ¬Honours a.1 w a.2 w'

/-- **NOTIFIED IF MISSING**: the flag is honoured in a run in which everybody
    who would be told is to be notified, and in no other. -/
theorem missing_honoured {r : World × Prop} :
    (Reachable
      ((zooKeeperTracker.restrict Willing).record False (marks Ignored)) r →
      ¬r.2) ∧
    ∀ w a w', Reachable zooKeeperTracker w → zooKeeperTracker.step w a w' →
      (Honours a.1 w a.2 w' ↔ Willing w a) := by
  constructor
  · intro hp
    refine hp.unmarked ?_
    rintro w a w' - - hwilling ⟨v, hs, hnot⟩
    exact hnot ((honours_iff hs).mpr hwilling)
  · rintro w a w' - ⟨-, hs⟩
    exact honours_iff hs

theorem willing_of_tracks {a : Issue × Action}
    (h : ∀ r ∈ w.tracks, r.tracker.null = true) : Willing w a := by
  rintro path _ kind - - ⟨r, hr, hpath, rfl⟩ hwants
  exact ⟨r.tracker, ⟨r, hr, hpath, rfl⟩, rfl, h r hr, hwants⟩

theorem missing_honoured_tracked :
    ∃ p : World × Prop, p.1.notices = [.onData 1 ['/', 'a'] none] ∧ ¬p.2 := by
  have hstart : Reachable
      ((zooKeeperTracker.restrict Willing).record False (marks Ignored))
      (.start, False) := .start ⟨rfl, rfl⟩
  have htracked : Reachable _ (tracked true false, _) := hstart.next
    ⟨⟨willing_of_tracks (by decide), step_track true⟩, rfl⟩
  have hanswered : Reachable _ (answered true false, _) := htracked.next
    ⟨⟨willing_of_tracks (by decide), step_absence true false⟩, rfl⟩
  exact ⟨_, by decide, missing_honoured.1 hanswered⟩

/-- **TOLD UNASKED**: a callback that is not to be notified is called with
    NULL. -/
theorem missing_told_unasked :
    ¬∀ w a w', Reachable zooKeeperTracker w → zooKeeperTracker.step w a w' →
      Honours a.1 w a.2 w' := by
  intro h
  have hr : Reachable zooKeeperTracker (tracked false false) :=
    .next (.start rfl) (step_track false)
  obtain ⟨t, ⟨r, hr, -, rfl⟩, -, hnull, -⟩ :=
    (h _ absence _ hr (step_absence false false)).1 .data 1 ['/', 'a']
      (by decide)
  have hnever : ∀ r ∈ (tracked false false).tracks, r.tracker.null = false := by
    decide
  rw [hnever r hr] at hnull
  cases hnull

end FlinterZooKeeper
