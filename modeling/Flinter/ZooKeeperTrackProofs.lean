import Flinter.ZooKeeperMissingProofs

/-! # ZooKeeperTracker: a node that cannot be tracked

    `DoTrack` makes its entry before it asks for the node, and takes it out
    again when that fails.  What it takes out are the entries of the callback
    under the path, however many there are. -/

namespace FlinterZooKeeper

open Runs

variable {issue : Issue} {w : World} {path : Text} {tracker : Tracker}

/-- What is registered, in the order it was. -/
def registrations (w : World) : List (Text × Tracker) :=
  w.tracks.map fun r => (r.path, r.tracker)

/-- An entry that `CancelNolock` leaves where it is. -/
def outlives (path : Text) (cb : Nat) (e : Text × Tracker) : Bool :=
  !(e.1 = path && e.2.cb = cb)

/-- To tell somebody registers nobody. -/
theorem registrations_deliver (notices : List Notice) :
    registrations (w.deliver notices) = registrations w := by
  show (w.tracks.map _).map _ = _
  rw [List.map_map]
  refine List.map_congr_left fun r _ => ?_
  rw [Function.comp_apply, hear_path, hear_tracker]

theorem registrations_insert :
    registrations (w.insert path tracker) = registrations w ++ [(path, tracker)] :=
  List.map_append

theorem registrations_processNolock {dreq creq erased : Bool} :
    registrations (processNolock issue w path dreq creq erased).2 = registrations w :=
  congrArg (List.map _) processNolock_asks.tracks

theorem registrations_cancelNolock {cb : Nat} :
    registrations (cancelNolock w path (some cb)) =
      (registrations w).filter (outlives path cb) := by
  rw [registrations, registrations, List.filter_map]
  refine congrArg _ (List.filter_congr fun r _ => ?_)
  simp [outlives, eq_comm]

/-- Where the children are all that is wanted they are asked for. -/
theorem processNolock_children_ok_iff (hdata : need w.tracks path false .data = false)
    (hchildren : need w.tracks path false .children = true) :
    (processNolock issue w path true true false).1 = ZOK ↔
      (w.zk = true ∧ w.state = ZOO_CONNECTED_STATE) ∧
        ((.getChildren, path) ∈ w.asked ∨ issue .getChildren = ZOK) := by
  have hinvalid : ¬ZINVALIDSTATE = ZOK := by decide
  rw [processNolock_eq, hdata, hchildren, if_neg (by decide), get]
  split
  next hzk =>
    have hzk : ¬w.zk = true := by simpa using hzk
    exact iff_of_false hinvalid fun h => hzk h.1.1
  next hzk =>
  split
  next hstate => exact iff_of_false hinvalid fun h => hstate h.1.2
  next hstate =>
  have hzk : w.zk = true := by simpa using hzk
  exact ask_ok_iff.trans (and_iff_right ⟨hzk, not_not.mp hstate⟩).symm

theorem register_ok_iff :
    (register issue w path tracker).1 = true ↔
      (processNolock issue (w.insert path tracker) path true true false).1 = ZOK := by
  rw [register]
  split
  case isTrue hok => exact iff_of_true rfl hok
  case isFalse hok => exact iff_of_false Bool.false_ne_true hok

/-- **THE UNDOING**: when `DoTrack` fails behind its insertion, nothing of the
    callback is left under the path. -/
theorem registrations_register (h : (register issue w path tracker).1 = false) :
    registrations (register issue w path tracker).2 =
      (registrations w).filter (outlives path tracker.cb) := by
  rw [register_eq]
  split
  case isTrue hok => exact absurd (register_ok_iff.mpr hok) (Bool.eq_false_iff.mp h)
  case isFalse =>
      have hmine : outlives path tracker.cb (path, tracker) = false := by
        simp [outlives]
      rw [registrations_deliver, registrations_cancelNolock,
        registrations_processNolock, registrations_insert, List.filter_append,
        List.filter_cons_of_neg (Bool.eq_false_iff.mp hmine), List.filter_nil,
        List.append_nil]

-- ── The client stays ─────────────────────────────────────────────────────────

@[simp] theorem zk_deliver {notices : List Notice} : (w.deliver notices).zk = w.zk := rfl

@[simp] theorem zk_cancelNolock {cb : Option Nat} : (cancelNolock w path cb).zk = w.zk := rfl

@[simp] theorem zk_ask {request : Request} : (ask issue w request path).2.zk = w.zk := by
  rw [ask]
  split
  · rfl
  · split <;> rfl

@[simp] theorem zk_get {dreq creq existFirst : Bool} :
    (get issue w path dreq creq existFirst).2.zk = w.zk := by
  rw [get]
  split
  · rfl
  split
  · rfl
  split
  · exact zk_ask
  split
  · rfl
  have hdata : (if dreq = true then ask issue w .get path else (ZOK, w)).2.zk = w.zk := by
    split
    · exact zk_ask
    · rfl
  dsimp only
  generalize (if dreq = true then ask issue w .get path else (ZOK, w)) = data at hdata ⊢
  split
  · exact hdata
  · exact zk_ask.trans hdata

@[simp] theorem zk_processNolock {dreq creq erased : Bool} :
    (processNolock issue w path dreq creq erased).2.zk = w.zk := by
  rw [processNolock_eq]
  split
  · rfl
  · exact zk_get

theorem zk_process {dreq creq erased : Bool} :
    (process issue w path dreq creq erased).zk = w.zk := by
  rw [process_eq]
  split
  · split <;> simp
  · simp

theorem zk_onMissing : (onMissing issue w path).zk = w.zk := by
  dsimp only [onMissing]
  split <;> simp

theorem zk_foldl_cancelNolock {rs : List Registration} :
    (rs.foldl (fun w r => cancelNolock w path (some r.tracker.cb)) w).zk = w.zk := by
  induction rs generalizing w with
  | nil => rfl
  | cons r rs ih => exact ih

theorem zk_onExists {rc : Int} : (onExists issue w rc path).zk = w.zk := by
  have hprocessed : (if rc = ZOK then processNolock issue w path true true false
      else (rc, w)).2.zk = w.zk := by
    split
    · exact zk_processNolock
    · rfl
  dsimp only [onExists]
  generalize (if rc = ZOK then processNolock issue w path true true false
      else (rc, w)) = processed at hprocessed ⊢
  split
  · exact hprocessed
  split
  · exact hprocessed
  · exact zk_foldl_cancelNolock.trans hprocessed

theorem zk_register : (register issue w path tracker).2.zk = w.zk := by
  rw [register_eq]
  split
  · exact zk_processNolock
  · simp only [zk_deliver, zk_cancelNolock, zk_processNolock]
    rfl

theorem zk_doTrack {p : Option Text} {d c null missing : Bool} {cb : Option Nat} :
    (doTrack issue w p d c null missing cb).2.zk = w.zk := by
  rw [doTrack]
  split
  · rfl
  · rfl
  · exact zk_register

/-- **THE CLIENT STAYS**: nothing but `Initialize` and `Shutdown` sets `_zk`. -/
theorem zk_next {a : Action} {w' : World} (h : next issue w a = some w') : w'.zk = w.zk := by
  cases a with
  | track p d c null cb =>
      obtain rfl := Option.some.inj h
      exact zk_doTrack
  | trackExisting p d c cb =>
      obtain rfl := Option.some.inj h
      exact zk_doTrack
  | cancel p cb =>
      obtain rfl := Option.some.inj h
      rw [cancel]
      split <;> rfl
  | session state =>
      obtain ⟨-, h⟩ := Option.ite_none_right_eq_some.mp h
      obtain rfl := Option.some.inj h
      rfl
  | event event watch p =>
      obtain ⟨-, h⟩ := Option.ite_none_right_eq_some.mp h
      obtain rfl := Option.some.inj h
      cases event <;> exact zk_process
  | exist rc p =>
      obtain ⟨-, h⟩ := Option.ite_none_right_eq_some.mp h
      obtain rfl := Option.some.inj h
      exact zk_onExists
  | get rc p data =>
      obtain ⟨-, h⟩ := Option.ite_none_right_eq_some.mp h
      obtain rfl := Option.some.inj h
      rw [onGet]
      split
      · exact zk_onMissing
      · split <;> rfl
  | getChildren rc p children =>
      obtain ⟨-, h⟩ := Option.ite_none_right_eq_some.mp h
      obtain rfl := Option.some.inj h
      rw [onGetChildren]
      split
      · exact zk_onMissing
      · split <;> rfl

-- ── When nothing else is undone ──────────────────────────────────────────────

variable {p : Option Text} {d c null missing : Bool} {cb : Option Nat}

/-- The arguments are turned away before anything is done: there is no absolute
    path, no callback, nothing to track, or no client. -/
def TurnedAway (w : World) (path : Option Text) (trackData trackChildren : Bool)
    (cb : Option Nat) : Prop :=
  absolute path = none ∨ cb = none ∨ (trackData = false ∧ trackChildren = false) ∨
    w.zk = false

/-- The callback has no entry under the path. -/
def Newcomer (w : World) (path : Option Text) (cb : Option Nat) : Prop :=
  ∀ r ∈ w.tracks, ¬(path = some r.path ∧ cb = some r.tracker.cb)

theorem examine_refused (h : examine w p d c null missing cb = .refused) :
    TurnedAway w p d c cb := by
  cases cb with
  | none => exact .inr (.inl rfl)
  | some cb =>
      cases hpath : absolute p with
      | none => exact .inl hpath
      | some path' =>
          rw [examine.eq_def, hpath] at h
          dsimp only at h
          split at h
          case isTrue hnone =>
              refine .inr (.inr (.inl ?_))
              simpa using hnone
          split at h
          case isTrue hzk => exact .inr (.inr (.inr (by simpa using hzk)))
          split at h <;> cases h

theorem TurnedAway.examine (h : TurnedAway w p d c cb) :
    examine w p d c null missing cb = .refused := by
  rw [examine.eq_def]
  split
  next path' cb' hpath =>
    rcases h with hnone | hnone | ⟨rfl, rfl⟩ | hzk
    · exact absurd (hpath.symm.trans hnone) (Option.some_ne_none _)
    · exact absurd hnone (Option.some_ne_none _)
    · rfl
    · rw [hzk]
      split <;> rfl
  · rfl

/-- A callback that outlives its own cancellation had nothing to cancel. -/
theorem filter_perm_iff :
    ((registrations w).filter (outlives path tracker.cb)).Perm (registrations w) ↔
      Newcomer w (some path) (some tracker.cb) := by
  constructor
  · rintro hperm r hr ⟨hpath, hcb⟩
    have hin : (r.path, r.tracker) ∈ registrations w := List.mem_map.mpr ⟨r, hr, rfl⟩
    have houtlives := (List.mem_filter.mp (hperm.mem_iff.mpr hin)).2
    rw [Option.some.inj hpath, Option.some.inj hcb] at houtlives
    simp [outlives] at houtlives
  · intro hnew
    refine .of_eq (List.filter_eq_self.mpr fun e he => ?_)
    obtain ⟨r, hr, rfl⟩ := List.mem_map.mp he
    have hne := hnew r hr
    rw [Option.some.injEq, Option.some.injEq, eq_comm, @eq_comm _ tracker.cb] at hne
    simpa [outlives, imp_iff_not_or] using hne

/-- **WHAT A FAILURE LEAVES**: when `DoTrack` returns false the registrations
    are what they were if and only if its arguments are turned away or the
    callback had none under the path. -/
theorem doTrack_undone (issue : Issue) (w : World) (path : Option Text)
    (trackData trackChildren notifyMissing cancelOnMissing : Bool) (cb : Option Nat)
    (hfail : (doTrack issue w path trackData trackChildren notifyMissing
      cancelOnMissing cb).1 = false) :
    (registrations (doTrack issue w path trackData trackChildren notifyMissing
        cancelOnMissing cb).2).Perm (registrations w) ↔
      TurnedAway w path trackData trackChildren cb ∨ Newcomer w path cb := by
  rw [doTrack] at hfail ⊢
  cases ha : examine w path trackData trackChildren notifyMissing cancelOnMissing cb with
  | refused => exact iff_of_true (.refl _) (.inl (examine_refused ha))
  | alreadyTracked =>
      rw [ha] at hfail
      exact absurd hfail.symm Bool.false_ne_true
  | insert path' tracker =>
      rw [ha] at hfail
      have hadmitted : ¬TurnedAway w path trackData trackChildren cb := by
        intro haway
        exact absurd (ha.symm.trans haway.examine) (by rintro ⟨⟩)
      obtain ⟨rfl, rfl, -⟩ := examine_insert ha
      rw [or_iff_right hadmitted, registrations_register hfail]
      exact filter_perm_iff

/-- The session has been interrupted while a callback tracks the data. -/
def interrupted : World :=
  { (track accepts .start (some ['/', 'a']) true false true (some 1)).2 with
    state := ZOO_CONNECTING_STATE }

/-- Another callback fails there, and the first one keeps its registration. -/
theorem doTrack_undone_newcomer :
    (registrations (doTrack accepts interrupted (some ['/', 'a']) false true true
      false (some 2)).2).Perm (registrations interrupted) :=
  (doTrack_undone accepts interrupted (some ['/', 'a']) false true true false (some 2)
    (by decide)).mpr (.inr (by
      rintro r hr ⟨-, hcb⟩
      obtain rfl := List.mem_singleton.mp hr
      exact absurd hcb (by decide)))

/-- **UNDONE TOO MUCH**: a callback tracks the data of a node and cannot track
    its children as well.  It tracks nothing any more. -/
theorem doTrack_undoes_earlier :
    Reachable zooKeeperTracker interrupted ∧
      (doTrack accepts interrupted (some ['/', 'a']) false true true false
        (some 1)).1 = false ∧
      registrations interrupted = [(['/', 'a'], ⟨1, true, false, false, true⟩)] ∧
      registrations (doTrack accepts interrupted (some ['/', 'a']) false true true
        false (some 1)).2 = [] := by
  refine ⟨?_, by decide, by decide, by decide⟩
  have htracked := Reachable.next (M := zooKeeperTracker) (.start rfl)
    (l := (accepts, .track (some ['/', 'a']) true false true (some 1)))
    ⟨accepts_documented, rfl⟩
  exact htracked.next (l := (accepts, .session ZOO_CONNECTING_STATE))
    ⟨accepts_documented, rfl⟩

end FlinterZooKeeper
