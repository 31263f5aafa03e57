import Flinter.ZooKeeperPendingProofs

/-! # ZooKeeper: a tracker that is shut down

    A tracker passes itself and its watcher with each of its requests, and
    `Shutdown` detaches the watcher.

    No event of those requests gets to the watcher any more, in whatever order
    the client goes on.  The completions get to the tracker, each that is still
    to come; so nothing does if, and only if, none is (`tracker_detached`).
    There they find empty tables (`late_mute`), if there is still a tracker. -/

namespace FlinterPending

open Runs
open FlinterZooKeeper (Text Request ZOK ZNONODE World Issue Tracker Notice
  callbacks need processNolock notifyNull notifyError onMissing onExists onGet
  onGetChildren equalRange)

variable {s s' : ZooKeeper} {a : Action} {o o' : Item} {i : Nat} {m : Move}
variable {calls : List Call} {c w : Nat}

-- ── Who is called ────────────────────────────────────────────────────────────

/-- The pending that a call is for. -/
def Call.id : Call → Nat
  | .completed _ i _ _ _ => i
  | .event _ i _ _ _ => i

/-- The tracker's `OnExists`, `OnGet` or `OnGetChildren`, or its watcher. -/
def Call.reaches (call : Call) (c w : Nat) : Prop :=
  match call with
  | .completed cb _ _ _ _ => cb = c
  | .event zkw _ _ _ _ => zkw = w

/-- Nothing of this pending will get to the tracker. -/
def Quiet (c w : Nat) (o : Item) : Prop :=
  o.held = true → o.pending.zkw ≠ some w ∧
    (o.pending.zkc = some c →
      o.completion = none ∧ ∀ f rc, o.stand ≠ some (.calling f rc))

/-- What is erased, if it is in `_pending` at all, is quiet. -/
theorem quiet_erase (h : o.erasePending = some o') (hq : Quiet c w o) :
    Quiet c w o' := by
  rw [Item.erasePending] at h
  obtain ⟨-, h⟩ := Option.ite_none_right_eq_some.mp h
  split at h
  · obtain rfl := Option.some.inj h
    exact fun hheld => (by cases hheld)
  · obtain rfl := Option.some.inj h
    exact hq

/-- A function that is over. -/
theorem Quiet.over (h : Quiet c w o) :
    Quiet c w { o with stand := none } := fun hheld =>
  ⟨(h hheld).1, fun hzkc => ⟨((h hheld).2 hzkc).1, fun _ _ => nofun⟩⟩

/-- A quiet pending stays quiet. -/
theorem Quiet.goOn (h : Quiet c w o) (hheld : o.held = true) {stand : Stand}
    (hst : o.stand = some stand) (hgo : o.goOn i stand = some (o', calls)) :
    Quiet c w o' := by
  obtain ⟨hzkw, hzkc⟩ := h hheld
  have hcleared : Quiet c w { o with
      pending := o.pending.clearCallback, stand := none } := fun _ =>
    ⟨hzkw, fun hc => (by cases hc)⟩
  cases goes_of_goOn hgo with
  | calls _ => exact fun _ => ⟨hzkw, fun hc => absurd hst ((hzkc hc).2 _ _)⟩
  | passes _ => exact fun _ => ⟨hzkw, fun hc => absurd hst ((hzkc hc).2 _ _)⟩
  | stays => exact hcleared
  | finishes _ _ herase => exact quiet_erase herase hcleared
  | resumes => exact h.over
  | tells _ => exact fun _ => ⟨hzkw, fun hc => ⟨(hzkc hc).1, fun _ _ => nofun⟩⟩
  | watches => exact h.over
  | spends _ herase =>
      exact quiet_erase herase fun _ =>
        ⟨nofun, fun hc => ⟨(hzkc hc).1, fun _ _ => nofun⟩⟩

theorem Quiet.move (h : Quiet c w o) (hheld : o.held = true)
    (hadmits : o.admits m = true) (hmove : o.move i m = some (o', calls)) :
    Quiet c w o' := by
  cases m with
  | complete rc =>
      obtain ⟨rfl, rfl⟩ := Prod.mk.inj (Option.some.inj hmove)
      rw [Item.admits, Bool.and_eq_true] at hadmits
      refine fun _ => ⟨(h hheld).1, fun hc => ?_⟩
      rw [((h hheld).2 hc).1] at hadmits
      cases hadmits.2
  | watch type state =>
      obtain ⟨rfl, rfl⟩ := Prod.mk.inj (Option.some.inj hmove)
      refine fun _ => ⟨(h hheld).1, fun hc => ?_⟩
      refine ⟨((h hheld).2 hc).1, fun f rc hst => ?_⟩
      have hst := Option.some.inj hst
      rw [globalWatcher] at hst
      split at hst
      · cases hst
      · cases hst
  | goOn =>
      obtain ⟨stand, hst, hgo⟩ := Option.bind_eq_some_iff.mp hmove
      exact h.goOn hheld hst hgo

/-- **WHO IS CALLED** by a global function: the callback, or the watcher, of its
    pending; and so not the tracker if that is quiet. -/
theorem calls_move (hmove : o.move i m = some (o', calls)) :
    ∀ call ∈ calls, call.id = i ∧
      (o.held = true → Quiet c w o → ¬call.reaches c w) := by
  intro call hcall
  cases m with
  | complete rc =>
      obtain ⟨rfl, rfl⟩ := Prod.mk.inj (Option.some.inj hmove)
      cases hcall
  | watch type state =>
      obtain ⟨rfl, rfl⟩ := Prod.mk.inj (Option.some.inj hmove)
      cases hcall
  | goOn =>
      obtain ⟨stand, hst, hgo⟩ := Option.bind_eq_some_iff.mp hmove
      cases goes_of_goOn hgo with
      | calls hcb =>
          obtain rfl := List.mem_singleton.mp hcall
          refine ⟨rfl, fun hheld hquiet hreaches => ?_⟩
          have hcb := hcb.trans (congrArg some hreaches)
          exact ((hquiet hheld).2 hcb).2 _ _ hst
      | tells hzkw =>
          obtain rfl := List.mem_singleton.mp hcall
          refine ⟨rfl, fun hheld hquiet hreaches => ?_⟩
          exact (hquiet hheld).1 (hzkw.trans (congrArg some hreaches))
      | _ => cases hcall

theorem Quiet.detach (h : Quiet c w o) {zkw zkc : Option Nat} :
    Quiet c w (o.detach zkw zkc) := by
  rw [Item.detach]
  split
  next hheld =>
    refine fun _ => ⟨fun hw => ?_, fun hc => ?_⟩
    · rw [Pending.zkw_detach_eq] at hw
      exact (h hheld).1 (Option.ite_none_left_eq_some.mp hw).2
    · rw [Pending.zkc_detach_eq] at hc
      exact (h hheld).2 (Option.ite_none_left_eq_some.mp hc).2
  next => exact h

theorem Quiet.close (h : Quiet c w o) {rc : Int} : Quiet c w (o.close rc) := by
  dsimp only [Item.close]
  split
  · exact fun hheld => (by cases hheld)
  · exact fun hheld => ⟨(h hheld).1, fun hc => ⟨rfl, ((h hheld).2 hc).2⟩⟩

-- ── After the shutdown ───────────────────────────────────────────────────────

/-- Any run from here. -/
def Later : ZooKeeper → ZooKeeper → Prop :=
  Relation.ReflTransGen fun s s' => ∃ a, next s a = some s'

/-- Of the first pendings nothing has got to the tracker since, nor will it. -/
structure Silent (n c w : Nat) (before : List Call) (s : ZooKeeper) : Prop where
  sane : Sane s
  length : n ≤ s.items.length
  quiet : ∀ i o, i < n → s.items[i]? = some o → Quiet c w o
  said : ∃ calls, s.calls = before ++ calls ∧
    ∀ call ∈ calls, call.id < n → ¬call.reaches c w

variable {n : Nat} {before : List Call}

theorem Silent.kept (h : Silent n c w before s) (hs : next s a = some s') :
    Silent n c w before s' := by
  have hsane := h.sane.kept hs
  cases a with
  | ask path answer q =>
      obtain ⟨-, ⟨⟩⟩ := Option.ite_none_left_eq_some.mp hs
      rcases ask_cases with heq | ⟨p, f, hmakes⟩
      · rw [heq]
        exact h
      · rw [hmakes.made] at hsane ⊢
        refine ⟨hsane, ?_, fun i o hi ho => ?_, h.said⟩
        · exact h.length.trans (List.sublist_append_left _ _).length_le
        · refine h.quiet i o hi ?_
          rw [← List.getElem?_append_left (hi.trans_le h.length)]
          exact ho
  | detach zkw zkc =>
      obtain ⟨-, ⟨⟩⟩ := Option.ite_none_left_eq_some.mp hs
      refine ⟨hsane, ?_, fun i o hi ho => ?_, h.said⟩
      · exact h.length.trans_eq (List.length_map _).symm
      · rw [ZooKeeper.detach, List.getElem?_map] at ho
        obtain ⟨o₁, ho₁, rfl⟩ := Option.map_eq_some_iff.mp ho
        exact (h.quiet i o₁ hi ho₁).detach
  | run i m =>
      obtain ⟨o, ho, hadmits, hcases⟩ := run_cases hs
      obtain ⟨-, rfl⟩ | ⟨o', calls, hmove, rfl⟩ := hcases
      · exact ⟨hsane, h.length, h.quiet, h.said⟩
      have hheld :=
        (h.sane o (List.mem_of_getElem? ho)).held_of_admits hadmits
      have hlength :=
        h.length.trans_eq (List.length_set (a := o') (i := i)).symm
      refine ⟨hsane, hlength, fun j o₁ hj ho₁ => ?_, ?_⟩
      · by_cases hij : i = j
        · obtain rfl := hij
          rw [List.getElem?_set_self (hj.trans_le h.length)] at ho₁
          obtain rfl := Option.some.inj ho₁
          exact (h.quiet i o hj ho).move hheld hadmits hmove
        · rw [List.getElem?_set_ne hij] at ho₁
          exact h.quiet j o₁ hj ho₁
      · obtain ⟨said, heq, hsaid⟩ := h.said
        refine ⟨said ++ calls, ?_, fun call hcall hid => ?_⟩
        · show s.calls ++ calls = before ++ (said ++ calls)
          rw [heq, List.append_assoc]
        rcases List.mem_append.mp hcall with hcall | hcall
        · exact hsaid call hcall hid
        · obtain ⟨rfl, hnot⟩ := calls_move hmove call hcall
          exact hnot hheld (h.quiet _ o hid ho)
  | close =>
      obtain ⟨-, hs⟩ := Option.ite_none_left_eq_some.mp hs
      obtain ⟨-, ⟨⟩⟩ := Option.ite_none_right_eq_some.mp hs
      exact ⟨hsane, h.length, h.quiet, h.said⟩
  | closed rc =>
      obtain ⟨-, hs⟩ := Option.ite_none_left_eq_some.mp hs
      obtain ⟨⟨-, hstands⟩, ⟨⟩⟩ := Option.ite_none_right_eq_some.mp hs
      refine ⟨hsane, h.length.trans_eq (List.length_map _).symm,
        fun i o hi ho => ?_, h.said⟩
      rw [List.getElem?_map] at ho
      obtain ⟨o₁, ho₁, rfl⟩ := Option.map_eq_some_iff.mp ho
      exact (h.quiet i o₁ hi ho₁).close

theorem Silent.later (h : Silent n c w before s) (hlater : Later s s') :
    Silent n c w before s' :=
  invariant_of_star (fun _ _ ⟨_, hs⟩ hi => hi.kept hs) hlater h

/-- **WHO STILL COMES**: a completion of the tracker's, or one that has found
    the tracker and not called it yet. -/
def Awaited (s : ZooKeeper) (c : Nat) : Prop :=
  ∃ o ∈ s.items, o.held = true ∧ o.pending.zkc = some c ∧
    (o.completion.isSome ∨ ∃ f rc, o.stand = some (.calling f rc))

/-- What the tracker's `Shutdown` leaves is quiet, if nobody still comes. -/
theorem quiet_detach (ho : o ∈ s.items) (hnone : ¬Awaited s c) :
    Quiet c w (o.detach (some w) none) := by
  rw [Item.detach]
  split
  next hheld =>
    refine fun _ => ⟨fun hw => ?_, fun hc => ?_⟩
    · rw [Pending.zkw_detach_eq] at hw
      obtain ⟨hother, hw⟩ := Option.ite_none_left_eq_some.mp hw
      exact hother ⟨rfl, hw⟩
    · rw [Pending.zkc_detach_eq] at hc
      have hc := (Option.ite_none_left_eq_some.mp hc).2
      refine ⟨Option.not_isSome_iff_eq_none.mp fun hsome => ?_,
        fun f rc hst => ?_⟩
      · exact hnone ⟨o, ho, hheld, hc, Or.inl hsome⟩
      · exact hnone ⟨o, ho, hheld, hc, Or.inr ⟨f, rc, hst⟩⟩
  next hgone => exact fun hheld => absurd hheld hgone

theorem silent_detach (hsane : Sane s) (hruns : s.aborted = false)
    (hnone : ¬Awaited s c) :
    Silent s.items.length c w s.calls (s.detach (some w) none) := by
  have hs : next s (.detach (some w) none) = some (s.detach (some w) none) := by
    rw [next, hruns, if_neg Bool.false_ne_true]
  refine ⟨hsane.kept hs, (List.length_map _).ge, fun i o _ ho => ?_,
    [], (List.append_nil _).symm, fun call hcall => (by cases hcall)⟩
  rw [ZooKeeper.detach, List.getElem?_map] at ho
  obtain ⟨o₁, ho₁, rfl⟩ := Option.map_eq_some_iff.mp ho
  exact quiet_detach (List.mem_of_getElem? ho₁) hnone

/-- One step of the client for a pending. -/
theorem next_run (hruns : s.aborted = false) (ho : s.items[i]? = some o)
    (hadmits : o.admits m = true) (hmove : o.move i m = some (o', calls)) :
    next s (.run i m) = some { s with
      items := s.items.set i o', calls := s.calls ++ calls } := by
  rw [next, hruns, if_neg Bool.false_ne_true, ho]
  dsimp only
  rw [if_pos hadmits, hmove]

/-- Who has found the tracker calls it. -/
theorem calls_tracker (hsane : Sane s) (hruns : s.aborted = false)
    (ho : s.items[i]? = some o) (hc : o.pending.zkc = some c) {f : Request}
    {rc : Int} (hst : o.stand = some (.calling f rc)) :
    ∃ s' call, next s (.run i .goOn) = some s' ∧
      s'.calls = s.calls ++ [call] ∧ call.id = i ∧ call.reaches c w := by
  have hfits := (hsane o (List.mem_of_getElem? ho)).fits
  rw [Item.Fits, hst] at hfits
  have hmove : o.move i .goOn = some
      ({ o with stand := some .called, invoked := o.invoked + 1 },
        [.completed c i f rc o.pending.path]) := by
    rw [Item.move, hst, Option.bind_some, Item.goOn, hc]
    dsimp only
    rw [if_pos hfits.1.symm]
  have hadmits : o.admits .goOn = true := by
    rw [Item.admits, hst]
    rfl
  exact ⟨_, _, next_run hruns ho hadmits hmove, rfl, rfl, rfl⟩

/-- Before its completion has run a pending stands nowhere. -/
theorem stand_of_completion (h : Good o) (hc : o.completion.isSome = true) :
    o.stand = none := by
  have hfits := h.fits
  cases hst : o.stand with
  | none => rfl
  | some stand =>
      rw [Item.Fits, hst] at hfits
      have hnone : o.completion = none := by
        cases stand with
        | calling f rc => exact hfits.2.2.1
        | called => exact hfits.1
        | resuming f rc => exact hfits.2.2.1
        | notifying type state => exact hfits.2.1
        | notified type => exact hfits.2.1
      rw [hnone] at hc
      cases hc

/-- **THE TRACKER IS CALLED** some time, if somebody still comes. -/
theorem called_of_awaited (hsane : Sane s) (hruns : s.aborted = false)
    (h : Awaited s c) :
    ∃ s' call, Later s s' ∧ s'.calls = s.calls ++ [call] ∧
      call.id < s.items.length ∧ call.reaches c w := by
  obtain ⟨o, ho, hheld, hc, hcomes⟩ := h
  obtain ⟨i, hi⟩ := List.getElem?_of_mem ho
  obtain ⟨hlt, -⟩ := List.getElem?_eq_some_iff.mp hi
  rcases hcomes with hcompletion | ⟨f, rc, hst⟩
  · obtain ⟨f, hf⟩ := Option.isSome_iff_exists.mp hcompletion
    have hadmits : o.admits (.complete ZOK) = true := by
      rw [Item.admits, stand_of_completion (hsane o ho) hcompletion, hf]
      rfl
    have hmove : o.move i (.complete ZOK) = some ({ o with
        completion := none, stand := some (.calling f ZOK) }, []) := by
      rw [Item.move, hf, Option.bind_some, completes_eq, globalCompletion, hc]
      rfl
    have hs := next_run hruns hi hadmits hmove
    obtain ⟨s', call, hs', hcalls, rfl, hreaches⟩ :=
      calls_tracker (w := w) (i := i) (hsane.kept hs) hruns
        (List.getElem?_set_self hlt) hc rfl
    refine ⟨s', call, .head ⟨_, hs⟩ (.single ⟨_, hs'⟩), ?_, hlt, hreaches⟩
    rw [hcalls, List.append_nil]
  · obtain ⟨s', call, hs, hcalls, rfl, hreaches⟩ :=
      calls_tracker (w := w) hsane hruns hi hc hst
    exact ⟨s', call, .single ⟨_, hs⟩, hcalls, hlt, hreaches⟩

/-- `ZooKeeperTracker::Shutdown`, of a tracker whose watcher is `w`. -/
def trackerShutdown (w : Nat) (t : World) (s : ZooKeeper) : World × ZooKeeper :=
  if !t.zk then (t, s)
  else
    ({ t with zk := false, tracks := [], asked := ∅ }, s.detach (some w) none)

/-- **A TRACKER THAT IS SHUT DOWN**: of its requests before, neither completions
    nor events get to it in whatever follows, if and only if no completion is
    still to come. -/
theorem tracker_detached {t : World} (h : Reachable pendings s)
    (hruns : s.aborted = false) (hzk : t.zk = true) :
    (∀ s', Later (trackerShutdown w t s).2 s' →
      ∀ call ∈ s'.calls.drop s.calls.length,
        call.id < s.items.length → ¬call.reaches c w) ↔ ¬Awaited s c := by
  have hsane := sane_of_reachable h
  have hs : next s (.detach (some w) none) = some (s.detach (some w) none) := by
    rw [next, hruns, if_neg Bool.false_ne_true]
  have hshut : (trackerShutdown w t s).2 = s.detach (some w) none := by
    rw [trackerShutdown, hzk]
    rfl
  rw [hshut]
  constructor
  · rintro hsilent ⟨o, ho, hheld, hc, hcomes⟩
    have hawaited : Awaited (s.detach (some w) none) c := by
      refine ⟨_, List.mem_map.mpr ⟨o, ho, rfl⟩, ?_⟩
      rw [Item.detach, if_pos hheld]
      refine ⟨hheld, ?_, hcomes⟩
      show (o.pending.detach (some w) none).zkc = some c
      rw [Pending.zkc_detach_eq, if_neg fun h => (by cases h.1)]
      exact hc
    obtain ⟨s', call, hlater, hcalls, hid, hreaches⟩ :=
      called_of_awaited (w := w) (hsane.kept hs) hruns hawaited
    refine hsilent s' hlater call ?_ ?_ hreaches
    · rw [hcalls, show (s.detach (some w) none).calls = s.calls from rfl,
        List.drop_left]
      exact List.mem_singleton.mpr rfl
    · exact hid.trans_eq (List.length_map _)
  · intro hnone s' hlater
    obtain ⟨calls, heq, hsaid⟩ :=
      ((silent_detach (w := w) hsane hruns hnone).later hlater).said
    rw [heq, List.drop_left]
    exact hsaid

/-- The tracker 1, whose watcher is 2, asks for a node. -/
def asking : ZooKeeper :=
  (asyncGet .fresh (some ['/', 'a']) (some 1) (some 2) ZOK).2

/-- It has the answer, and watches the node. -/
def answeredOnce : ZooKeeper :=
  ([.run 0 (.complete ZOK), .run 0 .goOn, .run 0 .goOn].foldlM next asking).get
    (by decide)

theorem reachable_asking : Reachable pendings asking :=
  .next (l := .ask (some ['/', 'a']) ZOK (.asyncGet (some 1) (some 2)))
    (.start rfl) rfl

theorem reachable_answered : Reachable pendings answeredOnce := by
  have hfollows : ∀ a ∈ [.run 0 (.complete ZOK), .run 0 .goOn, .run 0 .goOn],
      ∀ s s', next s a = some s' → pendings.step s a s' := fun _ _ _ _ hs => hs
  exact reachable_asking.follow hfollows (Option.some_get _).symm

theorem tracker_detached_answered :
    answeredOnce.calls = [.completed 1 0 .get ZOK ['/', 'a']] ∧
    ∀ s', Later (trackerShutdown 2 .start answeredOnce).2 s' →
      ∀ call ∈ s'.calls.drop answeredOnce.calls.length,
        call.id < answeredOnce.items.length → ¬call.reaches 1 2 := by
  refine ⟨by decide,
    (tracker_detached reachable_answered (by decide) rfl).mpr ?_⟩
  rintro ⟨o, ho, -, hc, -⟩
  have hnone : ∀ o ∈ answeredOnce.items, o.pending.zkc = none := by decide
  rw [hnone o ho] at hc
  cases hc

/-- **A LATE COMPLETION**: the tracker is shut down while its request is in
    flight, and is called when that is answered. -/
theorem late_completion :
    ¬∀ t s c w, Reachable pendings s → s.aborted = false → t.zk = true →
      ∀ s', Later (trackerShutdown w t s).2 s' →
        ∀ call ∈ s'.calls.drop s.calls.length,
          call.id < s.items.length → ¬call.reaches c w := by
  intro hclaim
  have hlater : Later (trackerShutdown 2 .start asking).2
      (([.run 0 (.complete ZOK), .run 0 .goOn].foldlM next
        (trackerShutdown 2 .start asking).2).get (by decide)) :=
    .tail (.single ⟨.run 0 (.complete ZOK), rfl⟩) ⟨.run 0 .goOn, rfl⟩
  exact hclaim .start asking 1 2 reachable_asking rfl rfl _ hlater
    (.completed 1 0 .get ZOK ['/', 'a']) (by decide) (by decide) rfl

-- ── What it finds there ──────────────────────────────────────────────────────

variable {t : World} {issue : Issue} {path : Text} {rc : Int}

theorem callbacks_empty (h : t.tracks = []) (p : Tracker → Bool) :
    callbacks t.tracks path p = [] := by
  rw [h]
  rfl

theorem processNolock_empty (h : t.tracks = []) {dreq creq erased : Bool} :
    processNolock issue t path dreq creq erased = (ZOK, t) := by
  have hneed : ∀ kind, need t.tracks path erased kind = false := fun kind => by
    rw [h]
    rfl
  dsimp only [processNolock]
  rw [hneed, hneed]
  rfl

theorem notices_deliver_nil {notices : List Notice} (h : notices = []) :
    (t.deliver notices).notices = t.notices := by
  rw [World.deliver, h, List.append_nil]

theorem onMissing_empty (h : t.tracks = []) :
    (onMissing issue t path).notices = t.notices := by
  rw [onMissing, processNolock_empty h, if_pos rfl]
  refine notices_deliver_nil ?_
  rw [notifyNull, callbacks_empty h, callbacks_empty h]
  rfl

/-- **NOBODY IS TOLD** by a completion that finds the tables empty, as
    `Shutdown` leaves them. -/
theorem late_mute (w : Nat) (s : ZooKeeper) (hzk : t.zk = true)
    (data : Text) (children : List Text) :
    (onExists issue (trackerShutdown w t s).1 rc path).notices = t.notices ∧
    (onGet issue (trackerShutdown w t s).1 rc path data).notices = t.notices ∧
    (onGetChildren issue (trackerShutdown w t s).1 rc path children).notices =
      t.notices := by
  have hempty : (trackerShutdown w t s).1.tracks = [] := by
    rw [trackerShutdown, hzk]
    rfl
  have hsame : (trackerShutdown w t s).1.notices = t.notices := by
    rw [trackerShutdown, hzk]
    rfl
  generalize (trackerShutdown w t s).1 = v at hempty hsame
  have herror : ∀ error,
      (v.deliver (notifyError v.tracks path error)).notices = v.notices :=
    fun error => notices_deliver_nil (by
      rw [notifyError, callbacks_empty hempty]
      rfl)
  rw [← hsame]
  refine ⟨?_, ?_, ?_⟩
  · have hproceed : (if rc = ZOK then processNolock issue v path true true false
        else (rc, v)) = (rc, v) := by
      rw [processNolock_empty hempty]
      split
      next hrc => rw [hrc]
      next => rfl
    rw [onExists, hproceed]
    split
    · rfl
    split
    · exact herror rc
    · have hnone : equalRange v.tracks path = [] := by
        rw [hempty]
        rfl
      dsimp only
      rw [hnone]
      rfl
  · rw [onGet]
    split
    · exact onMissing_empty hempty
    split
    · exact herror rc
    · refine notices_deliver_nil ?_
      rw [callbacks_empty hempty]
      rfl
  · rw [onGetChildren]
    split
    · exact onMissing_empty hempty
    split
    · exact herror rc
    · refine notices_deliver_nil ?_
      rw [callbacks_empty hempty]
      rfl

end FlinterPending
