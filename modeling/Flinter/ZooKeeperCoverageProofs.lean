import Flinter.ZooKeeperTrackerProofs
import Mathlib.Data.List.Nodup

/-! # ZooKeeperTracker: no change is missed

    What a tracked node has to be covered by, and when it is.  A handler first
    loses the watch that fired or the request that was answered; what it asks
    for afterwards has to make up for that, or whoever is interested has to be
    told of a failure.  The condition under which this goes well is exact, step
    by step. -/

namespace FlinterZooKeeper

open Runs

-- ── What is covered ──────────────────────────────────────────────────────────

def Kind.request : Kind → Request
  | .data => .get
  | .children => .getChildren

def Kind.watch : Kind → Watch
  | .data => .data
  | .children => .children

/-- A request for this kind, or an `exists`, is in flight, or a watch is armed
    that fires for this kind. -/
def Covered (w : World) (path : Text) (kind : Kind) : Prop :=
  (kind.request, path) ∈ w.requests ∨ (.exist, path) ∈ w.requests ∨
    (kind.watch, path) ∈ w.watches ∨ (.missing, path) ∈ w.watches

instance (w : World) (path : Text) (kind : Kind) :
    Decidable (Covered w path kind) :=
  inferInstanceAs (Decidable (_ ∨ _))

/-- Some entry under the path wants this kind. -/
def Wanted (w : World) (path : Text) (kind : Kind) : Prop :=
  need w.tracks path false kind = true

instance (w : World) (path : Text) (kind : Kind) :
    Decidable (Wanted w path kind) :=
  inferInstanceAs (Decidable (_ = true))

/-- **COVERAGE**: where no tracker of a path has been told of a failure since it
    was last called, what the trackers of the path want is covered. -/
def Coverage (w : World) : Prop :=
  ∀ path, (∀ r ∈ equalRange w.tracks path, r.told = false) →
    ∀ kind, Wanted w path kind → Covered w path kind

variable {issue : Issue} {w w' : World} {path : Text} {kind : Kind}
variable {request : Request} {r : Registration} {notices : List Notice}

theorem mem_equalRange {tracks : List Registration} :
    r ∈ equalRange tracks path ↔ r ∈ tracks ∧ r.path = path := by
  rw [equalRange, List.mem_filter, decide_eq_true_eq]

theorem wanted_iff :
    Wanted w path kind ↔
      ∃ r ∈ w.tracks, r.path = path ∧ r.tracker.wants kind = true := by
  simp only [Wanted, need, List.any_eq_true, mem_equalRange, Bool.false_and,
    Bool.not_false, Bool.true_and, and_assoc]

-- ── What asking does ─────────────────────────────────────────────────────────

/-- The tracker's sets are the requests in flight. -/
structure Matched (w : World) : Prop where
  nodup : w.requests.Nodup
  asked : ∀ x, x ∈ w.requests ↔ x ∈ w.asked

/-- Requests were made, and nothing else. -/
structure Asks (w w' : World) : Prop where
  state : w'.state = w.state
  tracks : w'.tracks = w.tracks
  watches : w'.watches = w.watches
  asked : ∀ x ∈ w.asked, x ∈ w'.asked
  requests : ∀ x ∈ w.requests, x ∈ w'.requests
  matched : Matched w → Matched w'

theorem Asks.refl (w : World) : Asks w w := 
  ⟨rfl, rfl, rfl, fun _ h => h, fun _ h => h, id⟩

theorem Asks.trans {w'' : World} (h : Asks w w') (h' : Asks w' w'') :
    Asks w w'' where
  state := h'.state.trans h.state
  tracks := h'.tracks.trans h.tracks
  watches := h'.watches.trans h.watches
  asked := fun x hx => h'.asked x (h.asked x hx)
  requests := fun x hx => h'.requests x (h.requests x hx)
  matched := fun hm => h'.matched (h.matched hm)

/-- Asking covers more. -/
theorem Covered.asks (h : Asks w w') (hc : Covered w path kind) :
    Covered w' path kind := by
  rcases hc with hr | he | hw | hm
  · exact .inl (h.requests _ hr)
  · exact .inr (.inl (h.requests _ he))
  · exact .inr (.inr (.inl (h.watches ▸ hw)))
  · exact .inr (.inr (.inr (h.watches ▸ hm)))

theorem ask_asks : Asks w (ask issue w request path).2 := by
  rw [ask]
  split
  · exact .refl w
  case isFalse hnew =>
      split
      · exact .refl w
      · refine ⟨rfl, rfl, rfl, fun x hx => Finset.mem_insert_of_mem hx,
          fun x hx => List.mem_append_left _ hx, ?_⟩
        intro hm
        constructor
        · refine List.nodup_append.mpr ⟨hm.nodup, List.nodup_singleton _, ?_⟩
          rintro x hx y hy rfl
          obtain rfl := List.mem_singleton.mp hy
          exact hnew ((hm.asked _).mp hx)
        · intro x
          simp only [List.mem_append, List.mem_singleton, Finset.mem_insert,
            hm.asked x]
          exact or_comm

/-- A request that the client accepts is in flight. -/
theorem mem_asked_of_ask (h : (ask issue w request path).1 = ZOK) :
    (request, path) ∈ (ask issue w request path).2.asked := by
  rw [ask] at h ⊢
  split
  case isTrue hin => exact hin
  case isFalse hnew =>
      rw [if_neg hnew] at h
      split
      case isTrue herr => rw [if_pos herr] at h; exact absurd h herr
      case isFalse => exact Finset.mem_insert_self _ _

theorem get_asks {d c e : Bool} : Asks w (get issue w path d c e).2 := by
  have hd : Asks w (if d = true then ask issue w .get path else (ZOK, w)).2 := by
    split
    · exact ask_asks
    · exact .refl w
  rw [get]
  generalize (if d = true then ask issue w .get path else (ZOK, w)) = p at hd ⊢
  split
  · exact .refl w
  split
  · exact .refl w
  split
  · exact ask_asks
  split
  · exact .refl w
  show Asks w (if p.1 ≠ ZOK ∨ ¬c = true then p
    else ask issue p.2 .getChildren path).2
  split
  · exact hd
  · exact hd.trans ask_asks

/-- What is in flight after `Get`.  Children are left out where a data request
    was in flight before. -/
theorem get_asked {d c e : Bool} (h : (get issue w path d c e).1 = ZOK) :
    (w.zk = true ∧ w.state = ZOO_CONNECTED_STATE) ∧
      (e = true → (.exist, path) ∈ (get issue w path d c e).2.asked) ∧
      (e = false → d = true →
        (.get, path) ∈ (get issue w path d c e).2.asked) ∧
      (e = false → c = true →
        (.getChildren, path) ∈ (get issue w path d c e).2.asked ∨
          d = true ∧ (.get, path) ∈ w.asked) := by
  have hinvalid : ¬ZINVALIDSTATE = ZOK := by decide
  have hzk : ¬(!w.zk) = true := by
    intro hzk
    rw [get, if_pos hzk] at h
    exact hinvalid h
  have hstate : w.state = ZOO_CONNECTED_STATE := by
    by_contra hstate
    rw [get, if_neg hzk, if_pos hstate] at h
    exact hinvalid h
  refine ⟨⟨by simpa using hzk, hstate⟩, ?_⟩
  rw [get] at h ⊢
  rw [if_neg hzk, if_neg (not_ne_iff.mpr hstate)] at h ⊢
  cases e with
  | true =>
      refine ⟨fun _ => mem_asked_of_ask h, fun he => ?_, fun he => ?_⟩
      · exact absurd he (by decide)
      · exact absurd he (by decide)
  | false =>
      rw [if_neg (by decide)] at h ⊢
      refine ⟨fun he => absurd he (by decide), ?_⟩
      have hd : (if d = true then ask issue w .get path else (ZOK, w)).1 = ZOK →
          d = true →
          (.get, path) ∈
            (if d = true then ask issue w .get path else (ZOK, w)).2.asked := by
        rintro hok rfl
        exact mem_asked_of_ask hok
      generalize (if d = true then ask issue w .get path else (ZOK, w)) = p
        at h hd ⊢
      by_cases hin : d = true ∧ (.get, path) ∈ w.asked
      · rw [if_pos hin]
        exact ⟨fun _ _ => hin.2, fun _ _ => .inr hin⟩
      · rw [if_neg hin] at h ⊢
        by_cases hstop : p.1 ≠ ZOK ∨ ¬c = true
        · rw [if_pos hstop] at h ⊢
          refine ⟨fun _ => hd h, fun _ hc => ?_⟩
          exact (hstop.elim (fun hne => hne h) fun hnc => hnc hc).elim
        · rw [if_neg hstop] at h ⊢
          have hok := not_ne_iff.mp (not_or.mp hstop).1
          exact ⟨fun _ hd' => ask_asks.asked _ (hd hok hd'),
            fun _ _ => .inl (mem_asked_of_ask h)⟩

theorem ask_documented (hi : Documented issue) :
    (ask issue w request path).1 ≠ ZNONODE := by
  rw [ask]
  split
  · exact show ZOK ≠ ZNONODE by decide
  split
  · exact hi request
  · exact show ZOK ≠ ZNONODE by decide

theorem get_documented {d c e : Bool} (hi : Documented issue) :
    (get issue w path d c e).1 ≠ ZNONODE := by
  have hinvalid : ZINVALIDSTATE ≠ ZNONODE := by decide
  have hok : ZOK ≠ ZNONODE := by decide
  have hd : (if d = true then ask issue w .get path else (ZOK, w)).1 ≠
      ZNONODE := by
    split
    · exact ask_documented hi
    · exact hok
  rw [get]
  generalize (if d = true then ask issue w .get path else (ZOK, w)) = p at hd ⊢
  split
  · exact hinvalid
  split
  · exact hinvalid
  split
  · exact ask_documented hi
  split
  · exact hok
  show (if p.1 ≠ ZOK ∨ ¬c then p
    else ask issue p.2 .getChildren path).1 ≠ ZNONODE
  split
  · exact hd
  · exact ask_documented hi

-- ── What processing does ─────────────────────────────────────────────────────

/-- An entry that has not been told of a failure wants this kind. -/
def Owed (w : World) (path : Text) (kind : Kind) : Prop :=
  ∃ r ∈ w.tracks, r.path = path ∧ r.told = false ∧ r.tracker.wants kind = true

theorem Owed.wanted (h : Owed w path kind) : Wanted w path kind := by
  obtain ⟨r, hr, hpath, -, hw⟩ := h
  exact wanted_iff.mpr ⟨r, hr, hpath, hw⟩

/-- The children are owed beside the data, and not asked for because a data
    request is in flight, and nothing else covers them. -/
def Skips (w : World) (path : Text) : Prop :=
  (w.zk = true ∧ w.state = ZOO_CONNECTED_STATE) ∧ Wanted w path .data ∧
    Owed w path .children ∧ (.get, path) ∈ w.requests ∧
    ¬Covered w path .children

/-- Nobody wants anything of the path once it is missing, and nothing covers
    what is wanted of it. -/
def Drops (w : World) (path : Text) : Prop :=
  (∀ kind, need w.tracks path true kind = false) ∧
    ∃ kind, Wanted w path kind ∧ ¬Covered w path kind

variable {dreq creq erased : Bool}

theorem processNolock_eq :
    processNolock issue w path dreq creq erased =
      if (!(need w.tracks path erased .data && dreq) &&
          !(need w.tracks path erased .children && creq)) = true then (ZOK, w)
      else get issue w path (need w.tracks path erased .data && dreq)
        (need w.tracks path erased .children && creq) erased := rfl

theorem processNolock_asks :
    Asks w (processNolock issue w path dreq creq erased).2 := by
  rw [processNolock_eq]
  split
  · exact .refl w
  · exact get_asks

theorem processNolock_documented (hi : Documented issue) :
    (processNolock issue w path dreq creq erased).1 ≠ ZNONODE := by
  rw [processNolock_eq]
  split
  · exact show ZOK ≠ ZNONODE by decide
  · exact get_documented hi

/-- **A NODE THAT IS THERE**: what was asked for and is wanted is covered. -/
theorem covered_of_processNolock (hm : Matched w)
    (hok : (processNolock issue w path dreq creq false).1 = ZOK)
    (hskip : dreq = true → creq = true → ¬Skips w path)
    (hdreq : kind = .data → dreq = true)
    (hcreq : kind = .children → creq = true) (howed : Owed w path kind) :
    Covered (processNolock issue w path dreq creq false).2 path kind := by
  have hw := howed.wanted
  have hasks : Asks w (processNolock issue w path dreq creq false).2 :=
    processNolock_asks
  have hneed : ¬(!(need w.tracks path false .data && dreq) &&
      !(need w.tracks path false .children && creq)) = true := by
    have hw' : need w.tracks path false kind = true := hw
    cases kind with
    | data => simp [hw', hdreq rfl]
    | children => simp [hw', hcreq rfl]
  rw [processNolock_eq, if_neg hneed] at hok hasks ⊢
  obtain ⟨hlive, -, hdata, hchildren⟩ := get_asked hok
  have hm' := hasks.matched hm
  cases kind with
  | data =>
      refine .inl ((hm'.asked _).mpr (hdata rfl ?_))
      rw [show need w.tracks path false .data = true from hw, hdreq rfl]
      rfl
  | children =>
      have hc : (need w.tracks path false .children && creq) = true := by
        rw [show need w.tracks path false .children = true from hw, hcreq rfl]
        rfl
      rcases hchildren rfl hc with hin | ⟨hd, hin⟩
      · exact .inl ((hm'.asked _).mpr hin)
      · -- The children were left out: that is `Skips`, or they are covered.
        obtain ⟨hdata, hdreq⟩ := Bool.and_eq_true_iff.mp hd
        have hcov : Covered w path .children := by
          by_contra hnot
          exact hskip hdreq (hcreq rfl)
            ⟨hlive, hdata, howed, (hm.asked _).mpr hin, hnot⟩
        exact hcov.asks hasks

/-- **A MISSING NODE**: whatever is wanted is covered. -/
theorem covered_of_erased (hm : Matched w)
    (hok : (processNolock issue w path true true true).1 = ZOK)
    (hdrop : ¬Drops w path) (hw : Wanted w path kind) :
    Covered (processNolock issue w path true true true).2 path kind := by
  have hasks : Asks w (processNolock issue w path true true true).2 :=
    processNolock_asks
  rw [processNolock_eq] at hok hasks ⊢
  by_cases hneed : (!(need w.tracks path true .data && true) &&
      !(need w.tracks path true .children && true)) = true
  · rw [if_pos hneed]
    have hnone : ∀ kind, need w.tracks path true kind = false := by
      intro kind
      cases kind <;> simp_all
    by_contra hnot
    exact hdrop ⟨hnone, kind, hw, hnot⟩
  · rw [if_neg hneed] at hok hasks ⊢
    have hin := (get_asked hok).2.1 rfl
    exact .inr (.inl (((hasks.matched hm).asked _).mpr hin))

-- ── What callbacks are told ──────────────────────────────────────────────────

theorem Registration.hear_path (n : Notice) : (r.hear n).path = r.path := by
  rw [Registration.hear]
  split <;> rfl

theorem Registration.hear_tracker (n : Notice) :
    (r.hear n).tracker = r.tracker := by
  rw [Registration.hear]
  split <;> rfl

theorem hear_path : (notices.foldl Registration.hear r).path = r.path := by
  induction notices generalizing r with
  | nil => rfl
  | cons n ns ih => rw [List.foldl_cons, ih, r.hear_path]

theorem hear_tracker :
    (notices.foldl Registration.hear r).tracker = r.tracker := by
  induction notices generalizing r with
  | nil => rfl
  | cons n ns ih => rw [List.foldl_cons, ih, r.hear_tracker]

/-- Notices of one sort: an entry they do not reach is as it was, the others
    have been told this sort. -/
theorem hear_told {b : Bool} (hb : ∀ n ∈ notices, n.failure = b) :
    ((∀ n ∈ notices, ¬n.reaches r) ∧
        (notices.foldl Registration.hear r).told = r.told) ∨
      ((∃ n ∈ notices, n.reaches r) ∧
        (notices.foldl Registration.hear r).told = b) := by
  induction notices generalizing r with
  | nil => exact .inl ⟨fun n hn => absurd hn List.not_mem_nil, rfl⟩
  | cons n ns ih =>
      have hns := ih (r := r.hear n) fun m hm => hb m (List.mem_cons_of_mem n hm)
      have hreach : ∀ m : Notice, m.reaches (r.hear n) ↔ m.reaches r := by
        intro m
        rw [Notice.reaches, r.hear_path, r.hear_tracker]
      rw [List.foldl_cons]
      rcases hns with ⟨hnone, htold⟩ | ⟨⟨m, hm, hmr⟩, htold⟩
      · by_cases hn : n.reaches r
        · refine .inr ⟨⟨n, List.mem_cons_self, hn⟩, ?_⟩
          rw [htold, Registration.hear, if_pos hn]
          exact hb n List.mem_cons_self
        · refine .inl ⟨?_, ?_⟩
          · intro m hm
            rcases List.mem_cons.mp hm with rfl | hm
            · exact hn
            · exact fun hr => hnone m hm ((hreach m).mpr hr)
          · rw [htold, Registration.hear, if_neg hn]
      · exact .inr ⟨⟨m, List.mem_cons_of_mem n hm, (hreach m).mp hmr⟩, htold⟩

theorem mem_callbacks {tracks : List Registration} {p : Tracker → Bool}
    {cb : Nat} :
    cb ∈ callbacks tracks path p ↔
      ∃ r ∈ tracks, r.path = path ∧ p r.tracker = true ∧ r.tracker.cb = cb := by
  simp only [callbacks, List.mem_dedup, List.mem_map, List.mem_filter,
    mem_equalRange]
  constructor
  · rintro ⟨_, ⟨⟨r, ⟨hr, hpath⟩, rfl⟩, hp⟩, rfl⟩
    exact ⟨r, hr, hpath, hp, rfl⟩
  · rintro ⟨r, hr, hpath, hp, rfl⟩
    exact ⟨r.tracker, ⟨⟨r, ⟨hr, hpath⟩, rfl⟩, hp⟩, rfl⟩

theorem mem_deliver :
    r ∈ (w.deliver notices).tracks ↔
      ∃ r' ∈ w.tracks, notices.foldl Registration.hear r' = r :=
  List.mem_map

-- ── The invariant ────────────────────────────────────────────────────────────

/-- What the entry wants is covered, unless it has been told of a failure. -/
def Attended (w : World) (r : Registration) : Prop :=
  r.told = false → ∀ kind, r.tracker.wants kind = true → Covered w r.path kind

/-- The entries of other paths are attended to. -/
def Elsewhere (w : World) (path : Text) : Prop :=
  ∀ r ∈ w.tracks, r.path ≠ path → Attended w r

/-- **THE INVARIANT**: every entry is attended to, and the tracker knows the
    requests in flight. -/
structure Tracking (w : World) : Prop where
  matched : Matched w
  attended : ∀ r ∈ w.tracks, Attended w r

theorem Elsewhere.asks (h : Elsewhere w path) (ha : Asks w w') :
    Elsewhere w' path := by
  intro r hr hne htold kind hw
  rw [ha.tracks] at hr
  exact (h r hr hne htold kind hw).asks ha

theorem Matched.deliver (h : Matched w) : Matched (w.deliver notices) :=
  ⟨h.nodup, h.asked⟩

/-- What is told about one path does not matter for the others; on this one, an
    entry that has not been told of a failure has to be covered. -/
theorem Tracking.deliver {b : Bool} (hm : Matched w) (he : Elsewhere w path)
    (hb : ∀ n ∈ notices, n.failure = b ∧ n.path = path)
    (hon : ∀ r ∈ w.tracks, r.path = path →
      (∀ n ∈ notices, ¬n.reaches r) ∧ r.told = false ∨
        (∃ n ∈ notices, n.reaches r) ∧ b = false →
      ∀ kind, r.tracker.wants kind = true → Covered w path kind) :
    Tracking (w.deliver notices) := by
  refine ⟨hm.deliver, fun r hr htold kind hw => ?_⟩
  obtain ⟨r', hr', rfl⟩ := mem_deliver.mp hr
  rw [hear_tracker] at hw
  rw [hear_path]
  show Covered w r'.path kind
  have htolds := hear_told (r := r') fun n hn => (hb n hn).1
  by_cases hpath : r'.path = path
  · rw [hpath]
    refine hon r' hr' hpath ?_ kind hw
    rcases htolds with ⟨hnone, heq⟩ | ⟨hsome, heq⟩
    · exact .inl ⟨hnone, heq ▸ htold⟩
    · exact .inr ⟨hsome, heq ▸ htold⟩
  · refine he r' hr' hpath ?_ kind hw
    rcases htolds with ⟨-, heq⟩ | ⟨⟨n, hn, hreach⟩, -⟩
    · exact heq ▸ htold
    · exact absurd (hreach.2.symm.trans (hb n hn).2) hpath

/-- Who is told of a failure is not owed anything. -/
theorem Tracking.notifyError (hm : Matched w) (he : Elsewhere w path)
    {tracks : List Registration} (ht : w.tracks = tracks) {error : Int} :
    Tracking (w.deliver (notifyError tracks path error)) := by
  subst ht
  refine Tracking.deliver (b := true) hm he ?_ ?_
  · intro n hn
    obtain ⟨cb, -, rfl⟩ := List.mem_map.mp hn
    exact ⟨rfl, rfl⟩
  · intro r hr hpath hcase
    rcases hcase with ⟨hnone, -⟩ | ⟨-, hb⟩
    · refine absurd ⟨rfl, hpath.symm⟩ (hnone _ (List.mem_map.mpr ⟨_, ?_, rfl⟩))
      exact mem_callbacks.mpr ⟨r, hr, hpath, rfl, rfl⟩
    · exact absurd hb (by decide)

theorem Wanted.of_mem (hr : r ∈ w.tracks) (hw : r.tracker.wants kind = true) :
    Wanted w r.path kind :=
  wanted_iff.mpr ⟨r, hr, rfl, hw⟩

theorem Asks.wanted (h : Asks w w') :
    Wanted w' path kind ↔ Wanted w path kind := by
  rw [Wanted, Wanted, h.tracks]

-- ── One handler at a time ────────────────────────────────────────────────────

/-- A watch that fires covers nothing more of its own path and kind. -/
theorem Covered.disarm {watch : Watch} {path' : Text}
    (hc : Covered w path' kind)
    (h : path' ≠ path ∨ watch ≠ kind.watch ∧ watch ≠ .missing) :
    Covered (w.disarm watch path) path' kind := by
  have hkeep : ∀ k, path' ≠ path ∨ watch ≠ k → (k, path') ∈ w.watches →
      (k, path') ∈ w.watches.erase (watch, path) := by
    intro k hne hin
    refine (List.mem_erase_of_ne ?_).mpr hin
    rintro heq
    obtain ⟨rfl, rfl⟩ := Prod.mk.inj heq
    exact hne.elim (fun h => h rfl) fun h => h rfl
  rcases hc with hr | he | hw | hm
  · exact .inl hr
  · exact .inr (.inl he)
  · exact .inr (.inr (.inl (hkeep _ (h.imp_right And.left) hw)))
  · exact .inr (.inr (.inr (hkeep _ (h.imp_right And.right) hm)))

/-- So does a request that is answered. -/
theorem Covered.complete {rc : Int} {path' : Text} (hc : Covered w path' kind)
    (h : path' ≠ path ∨ request ≠ kind.request ∧ request ≠ .exist) :
    Covered (w.complete request path rc) path' kind := by
  have hkeep : ∀ k, path' ≠ path ∨ request ≠ k → (k, path') ∈ w.requests →
      (k, path') ∈ w.requests.erase (request, path) := by
    intro k hne hin
    refine (List.mem_erase_of_ne ?_).mpr hin
    rintro heq
    obtain ⟨rfl, rfl⟩ := Prod.mk.inj heq
    exact hne.elim (fun h => h rfl) fun h => h rfl
  rcases hc with hr | he | hw | hm
  · exact .inl (hkeep _ (h.imp_right And.left) hr)
  · exact .inr (.inl (hkeep _ (h.imp_right And.right) he))
  · exact .inr (.inr (.inl (List.mem_append_left _ hw)))
  · exact .inr (.inr (.inr (List.mem_append_left _ hm)))

theorem Tracking.disarm (h : Tracking w) (watch : Watch) (path : Text) :
    Matched (w.disarm watch path) ∧ Elsewhere (w.disarm watch path) path :=
  ⟨⟨h.matched.nodup, h.matched.asked⟩, fun r hr hne htold kind hw =>
    (h.attended r hr htold kind hw).disarm (.inl hne)⟩

theorem Tracking.complete (h : Tracking w) (request : Request) (path : Text)
    (rc : Int) :
    Matched (w.complete request path rc) ∧
      Elsewhere (w.complete request path rc) path := by
  refine ⟨⟨h.matched.nodup.erase _, fun x => ?_⟩, fun r hr hne htold kind hw =>
    (h.attended r hr htold kind hw).complete (.inl hne)⟩
  show x ∈ w.requests.erase (request, path) ↔ x ∈ w.asked.erase (request, path)
  rw [h.matched.nodup.mem_erase_iff, Finset.mem_erase, h.matched.asked]

/-- A path that has been dealt with. -/
theorem Tracking.of_path (hm : Matched w) (he : Elsewhere w path)
    (hon : ∀ r ∈ w.tracks, r.path = path → Attended w r) : Tracking w := by
  refine ⟨hm, fun r hr => ?_⟩
  by_cases hpath : r.path = path
  · exact hon r hr hpath
  · exact he r hr hpath

theorem notifyNull_good {tracks : List Registration} :
    ∀ n ∈ notifyNull tracks path, n.failure = false ∧ n.path = path := by
  intro n hn
  rcases List.mem_append.mp hn with hn | hn
  · obtain ⟨cb, -, rfl⟩ := List.mem_map.mp hn
    exact ⟨rfl, rfl⟩
  · obtain ⟨cb, -, rfl⟩ := List.mem_map.mp hn
    exact ⟨rfl, rfl⟩

/-- Who is told that the node is missing must be covered. -/
theorem Tracking.notifyNull (hm : Matched w) (he : Elsewhere w path)
    {tracks : List Registration}
    (hon : ∀ kind, Wanted w path kind → Covered w path kind) :
    Tracking (w.deliver (notifyNull tracks path)) := by
  refine Tracking.deliver (b := false) hm he notifyNull_good ?_
  intro r hr hpath _ kind hw
  exact hon kind (hpath ▸ Wanted.of_mem hr hw)

theorem process_eq :
    process issue w path dreq creq erased =
      if (processNolock issue w path dreq creq erased).1 = ZOK then
        if erased then
          (processNolock issue w path dreq creq erased).2.deliver
            (notifyNull (processNolock issue w path dreq creq erased).2.tracks
              path)
        else (processNolock issue w path dreq creq erased).2
      else (processNolock issue w path dreq creq erased).2.deliver
        (notifyError (processNolock issue w path dreq creq erased).2.tracks path
          (processNolock issue w path dreq creq erased).1) := rfl

/-- An event other than the removal of the node. -/
theorem Tracking.processPresent (hm : Matched w) (he : Elsewhere w path)
    (hon : (processNolock issue w path dreq creq false).1 = ZOK →
      ∀ r ∈ w.tracks, r.path = path → r.told = false → ∀ kind,
        r.tracker.wants kind = true →
          Covered (processNolock issue w path dreq creq false).2 path kind) :
    Tracking (process issue w path dreq creq false) := by
  have hasks : Asks w (processNolock issue w path dreq creq false).2 :=
    processNolock_asks
  rw [process_eq]
  split
  case isTrue hok =>
      rw [if_neg (by decide)]
      refine Tracking.of_path (hasks.matched hm) (he.asks hasks) ?_
      intro r hr hpath htold kind hw
      rw [hasks.tracks] at hr
      rw [hpath]
      exact hon hok r hr hpath htold kind hw
  case isFalse =>
      exact Tracking.notifyError (hasks.matched hm) (he.asks hasks) rfl

theorem Tracking.processErased (hm : Matched w) (he : Elsewhere w path)
    (hdrop : ¬Drops w path) :
    Tracking (process issue w path true true true) := by
  have hasks : Asks w (processNolock issue w path true true true).2 :=
    processNolock_asks
  rw [process_eq]
  split
  case isTrue hok =>
      rw [if_pos rfl]
      refine Tracking.notifyNull (hasks.matched hm) (he.asks hasks) ?_
      intro kind hw
      exact covered_of_erased hm hok hdrop (hasks.wanted.mp hw)
  case isFalse =>
      exact Tracking.notifyError (hasks.matched hm) (he.asks hasks) rfl

theorem Tracking.onMissing (hm : Matched w) (he : Elsewhere w path)
    (hdrop : ¬Drops w path) : Tracking (onMissing issue w path) := by
  have hasks : Asks w (processNolock issue w path true true true).2 :=
    processNolock_asks
  show Tracking (if (processNolock issue w path true true true).1 = ZOK then
    _ else _)
  split
  case isTrue hok =>
      refine Tracking.notifyNull (hasks.matched hm) (he.asks hasks) ?_
      intro kind hw
      exact covered_of_erased hm hok hdrop (hasks.wanted.mp hw)
  case isFalse =>
      exact Tracking.notifyError (hasks.matched hm) (he.asks hasks) hasks.tracks

/-- Entries that are taken out are owed nothing. -/
theorem Tracking.cancelNolock (h : Tracking w) (cb : Option Nat) :
    Tracking (cancelNolock w path cb) :=
  ⟨⟨h.matched.nodup, h.matched.asked⟩, fun r hr =>
    h.attended r (List.mem_of_mem_filter hr)⟩

theorem Matched.cancelNolock (h : Matched w) (cb : Option Nat) :
    Matched (cancelNolock w path cb) :=
  ⟨h.nodup, h.asked⟩

theorem Elsewhere.cancelNolock (h : Elsewhere w path) (cb : Option Nat) :
    Elsewhere (cancelNolock w path cb) path :=
  fun r hr => h r (List.mem_of_mem_filter hr)

theorem Tracking.onEvent (h : Tracking w) {event : Event} {watch : Watch}
    (hfires : event.fires watch = true)
    (hskip : event = .created → ¬Skips (w.disarm watch path) path)
    (hdrop : event = .erased → ¬Drops (w.disarm watch path) path) :
    Tracking (onEvent issue (w.disarm watch path) event path) := by
  obtain ⟨hm, he⟩ := h.disarm watch path
  cases event with
  | created =>
      refine Tracking.processPresent hm he fun hok r hr hpath htold kind hw => ?_
      exact covered_of_processNolock hm hok (fun _ _ => hskip rfl)
        (fun _ => rfl) (fun _ => rfl) ⟨r, hr, hpath, htold, hw⟩
  | erased => exact Tracking.processErased hm he (hdrop rfl)
  | changed =>
      refine Tracking.processPresent hm he fun hok r hr hpath htold kind hw => ?_
      cases kind with
      | data =>
          exact covered_of_processNolock hm hok (fun _ hc => absurd hc (by decide))
            (fun _ => rfl) (fun hk => absurd hk (by decide))
            ⟨r, hr, hpath, htold, hw⟩
      | children =>
          have hwatch : watch = .data := by
            cases watch <;> first | rfl | exact absurd hfires (by decide)
          have hc := h.attended r hr htold .children hw
          rw [hpath] at hc
          refine (hc.disarm (.inr ?_)).asks processNolock_asks
          rw [hwatch]
          exact ⟨by decide, by decide⟩
  | child =>
      refine Tracking.processPresent hm he fun hok r hr hpath htold kind hw => ?_
      cases kind with
      | children =>
          exact covered_of_processNolock hm hok (fun hd => absurd hd (by decide))
            (fun hk => absurd hk (by decide)) (fun _ => rfl)
            ⟨r, hr, hpath, htold, hw⟩
      | data =>
          have hwatch : watch = .children := by
            cases watch <;> first | rfl | exact absurd hfires (by decide)
          have hc := h.attended r hr htold .data hw
          rw [hpath] at hc
          refine (hc.disarm (.inr ?_)).asks processNolock_asks
          rw [hwatch]
          exact ⟨by decide, by decide⟩

theorem register_eq {tracker : Tracker} :
    (register issue w path tracker).2 =
      if (processNolock issue (w.insert path tracker) path true true
          false).1 = ZOK then
        (processNolock issue (w.insert path tracker) path true true false).2
      else
        (cancelNolock (processNolock issue (w.insert path tracker) path true
          true false).2 path (some tracker.cb)).deliver
          (notifyError (cancelNolock (processNolock issue (w.insert path
            tracker) path true true false).2 path (some tracker.cb)).tracks path
            (processNolock issue (w.insert path tracker) path true true
              false).1) := by
  unfold register
  split
  case isTrue hok => rw [if_pos hok]
  case isFalse hok => rw [if_neg hok]

/-- Before an entry is made the others are attended to. -/
theorem Tracking.insert (h : Tracking w) (path : Text) (tracker : Tracker) :
    Matched (w.insert path tracker) ∧
      Elsewhere (w.insert path tracker) path := by
  refine ⟨⟨h.matched.nodup, h.matched.asked⟩, fun r hr hne => ?_⟩
  rcases List.mem_append.mp hr with hr | hr
  · exact h.attended r hr
  · obtain rfl := List.mem_singleton.mp hr
    exact absurd rfl hne

theorem Tracking.register (h : Tracking w) {tracker : Tracker}
    (hskip : ¬Skips (w.insert path tracker) path) :
    Tracking (register issue w path tracker).2 := by
  obtain ⟨hm, he⟩ := h.insert path tracker
  have hasks : Asks (w.insert path tracker)
      (processNolock issue (w.insert path tracker) path true true false).2 :=
    processNolock_asks
  rw [register_eq]
  split
  case isTrue hok =>
      refine Tracking.of_path (hasks.matched hm) (he.asks hasks) ?_
      intro r hr hpath htold kind hw
      rw [hasks.tracks] at hr
      have howed : Owed (w.insert path tracker) path kind :=
        ⟨r, hr, hpath, htold, hw⟩
      rw [hpath]
      exact covered_of_processNolock hm hok (fun _ _ => hskip) (fun _ => rfl)
        (fun _ => rfl) howed
  case isFalse =>
      exact Tracking.notifyError
        ((hasks.matched hm).cancelNolock (some tracker.cb))
        ((he.asks hasks).cancelNolock (some tracker.cb)) rfl

theorem Tracking.doTrack (h : Tracking w) {path : Option Text}
    {d c null missing : Bool} {cb : Option Nat}
    (hskip : ∀ path' tracker,
      examine w path d c null missing cb = .insert path' tracker →
        ¬Skips (w.insert path' tracker) path') :
    Tracking (doTrack issue w path d c null missing cb).2 := by
  rw [FlinterZooKeeper.doTrack]
  generalize examine w path d c null missing cb = admission at hskip ⊢
  cases admission with
  | refused => exact h
  | alreadyTracked => exact h
  | insert path' tracker => exact h.register (hskip path' tracker rfl)

theorem Tracking.onExists (h : Tracking w) (hi : Documented issue) {rc : Int}
    (hskip : rc = ZOK → ¬Skips (w.complete .exist path rc) path) :
    Tracking (onExists issue (w.complete .exist path rc) rc path) := by
  obtain ⟨hm, he⟩ := h.complete .exist path rc
  rw [FlinterZooKeeper.onExists]
  by_cases hrc : rc = ZOK
  · have hasks : Asks (w.complete .exist path rc)
        (processNolock issue (w.complete .exist path rc) path true true
          false).2 := processNolock_asks
    simp only [if_pos hrc]
    split
    case isTrue hok =>
        refine Tracking.of_path (hasks.matched hm) (he.asks hasks) ?_
        intro r hr hpath htold kind hw
        rw [hasks.tracks] at hr
        rw [hpath]
        exact covered_of_processNolock hm hok (fun _ _ => hskip hrc)
          (fun _ => rfl) (fun _ => rfl) ⟨r, hr, hpath, htold, hw⟩
    case isFalse =>
        rw [if_pos (processNolock_documented hi)]
        exact Tracking.notifyError (hasks.matched hm) (he.asks hasks) rfl
  · simp only [if_neg hrc]
    split
    · exact Tracking.notifyError hm he rfl
    case isFalse hno =>
        -- The watch for the creation of the node covers everything.
        have hno' : rc = ZNONODE := not_ne_iff.mp hno
        have hall : Tracking (w.complete .exist path rc) := by
          refine Tracking.of_path hm he fun r _ hpath _ kind _ => ?_
          refine .inr (.inr (.inr (List.mem_append_right _ ?_)))
          rw [hpath, hno']
          exact List.mem_singleton.mpr rfl
        generalize ((equalRange (w.complete .exist path rc).tracks path).filter
          (·.tracker.cancelOnMissing)) = rs
        generalize w.complete .exist path rc = w₁ at hall
        induction rs generalizing w₁ with
        | nil => exact hall
        | cons r rs ih => exact ih _ (hall.cancelNolock (some r.tracker.cb))

/-- A callback that hears good news of one kind tracks the other kind too, and
    that is not covered: an earlier request for it failed. -/
def Blinds (w : World) (path : Text) (kind : Kind) : Prop :=
  ∃ r ∈ equalRange w.tracks path,
    r.tracker.cb ∈ callbacks w.tracks path (·.wants kind) ∧
      ∃ other, r.tracker.wants other = true ∧ ¬Covered w path other

/-- A request for data or children that was answered with them. -/
theorem Tracking.news (kind : Kind) (h : Tracking w) {rc : Int} (hrc : rc = ZOK)
    (hnews : ∀ n ∈ notices, n.failure = false ∧ n.path = path ∧
      n.cb ∈ callbacks w.tracks path (·.wants kind))
    (hblind : ¬Blinds (w.complete kind.request path rc) path kind) :
    Tracking ((w.complete kind.request path rc).deliver notices) := by
  obtain ⟨hm, he⟩ := h.complete kind.request path rc
  have hwatch : Covered (w.complete kind.request path rc) path kind := by
    subst hrc
    refine .inr (.inr (.inl (List.mem_append_right _ ?_)))
    cases kind <;> exact List.mem_singleton.mpr rfl
  refine Tracking.deliver (b := false) hm he
    (fun n hn => ⟨(hnews n hn).1, (hnews n hn).2.1⟩) ?_
  intro r hr hpath hcase other hw
  by_contra hnot
  rcases hcase with ⟨-, htold⟩ | ⟨⟨n, hn, hreach⟩, -⟩
  · -- Nothing was said to it: it was covered before, and not by this request.
    refine hnot ?_
    have hc := h.attended r hr htold other hw
    rw [hpath] at hc
    by_cases hk : other = kind
    · exact hk ▸ hwatch
    · refine hc.complete (.inr ⟨?_, ?_⟩)
      · cases other <;> cases kind <;> first
          | exact absurd rfl hk
          | decide
      · cases kind <;> decide
  · refine hblind ⟨r, mem_equalRange.mpr ⟨hr, hpath⟩, ?_, other, hw, hnot⟩
    rw [← hreach.1]
    exact (hnews n hn).2.2

theorem Tracking.onGet (h : Tracking w) {rc : Int} {data : Text}
    (hdrop : rc = ZNONODE → ¬Drops (w.complete .get path rc) path)
    (hblind : rc = ZOK → ¬Blinds (w.complete .get path rc) path .data) :
    Tracking (onGet issue (w.complete .get path rc) rc path data) := by
  obtain ⟨hm, he⟩ := h.complete .get path rc
  rw [FlinterZooKeeper.onGet]
  split
  case isTrue hno => exact Tracking.onMissing hm he (hdrop hno)
  split
  · exact Tracking.notifyError hm he rfl
  case isFalse hok =>
      have hok' : rc = ZOK := not_ne_iff.mp hok
      refine Tracking.news .data h hok' ?_ (hblind hok')
      intro n hn
      obtain ⟨cb, hcb, rfl⟩ := List.mem_map.mp hn
      exact ⟨rfl, rfl, hcb⟩

theorem Tracking.onGetChildren (h : Tracking w) {rc : Int}
    {children : List Text}
    (hdrop : rc = ZNONODE → ¬Drops (w.complete .getChildren path rc) path)
    (hblind : rc = ZOK →
      ¬Blinds (w.complete .getChildren path rc) path .children) :
    Tracking (onGetChildren issue (w.complete .getChildren path rc) rc path
      children) := by
  obtain ⟨hm, he⟩ := h.complete .getChildren path rc
  rw [FlinterZooKeeper.onGetChildren]
  split
  case isTrue hno => exact Tracking.onMissing hm he (hdrop hno)
  split
  · exact Tracking.notifyError hm he rfl
  case isFalse hok =>
      have hok' : rc = ZOK := not_ne_iff.mp hok
      refine Tracking.news .children h hok' ?_ (hblind hok')
      intro n hn
      obtain ⟨cb, hcb, rfl⟩ := List.mem_map.mp hn
      exact ⟨rfl, rfl, hcb⟩

-- ── Runs ─────────────────────────────────────────────────────────────────────

/-- **WHEN NOTHING IS LOST**: where the node is there, the children are not left
    out; where it is missing, somebody waits for it; news of one kind find the
    other kind covered. -/
def NothingLost (w : World) (a : Issue × Action) : Prop :=
  match a.2 with
  | .track path d c null cb => ∀ path' tracker,
    examine w path d c null false cb = .insert path' tracker →
      ¬Skips (w.insert path' tracker) path'
  | .trackExisting path d c cb => ∀ path' tracker,
    examine w path d c true true cb = .insert path' tracker →
      ¬Skips (w.insert path' tracker) path'
  | .event event watch path =>
    (event = .created → ¬Skips (w.disarm watch path) path) ∧
      (event = .erased → ¬Drops (w.disarm watch path) path)
  | .exist rc path => rc = ZOK → ¬Skips (w.complete .exist path rc) path
  | .get rc path _ =>
    (rc = ZNONODE → ¬Drops (w.complete .get path rc) path) ∧
      (rc = ZOK → ¬Blinds (w.complete .get path rc) path .data)
  | .getChildren rc path _ =>
    (rc = ZNONODE → ¬Drops (w.complete .getChildren path rc) path) ∧
      (rc = ZOK → ¬Blinds (w.complete .getChildren path rc) path .children)
  | _ => True

theorem tracking_start : Tracking .start :=
  ⟨⟨List.nodup_nil, fun x => by simp [World.start]⟩,
    fun r hr => absurd hr List.not_mem_nil⟩

/-- One step keeps the invariant. -/
theorem Tracking.kept {a : Issue × Action} (h : Tracking w)
    (hk : NothingLost w a) (hi : Documented a.1)
    (hs : next a.1 w a.2 = some w') : Tracking w' := by
  obtain ⟨issue, action⟩ := a
  cases action with
  | track path d c null cb =>
      obtain rfl := Option.some.inj hs
      exact h.doTrack hk
  | trackExisting path d c cb =>
      obtain rfl := Option.some.inj hs
      exact h.doTrack hk
  | cancel path cb =>
      obtain rfl := Option.some.inj hs
      rw [cancel]
      split
      · exact h.cancelNolock cb
      · exact h
  | session state =>
      obtain ⟨-, heq⟩ := Option.ite_none_right_eq_some.mp hs
      obtain rfl := Option.some.inj heq
      exact ⟨⟨h.matched.nodup, h.matched.asked⟩, h.attended⟩
  | event event watch path =>
      obtain ⟨⟨hfires, -⟩, heq⟩ := Option.ite_none_right_eq_some.mp hs
      obtain rfl := Option.some.inj heq
      exact h.onEvent hfires hk.1 hk.2
  | exist rc path =>
      obtain ⟨-, heq⟩ := Option.ite_none_right_eq_some.mp hs
      obtain rfl := Option.some.inj heq
      exact h.onExists hi hk
  | get rc path data =>
      obtain ⟨-, heq⟩ := Option.ite_none_right_eq_some.mp hs
      obtain rfl := Option.some.inj heq
      exact h.onGet hk.1 hk.2
  | getChildren rc path children =>
      obtain ⟨-, heq⟩ := Option.ite_none_right_eq_some.mp hs
      obtain rfl := Option.some.inj heq
      exact h.onGetChildren hk.1 hk.2

theorem Tracking.reachable
    (h : Reachable (zooKeeperTracker.restrict NothingLost) w) : Tracking w := by
  refine h.invariant ?_ ?_
  · rintro _ rfl
    exact tracking_start
  · rintro _ _ _ - ht ⟨hk, hi, hs⟩
    exact ht.kept hk hi hs

theorem Tracking.coverage (h : Tracking w) : Coverage w := by
  intro path htold kind hw
  obtain ⟨r, hr, rfl, hk⟩ := wanted_iff.mp hw
  exact h.attended r hr (htold r (mem_equalRange.mpr ⟨hr, rfl⟩)) kind hk

-- ── The condition is exact ───────────────────────────────────────────────────

/-- What is skipped stays uncovered: `Get` is done at once. -/
theorem Skips.processNolock (issue : Issue) (hm : Matched w) (h : Skips w path) :
    processNolock issue w path true true false = (ZOK, w) := by
  obtain ⟨⟨hzk, hstate⟩, hdata, howed, hin, -⟩ := h
  have hd : need w.tracks path false .data = true := hdata
  have hc : need w.tracks path false .children = true := howed.wanted
  rw [processNolock_eq, hd, hc, if_neg (by decide)]
  rw [FlinterZooKeeper.get]
  rw [if_neg (by simp [hzk]), if_neg (not_ne_iff.mpr hstate),
    if_neg (by decide), if_pos ⟨rfl, (hm.asked _).mp hin⟩]

theorem Skips.lost (h : Skips w path) : ¬Tracking w := by
  obtain ⟨-, -, ⟨r, hr, rfl, htold, hw⟩, -, hnot⟩ := h
  exact fun ht => hnot (ht.attended r hr htold .children hw)

/-- Whoever wants something hears that the node is missing. -/
theorem reached_notifyNull (hr : r ∈ w.tracks)
    (hw : r.tracker.wants kind = true) :
    ∃ n ∈ notifyNull w.tracks r.path, n.reaches r := by
  cases kind with
  | data =>
      refine ⟨.onData r.tracker.cb r.path none, ?_, rfl, rfl⟩
      refine List.mem_append_left _ (List.mem_map.mpr ⟨_, ?_, rfl⟩)
      exact mem_callbacks.mpr ⟨r, hr, rfl, hw, rfl⟩
  | children =>
      refine ⟨.onChildren r.tracker.cb r.path none, ?_, rfl, rfl⟩
      refine List.mem_append_right _ (List.mem_map.mpr ⟨_, ?_, rfl⟩)
      exact mem_callbacks.mpr ⟨r, hr, rfl, hw, rfl⟩

/-- Good news leave what is not covered uncovered, and take the failure back. -/
theorem lost_of_reached (hr : r ∈ w.tracks) (hw : r.tracker.wants kind = true)
    (hgood : ∀ n ∈ notices, n.failure = false)
    (hreach : ∃ n ∈ notices, n.reaches r) (hnot : ¬Covered w r.path kind) :
    ¬Tracking (w.deliver notices) := by
  intro ht
  have htold : (notices.foldl Registration.hear r).told = false := by
    rcases hear_told hgood with ⟨hnone, -⟩ | ⟨-, heq⟩
    · obtain ⟨n, hn, hrn⟩ := hreach
      exact absurd hrn (hnone n hn)
    · exact heq
  have hc := ht.attended _ (mem_deliver.mpr ⟨r, hr, rfl⟩) htold kind
    (hear_tracker.symm ▸ hw)
  rw [hear_path] at hc
  exact hnot hc

/-- What is dropped stays uncovered, and its trackers only hear that the node is
    missing. -/
theorem Drops.lost (issue : Issue) (h : Drops w path) :
    processNolock issue w path true true true = (ZOK, w) ∧
      ¬Tracking (w.deliver (notifyNull w.tracks path)) := by
  obtain ⟨hnone, kind, hw, hnot⟩ := h
  refine ⟨?_, ?_⟩
  · rw [processNolock_eq, hnone .data, hnone .children]
    exact if_pos rfl
  · obtain ⟨r, hr, rfl, hk⟩ := wanted_iff.mp hw
    exact lost_of_reached hr hk (fun n hn => (notifyNull_good n hn).1)
      (reached_notifyNull hr hk) hnot

theorem Drops.process (h : Drops w path) :
    ¬Tracking (process issue w path true true true) := by
  obtain ⟨heq, hlost⟩ := h.lost issue
  rw [process_eq, heq, if_pos rfl, if_pos rfl]
  exact hlost

theorem Drops.onMissing (h : Drops w path) :
    ¬Tracking (onMissing issue w path) := by
  obtain ⟨heq, hlost⟩ := h.lost issue
  rw [FlinterZooKeeper.onMissing]
  rw [heq]
  exact hlost

theorem Skips.process (hm : Matched w) (h : Skips w path) :
    ¬Tracking (process issue w path true true false) := by
  rw [process_eq, h.processNolock issue hm, if_pos rfl, if_neg (by decide)]
  exact h.lost

theorem Skips.doTrack (ht : Tracking w) {p : Option Text}
    {d c null missing : Bool} {cb : Option Nat} {tracker : Tracker}
    (ha : examine w p d c null missing cb = .insert path tracker)
    (h : Skips (w.insert path tracker) path) :
    ¬Tracking (doTrack issue w p d c null missing cb).2 := by
  rw [FlinterZooKeeper.doTrack]
  rw [ha]
  show ¬Tracking (register issue w path tracker).2
  rw [register_eq, h.processNolock issue (ht.insert path tracker).1, if_pos rfl]
  exact h.lost

theorem Blinds.lost (h : Blinds w path kind)
    (hnews : ∀ n ∈ notices, n.failure = false)
    (hall : ∀ cb ∈ callbacks w.tracks path (·.wants kind),
      ∃ n ∈ notices, n.cb = cb ∧ n.path = path) :
    ¬Tracking (w.deliver notices) := by
  obtain ⟨r, hr, hcb, other, hw, hnot⟩ := h
  obtain ⟨hr', rfl⟩ := mem_equalRange.mp hr
  exact lost_of_reached hr' hw hnews (hall _ hcb) hnot

/-- **THE CONDITION IS EXACT**: a step keeps the invariant if and only if it
    loses nothing. -/
theorem Tracking.kept_iff {a : Issue × Action} (h : Tracking w)
    (hi : Documented a.1) (hs : next a.1 w a.2 = some w') :
    Tracking w' ↔ NothingLost w a := by
  refine ⟨fun ht => ?_, fun hk => h.kept hk hi hs⟩
  obtain ⟨issue, action⟩ := a
  cases action with
  | track path d c null cb =>
      obtain rfl := Option.some.inj hs
      exact fun path' tracker ha hskip => hskip.doTrack h ha ht
  | trackExisting path d c cb =>
      obtain rfl := Option.some.inj hs
      exact fun path' tracker ha hskip => hskip.doTrack h ha ht
  | cancel path cb => trivial
  | session state => trivial
  | event event watch path =>
      obtain ⟨-, heq⟩ := Option.ite_none_right_eq_some.mp hs
      obtain rfl := Option.some.inj heq
      constructor
      · rintro rfl hskip
        exact hskip.process (h.disarm watch path).1 ht
      · rintro rfl hdrop
        exact hdrop.process ht
  | exist rc path =>
      obtain ⟨-, heq⟩ := Option.ite_none_right_eq_some.mp hs
      obtain rfl := Option.some.inj heq
      rintro rfl hskip
      refine hskip.lost ?_
      have heq := hskip.processNolock issue (h.complete .exist path ZOK).1
      simpa only [FlinterZooKeeper.onExists, if_pos, heq] using ht
  | get rc path data =>
      obtain ⟨-, heq⟩ := Option.ite_none_right_eq_some.mp hs
      obtain rfl := Option.some.inj heq
      constructor
      · rintro rfl hdrop
        exact hdrop.onMissing ht
      · rintro rfl hblind
        refine hblind.lost ?_ ?_ ht
        · intro n hn
          obtain ⟨cb, -, rfl⟩ := List.mem_map.mp hn
          rfl
        · exact fun cb hcb => ⟨_, List.mem_map.mpr ⟨cb, hcb, rfl⟩, rfl, rfl⟩
  | getChildren rc path children =>
      obtain ⟨-, heq⟩ := Option.ite_none_right_eq_some.mp hs
      obtain rfl := Option.some.inj heq
      constructor
      · rintro rfl hdrop
        exact hdrop.onMissing ht
      · rintro rfl hblind
        refine hblind.lost ?_ ?_ ht
        · intro n hn
          obtain ⟨cb, -, rfl⟩ := List.mem_map.mp hn
          rfl
        · exact fun cb hcb => ⟨_, List.mem_map.mpr ⟨cb, hcb, rfl⟩, rfl, rfl⟩

/-- A client that accepts every request. -/
def accepts : Issue := fun _ => ZOK

theorem accepts_documented : Documented accepts := 
  fun _ => show ZOK ≠ ZNONODE by decide

/-- **NO CHANGE IS MISSED**: in a run that loses nothing, everything that is
    wanted by trackers without a failure is covered; and a further step keeps what
    that rests on if and only if it loses nothing either. -/
theorem tracked_covered
    (h : Reachable (zooKeeperTracker.restrict NothingLost) w) :
    Coverage w ∧ ∀ a w', zooKeeperTracker.step w a w' →
      (Tracking w' ↔ NothingLost w a) := by
  have htracking := Tracking.reachable h
  exact ⟨htracking.coverage, fun a w' hs => htracking.kept_iff hs.1 hs.2⟩

theorem tracked_covered_both :
    ∃ w, w.tracks.length = 1 ∧ w.requests.length = 2 ∧ Coverage w := by
  refine ⟨(track accepts .start (some ['/', 'a']) true true true
    (some 1)).2, by decide, by decide, (tracked_covered (.next (.start rfl)
    (l := (accepts, .track (some ['/', 'a']) true true true (some 1)))
    ⟨?_, accepts_documented, rfl⟩)).1⟩
  intro path tracker ha hskip
  obtain ⟨rfl, rfl⟩ := Admission.insert.inj ha
  exact absurd hskip.2.2.2.1 (by decide)

-- ── Two trackers of one node ─────────────────────────────────────────────────

/-- **CHILDREN LEFT OUT**: a callback tracks the data of a node, and while that
    is asked for another one tracks the children.  Nothing ever asks for them. -/
theorem misses_children :
    ¬∀ w, Reachable zooKeeperTracker w → Coverage w := by
  intro h
  have h₁ := Reachable.next (M := zooKeeperTracker) (.start rfl)
    (l := (accepts, .track (some ['/', 'a']) true false true (some 1)))
    ⟨accepts_documented, rfl⟩
  have h₂ := h₁.next
    (l := (accepts, .track (some ['/', 'a']) false true true (some 2)))
    ⟨accepts_documented, rfl⟩
  have h₃ := h₂.next (l := (accepts, .get ZOK ['/', 'a'] []))
    ⟨accepts_documented, rfl⟩
  have hc := h _ h₃ ['/', 'a'] (by decide) .children (by decide)
  exact absurd hc (by decide)

end FlinterZooKeeper
