import Flinter.ZooKeeperTrackerProofs

/-! # ZooKeeper: pending requests

    A `Pending` has two halves, the callback for the completion and the watcher
    for the event behind it, and is deleted by whichever is the last to come, or
    by `Shutdown`.  `Detach` takes out a half at any time; the global functions
    of the client read them without the lock.

    Each request is invoked and deleted once at most, whatever comes
    (`sane_of_reachable`).  But a completion that finds no callback takes it for
    granted that it resumes a watch, and that this cannot fail; and what is
    detached may be what a global function is about to use.  Apart from that no
    assertion fails (`pending_lives`). -/

namespace FlinterPending

open Runs
open FlinterZooKeeper (Text Request ZOK ZINVALIDSTATE ZNONODE absolute)

def ZBADARGUMENTS : Int := -8

-- ── Pendings ─────────────────────────────────────────────────────────────────

/-- `ZooKeeper::Pending` of a request. -/
structure Pending where
  op : Request
  path : Text
  zkw : Option Nat
  zkc : Option Nat
  zkwDetached : Bool
deriving DecidableEq, Repr

namespace Pending

def clearCallback (p : Pending) : Pending := { p with zkc := none }

def clearWatcher (p : Pending) : Pending :=
  { p with zkw := none, zkwDetached := false }

def detachWatcher (p : Pending) : Pending :=
  { p with zkw := none, zkwDetached := true }

/-- One iteration of `ZooKeeper::Detach`. -/
def detach (p : Pending) (zkw zkc : Option Nat) : Pending :=
  let p := if zkc.isSome ∧ p.zkc = zkc then p.clearCallback else p
  if zkw.isSome ∧ p.zkw = zkw then p.detachWatcher else p

/-- What `ErasePending` asserts. -/
def spent (p : Pending) : Bool := p.zkc.isNone && p.zkw.isNone && !p.zkwDetached

end Pending

/-- `ZOO_CREATED_EVENT` and the others. -/
inductive EventType where
  | created
  | deleted
  | changed
  | child
  | session
  | notWatching
deriving DecidableEq, Repr

/-- Where a global function stands between what it reads of its pending: it has
    found a callback, it has called it, it has found none, it has found a
    watcher, or it is done with that. -/
inductive Stand where
  | calling (expected : Request) (rc : Int)
  | called
  | resuming (expected : Request) (rc : Int)
  | notifying (type : EventType) (state : Int)
  | notified (type : EventType)
deriving DecidableEq, Repr

/-- A pending and what is still to come for it.  `completion` is the operation
    that its `Global*Completion` is for, until that runs; `watched`, that it is
    the context of a watch; `held`, that it is in `_pending`.  Ghosts: how often
    its callback was called, and how often it was deleted. -/
structure Item where
  pending : Pending
  held : Bool
  completion : Option Request
  watched : Bool
  stand : Option Stand
  invoked : Nat
  deleted : Nat
deriving DecidableEq, Repr

/-- A call of a callback or of a watcher, for the pending `i`. -/
inductive Call where
  | completed (cb i : Nat) (op : Request) (rc : Int) (path : Text)
  | event (zkw i : Nat) (type : EventType) (state : Int) (path : Text)
deriving DecidableEq, Repr

-- ── Global functions ─────────────────────────────────────────────────────────

/-- `ZooKeeper::ErasePending`, if its assertion holds. -/
def Item.erasePending (o : Item) : Option Item :=
  if o.pending.spent then
    if o.held then
      some { o with held := false, deleted := o.deleted + 1 }
    else some o
  else none

/-- The last lines of a `Global*Completion` that has called. -/
def Item.finish (o : Item) : Option Item :=
  if o.pending.zkw.isNone && !o.pending.zkwDetached then o.erasePending
  else some o

/-- The first lines of a `Global*Completion`.  Between its two reads a `Detach`
    is as good as before them. -/
def globalCompletion (expected : Request) (rc : Int) (p : Pending) :
    Option Stand :=
  if p.zkc.isSome then some (.calling expected rc)
  else if p.zkwDetached then none
  else some (.resuming expected rc)

/-- `ZooKeeper::GlobalStatCompletion`. -/
def globalStatCompletion := globalCompletion .exist

/-- `ZooKeeper::GlobalDataCompletion`. -/
def globalDataCompletion := globalCompletion .get

/-- `ZooKeeper::GlobalStringsStatCompletion`. -/
def globalStringsStatCompletion := globalCompletion .getChildren

/-- The function that the client was given with a request. -/
def completes : Request → Int → Pending → Option Stand
  | .exist => globalStatCompletion
  | .get => globalDataCompletion
  | .getChildren => globalStringsStatCompletion

/-- The first lines of `ZooKeeper::GlobalWatcher`. -/
def globalWatcher (type : EventType) (state : Int) (p : Pending) : Stand :=
  if p.zkwDetached then .notified type else .notifying type state

/-- The next lines of a global function, if no assertion fails and nothing is
    called through NULL. -/
def Item.goOn (o : Item) (i : Nat) : Stand → Option (Item × List Call)
  | .calling expected rc =>
    match o.pending.zkc with
    | none => none
    | some cb =>
      if o.pending.op = expected then
        some ({ o with stand := some .called, invoked := o.invoked + 1 },
          [.completed cb i expected rc o.pending.path])
      else some ({ o with stand := some .called }, [])
  | .called =>
    ({ o with pending := o.pending.clearCallback, stand := none } :
      Item).finish.map fun o => (o, [])
  | .resuming expected rc =>
    if o.pending.zkw.isNone ∨ o.pending.op ≠ expected then none
    else if rc = ZOK then some ({ o with stand := none }, [])
    else ({ o with stand := none } : Item).erasePending.map fun o => (o, [])
  | .notifying type state =>
    match o.pending.zkw with
    | none => none
    | some zkw =>
      some ({ o with stand := some (.notified type) },
        [.event zkw i type state o.pending.path])
  | .notified type =>
    if type = .session then some ({ o with stand := none }, [])
    else
      ({ o with pending := o.pending.clearWatcher, stand := none } :
        Item).erasePending.map fun o => (o, [])

/-- What the client does for a request: it completes it, then tells events of
    the session, and one other; a function that it has called goes on. -/
inductive Move where
  | complete (rc : Int)
  | watch (type : EventType) (state : Int)
  | goOn
deriving DecidableEq, Repr

def Item.admits (o : Item) : Move → Bool
  | .complete _ => o.stand.isNone && o.completion.isSome
  | .watch _ _ => o.stand.isNone && o.completion.isNone && o.watched
  | .goOn => o.stand.isSome

def Item.move (o : Item) (i : Nat) : Move → Option (Item × List Call)
  | .complete rc =>
    some ({ o with
      completion := none
      stand := o.completion.bind fun f => completes f rc o.pending }, [])
  | .watch type state =>
    some ({ o with
      watched := type == .session
      stand := some (globalWatcher type state o.pending) }, [])
  | .goOn => o.stand.bind (o.goOn i)

-- ── The system ───────────────────────────────────────────────────────────────

/-- `_handle` is set, or `Shutdown` is closing it, or it has returned. -/
inductive Phase where
  | connected
  | closing
  | closed
deriving DecidableEq, Repr

/-- A ZooKeeper with one handle. -/
structure ZooKeeper where
  phase : Phase
  items : List Item
  calls : List Call
  aborted : Bool
deriving DecidableEq, Repr

def ZooKeeper.fresh : ZooKeeper := ⟨.connected, [], [], false⟩

def ZooKeeper.insert (s : ZooKeeper) (p : Pending)
    (completion : Option Request) : ZooKeeper :=
  { s with items := s.items ++
    [⟨p, true, completion, p.zkw.isSome, none, 0, 0⟩] }

/-- What `AsyncGet` and the others have in common; `answer` is the client's. -/
def async (op : Request) (s : ZooKeeper) (path : Option Text)
    (zkc watcher : Option Nat) (answer : Int) : Int × ZooKeeper :=
  match absolute path with
  | none => (ZBADARGUMENTS, s)
  | some path =>
    if zkc.isNone ∧ watcher.isNone then (ZBADARGUMENTS, s)
    else if s.phase ≠ .connected then (ZINVALIDSTATE, s)
    else if answer ≠ ZOK then (answer, s)
    else (ZOK, s.insert ⟨op, path, watcher, zkc, false⟩ (some op))

/-- `ZooKeeper::AsyncGet`. -/
def asyncGet := async .get

/-- `ZooKeeper::AsyncExists`. -/
def asyncExists := async .exist

/-- `ZooKeeper::AsyncGetChildren`. -/
def asyncGetChildren := async .getChildren

/-- What `Get` and the others do of this, which have their answer already; a
    missing node can be watched. -/
def sync (op : Request) (s : ZooKeeper) (path : Option Text)
    (watcher : Option Nat) (answer : Int) : Int × ZooKeeper :=
  match absolute path with
  | none => (ZBADARGUMENTS, s)
  | some path =>
    if s.phase ≠ .connected then (ZINVALIDSTATE, s)
    else if watcher.isSome ∧
        (answer = ZOK ∨ op = .exist ∧ answer = ZNONODE) then
      (answer, s.insert ⟨op, path, watcher, none, false⟩ none)
    else (answer, s)

/-- A request of the user. -/
inductive Ask where
  | asyncGet (zkc watcher : Option Nat)
  | asyncExists (zkc watcher : Option Nat)
  | asyncGetChildren (zkc watcher : Option Nat)
  | get (watcher : Option Nat)
  | exist (watcher : Option Nat)
  | getChildren (watcher : Option Nat)
deriving DecidableEq, Repr

def ZooKeeper.ask (s : ZooKeeper) (path : Option Text) (answer : Int) :
    Ask → Int × ZooKeeper
  | .asyncGet zkc watcher => asyncGet s path zkc watcher answer
  | .asyncExists zkc watcher => asyncExists s path zkc watcher answer
  | .asyncGetChildren zkc watcher => asyncGetChildren s path zkc watcher answer
  | .get watcher => sync .get s path watcher answer
  | .exist watcher => sync .exist s path watcher answer
  | .getChildren watcher => sync .getChildren s path watcher answer

def Item.detach (o : Item) (zkw zkc : Option Nat) : Item :=
  if o.held then { o with pending := o.pending.detach zkw zkc } else o

/-- `ZooKeeper::Detach`. -/
def ZooKeeper.detach (s : ZooKeeper) (zkw zkc : Option Nat) : ZooKeeper :=
  { s with items := s.items.map fun o => o.detach zkw zkc }

/-- The handle is closed: the client calls no more, and `Shutdown` deletes what
    is pending, unless the client has complained. -/
def Item.close (o : Item) (rc : Int) : Item :=
  let o := { o with completion := none, watched := false }
  if rc = ZOK ∧ o.held then { o with held := false, deleted := o.deleted + 1 }
  else o

inductive Action where
  | ask (path : Option Text) (answer : Int) (ask : Ask)
  | detach (zkw zkc : Option Nat)
  | run (i : Nat) (m : Move)
  | close
  | closed (rc : Int)
deriving DecidableEq, Repr

/-- One step, if it can be taken.  The global functions of one request come one
    after the other; `Shutdown` waits for all of them. -/
def next (s : ZooKeeper) (a : Action) : Option ZooKeeper :=
  if s.aborted then none
  else
    match a with
    | .ask path answer a => some (s.ask path answer a).2
    | .detach zkw zkc => some (s.detach zkw zkc)
    | .run i m =>
      match s.items[i]? with
      | none => none
      | some o =>
        if o.admits m then
          match o.move i m with
          | none => some { s with aborted := true }
          | some (o', calls) =>
            some { s with items := s.items.set i o', calls := s.calls ++ calls }
        else none
    | .close =>
      if s.phase = .connected then some { s with phase := .closing } else none
    | .closed rc =>
      if s.phase = .closing ∧ ∀ o ∈ s.items, o.stand = none then
        some { s with
          phase := .closed
          items := s.items.map fun o => o.close rc }
      else none

/-- Any order of requests, completions, events and `Detach`. -/
def pendings : System ZooKeeper Action where
  init := fun s => s = .fresh
  step := fun s a s' => next s a = some s'

-- ── What holds of each pending ───────────────────────────────────────────────

variable {s s' : ZooKeeper} {a : Action} {o o' : Item} {i : Nat} {m : Move}
variable {calls : List Call} {zkw zkc : Option Nat} {rc : Int}

/-- A watcher, or what `Detach` left of it. -/
def Pending.seen (p : Pending) : Prop := p.zkw.isSome ∨ p.zkwDetached = true

/-- What a stand tells of its pending.  As long as the completion is to come
    nobody has called the callback; nothing is left of it once that is over. -/
def Item.Fits (o : Item) : Prop :=
  match o.stand with
  | none => (o.completion.isSome → o.invoked = 0) ∧
      (o.completion = none → o.watched = true → o.pending.zkc = none) ∧
      (o.watched = true → o.pending.seen)
  | some (.calling expected _) => expected = o.pending.op ∧ o.invoked = 0 ∧
      o.completion = none ∧ (o.watched = true → o.pending.seen)
  | some .called => o.completion = none ∧ (o.watched = true → o.pending.seen)
  | some (.resuming expected _) => expected = o.pending.op ∧
      o.pending.zkc = none ∧ o.completion = none ∧
      (o.watched = true → o.pending.seen)
  | some (.notifying type _) | some (.notified type) =>
      o.pending.zkc = none ∧ o.completion = none ∧
      (type = .session → o.pending.seen) ∧ (o.watched = true → type = .session)

/-- **A PENDING IN ORDER**: it is in `_pending` or deleted, once; it is there
    for whoever may still use it. -/
structure Good (o : Item) : Prop where
  counted : o.deleted = if o.held then 0 else 1
  live : o.completion.isSome ∨ o.watched = true ∨ o.stand.isSome → o.held = true
  matched : ∀ f, o.completion = some f → f = o.pending.op
  invoked : o.invoked ≤ 1
  fits : o.Fits

namespace Pending

variable {p : Pending}

@[simp] theorem op_detach : (p.detach zkw zkc).op = p.op := by
  dsimp only [detach]
  split <;> split <;> rfl

theorem zkc_detach (h : p.zkc = none) : (p.detach zkw zkc).zkc = none := by
  dsimp only [detach]
  split <;> split <;> first | exact h | rfl

theorem zkc_detach_eq : (p.detach zkw zkc).zkc =
    if zkc.isSome ∧ p.zkc = zkc then none else p.zkc := by
  dsimp only [detach]
  split <;> split <;> rfl

theorem zkw_detach_eq : (p.detach zkw zkc).zkw =
    if zkw.isSome ∧ p.zkw = zkw then none else p.zkw := by
  have hsame : (if zkc.isSome ∧ p.zkc = zkc then p.clearCallback
      else p).zkw = p.zkw := by
    split <;> rfl
  dsimp only [detach]
  rw [hsame]
  split
  · rfl
  · exact hsame

theorem seen_detach (h : p.seen) : (p.detach zkw zkc).seen := by
  dsimp only [detach]
  split <;> split <;> first | exact h | exact Or.inr rfl

theorem not_seen (hzkw : p.zkw.isNone = true) (hd : p.zkwDetached = false) :
    ¬p.seen := by
  rintro (h | h)
  · rw [Option.isNone_iff_eq_none.mp hzkw] at h
    cases h
  · rw [hd] at h
    cases h

end Pending

theorem erasePending_eq (h : o.erasePending = some o') (hheld : o.held = true) :
    o.pending.spent = true ∧
      o' = { o with held := false, deleted := o.deleted + 1 } := by
  rw [Item.erasePending, if_pos hheld] at h
  obtain ⟨hspent, ⟨⟩⟩ := Option.ite_none_right_eq_some.mp h
  exact ⟨hspent, rfl⟩

/-- Once it is deleted there is nothing to come. -/
theorem Good.erase (h : Good o) (hheld : o.held = true)
    (hcompletion : o.completion = none) (hwatched : o.watched = false)
    (p : Pending) (hzkc : p.zkc = none) :
    Good { o with
      pending := p, held := false, stand := none
      deleted := o.deleted + 1 } := by
  have hzero := h.counted
  rw [if_pos hheld] at hzero
  constructor
  · exact congrArg (· + 1) hzero
  · rintro (hc | hw | hst)
    · rw [hcompletion] at hc
      cases hc
    · rw [hwatched] at hw
      cases hw
    · cases hst
  · intro f hf
    rw [hcompletion] at hf
    cases hf
  · exact h.invoked
  · refine ⟨fun hc => ?_, fun _ _ => hzkc, fun hw => ?_⟩
    · rw [hcompletion] at hc
      cases hc
    · rw [hwatched] at hw
      cases hw

theorem Good.detach (h : Good o) : Good (o.detach zkw zkc) := by
  rw [Item.detach]
  split
  · refine ⟨h.counted, h.live, fun f hf => ?_, h.invoked, ?_⟩
    · exact (h.matched f hf).trans Pending.op_detach.symm
    · have hfits := h.fits
      cases hst : o.stand with
      | none =>
          rw [Item.Fits, hst] at hfits
          obtain ⟨hzero, hzkc, hseen⟩ := hfits
          exact ⟨hzero, fun hc hw => Pending.zkc_detach (hzkc hc hw),
            fun hw => Pending.seen_detach (hseen hw)⟩
      | some stand =>
          rw [Item.Fits, hst] at hfits
          cases stand with
          | calling expected rc =>
              obtain ⟨rfl, hzero, hc, hseen⟩ := hfits
              exact ⟨Pending.op_detach.symm, hzero, hc,
                fun hw => Pending.seen_detach (hseen hw)⟩
          | called =>
              exact ⟨hfits.1, fun hw => Pending.seen_detach (hfits.2 hw)⟩
          | resuming expected rc =>
              obtain ⟨rfl, hzkc, hc, hseen⟩ := hfits
              exact ⟨Pending.op_detach.symm, Pending.zkc_detach hzkc, hc,
                fun hw => Pending.seen_detach (hseen hw)⟩
          | notifying type state =>
              obtain ⟨hzkc, hc, hseen, hw⟩ := hfits
              exact ⟨Pending.zkc_detach hzkc, hc,
                fun ht => Pending.seen_detach (hseen ht), hw⟩
          | notified type =>
              obtain ⟨hzkc, hc, hseen, hw⟩ := hfits
              exact ⟨Pending.zkc_detach hzkc, hc,
                fun ht => Pending.seen_detach (hseen ht), hw⟩
  · exact h

/-- How a global function goes on, if it does: it calls, or passes an operation
    that it does not know; it is over, or is the last to use its pending; what
    cannot be resumed is never erased. -/
inductive Goes (o : Item) (i : Nat) : Stand → Item → List Call → Prop where
  | calls {cb : Nat} {rc : Int} (hzkc : o.pending.zkc = some cb) :
      Goes o i (.calling o.pending.op rc)
        { o with stand := some .called, invoked := o.invoked + 1 }
        [.completed cb i o.pending.op rc o.pending.path]
  | passes {expected : Request} {rc : Int} (hop : o.pending.op ≠ expected) :
      Goes o i (.calling expected rc) { o with stand := some .called } []
  | stays : Goes o i .called
      { o with pending := o.pending.clearCallback, stand := none } []
  | finishes {o' : Item} (hzkw : o.pending.zkw.isNone = true)
      (hdetached : o.pending.zkwDetached = false)
      (herase : ({ o with
        pending := o.pending.clearCallback, stand := none } :
          Item).erasePending = some o') : Goes o i .called o' []
  | resumes {expected : Request} {rc : Int} :
      Goes o i (.resuming expected rc) { o with stand := none } []
  | tells {zkw : Nat} {type : EventType} {state : Int}
      (hzkw : o.pending.zkw = some zkw) :
      Goes o i (.notifying type state) { o with stand := some (.notified type) }
        [.event zkw i type state o.pending.path]
  | watches : Goes o i (.notified .session) { o with stand := none } []
  | spends {type : EventType} {o' : Item} (htype : type ≠ .session)
      (herase : ({ o with
        pending := o.pending.clearWatcher, stand := none } :
          Item).erasePending = some o') : Goes o i (.notified type) o' []

/-- **HOW A GLOBAL FUNCTION GOES ON**. -/
theorem goes_of_goOn {stand : Stand}
    (hgo : o.goOn i stand = some (o', calls)) : Goes o i stand o' calls := by
  cases stand with
  | calling expected rc =>
      rw [Item.goOn] at hgo
      split at hgo
      · cases hgo
      next cb hzkc =>
        split at hgo
        next hop =>
          obtain ⟨rfl, rfl⟩ := Prod.mk.inj (Option.some.inj hgo)
          rw [← hop]
          exact .calls hzkc
        next hop =>
          obtain ⟨rfl, rfl⟩ := Prod.mk.inj (Option.some.inj hgo)
          exact .passes hop
  | called =>
      obtain ⟨o₁, hfinish, ⟨⟩⟩ := Option.map_eq_some_iff.mp hgo
      rw [Item.finish] at hfinish
      split at hfinish
      next hdone =>
        rw [Bool.and_eq_true, Bool.not_eq_true'] at hdone
        exact .finishes hdone.1 hdone.2 hfinish
      next =>
        obtain rfl := Option.some.inj hfinish
        exact .stays
  | resuming expected rc =>
      obtain ⟨hzkw, hgo⟩ := Option.ite_none_left_eq_some.mp hgo
      split at hgo
      · obtain ⟨rfl, rfl⟩ := Prod.mk.inj (Option.some.inj hgo)
        exact .resumes
      · -- It is erased with its watcher, which is what the assertion excludes.
        obtain ⟨o₁, herase, -⟩ := Option.map_eq_some_iff.mp hgo
        have hspent : o.pending.spent = true :=
          (Option.ite_none_right_eq_some.mp herase).1
        rw [Pending.spent, Bool.and_eq_true, Bool.and_eq_true] at hspent
        exact absurd (Or.inl hspent.1.2) hzkw
  | notifying type state =>
      rw [Item.goOn] at hgo
      split at hgo
      · cases hgo
      next zkw hzkw =>
        obtain ⟨rfl, rfl⟩ := Prod.mk.inj (Option.some.inj hgo)
        exact .tells hzkw
  | notified type =>
      rw [Item.goOn] at hgo
      split at hgo
      next htype =>
        obtain ⟨rfl, rfl⟩ := Prod.mk.inj (Option.some.inj hgo)
        rw [htype]
        exact .watches
      next htype =>
        obtain ⟨o₁, herase, ⟨⟩⟩ := Option.map_eq_some_iff.mp hgo
        exact .spends htype herase

/-- A function that is over leaves what is watched to its watcher. -/
theorem Good.over (h : Good o) (hheld : o.held = true)
    (hc : o.completion = none) (p : Pending)
    (hop : p.op = o.pending.op) (hzkc : o.watched = true → p.zkc = none)
    (hseen : o.watched = true → p.seen) :
    Good { o with pending := p, stand := none } := by
  refine ⟨h.counted, fun _ => hheld, ?_, h.invoked, ?_, fun _ => hzkc, hseen⟩
  · intro f hf
    exact (h.matched f hf).trans hop.symm
  · intro hc'
    rw [hc] at hc'
    cases hc'

/-- **A GLOBAL FUNCTION** goes on. -/
theorem Good.goOn (h : Good o) {stand : Stand} (hst : o.stand = some stand)
    (hgo : o.goOn i stand = some (o', calls)) : Good o' := by
  have hheld : o.held = true := h.live (Or.inr (Or.inr (by rw [hst]; rfl)))
  have hfits := h.fits
  rw [Item.Fits, hst] at hfits
  cases goes_of_goOn hgo with
  | calls hzkc =>
      obtain ⟨-, hzero, hc, hseen⟩ := hfits
      refine ⟨h.counted, fun _ => hheld, h.matched, ?_, hc, hseen⟩
      show o.invoked + 1 ≤ 1
      rw [hzero]
  | passes hop => exact absurd hfits.1.symm hop
  | stays =>
      exact h.over hheld hfits.1 _ rfl (fun _ => rfl) hfits.2
  | finishes hzkw hdetached herase =>
      obtain ⟨-, rfl⟩ := erasePending_eq herase hheld
      have hwatched : o.watched = false := Bool.eq_false_iff.mpr fun hw =>
        Pending.not_seen hzkw hdetached (hfits.2 hw)
      exact h.erase hheld hfits.1 hwatched _ rfl
  | resumes =>
      obtain ⟨-, hzkc, hc, hseen⟩ := hfits
      exact h.over hheld hc _ rfl (fun _ => hzkc) hseen
  | tells hzkw =>
      exact ⟨h.counted, fun _ => hheld, h.matched, h.invoked, hfits⟩
  | watches =>
      obtain ⟨hzkc, hc, hseen, -⟩ := hfits
      exact h.over hheld hc _ rfl (fun _ => hzkc) fun _ => hseen rfl
  | spends htype herase =>
      obtain ⟨hzkc, hc, -, hw⟩ := hfits
      obtain ⟨-, rfl⟩ := erasePending_eq herase hheld
      have hwatched : o.watched = false :=
        Bool.eq_false_iff.mpr fun h => htype (hw h)
      exact h.erase hheld hc hwatched _ hzkc

/-- The stand that a function begins with. -/
theorem completes_eq (f : Request) (p : Pending) :
    completes f rc p = globalCompletion f rc p := by
  cases f <;> rfl

/-- **THE CLIENT** does something for a request. -/
theorem Good.move (h : Good o) (hadmits : o.admits m = true)
    (hmove : o.move i m = some (o', calls)) : Good o' := by
  cases m with
  | complete rc =>
      rw [Item.admits, Bool.and_eq_true] at hadmits
      obtain ⟨hst, hc⟩ := hadmits
      have hst := Option.isNone_iff_eq_none.mp hst
      have hheld := h.live (Or.inl hc)
      have hfits := h.fits
      rw [Item.Fits, hst] at hfits
      obtain ⟨hzero, -, hseen⟩ := hfits
      obtain ⟨f, hf⟩ := Option.isSome_iff_exists.mp hc
      obtain rfl := h.matched f hf
      obtain ⟨rfl, rfl⟩ := Prod.mk.inj (Option.some.inj hmove)
      refine ⟨h.counted, fun _ => hheld, nofun, h.invoked, ?_⟩
      show Item.Fits { o with
        completion := none
        stand := o.completion.bind fun f => completes f rc o.pending }
      rw [hf, Option.bind_some, completes_eq, globalCompletion]
      by_cases hzkc : o.pending.zkc.isSome = true
      · rw [if_pos hzkc]
        exact ⟨rfl, hzero hc, rfl, hseen⟩
      · rw [if_neg hzkc]
        have hzkc := Option.not_isSome_iff_eq_none.mp hzkc
        by_cases hd : o.pending.zkwDetached = true
        · rw [if_pos hd]
          exact ⟨nofun, fun _ _ => hzkc, hseen⟩
        · rw [if_neg hd]
          exact ⟨rfl, hzkc, rfl, hseen⟩
  | watch type state =>
      rw [Item.admits, Bool.and_eq_true, Bool.and_eq_true] at hadmits
      obtain ⟨⟨hst, hc⟩, hw⟩ := hadmits
      have hst := Option.isNone_iff_eq_none.mp hst
      have hc := Option.isNone_iff_eq_none.mp hc
      have hheld := h.live (Or.inr (Or.inl hw))
      have hfits := h.fits
      rw [Item.Fits, hst] at hfits
      obtain ⟨-, hzkc, hseen⟩ := hfits
      obtain ⟨rfl, rfl⟩ := Prod.mk.inj (Option.some.inj hmove)
      refine ⟨h.counted, fun _ => hheld, h.matched, h.invoked, ?_⟩
      have hlater : o.pending.zkc = none ∧ o.completion = none ∧
          (type = .session → o.pending.seen) ∧
          ((type == .session) = true → type = .session) :=
        ⟨hzkc hc hw, hc, fun _ => hseen hw, eq_of_beq⟩
      show Item.Fits { o with
        watched := type == .session
        stand := some (globalWatcher type state o.pending) }
      rw [globalWatcher]
      split
      · exact hlater
      · exact hlater
  | goOn =>
      obtain ⟨stand, hst, hgo⟩ := Option.bind_eq_some_iff.mp hmove
      exact h.goOn hst hgo

theorem Good.close (h : Good o) (hst : o.stand = none) :
    Good (o.close rc) := by
  have hover : ∀ held deleted, deleted = (if held = true then 0 else 1) →
      Good { o with
        completion := none, watched := false, held := held
        deleted := deleted } := by
    intro held deleted hcounted
    refine ⟨hcounted, ?_, nofun, h.invoked, ?_⟩
    · rw [hst]
      rintro (hc | hw | hs)
      · cases hc
      · cases hw
      · cases hs
    · rw [Item.Fits, hst]
      exact ⟨nofun, fun _ hw => (by cases hw), fun hw => (by cases hw)⟩
  have hcounted := h.counted
  dsimp only [Item.close]
  split
  next hclosed =>
    rw [if_pos hclosed.2] at hcounted
    exact hover false (o.deleted + 1) (congrArg (· + 1) hcounted)
  next => exact hover o.held o.deleted hcounted

/-- Each pending is in order. -/
def Sane (s : ZooKeeper) : Prop := ∀ o ∈ s.items, Good o

/-- What a request may make: a pending that the client completes with the
    function for it, or never. -/
structure Makes (s s' : ZooKeeper) (p : Pending)
    (completion : Option Request) : Prop where
  connected : s.phase = .connected
  made : s' = s.insert p completion
  matched : ∀ f, completion = some f → f = p.op
  silent : completion = none → p.zkc = none

theorem async_cases {op : Request} {path : Option Text} {watcher : Option Nat}
    {answer : Int} : (async op s path zkc watcher answer).2 = s ∨
      ∃ p c, Makes s (async op s path zkc watcher answer).2 p c := by
  rw [async]
  split
  · exact Or.inl rfl
  split
  · exact Or.inl rfl
  split
  · exact Or.inl rfl
  next hphase =>
    split
    · exact Or.inl rfl
    · exact Or.inr ⟨_, _, not_not.mp hphase, rfl,
        fun f hf => (Option.some.inj hf).symm, nofun⟩

theorem sync_cases {op : Request} {path : Option Text} {watcher : Option Nat}
    {answer : Int} : (sync op s path watcher answer).2 = s ∨
      ∃ p c, Makes s (sync op s path watcher answer).2 p c := by
  rw [sync]
  split
  · exact Or.inl rfl
  split
  · exact Or.inl rfl
  next hphase =>
    split
    · exact Or.inr ⟨_, _, not_not.mp hphase, rfl, nofun, fun _ => rfl⟩
    · exact Or.inl rfl

/-- **WHAT A REQUEST DOES**. -/
theorem ask_cases {path : Option Text} {answer : Int} {q : Ask} :
    (s.ask path answer q).2 = s ∨
      ∃ p c, Makes s (s.ask path answer q).2 p c := by
  cases q with
  | asyncGet zkc watcher => exact async_cases
  | asyncExists zkc watcher => exact async_cases
  | asyncGetChildren zkc watcher => exact async_cases
  | get watcher => exact sync_cases
  | exist watcher => exact sync_cases
  | getChildren watcher => exact sync_cases

/-- A new pending is in order. -/
theorem Makes.good {p : Pending} {completion : Option Request}
    (h : Makes s s' p completion) (hsane : Sane s) : Sane s' := by
  intro o ho
  rw [h.made] at ho
  rcases List.mem_append.mp ho with ho | ho
  · exact hsane o ho
  · obtain rfl := List.mem_singleton.mp ho
    exact ⟨rfl, fun _ => rfl, h.matched, Nat.zero_le 1, fun _ => rfl,
      fun hnone _ => h.silent hnone, fun hw => Or.inl hw⟩

/-- **WHAT A CLIENT'S STEP DOES**: one request moves, or the process aborts. -/
theorem run_cases (hs : next s (.run i m) = some s') :
    ∃ o, s.items[i]? = some o ∧ o.admits m = true ∧
      ((o.move i m = none ∧ s' = { s with aborted := true }) ∨
      ∃ o' calls, o.move i m = some (o', calls) ∧ s' = { s with
        items := s.items.set i o', calls := s.calls ++ calls }) := by
  obtain ⟨-, hs⟩ := Option.ite_none_left_eq_some.mp hs
  dsimp only at hs
  split at hs
  · cases hs
  next o ho =>
    obtain ⟨hadmits, hs⟩ := Option.ite_none_right_eq_some.mp hs
    refine ⟨o, ho, hadmits, ?_⟩
    split at hs
    next hmove => exact Or.inl ⟨hmove, (Option.some.inj hs).symm⟩
    next o' calls hmove =>
      exact Or.inr ⟨o', calls, hmove, (Option.some.inj hs).symm⟩

theorem Sane.kept (h : Sane s) (hs : next s a = some s') : Sane s' := by
  cases a with
  | ask path answer q =>
      obtain ⟨-, ⟨⟩⟩ := Option.ite_none_left_eq_some.mp hs
      rcases ask_cases with heq | ⟨p, c, hmakes⟩
      · rw [heq]
        exact h
      · exact hmakes.good h
  | detach zkw zkc =>
      obtain ⟨-, ⟨⟩⟩ := Option.ite_none_left_eq_some.mp hs
      intro o ho
      obtain ⟨o, hmem, rfl⟩ := List.mem_map.mp ho
      exact (h o hmem).detach
  | run i m =>
      obtain ⟨o, ho, hadmits, hcases⟩ := run_cases hs
      obtain ⟨-, rfl⟩ | ⟨o', calls, hmove, rfl⟩ := hcases
      · exact h
      · intro o₁ ho₁
        rcases List.mem_or_eq_of_mem_set ho₁ with ho₁ | rfl
        · exact h o₁ ho₁
        · exact (h o (List.mem_of_getElem? ho)).move hadmits hmove
  | close =>
      obtain ⟨-, hs⟩ := Option.ite_none_left_eq_some.mp hs
      obtain ⟨-, ⟨⟩⟩ := Option.ite_none_right_eq_some.mp hs
      exact h
  | closed rc =>
      obtain ⟨-, hs⟩ := Option.ite_none_left_eq_some.mp hs
      obtain ⟨⟨-, hstands⟩, ⟨⟩⟩ := Option.ite_none_right_eq_some.mp hs
      intro o ho
      obtain ⟨o, hmem, rfl⟩ := List.mem_map.mp ho
      exact (h o hmem).close (hstands o hmem)

theorem sane_of_reachable (h : Reachable pendings s) : Sane s := by
  refine h.invariant ?_ ?_
  · rintro _ rfl o ho
    cases ho
  · rintro _ _ _ - hsane hs
    exact hsane.kept hs

-- ── What a global function relies on ─────────────────────────────────────────

/-- What it has found is still there; and what it resumes has been resumed. -/
def Item.Ready (o : Item) : Prop :=
  match o.stand with
  | some (.calling _ _) => o.pending.zkc.isSome
  | some (.resuming _ rc) => o.pending.zkw.isSome ∧ rc = ZOK
  | some (.notifying _ _) => o.pending.zkw.isSome
  | _ => True

/-- It is about to use what is detached. -/
def Item.uses (o : Item) (zkw zkc : Option Nat) : Bool :=
  match o.stand with
  | some (.calling _ _) => zkc.isSome && o.pending.zkc == zkc
  | some (.resuming _ _) | some (.notifying _ _) =>
    zkw.isSome && o.pending.zkw == zkw
  | _ => false

/-- A completion finds its callback, or what `Detach` left of the watcher, or a
    watch that it has resumed. -/
def Item.heeds (o : Item) (rc : Int) : Bool :=
  o.pending.zkc.isSome || o.pending.zkwDetached ||
    (o.pending.zkw.isSome && rc == ZOK)

theorem ready_of_stand (h : o.stand = none) : o.Ready := by
  rw [Item.Ready, h]
  trivial

theorem erasePending_stand (h : o.erasePending = some o') :
    o'.stand = o.stand := by
  rw [Item.erasePending] at h
  obtain ⟨-, h⟩ := Option.ite_none_right_eq_some.mp h
  split at h
  · obtain rfl := Option.some.inj h
    rfl
  · obtain rfl := Option.some.inj h
    rfl

/-- Once it has used what it has found, it relies on nothing. -/
theorem ready_goOn {stand : Stand} (hgo : o.goOn i stand = some (o', calls)) :
    o'.Ready := by
  cases goes_of_goOn hgo with
  | calls hzkc => trivial
  | passes hop => trivial
  | stays => exact ready_of_stand rfl
  | finishes hzkw hdetached herase =>
      exact ready_of_stand (erasePending_stand herase)
  | resumes => exact ready_of_stand rfl
  | tells hzkw => trivial
  | watches => exact ready_of_stand rfl
  | spends htype herase => exact ready_of_stand (erasePending_stand herase)

/-- **A COMPLETION THAT IS HEEDED** is ready to go on, and no other is. -/
theorem ready_complete (hadmits : o.admits (.complete rc) = true)
    (hmove : o.move i (.complete rc) = some (o', calls)) :
    o'.Ready ↔ o.heeds rc = true := by
  rw [Item.admits, Bool.and_eq_true] at hadmits
  obtain ⟨f, hf⟩ := Option.isSome_iff_exists.mp hadmits.2
  obtain ⟨rfl, rfl⟩ := Prod.mk.inj (Option.some.inj hmove)
  rw [Item.heeds, hf, Option.bind_some, completes_eq, globalCompletion]
  by_cases hzkc : o.pending.zkc.isSome = true
  · rw [if_pos hzkc, hzkc]
    exact iff_of_true hzkc rfl
  by_cases hd : o.pending.zkwDetached = true
  · rw [if_neg hzkc, if_pos hd, hd, Bool.or_true, Bool.true_or]
    exact iff_of_true trivial rfl
  · rw [if_neg hzkc, if_neg hd, Bool.eq_false_iff.mpr hzkc,
      Bool.eq_false_iff.mpr hd, Bool.false_or, Bool.false_or, Bool.and_eq_true,
      beq_iff_eq]
    exact Iff.rfl

/-- An event finds the watcher that `Detach` has not found. -/
theorem Good.ready_watch (h : Good o) {type : EventType} {state : Int}
    (hadmits : o.admits (.watch type state) = true)
    (hmove : o.move i (.watch type state) = some (o', calls)) : o'.Ready := by
  rw [Item.admits, Bool.and_eq_true, Bool.and_eq_true] at hadmits
  obtain ⟨⟨hst, -⟩, hw⟩ := hadmits
  have hfits := h.fits
  rw [Item.Fits, Option.isNone_iff_eq_none.mp hst] at hfits
  obtain ⟨rfl, rfl⟩ := Prod.mk.inj (Option.some.inj hmove)
  rw [Item.Ready, globalWatcher]
  by_cases hd : o.pending.zkwDetached = true
  · rw [if_pos hd]
    trivial
  · rw [if_neg hd]
    exact (hfits.2.2 hw).resolve_right hd

/-- **WHAT IS DETACHED** is missed by whoever is about to use it, and by nobody
    else. -/
theorem ready_detach (h : o.Ready) (hheld : o.held = true) :
    (o.detach zkw zkc).Ready ↔ o.uses zkw zkc = false := by
  have hstays : ∀ x y : Option Nat, y.isSome = true →
      ((if x.isSome ∧ y = x then none else y).isSome = true ↔
        (x.isSome && y == x) = false) := by
    intro x y hy
    rw [Bool.and_eq_false_iff, ← Bool.not_eq_true, beq_eq_false_iff_ne,
      ← not_and_or]
    split
    next hmatch => exact iff_of_false nofun fun h => h hmatch
    next hother => exact iff_of_true hy hother
  rw [Item.detach, if_pos hheld]
  rw [Item.Ready] at h
  rw [Item.uses]
  cases hst : o.stand with
  | none => exact iff_of_true (ready_of_stand rfl) rfl
  | some stand =>
      rw [hst] at h
      rw [Item.Ready]
      dsimp only [hst]
      cases stand with
      | calling expected rc =>
          rw [Pending.zkc_detach_eq]
          exact hstays zkc o.pending.zkc h
      | called => exact iff_of_true trivial rfl
      | resuming expected rc =>
          rw [Pending.zkw_detach_eq]
          exact (and_iff_left h.2).trans (hstays zkw o.pending.zkw h.1)
      | notifying type state =>
          rw [Pending.zkw_detach_eq]
          exact hstays zkw o.pending.zkw h
      | notified type => exact iff_of_true trivial rfl

theorem erasePending_isSome :
    o.erasePending.isSome = o.pending.spent := by
  rw [Item.erasePending]
  cases o.pending.spent with
  | false => rfl
  | true =>
      rw [if_pos rfl]
      split
      · rfl
      · rfl

/-- **WHAT IS READY GOES ON**, and nothing else does. -/
theorem Good.goes_on (h : Good o) {stand : Stand} (hst : o.stand = some stand) :
    (o.goOn i stand).isSome = true ↔ o.Ready := by
  have hfits := h.fits
  rw [Item.Fits, hst] at hfits
  rw [Item.Ready, hst]
  cases stand with
  | calling expected rc =>
      rw [Item.goOn]
      cases o.pending.zkc with
      | none => exact Iff.rfl
      | some cb =>
          dsimp only
          split
          · exact iff_of_true rfl rfl
          · exact iff_of_true rfl rfl
  | called =>
      refine iff_of_true ?_ trivial
      rw [Item.goOn, Option.isSome_map, Item.finish]
      split
      next hdone =>
        rw [erasePending_isSome]
        exact hdone
      next => rfl
  | resuming expected rc =>
      obtain ⟨rfl, hzkc, -⟩ := hfits
      rw [Item.goOn]
      by_cases hzkw : o.pending.zkw.isNone = true
      · rw [if_pos (Or.inl hzkw)]
        refine iff_of_false nofun fun hready => ?_
        rw [Option.isNone_iff_eq_none.mp hzkw] at hready
        cases hready.1
      · have hstill : ¬(o.pending.zkw.isNone = true ∨
            o.pending.op ≠ o.pending.op) := fun h => h.elim hzkw fun h => h rfl
        have hsome : o.pending.zkw.isSome = true := by
          rw [← Option.not_isNone, Bool.eq_false_iff.mpr hzkw]
          rfl
        rw [if_neg hstill]
        split
        next hrc => exact iff_of_true rfl ⟨hsome, hrc⟩
        next hrc =>
          -- What cannot be resumed is not spent.
          rw [Option.isSome_map, erasePending_isSome]
          refine iff_of_false ?_ fun hready => hrc hready.2
          rw [Pending.spent, Bool.eq_false_iff.mpr hzkw, Bool.and_false]
          exact Bool.false_ne_true
  | notifying type state =>
      rw [Item.goOn]
      cases o.pending.zkw with
      | none => exact Iff.rfl
      | some cb => exact iff_of_true rfl rfl
  | notified type =>
      refine iff_of_true ?_ trivial
      rw [Item.goOn]
      split
      · rfl
      · rw [Option.isSome_map, erasePending_isSome]
        show (o.pending.zkc.isNone && true && true) = true
        rw [hfits.1]
        rfl

-- ── The life cycle ───────────────────────────────────────────────────────────

/-- **WHEN A PENDING LIVES WELL**: a completion is heeded; nothing is detached
    that a global function is about to use; and the handle closes cleanly if
    anything is pending. -/
def Sound (s : ZooKeeper) (a : Action) : Prop :=
  match a with
  | .run i (.complete rc) => ∀ o ∈ s.items[i]?, o.heeds rc = true
  | .detach zkw zkc =>
    ∀ o ∈ s.items, o.held = true → o.uses zkw zkc = false
  | .closed rc => rc = ZOK ∨ ∀ o ∈ s.items, o.held = false
  | _ => True

/-- Nobody is called twice, nothing is deleted twice, and nothing is left behind
    a `Shutdown`. -/
def Lived (s : ZooKeeper) : Prop :=
  ∀ o ∈ s.items, o.invoked ≤ 1 ∧ o.deleted ≤ 1 ∧
    (s.phase = .closed → o.deleted = 1)

/-- A global function aborts as soon as it goes on. -/
def Doomed (s : ZooKeeper) : Prop :=
  ∃ i s', next s (.run i .goOn) = some s' ∧ s'.aborted = true

/-- What holds of a run whose steps are sound. -/
structure Orderly (s : ZooKeeper) : Prop where
  sane : Sane s
  ready : ∀ o ∈ s.items, o.Ready
  runs : s.aborted = false
  closed : s.phase = .closed → ∀ o ∈ s.items, o.held = false

/-- Whoever is served by the client is still there. -/
theorem Good.held_of_admits (h : Good o) (hadmits : o.admits m = true) :
    o.held = true := by
  refine h.live ?_
  cases m with
  | complete rc =>
      rw [Item.admits, Bool.and_eq_true] at hadmits
      exact Or.inl hadmits.2
  | watch type state =>
      rw [Item.admits, Bool.and_eq_true] at hadmits
      exact Or.inr (Or.inl hadmits.2)
  | goOn => exact Or.inr (Or.inr hadmits)

/-- A move that is heeded is made, and leaves the pending ready. -/
theorem Good.ready_move (h : Good o) (hready : o.Ready)
    (hadmits : o.admits m = true)
    (hheeds : ∀ rc, m = .complete rc → o.heeds rc = true) :
    ∃ o' calls, o.move i m = some (o', calls) ∧ o'.Ready := by
  cases m with
  | complete rc =>
      exact ⟨_, _, rfl,
        (ready_complete (i := i) hadmits rfl).mpr (hheeds rc rfl)⟩
  | watch type state => exact ⟨_, _, rfl, h.ready_watch (i := i) hadmits rfl⟩
  | goOn =>
      obtain ⟨stand, hst⟩ := Option.isSome_iff_exists.mp hadmits
      obtain ⟨⟨o', calls⟩, hgo⟩ :=
        Option.isSome_iff_exists.mp ((h.goes_on (i := i) hst).mpr hready)
      refine ⟨o', calls, ?_, ready_goOn hgo⟩
      rw [Item.move, hst]
      exact hgo

theorem close_held (h : rc = ZOK ∨ o.held = false) :
    (o.close rc).held = false := by
  dsimp only [Item.close]
  split
  next => rfl
  next hkept =>
    exact h.elim (fun hrc => Bool.eq_false_iff.mpr fun hheld =>
      hkept ⟨hrc, hheld⟩) id

theorem close_stand : (o.close rc).stand = o.stand := by
  dsimp only [Item.close]
  split
  · rfl
  · rfl

/-- **A SOUND STEP** keeps a run orderly. -/
theorem Orderly.kept (h : Orderly s) (hs : next s a = some s')
    (hsound : Sound s a) : Orderly s' := by
  have hsane := h.sane.kept hs
  cases a with
  | ask path answer q =>
      obtain ⟨-, ⟨⟩⟩ := Option.ite_none_left_eq_some.mp hs
      rcases ask_cases with heq | ⟨p, c, hmakes⟩
      · rw [heq]
        exact h
      · rw [hmakes.made] at hsane ⊢
        refine ⟨hsane, fun o ho => ?_, h.runs, fun hclosed => ?_⟩
        · rcases List.mem_append.mp ho with ho | ho
          · exact h.ready o ho
          · obtain rfl := List.mem_singleton.mp ho
            trivial
        · exact absurd (hmakes.connected.symm.trans hclosed) nofun
  | detach zkw zkc =>
      obtain ⟨-, ⟨⟩⟩ := Option.ite_none_left_eq_some.mp hs
      refine ⟨hsane, fun o ho => ?_, h.runs, fun hclosed o ho => ?_⟩
      · obtain ⟨o, hmem, rfl⟩ := List.mem_map.mp ho
        by_cases hheld : o.held = true
        · exact (ready_detach (h.ready o hmem) hheld).mpr (hsound o hmem hheld)
        · rw [Item.detach, if_neg hheld]
          exact h.ready o hmem
      · obtain ⟨o, hmem, rfl⟩ := List.mem_map.mp ho
        have hheld := h.closed hclosed o hmem
        rw [Item.detach, if_neg (Bool.eq_false_iff.mp hheld)]
        exact hheld
  | run i m =>
      obtain ⟨o, ho, hadmits, hcases⟩ := run_cases hs
      have hgood := h.sane o (List.mem_of_getElem? ho)
      have hheeds : ∀ rc, m = .complete rc → o.heeds rc = true := by
        rintro rc rfl
        exact hsound o ho
      obtain ⟨o', calls, hmove, hready⟩ := hgood.ready_move (i := i)
        (h.ready o (List.mem_of_getElem? ho)) hadmits hheeds
      rw [hmove] at hcases
      obtain ⟨⟨⟩, -⟩ | ⟨_, _, ⟨⟩, rfl⟩ := hcases
      refine ⟨hsane, fun o₁ ho₁ => ?_, h.runs, fun hclosed => ?_⟩
      · rcases List.mem_or_eq_of_mem_set ho₁ with ho₁ | rfl
        · exact h.ready o₁ ho₁
        · exact hready
      · have hheld := h.closed hclosed o (List.mem_of_getElem? ho)
        rw [hgood.held_of_admits hadmits] at hheld
        cases hheld
  | close =>
      obtain ⟨-, hs⟩ := Option.ite_none_left_eq_some.mp hs
      obtain ⟨-, ⟨⟩⟩ := Option.ite_none_right_eq_some.mp hs
      exact ⟨h.sane, h.ready, h.runs, nofun⟩
  | closed rc =>
      obtain ⟨-, hs⟩ := Option.ite_none_left_eq_some.mp hs
      obtain ⟨⟨-, hstands⟩, ⟨⟩⟩ := Option.ite_none_right_eq_some.mp hs
      refine ⟨hsane, fun o ho => ?_, h.runs, fun _ o ho => ?_⟩
      · obtain ⟨o, hmem, rfl⟩ := List.mem_map.mp ho
        exact ready_of_stand (close_stand.trans (hstands o hmem))
      · obtain ⟨o, hmem, rfl⟩ := List.mem_map.mp ho
        exact close_held (hsound.imp_right fun hnone => hnone o hmem)

theorem orderly_of_reachable (h : Reachable (pendings.restrict Sound) s) :
    Orderly s := by
  refine h.invariant ?_ ?_
  · rintro _ rfl
    exact ⟨fun o ho => (by cases ho), fun o ho => (by cases ho), rfl,
      fun hclosed => (by cases hclosed)⟩
  · rintro _ _ _ - ih ⟨hsound, hs⟩
    exact ih.kept hs hsound

theorem Orderly.lived (h : Orderly s) : Lived s := by
  intro o ho
  have hgood := h.sane o ho
  refine ⟨hgood.invoked, ?_, fun hclosed => ?_⟩
  · rw [hgood.counted]
    split
    · exact Nat.zero_le 1
    · exact Nat.le_refl 1
  · rw [hgood.counted, h.closed hclosed o ho]
    rfl

/-- Where a pending is not ready, its function aborts. -/
theorem doomed_of_not_ready (hsane : Sane s) (hruns : s.aborted = false)
    (ho : s.items[i]? = some o) (hready : ¬o.Ready) : Doomed s := by
  cases hst : o.stand with
  | none => exact absurd (ready_of_stand hst) hready
  | some stand =>
      have hgood := hsane o (List.mem_of_getElem? ho)
      have hgo : o.move i .goOn = none := by
        rw [Item.move, hst, Option.bind_some, ← Option.not_isSome_iff_eq_none]
        exact fun hgo => hready ((hgood.goes_on hst).mp hgo)
      have hadmits : o.admits .goOn = true := by
        rw [Item.admits, hst]
        rfl
      refine ⟨i, { s with aborted := true }, ?_, rfl⟩
      rw [next, hruns, if_neg Bool.false_ne_true, ho]
      dsimp only
      rw [if_pos hadmits, hgo]

/-- **WHAT IS NOT SOUND** aborts, or leaves a pending behind. -/
theorem Orderly.lost (h : Orderly s) (hs : next s a = some s')
    (hsound : ¬Sound s a) : Doomed s' ∨ ¬Lived s' := by
  have hsane := h.sane.kept hs
  cases a with
  | ask path answer q => exact absurd trivial hsound
  | detach zkw zkc =>
      left
      obtain ⟨-, ⟨⟩⟩ := Option.ite_none_left_eq_some.mp hs
      rw [Sound] at hsound
      push Not at hsound
      obtain ⟨o, ho, hheld, huses⟩ := hsound
      obtain ⟨i, hi⟩ := List.getElem?_of_mem ho
      refine doomed_of_not_ready (i := i) (o := o.detach zkw zkc) hsane h.runs
        ?_ ?_
      · rw [ZooKeeper.detach, List.getElem?_map, hi]
        rfl
      · intro hready
        exact huses ((ready_detach (h.ready o ho) hheld).mp hready)
  | run i m =>
      left
      obtain ⟨o, ho, hadmits, hcases⟩ := run_cases hs
      cases m with
      | complete rc =>
          rw [Sound] at hsound
          obtain ⟨⟨⟩, -⟩ | ⟨o', calls, hmove, rfl⟩ := hcases
          refine doomed_of_not_ready (i := i) (o := o') hsane h.runs ?_ ?_
          · obtain ⟨hlt, -⟩ := List.getElem?_eq_some_iff.mp ho
            exact List.getElem?_set_self hlt
          · intro hready
            refine hsound fun o₁ ho₁ => ?_
            obtain rfl := Option.some.inj (ho₁.symm.trans ho)
            exact (ready_complete hadmits hmove).mp hready
      | watch type state => exact absurd trivial hsound
      | goOn => exact absurd trivial hsound
  | close => exact absurd trivial hsound
  | closed rc =>
      right
      obtain ⟨-, hs⟩ := Option.ite_none_left_eq_some.mp hs
      obtain ⟨⟨-, hstands⟩, ⟨⟩⟩ := Option.ite_none_right_eq_some.mp hs
      rw [Sound] at hsound
      push Not at hsound
      obtain ⟨hrc, o, ho, hheld⟩ := hsound
      intro hlived
      have hkept : (o.close rc).deleted = o.deleted := by
        dsimp only [Item.close]
        rw [if_neg fun h => hrc h.1]
      have hcounted := (h.sane o ho).counted
      rw [if_pos (Bool.not_eq_false _ ▸ hheld)] at hcounted
      have hone := (hlived _ (List.mem_map.mpr ⟨o, ho, rfl⟩)).2.2 rfl
      rw [hkept, hcounted] at hone
      cases hone

/-- **THE LIFE OF A PENDING**: in a run of sound steps no assertion fails, no
    callback is called twice, and each pending is deleted once, before
    `Shutdown` returns; any other step is the end of this. -/
theorem pending_lives (h : Reachable (pendings.restrict Sound) s) :
    (s.aborted = false ∧ Lived s) ∧
    ∀ a s', pendings.step s a s' → ¬Sound s a → Doomed s' ∨ ¬Lived s' := by
  have horderly := orderly_of_reachable h
  constructor
  · exact ⟨horderly.runs, horderly.lived⟩
  · intro a s' hs hsound
    exact horderly.lost hs hsound

instance (s : ZooKeeper) (a : Action) : Decidable (Sound s a) := by
  cases a with
  | run i m =>
      cases m with
      | complete rc =>
          exact inferInstanceAs (Decidable (∀ o ∈ s.items[i]?, _ = true))
      | watch type state => exact isTrue trivial
      | goOn => exact isTrue trivial
  | detach zkw zkc =>
      exact inferInstanceAs (Decidable (∀ o ∈ s.items, _ → _ = false))
  | closed rc =>
      exact inferInstanceAs (Decidable (_ ∨ ∀ o ∈ s.items, _ = false))
  | ask path answer q => exact isTrue trivial
  | close => exact isTrue trivial

/-- A step that is sound. -/
def soundly (s : ZooKeeper) (a : Action) : Option ZooKeeper :=
  if Sound s a then next s a else none

/-- A node is asked for with a callback and a watcher, answers, and changes;
    then the ZooKeeper is shut down. -/
def changedOnce : List Action :=
  [.ask (some ['/', 'a']) ZOK (.asyncGet (some 1) (some 2)),
    .run 0 (.complete ZOK), .run 0 .goOn, .run 0 .goOn,
    .run 0 (.watch .changed 3), .run 0 .goOn, .run 0 .goOn,
    .close, .closed ZOK]

def ZooKeeper.changedOnce : ZooKeeper :=
  (FlinterPending.changedOnce.foldlM soundly .fresh).get (by decide)

theorem pending_lives_changed :
    ZooKeeper.changedOnce.calls.length = 2 ∧
      ZooKeeper.changedOnce.phase = .closed ∧
      ZooKeeper.changedOnce.aborted = false ∧ Lived .changedOnce := by
  have hfollows : ∀ a ∈ changedOnce, ∀ s s', soundly s a = some s' →
      (pendings.restrict Sound).step s a s' := fun _ _ _ _ hs =>
    Option.ite_none_right_eq_some.mp hs
  have h : Reachable (pendings.restrict Sound) ZooKeeper.changedOnce :=
    Reachable.follow hfollows (.start rfl) (Option.some_get _).symm
  exact ⟨by decide, by decide, (pending_lives h).1⟩

/-- A node is watched without a callback, and is missing. -/
def missingWatched : List Action :=
  [.ask (some ['/', 'a']) ZOK (.asyncGet none (some 2)),
    .run 0 (.complete ZNONODE), .run 0 .goOn]

def ZooKeeper.missingWatched : ZooKeeper :=
  (FlinterPending.missingWatched.foldlM next .fresh).get (by decide)

/-- **A WATCH THAT CANNOT BE SET**: its pending is to be erased, and that fails
    since the watcher is in it. -/
theorem missing_aborts :
    ¬∀ s, Reachable pendings s → s.aborted = false ∧ Lived s := by
  intro hclaim
  have hfollows : ∀ a ∈ missingWatched, ∀ s s', next s a = some s' →
      pendings.step s a s' := fun _ _ _ _ hs => hs
  have h : Reachable pendings ZooKeeper.missingWatched :=
    Reachable.follow hfollows (.start rfl) (Option.some_get _).symm
  exact absurd (hclaim _ h).1 (by decide)

end FlinterPending
