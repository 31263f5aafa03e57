import Flinter.LinkageLifeProofs
import Mathlib.Logic.Function.Basic

/-! # LinkageWorker: attached linkages and their release

    A worker keeps a `client_t` with two watchers for each linkage it has.  A
    linkage is released from one of its callbacks, from the sweep of
    `OnHealthCheck` or from the one at the end of `Run`; the user's code runs in
    between, wherever the worker calls a linkage, a command or a timer.

    Linkages are numbered as objects.  A `client_t` is where `new` puts it, which
    may be where a deleted one was.

    What carries the argument is `Core`: the clients that are still to be released
    are in the map, not deleted and of different linkages, and the log tells a
    life for each linkage that ends where the worker's state says it is.  Outside
    of the sweep at the end every client in the map is still to be released, and
    only their watchers are started. -/

namespace FlinterWorkerRelease

open Runs FlinterLinkageLife

/-- Reading or writing. -/
inductive Direction where
  | read
  | write
deriving DecidableEq, Repr

/-- `LinkageWorker::client_t`. -/
structure Client where
  linkage : Nat
  autoRelease : Bool
  runningR : Bool
  runningW : Bool
deriving DecidableEq, Repr

def Client.running (client : Client) : Direction → Bool
  | .read => client.runningR
  | .write => client.runningW

def Client.setRunning (client : Client) (d : Direction) (wanna : Bool) : Client :=
  match d with
  | .read => { client with runningR := wanna }
  | .write => { client with runningW := wanna }

/-- What `DoRelease` returns to: an event, the drops of a health check that are
    left, or what is left of the sweep at the end of `Run`. -/
inductive After where
  | loop
  | drops (rest : List Nat)
  | sweep (rest : List Nat)
deriving DecidableEq, Repr

/-- What `Run` does: wait in `ev_run`, call `OnInitialize`, a command or a timer,
    call a linkage, or call `OnShutdown`. -/
inductive Doing where
  | idle
  | calling
  | event (client : Nat) (d : Direction)
  | error (client : Nat)
  | releasing (client : Nat) (after : After)
  | cleaning (client : Nat) (todo drops : List Nat)
  | leaving
  | done
deriving DecidableEq, Repr

/-- The user's code runs. -/
def Doing.user : Doing → Bool
  | .idle => false
  | .done => false
  | _ => true

/-- The user's code runs, and not from a sweep. -/
def Doing.mayAttach : Doing → Bool
  | .idle => false
  | .done => false
  | .cleaning _ _ _ => false
  | .releasing _ (.drops _) => false
  | .releasing _ (.sweep _) => false
  | _ => true

/-- `LinkageWorker`, with the `client_t` objects, the watchers that are started,
    the `_worker` of each linkage, the calls of `Attach` in progress, the last
    one first, and what happened.  `violated` says that an assertion failed or
    that a deleted `client_t` was used. -/
structure LinkageWorker where
  events : Nat → Option Nat
  clients : Nat → Client
  alive : Nat → Bool
  started : Nat → Direction → Bool
  worker : Nat → Bool
  attaching : List Nat
  doing : Doing
  violated : Bool
  log : List (Nat × Event)

/-- `Run` begins, and calls `OnInitialize`. -/
def LinkageWorker.new : LinkageWorker where
  events := fun _ => none
  clients := fun _ => ⟨0, false, false, false⟩
  alive := fun _ => false
  started := fun _ _ => false
  worker := fun _ => false
  attaching := []
  doing := .calling
  violated := false
  log := []

-- ── The operations ───────────────────────────────────────────────────────────

def note (l : Nat) (e : Event) (s : LinkageWorker) : LinkageWorker :=
  { s with log := s.log ++ [(l, e)] }

/-- `client->...`. -/
def touch (c : Nat) (s : LinkageWorker) : LinkageWorker :=
  { s with violated := s.violated || !s.alive c }

/-- `ev_io_start` and `ev_io_stop`. -/
def evIo (c : Nat) (d : Direction) (on : Bool) (s : LinkageWorker) :
    LinkageWorker :=
  { s with
    started := Function.update s.started c (Function.update (s.started c) d on) }

/-- The watchers that are running are stopped. -/
def stop (c : Nat) (s : LinkageWorker) : LinkageWorker :=
  { s with
    started := Function.update s.started c fun d =>
      if (s.clients c).running d then false else s.started c d }

/-- `LinkageWorker::Attach`; `c` is the new `client_t`. -/
def doAttach (l c : Nat) (readNow writeNow autoRelease : Bool)
    (s : LinkageWorker) : LinkageWorker :=
  match s.events l with
  | some _ => s
  | none =>
      { s with
        clients := Function.update s.clients c ⟨l, autoRelease, readNow, writeNow⟩
        alive := Function.update s.alive c true
        events := Function.update s.events l (some c)
        started := Function.update s.started c fun
          | .read => readNow
          | .write => writeNow }

/-- `LinkageWorker::Detach`. -/
def doDetach (l : Nat) (s : LinkageWorker) : LinkageWorker :=
  match s.events l with
  | none => s
  | some c =>
      let s := stop c s
      { s with
        events := Function.update s.events l none
        alive := Function.update s.alive c false }

/-- `Attach` of a linkage that has no worker yet, as far as `DoAttach`. -/
def attach (l c : Nat) (readNow writeNow autoRelease : Bool)
    (s : LinkageWorker) : LinkageWorker :=
  let s := doAttach l c readNow writeNow autoRelease s
  note l (.attach autoRelease)
    { s with worker := Function.update s.worker l true, attaching := l :: s.attaching }

/-- The rest of `Attach`, which detaches the linkage if it fails. -/
def attachDone (l : Nat) (rest : List Nat) (ok : Bool) (s : LinkageWorker) :
    LinkageWorker :=
  if ok then
    match s.events l with
    | some c =>
        note l (.attached (s.clients c).autoRelease) { s with attaching := rest }
    | none => { s with attaching := rest }
  else
    let s := doDetach l s
    note l .detach
      { s with worker := Function.update s.worker l false, attaching := rest }

/-- A watcher is started or stopped unless it is already. -/
def wanna (c : Nat) (d : Direction) (on : Bool) (s : LinkageWorker) :
    LinkageWorker :=
  if (s.clients c).running d = on then s
  else
    evIo c d on
      { s with
        clients := Function.update s.clients c ((s.clients c).setRunning d on) }

def setWanna (l : Nat) (wannaRead wannaWrite : Bool) (s : LinkageWorker) :
    LinkageWorker :=
  match s.events l with
  | none => s
  | some c => wanna c .write wannaWrite (wanna c .read wannaRead s)

/-- `SetWannaRead` and `SetWannaWrite`. -/
def setWannaOne (l : Nat) (d : Direction) (on : Bool) (s : LinkageWorker) :
    LinkageWorker :=
  match s.events l with
  | none => s
  | some c => wanna c d on s

/-- `DoRelease` until it calls `OnDisconnected`. -/
def doRelease (c : Nat) (eraseContainer : Bool) (after : After)
    (s : LinkageWorker) : LinkageWorker :=
  let s := stop c (touch c s)
  let l := (s.clients c).linkage
  let s :=
    if eraseContainer then
      { s with
        violated := s.violated || s.events l != some c
        events := Function.update s.events l none }
    else s
  note l .onDisconnected { s with doing := .releasing c after }

/-- The rest of `DoRelease`. -/
def released (c : Nat) (s : LinkageWorker) : LinkageWorker :=
  let s := touch c s
  let s :=
    if (s.clients c).autoRelease then note (s.clients c).linkage .deleted s else s
  { s with alive := Function.update s.alive c false }

/-- What comes after a `DoRelease`. -/
def proceed (after : After) (s : LinkageWorker) : LinkageWorker :=
  match after with
  | .loop => { s with doing := .idle }
  | .drops [] => { s with doing := .idle }
  | .drops (c :: rest) => doRelease c true (.drops rest) s
  | .sweep [] => { s with events := fun _ => none, doing := .done }
  | .sweep (c :: rest) => doRelease c false (.sweep rest) s

/-- `OnReadable` and `OnWritable` call the linkage. -/
def onEvent (c : Nat) (d : Direction) (s : LinkageWorker) : LinkageWorker :=
  note (s.clients c).linkage
    (.call (match d with | .read => .onReadable | .write => .onWritable))
    { touch c s with doing := .event c d }

/-- `OnError` calls the linkage. -/
def onError (c : Nat) (s : LinkageWorker) : LinkageWorker :=
  note (s.clients c).linkage (.call .onError) { touch c s with doing := .error c }

/-- The first loop of `OnHealthCheck` calls the next linkage, or is through. -/
def clean (todo drops : List Nat) (s : LinkageWorker) : LinkageWorker :=
  match todo with
  | [] => proceed (.drops drops) s
  | c :: todo =>
      note (s.clients c).linkage (.call .cleanup)
        { touch c s with doing := .cleaning c todo drops }

/-- The user's code returns `ret` to the worker. -/
def onReturn (ret : Int) (s : LinkageWorker) : LinkageWorker :=
  match s.doing with
  | .calling => { s with doing := .idle }
  | .event c _ =>
      if ret < 0 then onError c s
      else if ret = 0 then doRelease c true .loop s
      else { s with doing := .idle }
  | .error c => doRelease c true .loop s
  | .releasing c after => proceed after (released c s)
  | .cleaning c todo drops =>
      clean todo (if ret = 0 then drops ++ [c] else drops) s
  | _ => s

-- ── The runs ─────────────────────────────────────────────────────────────────

/-- A client in the map. -/
def LinkageWorker.Listed (s : LinkageWorker) (c : Nat) : Prop :=
  ∃ l, s.events l = some c

/-- The clients in the map in the order in which a loop finds them. -/
def LinkageWorker.Order (s : LinkageWorker) (order : List Nat) : Prop :=
  order.Nodup ∧ ∀ c, c ∈ order ↔ s.Listed c

/-- What happens next. -/
inductive Act where
  | event (c : Nat) (d : Direction)
  | call
  | health (order : List Nat)
  | quit
  | sweep (order : List Nat)
  | attach (l c : Nat) (readNow writeNow autoRelease : Bool)
  | attachDone (ok : Bool)
  | setWanna (l : Nat) (wannaRead wannaWrite : Bool)
  | setWannaOne (l : Nat) (d : Direction) (on : Bool)
  | onReturn (ret : Int)

/-- The steps of a worker.  libev calls for started watchers only; nothing is
    attached from a sweep; a linkage that has a worker is not attached again, and
    none is used after its `OnDisconnected` has returned. -/
inductive Step : LinkageWorker → Act → LinkageWorker → Prop where
  | event {s : LinkageWorker} (c : Nat) (d : Direction) (h : s.doing = .idle)
      (hs : s.started c d = true) : Step s (.event c d) (onEvent c d s)
  | call {s : LinkageWorker} (h : s.doing = .idle) :
      Step s .call { s with doing := .calling }
  | health {s : LinkageWorker} (order : List Nat) (h : s.doing = .idle)
      (ho : s.Order order) : Step s (.health order) (clean order [] s)
  | quit {s : LinkageWorker} (h : s.doing = .idle) :
      Step s .quit { s with doing := .leaving }
  | sweep {s : LinkageWorker} (order : List Nat) (h : s.doing = .leaving)
      (ha : s.attaching = []) (ho : s.Order order) :
      Step s (.sweep order) (proceed (.sweep order) s)
  | attach {s : LinkageWorker} (l c : Nat) (readNow writeNow autoRelease : Bool)
      (h : s.doing.mayAttach = true) (hw : s.worker l = false)
      (hc : s.alive c = false) :
      Step s (.attach l c readNow writeNow autoRelease)
        (attach l c readNow writeNow autoRelease s)
  | attachDone {s : LinkageWorker} (l : Nat) (rest : List Nat) (ok : Bool)
      (h : s.attaching = l :: rest) :
      Step s (.attachDone ok) (attachDone l rest ok s)
  | setWanna {s : LinkageWorker} (l : Nat) (wannaRead wannaWrite : Bool)
      (h : s.doing.user = true) (hu : ∀ c, s.events l = some c → s.alive c = true) :
      Step s (.setWanna l wannaRead wannaWrite) (setWanna l wannaRead wannaWrite s)
  | setWannaOne {s : LinkageWorker} (l : Nat) (d : Direction) (on : Bool)
      (h : s.doing.user = true) (hu : ∀ c, s.events l = some c → s.alive c = true) :
      Step s (.setWannaOne l d on) (setWannaOne l d on s)
  | onReturn {s : LinkageWorker} (ret : Int) (h : s.doing.user = true)
      (hl : s.doing ≠ .leaving) (ha : s.attaching = []) :
      Step s (.onReturn ret) (onReturn ret s)

/-- A worker that runs. -/
def worker : System LinkageWorker Act where
  init := fun s => s = .new
  step := Step

-- ── The invariant ────────────────────────────────────────────────────────────

section Core

variable (s : LinkageWorker) (opens : Nat → Prop) (l : Nat)

/-- No client that is still to be released is of linkage `l`. -/
def Closed : Prop := ∀ c, opens c → (s.clients c).linkage ≠ l

/-- A client that is still to be released is of linkage `l`. -/
def Opened (a : Bool) : Prop :=
  ∃ c, opens c ∧ (s.clients c).linkage = l ∧ (s.clients c).autoRelease = a

/-- The worker's state says how far a linkage is. -/
structure Agrees (current : Option Nat) (life : Life) : Prop where
  worker : s.worker l = life.hasWorker
  attaching : l ∈ s.attaching ↔ life.isAttaching = true
  opened : ∀ a, life.onWorker = some a → Opened s opens l a
  closed : life.onWorker = none → Closed s opens l
  current : life = .released true →
    ∃ c, current = some c ∧ (s.clients c).linkage = l

/-- What holds all the time, with the clients that are still to be released, the
    one that is being released, and how far each linkage is. -/
structure Core (current : Option Nat) (life : Nat → Life) : Prop where
  linked : ∀ l c, s.events l = some c → (s.clients c).linkage = l
  opened : ∀ c, opens c → s.events (s.clients c).linkage = some c ∧ s.alive c = true
  releasing : ∀ c, current = some c → s.alive c = true ∧ ¬opens c ∧
    life (s.clients c).linkage = .released (s.clients c).autoRelease
  attaching : s.attaching.Nodup
  sound : s.violated = false
  lived : ∀ l, Lived (seen l s.log) (life l)
  agrees : ∀ l, Agrees s opens l current (life l)

end Core

/-- Only watchers of clients in the map are started, and these are running. -/
def Watched (s : LinkageWorker) : Prop :=
  ∀ c d, s.started c d = true → s.Listed c ∧ (s.clients c).running d = true

variable {s s' : LinkageWorker} {opens : Nat → Prop} {current : Option Nat}
variable {life : Nat → Life} {c l : Nat} {a : Bool}

/-- A linkage whose client is still to be released, between two `Attach`. -/
theorem Core.life_of_open (h : Core s opens current life)
    (ha : s.attaching = []) (hc : opens c) :
    life (s.clients c).linkage = .attached (s.clients c).autoRelease := by
  have hagrees := h.agrees (s.clients c).linkage
  have hevents := (h.opened c hc).1
  cases hlife : life (s.clients c).linkage with
  | attaching a =>
      rw [hlife] at hagrees
      have hmem := hagrees.attaching.mpr rfl
      rw [ha] at hmem
      exact absurd hmem List.not_mem_nil
  | attached a =>
      rw [hlife] at hagrees
      obtain ⟨c', hc', hlinkage, rfl⟩ := hagrees.opened a rfl
      have hevents' := (h.opened c' hc').1
      rw [hlinkage, hevents] at hevents'
      obtain rfl := Option.some.inj hevents'
      rfl
  | _ =>
      rw [hlife] at hagrees
      exact absurd rfl (hagrees.closed rfl c hc)

/-- The log goes on for one linkage. -/
theorem lived_note {log : List (Nat × Event)} {e : Event} {life' : Life}
    (h : ∀ l, Lived (seen l log) (life l)) (hs : (life l).Step e life') (l' : Nat) :
    Lived (seen l' (log ++ [(l, e)])) (Function.update life l life' l') := by
  by_cases heq : l' = l
  · subst heq
    rw [seen_snoc_self, Function.update_self]
    exact (h l').snoc hs
  · rw [seen_snoc_other (Ne.symm heq), Function.update_of_ne heq]
    exact h l'

/-- What `Core` does not look at may change. -/
theorem Core.frame (h : Core s opens current life)
    (hevents : s'.events = s.events) (halive : s'.alive = s.alive)
    (hworker : s'.worker = s.worker) (hattaching : s'.attaching = s.attaching)
    (hviolated : s'.violated = s.violated) (hlog : s'.log = s.log)
    (hclients : ∀ c, (s'.clients c).linkage = (s.clients c).linkage ∧
      (s'.clients c).autoRelease = (s.clients c).autoRelease) :
    Core s' opens current life := by
  constructor
  case linked =>
    intro l c hc
    rw [hevents] at hc
    rw [(hclients c).1]
    exact h.linked l c hc
  case opened =>
    intro c hc
    rw [hevents, halive, (hclients c).1]
    exact h.opened c hc
  case releasing =>
    intro c hc
    rw [halive, (hclients c).1, (hclients c).2]
    exact h.releasing c hc
  case attaching =>
    rw [hattaching]
    exact h.attaching
  case sound =>
    rw [hviolated]
    exact h.sound
  case lived =>
    rw [hlog]
    exact h.lived
  case agrees =>
    intro l
    obtain ⟨hw, ha, ho, hc, hcur⟩ := h.agrees l
    refine ⟨by rw [hworker]; exact hw, by rw [hattaching]; exact ha, ?_, ?_, ?_⟩
    · intro a hlife
      obtain ⟨c, hopen, hlinkage, hauto⟩ := ho a hlife
      exact ⟨c, hopen, (hclients c).1.trans hlinkage, (hclients c).2.trans hauto⟩
    · intro hlife c hopen
      rw [(hclients c).1]
      exact hc hlife c hopen
    · intro hlife
      obtain ⟨c, hc, hlinkage⟩ := hcur hlife
      exact ⟨c, hc, (hclients c).1.trans hlinkage⟩

/-- A step that is about one linkage says the same of another. -/
theorem Agrees.other {opens' : Nat → Prop} {current' : Option Nat} {st : Life}
    (h : Agrees s opens l current st) (hworker : s'.worker l = s.worker l)
    (hattaching : l ∈ s'.attaching ↔ l ∈ s.attaching)
    (hopens : ∀ c, opens' c ∧ (s'.clients c).linkage = l ↔
      opens c ∧ (s.clients c).linkage = l)
    (hauto : ∀ c, opens c → (s.clients c).linkage = l →
      (s'.clients c).autoRelease = (s.clients c).autoRelease)
    (hcurrent : ∀ c, current = some c → (s.clients c).linkage = l →
      current' = some c ∧ (s'.clients c).linkage = l) :
    Agrees s' opens' l current' st := by
  refine ⟨hworker.trans h.worker, hattaching.trans h.attaching, ?_, ?_, ?_⟩
  · intro a hst
    obtain ⟨c, hc, hlinkage, ha⟩ := h.opened a hst
    obtain ⟨hc', hlinkage'⟩ := (hopens c).mpr ⟨hc, hlinkage⟩
    exact ⟨c, hc', hlinkage', (hauto c hc hlinkage).trans ha⟩
  · intro hst c hc hlinkage
    obtain ⟨hc', hlinkage'⟩ := (hopens c).mp ⟨hc, hlinkage⟩
    exact h.closed hst c hc' hlinkage'
  · intro hst
    obtain ⟨c, hc, hlinkage⟩ := h.current hst
    exact ⟨c, hcurrent c hc hlinkage⟩

-- ── What each operation keeps ────────────────────────────────────────────────

theorem touch_of_alive (h : s.alive c = true) : touch c s = s := by
  rw [touch]
  rw [h, Bool.not_true, Bool.or_false]

/-- A linkage that is on its worker is called back. -/
theorem Core.call (h : Core s opens current life) (hl : life l = .attached a)
    (callback : Callback) :
    Core (note l (.call callback) s) opens current life := by
  have hs : (life l).Step (.call callback) (life l) := by
    rw [hl]
    exact .call a callback
  refine ⟨h.linked, h.opened, h.releasing, h.attaching, h.sound, ?_, ?_⟩
  · intro l'
    have hlived := lived_note h.lived hs l'
    rwa [Function.update_eq_self] at hlived
  · intro l'
    obtain ⟨hw, ha, ho, hc, hcur⟩ := h.agrees l'
    exact ⟨hw, ha, ho, hc, hcur⟩

/-- **A RELEASE BEGINS**: `OnDisconnected` of a client that is still to be
    released; its linkage may leave the map, the others stay in it. -/
theorem Core.release (h : Core s opens none life) (ha : s.attaching = [])
    (hc : opens c) (hclients : s'.clients = s.clients)
    (halive : s'.alive = s.alive) (hworker : s'.worker = s.worker)
    (hattaching : s'.attaching = s.attaching) (hsound : s'.violated = false)
    (hlog : s'.log = s.log ++ [((s.clients c).linkage, .onDisconnected)])
    (hkept : ∀ l, l ≠ (s.clients c).linkage → s'.events l = s.events l)
    (hmore : ∀ l c, s'.events l = some c → s.events l = some c) :
    Core s' (fun c' => opens c' ∧ c' ≠ c) (some c)
      (Function.update life (s.clients c).linkage
        (.released (s.clients c).autoRelease)) := by
  have hlife := h.life_of_open ha hc
  have hown : ∀ c', opens c' → (s.clients c').linkage = (s.clients c).linkage →
      c' = c := by
    intro c' hc' heq
    have hevents := (h.opened c' hc').1
    rw [heq, (h.opened c hc).1] at hevents
    exact (Option.some.inj hevents).symm
  constructor
  case linked =>
    intro l c' hc'
    rw [hclients]
    exact h.linked l c' (hmore l c' hc')
  case opened =>
    rintro c' ⟨hc', hne⟩
    rw [hclients, halive, hkept _ fun heq => hne (hown c' hc' heq)]
    exact h.opened c' hc'
  case releasing =>
    intro c' hc'
    obtain rfl := Option.some.inj hc'
    refine ⟨?_, fun hopen => hopen.2 rfl, ?_⟩
    · rw [halive]
      exact (h.opened c hc).2
    · rw [hclients, Function.update_self]
  case attaching =>
    rw [hattaching]
    exact h.attaching
  case sound => exact hsound
  case lived =>
    intro l
    rw [hlog]
    refine lived_note h.lived ?_ l
    rw [hlife]
    exact .onDisconnected _
  case agrees =>
    intro l
    by_cases heq : l = (s.clients c).linkage
    · subst heq
      have hagrees := h.agrees (s.clients c).linkage
      rw [hlife] at hagrees
      rw [Function.update_self]
      refine ⟨?_, ?_, fun a hst => absurd hst (by simp [Life.onWorker]), ?_, ?_⟩
      · rw [hworker]
        exact hagrees.worker
      · rw [hattaching]
        exact hagrees.attaching
      · rintro - c' ⟨hc', hne⟩ hlinkage
        rw [hclients] at hlinkage
        exact hne (hown c' hc' hlinkage)
      · intro _
        exact ⟨c, rfl, by rw [hclients]⟩
    · rw [Function.update_of_ne heq]
      refine (h.agrees l).other (by rw [hworker]) (by rw [hattaching]) ?_ ?_ ?_
      · intro c'
        rw [hclients]
        constructor
        · rintro ⟨⟨hc', -⟩, hlinkage⟩
          exact ⟨hc', hlinkage⟩
        · rintro ⟨hc', hlinkage⟩
          refine ⟨⟨hc', ?_⟩, hlinkage⟩
          rintro rfl
          exact heq hlinkage.symm
      · intro c' _ _
        rw [hclients]
      · intro c' hc' _
        exact absurd hc' (by simp)

theorem released_owned (h : s.alive c = true)
    (hauto : (s.clients c).autoRelease = true) : released c s =
      { note (s.clients c).linkage .deleted s with
        alive := Function.update s.alive c false } := by
  rw [released]
  rw [touch_of_alive h]
  simp only [hauto, if_true]
  rfl

theorem released_kept (h : s.alive c = true)
    (hauto : (s.clients c).autoRelease = false) : released c s =
      { s with alive := Function.update s.alive c false } := by
  rw [released]
  rw [touch_of_alive h]
  simp only [hauto, Bool.false_eq_true, if_false]

/-- **A RELEASE ENDS**: the linkage is deleted if the worker owns it, and the
    client is. -/
theorem Core.released (h : Core s opens (some c) life) :
    ∃ life', Core (released c s) opens none life' := by
  obtain ⟨halive, hnot, hlife⟩ := h.releasing c rfl
  have hdead : ∀ c', opens c' → Function.update s.alive c false c' = s.alive c' := by
    intro c' hc'
    refine Function.update_of_ne ?_ _ _
    rintro rfl
    exact hnot hc'
  cases hauto : (s.clients c).autoRelease with
  | true =>
      rw [hauto] at hlife
      rw [released_owned halive hauto]
      refine ⟨Function.update life (s.clients c).linkage .deleted, h.linked, ?_,
        fun _ hc' => absurd hc' (by simp), h.attaching, h.sound, ?_, ?_⟩
      · intro c' hc'
        refine ⟨(h.opened c' hc').1, ?_⟩
        exact (hdead c' hc').trans (h.opened c' hc').2
      · intro l
        refine lived_note h.lived ?_ l
        rw [hlife]
        exact .deleted
      · intro l
        by_cases heq : l = (s.clients c).linkage
        · subst heq
          have hagrees := h.agrees (s.clients c).linkage
          rw [hlife] at hagrees
          rw [Function.update_self]
          exact ⟨hagrees.worker, hagrees.attaching,
            fun _ hst => absurd hst (by simp [Life.onWorker]),
            fun _ => hagrees.closed rfl, fun hst => absurd hst (by simp)⟩
        · rw [Function.update_of_ne heq]
          refine (h.agrees l).other rfl Iff.rfl (fun _ => Iff.rfl)
            (fun _ _ _ => rfl) ?_
          intro c' hc' hlinkage
          obtain rfl := Option.some.inj hc'
          exact absurd hlinkage.symm heq
  | false =>
      rw [hauto] at hlife
      rw [released_kept halive hauto]
      refine ⟨life, h.linked, ?_, fun _ hc' => absurd hc' (by simp), h.attaching,
        h.sound, h.lived, ?_⟩
      · intro c' hc'
        refine ⟨(h.opened c' hc').1, ?_⟩
        exact (hdead c' hc').trans (h.opened c' hc').2
      · intro l
        obtain ⟨hw, ha, ho, hc, hcur⟩ := h.agrees l
        refine ⟨hw, ha, ho, hc, ?_⟩
        intro hst
        obtain ⟨c', hc', hlinkage⟩ := hcur hst
        obtain rfl := Option.some.inj hc'
        rw [← hlinkage, hlife] at hst
        exact absurd hst (by simp)

section Attach

variable {readNow writeNow : Bool} {rest : List Nat}

/-- A linkage that has no worker is not in the map. -/
theorem Core.unlisted (h : Core s s.Listed current life)
    (hw : s.worker l = false) : life l = .out ∧ s.events l = none := by
  have hagrees := h.agrees l
  have hlife : life l = .out := by
    have hworker := hagrees.worker
    rw [hw] at hworker
    cases hlife : life l with
    | out => rfl
    | _ =>
        rw [hlife] at hworker
        exact absurd hworker (by simp [Life.hasWorker])
  refine ⟨hlife, ?_⟩
  rw [hlife] at hagrees
  cases hevents : s.events l with
  | none => rfl
  | some c => exact absurd (h.linked l c hevents) (hagrees.closed rfl c ⟨l, hevents⟩)

theorem attach_eq (h : s.events l = none) : attach l c readNow writeNow a s =
    { s with
      clients := Function.update s.clients c ⟨l, a, readNow, writeNow⟩
      alive := Function.update s.alive c true
      events := Function.update s.events l (some c)
      started := Function.update s.started c fun
        | .read => readNow
        | .write => writeNow
      worker := Function.update s.worker l true
      attaching := l :: s.attaching
      log := s.log ++ [(l, .attach a)] } := by
  rw [attach, doAttach]
  rw [h]
  rfl

/-- A new client is where no client of the map is. -/
theorem Core.not_listed (h : Core s s.Listed current life) (hc : s.alive c = false) :
    ¬s.Listed c := by
  intro hlisted
  have halive := (h.opened c hlisted).2
  rw [hc] at halive
  exact absurd halive (by simp)

/-- It is in the map then, with those that were. -/
theorem listed_attach (hnone : s.events l = none) (c' : Nat) :
    (attach l c readNow writeNow a s).Listed c' ↔ c' = c ∨ s.Listed c' := by
  rw [attach_eq hnone]
  constructor
  · rintro ⟨l', hl'⟩
    by_cases heq : l' = l
    · subst heq
      simp only [Function.update_self] at hl'
      exact .inl (Option.some.inj hl').symm
    · simp only [Function.update_of_ne heq] at hl'
      exact .inr ⟨l', hl'⟩
  · rintro (rfl | ⟨l', hl'⟩)
    · exact ⟨l, Function.update_self ..⟩
    · refine ⟨l', ?_⟩
      have hne : l' ≠ l := by
        rintro rfl
        rw [hnone] at hl'
        exact absurd hl' (by simp)
      simp only [Function.update_of_ne hne]
      exact hl'

section

variable (h : Core s s.Listed current life) (hw : s.worker l = false)
variable (hc : s.alive c = false)
include h hw hc

/-- The clients of the map are others, and of other linkages. -/
theorem Core.listed_apart {c' : Nat} (hc' : s.Listed c') :
    c' ≠ c ∧ (s.clients c').linkage ≠ l := by
  obtain ⟨-, hnone⟩ := h.unlisted hw
  constructor
  · rintro rfl
    exact h.not_listed hc hc'
  · intro heq
    have hevents := (h.opened c' hc').1
    rw [heq, hnone] at hevents
    exact absurd hevents (by simp)

/-- So is the client that is being released. -/
theorem Core.current_apart {c' : Nat} (hc' : current = some c') :
    c' ≠ c ∧ (s.clients c').linkage ≠ l := by
  obtain ⟨hlife, -⟩ := h.unlisted hw
  obtain ⟨halive, -, hreleased⟩ := h.releasing c' hc'
  constructor
  · rintro rfl
    rw [hc] at halive
    exact absurd halive (by simp)
  · intro heq
    rw [heq, hlife] at hreleased
    exact absurd hreleased (by simp)

variable {opens : Nat → Prop} (hlisted : ∀ c', opens c' ↔ c' = c ∨ s.Listed c')
include hlisted

omit h hw hc in
/-- The linkage that is attached has the new client. -/
theorem attach_agrees_self (hnone : s.events l = none) :
    Agrees (attach l c readNow writeNow a s) opens l current (.attaching a) := by
  rw [attach_eq hnone]
  refine ⟨Function.update_self .., ?_, ?_, ?_, ?_⟩
  · exact ⟨fun _ => rfl, fun _ => List.mem_cons_self⟩
  · intro a' hst
    obtain rfl := Option.some.inj hst
    refine ⟨c, (hlisted c).mpr (.inl rfl), ?_⟩
    simp only [Function.update_self]
    exact ⟨trivial, trivial⟩
  · intro hst
    exact absurd hst (by simp [Life.onWorker])
  · intro hst
    exact absurd hst (by simp)

/-- The other linkages have the clients that they had. -/
theorem Core.attach_agrees_other {l' : Nat} (hne : l' ≠ l) :
    Agrees (attach l c readNow writeNow a s) opens l' current (life l') := by
  obtain ⟨-, hnone⟩ := h.unlisted hw
  rw [attach_eq hnone]
  refine (h.agrees l').other (Function.update_of_ne hne ..) ?_ ?_ ?_ ?_
  · exact ⟨fun hmem => (List.mem_cons.mp hmem).resolve_left hne,
      List.mem_cons_of_mem l⟩
  · intro c'
    constructor
    · rintro ⟨hc', hlinkage⟩
      rcases (hlisted c').mp hc' with rfl | hc'
      · simp only [Function.update_self] at hlinkage
        exact absurd hlinkage.symm hne
      · simp only [Function.update_of_ne (h.listed_apart hw hc hc').1] at hlinkage
        exact ⟨hc', hlinkage⟩
    · rintro ⟨hc', hlinkage⟩
      refine ⟨(hlisted c').mpr (.inr hc'), ?_⟩
      simp only [Function.update_of_ne (h.listed_apart hw hc hc').1]
      exact hlinkage
  · intro c' hc' _
    simp only [Function.update_of_ne (h.listed_apart hw hc hc').1]
  · intro c' hc' hlinkage
    simp only [Function.update_of_ne (h.current_apart hw hc hc').1]
    exact ⟨hc', hlinkage⟩

theorem Core.attach_agrees (l' : Nat) :
    Agrees (attach l c readNow writeNow a s) opens l' current
      (Function.update life l (.attaching a) l') := by
  by_cases heq : l' = l
  · subst heq
    rw [Function.update_self]
    exact attach_agrees_self hlisted (h.unlisted hw).2
  · rw [Function.update_of_ne heq]
    exact h.attach_agrees_other hw hc hlisted heq

end

/-- A linkage is attached. -/
theorem Core.attach (h : Core s s.Listed current life) (hw : s.worker l = false)
    (hc : s.alive c = false) :
    Core (attach l c readNow writeNow a s) (attach l c readNow writeNow a s).Listed
      current (Function.update life l (.attaching a)) := by
  obtain ⟨hlife, hnone⟩ := h.unlisted hw
  have hlisted : ∀ c',
      (FlinterWorkerRelease.attach l c readNow writeNow a s).Listed c' ↔
        c' = c ∨ s.Listed c' := listed_attach hnone
  generalize (FlinterWorkerRelease.attach l c readNow writeNow a s).Listed = opens
    at hlisted ⊢
  have hagrees : ∀ l', Agrees (FlinterWorkerRelease.attach l c readNow writeNow a s)
      opens l' current (Function.update life l (.attaching a) l') :=
    h.attach_agrees hw hc hlisted
  rw [attach_eq hnone] at hagrees ⊢
  constructor
  case linked =>
    intro l' c' hl'
    by_cases heq : l' = l
    · subst heq
      simp only [Function.update_self] at hl'
      obtain rfl := Option.some.inj hl'
      simp only [Function.update_self]
    · simp only [Function.update_of_ne heq] at hl'
      simp only [Function.update_of_ne (h.listed_apart hw hc ⟨l', hl'⟩).1]
      exact h.linked l' c' hl'
  case opened =>
    intro c' hc'
    rcases (hlisted c').mp hc' with rfl | hc'
    · simp only [Function.update_self]
      exact ⟨trivial, trivial⟩
    · obtain ⟨hne, hlinkage⟩ := h.listed_apart hw hc hc'
      simp only [Function.update_of_ne hne, Function.update_of_ne hlinkage]
      exact h.opened c' hc'
  case releasing =>
    intro c' hc'
    obtain ⟨halive, hnot, hreleased⟩ := h.releasing c' hc'
    obtain ⟨hne, hlinkage⟩ := h.current_apart hw hc hc'
    simp only [Function.update_of_ne hne, Function.update_of_ne hlinkage]
    exact ⟨halive, fun hopen => hnot (((hlisted c').mp hopen).resolve_left hne),
      hreleased⟩
  case attaching =>
    refine List.nodup_cons.mpr ⟨?_, h.attaching⟩
    intro hmem
    have hattaching := (h.agrees l).attaching.mp hmem
    rw [hlife] at hattaching
    exact absurd hattaching (by simp [Life.isAttaching])
  case sound => exact h.sound
  case lived =>
    intro l'
    refine lived_note h.lived ?_ l'
    rw [hlife]
    exact .attach a
  case agrees => exact hagrees

theorem attachDone_true (hevents : s.events l = some c) :
    attachDone l rest true s =
      note l (.attached (s.clients c).autoRelease) { s with attaching := rest } := by
  rw [attachDone]
  rw [if_pos rfl, hevents]

theorem attachDone_false (hevents : s.events l = some c) :
    attachDone l rest false s =
      { stop c s with
        events := Function.update s.events l none
        alive := Function.update s.alive c false
        worker := Function.update s.worker l false
        attaching := rest
        log := s.log ++ [(l, .detach)] } := by
  rw [attachDone, doDetach]
  rw [hevents]
  rfl

/-- The linkage whose `Attach` is in progress is in the map. -/
theorem Core.top (h : Core s opens current life) (ha : s.attaching = l :: rest) :
    ∃ c, life l = .attaching (s.clients c).autoRelease ∧ opens c ∧
      s.events l = some c ∧ (s.clients c).linkage = l ∧ l ∉ rest ∧ rest.Nodup := by
  have hagrees := h.agrees l
  have hmem : l ∈ s.attaching := by
    rw [ha]
    exact List.mem_cons_self
  have hattaching := hagrees.attaching.mp hmem
  have hnodup := h.attaching
  rw [ha] at hnodup
  obtain ⟨hnot, hrest⟩ := List.nodup_cons.mp hnodup
  cases hlife : life l with
  | attaching a =>
      rw [hlife] at hagrees
      obtain ⟨c, hc, hlinkage, hauto⟩ := hagrees.opened a rfl
      have hevents := (h.opened c hc).1
      rw [hlinkage] at hevents
      exact ⟨c, by rw [hauto], hc, hevents, hlinkage, hnot, hrest⟩
  | _ =>
      rw [hlife] at hattaching
      exact absurd hattaching (by simp [Life.isAttaching])

/-- Its `Attach` is true. -/
theorem Core.attachTrue (h : Core s opens current life)
    (ha : s.attaching = l :: rest) :
    ∃ life', Core (attachDone l rest true s) opens current life' := by
  obtain ⟨c, hlife, hc, hevents, hlinkage, hnot, hnodup⟩ := h.top ha
  rw [attachDone_true hevents]
  refine ⟨Function.update life l (.attached (s.clients c).autoRelease), h.linked,
    h.opened, ?_, hnodup, h.sound, ?_, ?_⟩
  · intro c' hc'
    obtain ⟨halive, hclosed, hreleased⟩ := h.releasing c' hc'
    refine ⟨halive, hclosed, ?_⟩
    have hne : (s.clients c').linkage ≠ l := by
      intro heq
      rw [heq, hlife] at hreleased
      exact absurd hreleased (by simp)
    show Function.update life l _ (s.clients c').linkage = _
    rw [Function.update_of_ne hne]
    exact hreleased
  · intro l'
    refine lived_note h.lived ?_ l'
    rw [hlife]
    exact .attached _
  · intro l'
    by_cases heq : l' = l
    · subst heq
      have hagrees := h.agrees l'
      rw [hlife] at hagrees
      rw [Function.update_self]
      refine ⟨hagrees.worker, ?_, ?_, ?_, ?_⟩
      · exact ⟨fun hmem => absurd hmem hnot,
          fun hst => absurd hst (by simp [Life.isAttaching])⟩
      · intro a hst
        exact hagrees.opened a hst
      · intro hst
        exact absurd hst (by simp [Life.onWorker])
      · intro hst
        exact absurd hst (by simp)
    · rw [Function.update_of_ne heq]
      refine (h.agrees l').other rfl ?_ (fun _ => Iff.rfl) (fun _ _ _ => rfl)
        (fun _ hc' hl' => ⟨hc', hl'⟩)
      show l' ∈ rest ↔ _
      rw [ha, List.mem_cons, or_iff_right heq]

/-- Its `Attach` is false. -/
theorem Core.attachFalse (h : Core s s.Listed current life)
    (ha : s.attaching = l :: rest) :
    ∃ life', Core (attachDone l rest false s) (attachDone l rest false s).Listed
      current life' := by
  obtain ⟨c, hlife, hc, hevents, hlinkage, hnot, hnodup⟩ := h.top ha
  have hlisted : ∀ c', (attachDone l rest false s).Listed c' ↔
      s.Listed c' ∧ (s.clients c').linkage ≠ l := by
    intro c'
    rw [attachDone_false hevents]
    constructor
    · rintro ⟨l', hl'⟩
      by_cases hll : l' = l
      · subst hll
        simp only [Function.update_self] at hl'
        exact absurd hl' (by simp)
      · simp only [Function.update_of_ne hll] at hl'
        refine ⟨⟨l', hl'⟩, ?_⟩
        rw [h.linked l' c' hl']
        exact hll
    · rintro ⟨⟨l', hl'⟩, hne⟩
      rw [h.linked l' c' hl'] at hne
      refine ⟨l', ?_⟩
      simp only [Function.update_of_ne hne]
      exact hl'
  generalize (attachDone l rest false s).Listed = opens at hlisted ⊢
  have hdead : ∀ c', s.events (s.clients c').linkage = some c' →
      (s.clients c').linkage ≠ l → c' ≠ c := by
    rintro c' hc' hne rfl
    exact hne hlinkage
  rw [attachDone_false hevents]
  refine ⟨Function.update life l .out, ?_⟩
  constructor
  case linked =>
    intro l' c' hl'
    by_cases hll : l' = l
    · subst hll
      simp only [Function.update_self] at hl'
      exact absurd hl' (by simp)
    · simp only [Function.update_of_ne hll] at hl'
      exact h.linked l' c' hl'
  case opened =>
    intro c' hc'
    obtain ⟨hlist, hne⟩ := (hlisted c').mp hc'
    obtain ⟨hevents', halive⟩ := h.opened c' hlist
    show Function.update s.events l none (s.clients c').linkage = _ ∧
      Function.update s.alive c false c' = _
    rw [Function.update_of_ne hne, Function.update_of_ne (hdead c' hevents' hne)]
    exact ⟨hevents', halive⟩
  case releasing =>
    intro c' hc'
    obtain ⟨halive, hclosed, hreleased⟩ := h.releasing c' hc'
    have hne : c' ≠ c := by
      rintro rfl
      exact hclosed hc
    have hnel : (s.clients c').linkage ≠ l := by
      intro hll
      rw [hll, hlife] at hreleased
      exact absurd hreleased (by simp)
    show Function.update s.alive c false c' = _ ∧ _ ∧
      Function.update life l _ (s.clients c').linkage = _
    rw [Function.update_of_ne hne, Function.update_of_ne hnel]
    exact ⟨halive, fun hopen => hclosed ((hlisted c').mp hopen).1, hreleased⟩
  case attaching => exact hnodup
  case sound => exact h.sound
  case lived =>
    intro l'
    refine lived_note h.lived ?_ l'
    rw [hlife]
    exact .detach _
  case agrees =>
    intro l'
    by_cases hll : l' = l
    · subst hll
      rw [Function.update_self]
      refine ⟨Function.update_self .., ?_, ?_, ?_, ?_⟩
      · exact ⟨fun hmem => absurd hmem hnot,
          fun hst => absurd hst (by simp [Life.isAttaching])⟩
      · intro a hst
        exact absurd hst (by simp [Life.onWorker])
      · intro _ c' hc'
        exact ((hlisted c').mp hc').2
      · intro hst
        exact absurd hst (by simp)
    · rw [Function.update_of_ne hll]
      refine (h.agrees l').other (Function.update_of_ne hll ..) ?_ ?_
        (fun _ _ _ => rfl) (fun _ hc' hl' => ⟨hc', hl'⟩)
      · show l' ∈ rest ↔ _
        rw [ha, List.mem_cons, or_iff_right hll]
      · intro c'
        constructor
        · rintro ⟨hc', hl'⟩
          exact ⟨((hlisted c').mp hc').1, hl'⟩
        · rintro ⟨hc', hl'⟩
          refine ⟨(hlisted c').mpr ⟨hc', ?_⟩, hl'⟩
          rw [hl']
          exact hll

end Attach

-- ── Watchers ─────────────────────────────────────────────────────────────────

section Wanna

variable {d : Direction} {on : Bool}

theorem running_setRunning (client : Client) (d d' : Direction) (on : Bool) :
    (client.setRunning d on).running d' =
      if d' = d then on else client.running d' := by
  cases d <;> cases d' <;> rfl

/-- What `wanna` does to the clients: nothing but to a watcher. -/
theorem wanna_clients (c' : Nat) :
    ((wanna c d on s).clients c').linkage = (s.clients c').linkage ∧
    ((wanna c d on s).clients c').autoRelease = (s.clients c').autoRelease := by
  rw [wanna]
  split
  · exact ⟨rfl, rfl⟩
  · show (Function.update s.clients c _ c').linkage = _ ∧
      (Function.update s.clients c _ c').autoRelease = _
    by_cases heq : c' = c
    · subst heq
      rw [Function.update_self]
      cases d <;> exact ⟨rfl, rfl⟩
    · rw [Function.update_of_ne heq]
      exact ⟨rfl, rfl⟩

theorem wanna_events : (wanna c d on s).events = s.events := by
  rw [wanna]
  split <;> rfl

theorem wanna_attaching : (wanna c d on s).attaching = s.attaching := by
  rw [wanna]
  split <;> rfl

theorem wanna_doing : (wanna c d on s).doing = s.doing := by
  rw [wanna]
  split <;> rfl

theorem Core.wanna (h : Core s opens current life) :
    Core (wanna c d on s) opens current life := by
  refine h.frame wanna_events ?_ ?_ wanna_attaching ?_ ?_ wanna_clients
  · rw [FlinterWorkerRelease.wanna]
    split <;> rfl
  · rw [FlinterWorkerRelease.wanna]
    split <;> rfl
  · rw [FlinterWorkerRelease.wanna]
    split <;> rfl
  · rw [FlinterWorkerRelease.wanna]
    split <;> rfl

theorem Watched.wanna (h : Watched s) (hc : s.Listed c) :
    Watched (wanna c d on s) := by
  rw [FlinterWorkerRelease.wanna]
  split
  · exact h
  · intro c' d' hstarted
    replace hstarted : Function.update s.started c
        (Function.update (s.started c) d on) c' d' = true := hstarted
    show s.Listed c' ∧
      (Function.update s.clients c ((s.clients c).setRunning d on) c').running d' =
        true
    by_cases heq : c' = c
    · subst heq
      rw [Function.update_self] at hstarted
      rw [Function.update_self, running_setRunning]
      refine ⟨hc, ?_⟩
      by_cases hd : d' = d
      · subst hd
        rw [Function.update_self] at hstarted
        rw [if_pos rfl]
        exact hstarted
      · rw [Function.update_of_ne hd] at hstarted
        rw [if_neg hd]
        exact (h c' d' hstarted).2
    · rw [Function.update_of_ne heq] at hstarted
      rw [Function.update_of_ne heq]
      exact h c' d' hstarted

end Wanna

/-- Neither watcher is started after `stop`, and no other is stopped. -/
theorem Watched.stop_self (h : Watched s) (d : Direction) :
    (stop c s).started c d = false := by
  show Function.update s.started c _ c d = false
  rw [Function.update_self]
  split
  · rfl
  · rename_i hrunning
    refine Bool.eq_false_iff.mpr ?_
    intro hstarted
    exact hrunning (h c d hstarted).2

/-- A client that is stopped may leave the map. -/
theorem Watched.leave (h : Watched s) (hclients : s'.clients = s.clients)
    (hstarted : s'.started = (stop c s).started)
    (hkept : ∀ c', c' ≠ c → s.Listed c' → s'.Listed c') : Watched s' := by
  intro c' d hon
  rw [hstarted] at hon
  by_cases heq : c' = c
  · subst heq
    rw [h.stop_self d] at hon
    exact absurd hon (by simp)
  · have hold : s.started c' d = true := by
      have hon' : Function.update s.started c _ c' d = true := hon
      rwa [Function.update_of_ne heq] at hon'
    rw [hclients]
    obtain ⟨hc', hrunning⟩ := h c' d hold
    exact ⟨hkept c' heq hc', hrunning⟩

/-- The watchers of a new client are started as they are said to run. -/
theorem Watched.attach {readNow writeNow : Bool} (h : Watched s)
    (hnone : s.events l = none) (hc : ¬s.Listed c) :
    Watched (attach l c readNow writeNow a s) := by
  rw [attach_eq hnone]
  intro c' d hon
  by_cases heq : c' = c
  · subst heq
    simp only [Function.update_self] at hon ⊢
    refine ⟨⟨l, Function.update_self ..⟩, ?_⟩
    cases d <;> exact hon
  · simp only [Function.update_of_ne heq] at hon ⊢
    obtain ⟨⟨l', hl'⟩, hrunning⟩ := h c' d hon
    refine ⟨⟨l', ?_⟩, hrunning⟩
    have hne : l' ≠ l := by
      rintro rfl
      rw [hnone] at hl'
      exact absurd hl' (by simp)
    show Function.update s.events l (some c) l' = some c'
    rw [Function.update_of_ne hne]
    exact hl'

end FlinterWorkerRelease
