import Flinter.ObjectMapProofs
import Flinter.TimeoutPoolProofs

/-! # AsyncRouter: calls in flight over counted connections

    `Get` takes a connection from the map and leaves a `Track` in the timeout
    pool, which `Put` takes out again; a track that the pool deletes, because it
    is replaced, due or cleared, reports a timeout.  Both give the connection
    back.

    A method holds the mutex of the map or of the pool in turns, so that the
    calls of several threads meet between them: what a call has in its hands
    there stands in `getting`, `putting`, `expiring` and `adding`.  A call that
    nothing interrupts is two or more steps in a row. -/

namespace FlinterAsyncRouter

open OrderedMaps Runs FlinterObjectMap FlinterTimeoutPool

variable {Key Seq Channel : Type} [LinearOrder Key] [LinearOrder Seq]

/-- `task_t *`. -/
abbrev Task := Nat

/-- `AsyncRouter::Track`; `call` numbers the calls of `Get`.  Its context is an
    object of the map and the key it has there. -/
structure Track (Key Seq : Type) where
  call : Nat
  seq : Seq
  task : Option Task
  key : Key
  context : Object
deriving DecidableEq, Repr

/-- How a call ended: by a `Put` that returned true, which gave the task back or
    was not asked to, or by `OnTimeout`. -/
inductive Settlement where
  | put (handed : Bool)
  | onTimeout
deriving DecidableEq, Repr

/-- How far a `Shutdown` is. -/
inductive Stage where
  | open
  | cleared
  | erased
  | closed
deriving DecidableEq, Repr

/-- `AsyncRouter`, the calls in progress, and what the calls came to. -/
structure AsyncRouter (Key Seq Channel : Type) [LinearOrder Key]
    [LinearOrder Seq] where
  map : ObjectMap Key
  timeout : TimeoutPool Seq (Track Key Seq)
  getting : List (Track Key Seq)
  putting : List (Track Key Seq × Bool)
  expiring : List (Track Key Seq)
  adding : List (Key × Object)
  calls : Nat
  returned : List (Nat × Channel)
  settled : List (Nat × Settlement)
  stage : Stage

/-- The constructor. -/
def AsyncRouter.new (defaultTimeout : Int) : AsyncRouter Key Seq Channel where
  map := .empty
  timeout := ⟨if 0 < defaultTimeout then defaultTimeout else 5000000000, true,
    .empty⟩
  getting := []
  putting := []
  expiring := []
  adding := []
  calls := 0
  returned := []
  settled := []
  stage := .open

-- ── The methods, one critical section at a time ──────────────────────────────

variable (r : AsyncRouter Key Seq Channel)

/-- `Get` up to `_map->GetNext()`. -/
def getContext (seq : Seq) (task : Option Task) :
    AsyncRouter Key Seq Channel :=
  let p := getNext r.map
  match p.1 with
  | none => { r with map := p.2 }
  | some c =>
    { r with
      map := p.2
      getting := ⟨r.calls, seq, task, c.1, c.2⟩ :: r.getting
      calls := r.calls + 1 }

/-- The rest of `Get`: `_timeout.Insert`, and true. -/
def getInsert (channel : Object → Channel) (track : Track Key Seq)
    (now timeout : Int) : AsyncRouter Key Seq Channel :=
  let p := r.timeout.insert now track.seq track timeout
  { r with
    getting := r.getting.erase track
    timeout := p.2
    expiring := p.1 ++ r.expiring
    returned := r.returned ++ [(track.call, channel track.context)] }

/-- `Put` up to `_timeout.Erase`; `wanted` says that the task is asked for. -/
def putErase (seq : Seq) (wanted : Bool) : AsyncRouter Key Seq Channel :=
  let p := r.timeout.erase seq
  match p.1 with
  | none => r
  | some track =>
    { r with timeout := p.2, putting := (track, wanted) :: r.putting }

/-- The rest of `Put`: `_map->Release`, and true. -/
def putRelease (track : Track Key Seq) (wanted : Bool) :
    AsyncRouter Key Seq Channel :=
  { r with
    map := release r.map track.key track.context
    putting := r.putting.erase (track, wanted)
    settled := r.settled ++ [(track.call, .put wanted)] }

/-- `AsyncRouter::OnTimeout` of a track that the pool deletes. -/
def onTimeout (track : Track Key Seq) : AsyncRouter Key Seq Channel :=
  { r with
    map := release r.map track.key track.context
    expiring := r.expiring.erase track
    settled := r.settled ++ [(track.call, .onTimeout)] }

/-- `AsyncRouter::Cleanup`. -/
def cleanup (now : Int) : AsyncRouter Key Seq Channel :=
  let p := r.timeout.check now
  { r with timeout := p.2, expiring := p.1 ++ r.expiring }

/-- `Shutdown` up to `_timeout.Clear()`. -/
def shutdownClear : AsyncRouter Key Seq Channel :=
  let p := r.timeout.clear
  { r with timeout := p.2, expiring := p.1 ++ r.expiring, stage := .cleared }

/-- `_map->EraseAll(true)` up to the wait. -/
def shutdownErase : AsyncRouter Key Seq Channel :=
  { r with map := eraseAll r.map, stage := .erased }

/-- `Add` up to `_map->Add`; `create` is whether `RouteHandler::Create` makes a
    connection. -/
def addHost (host : Key) (create : Bool) : AsyncRouter Key Seq Channel :=
  let p := add r.map host create
  { r with
    map := p.2
    adding := (p.1.map fun c => (host, c)).toList ++ r.adding
    stage := .open }

/-- The rest of `Add`. -/
def addRelease (host : Key) (c : Object) : AsyncRouter Key Seq Channel :=
  { r with
    map := release r.map host c
    adding := r.adding.erase (host, c) }

-- ── The system ───────────────────────────────────────────────────────────────

inductive Step (Key Seq : Type) where
  | getContext (seq : Seq) (task : Option Task)
  | getInsert (track : Track Key Seq) (now timeout : Int)
  | putErase (seq : Seq) (wanted : Bool)
  | putRelease (track : Track Key Seq) (wanted : Bool)
  | onTimeout (track : Track Key Seq)
  | cleanup (now : Int)
  | shutdownClear
  | shutdownErase
  | shutdownReturn
  | addHost (host : Key) (create : Bool)
  | addRelease (host : Key) (c : Object)
  | del (host : Key)
  | setAll (hosts : List (Key × Bool))
deriving DecidableEq, Repr

/-- No `Shutdown` is in progress. -/
def Stage.rests (stage : Stage) : Bool := stage = .open || stage = .closed

/-- One critical section.  `EraseAll` asks that nobody adds meanwhile, and comes
    back when nothing is left in `_drop`; that it waits for the tracks that
    `Clear` deletes is left out. -/
def next (channel : Object → Channel) :
    Step Key Seq → Option (AsyncRouter Key Seq Channel)
  | .getContext seq task => some (getContext r seq task)
  | .getInsert track now timeout =>
    if track ∈ r.getting then some (getInsert r channel track now timeout)
    else none
  | .putErase seq wanted => some (putErase r seq wanted)
  | .putRelease track wanted =>
    if (track, wanted) ∈ r.putting then some (putRelease r track wanted)
    else none
  | .onTimeout track =>
    if track ∈ r.expiring then some (onTimeout r track) else none
  | .cleanup now => some (cleanup r now)
  | .shutdownClear => if r.stage.rests then some (shutdownClear r) else none
  | .shutdownErase =>
    if r.stage = .cleared then some (shutdownErase r) else none
  | .shutdownReturn =>
    if r.stage = .erased ∧ r.map.drop = [] then
      some { r with stage := .closed }
    else none
  | .addHost host create =>
    if r.stage.rests then some (addHost r host create) else none
  | .addRelease host c =>
    if (host, c) ∈ r.adding then some (addRelease r host c) else none
  | .del host => some { r with map := doErase r.map host }
  | .setAll hosts =>
    if r.stage.rests then
      some { r with map := setAll r.map hosts, stage := .open }
    else none

/-- Calls of any threads, with any clock and any answers of the handler.
    `channel` is what `RouteHandler::Create` gave the contexts. -/
def asyncRouter (channel : Object → Channel) (defaultTimeout : Int) :
    System (AsyncRouter Key Seq Channel) (Step Key Seq) where
  init := fun r => r = .new defaultTimeout
  step := fun r a r' => next r channel a = some r'

-- ── The accounts ─────────────────────────────────────────────────────────────

variable {r} {r' : AsyncRouter Key Seq Channel} {track : Track Key Seq}
variable {channel : Object → Channel}

/-- What a track refers to. -/
def Track.reference (track : Track Key Seq) : Key × Object :=
  (track.key, track.context)

/-- The tracks that have a connection and are not settled yet. -/
def AsyncRouter.outstanding (r : AsyncRouter Key Seq Channel) :
    List (Track Key Seq) :=
  r.timeout.values ++ (r.getting ++ (r.putting.map (·.1) ++ r.expiring))

/-- The references that the router has to connections. -/
def AsyncRouter.references (r : AsyncRouter Key Seq Channel) :
    List (Key × Object) :=
  r.outstanding.map Track.reference ++ r.adding

/-- **THE INVARIANT**: the references are those of the map, a call is either
    outstanding or settled, and what was erased is empty. -/
structure Ok (r : AsyncRouter Key Seq Channel) : Prop where
  managed : Managed r.map r.references
  release : r.timeout.autoRelease = true
  calls : (r.outstanding.map (·.call) ++ r.settled.map (·.1)).Perm
    (List.range r.calls)
  returned : ∀ p ∈ r.returned, p.1 < r.calls
  erased : r.stage = .erased ∨ r.stage = .closed → r.map.map.entries = []
  closed : r.stage = .closed → r.map.drop = []

theorem Ok.call_lt (h : Ok r) (ht : track ∈ r.outstanding) :
    track.call < r.calls := by
  refine List.mem_range.mp (h.calls.mem_iff.mp (List.mem_append_left _ ?_))
  exact List.mem_map.mpr ⟨track, ht, rfl⟩

/-- Tracks change hands. -/
theorem Ok.move (h : Ok r) {timeout : TimeoutPool Seq (Track Key Seq)}
    {getting expiring : List (Track Key Seq)}
    {putting : List (Track Key Seq × Bool)} {returned : List (Nat × Channel)}
    (hrelease : timeout.autoRelease = true)
    (hperm : (timeout.values ++ (getting ++ (putting.map (·.1) ++
      expiring))).Perm r.outstanding)
    (hreturned : ∀ p ∈ returned, p.1 < r.calls) :
    Ok { r with
      timeout := timeout
      getting := getting
      putting := putting
      expiring := expiring
      returned := returned } where
  managed := h.managed.permHeld ((hperm.symm.map _).append_right _)
  release := hrelease
  calls := ((hperm.map _).append_right _).trans h.calls
  returned := hreturned
  erased := h.erased
  closed := h.closed

/-- A track is settled, and its connection given back. -/
theorem Ok.settle (h : Ok r) {getting expiring : List (Track Key Seq)}
    {putting : List (Track Key Seq × Bool)} (settlement : Settlement)
    (hperm : r.outstanding.Perm (track :: (r.timeout.values ++
      (getting ++ (putting.map (·.1) ++ expiring))))) :
    Ok { r with
      map := FlinterObjectMap.release r.map track.key track.context
      getting := getting
      putting := putting
      expiring := expiring
      settled := r.settled ++ [(track.call, settlement)] } := by
  have hrefs : r.references.Perm (track.reference ::
      ((r.timeout.values ++ (getting ++ (putting.map (·.1) ++
        expiring))).map Track.reference ++ r.adding)) :=
    (hperm.map _).append_right r.adding
  have hin : (track.key, track.context) ∈ r.references :=
    hrefs.mem_iff.mpr List.mem_cons_self
  refine ⟨?_, h.release, ?_, h.returned, fun hs => ?_, fun hs => ?_⟩
  · refine (h.managed.release hin).permHeld ?_
    have herase := hrefs.erase track.reference
    rw [List.erase_cons_head] at herase
    exact herase
  · refine List.Perm.trans ?_ h.calls
    refine List.Perm.trans ?_ ((hperm.map (·.call)).append_right _).symm
    rw [List.map_append, ← List.append_assoc, List.map_cons]
    exact List.perm_append_singleton _ _
  · rw [(release_of_empty (h.erased hs)).1]
    exact h.erased hs
  · exact (release_of_empty (h.erased (.inr hs))).2 (h.closed hs)

-- ── One critical section at a time ───────────────────────────────────────────

/-- A connection is got for a call that is outstanding from now on. -/
theorem getContext_outstanding (seq : Seq) (task : Option Task) :
    ((getNext r.map).1 = none ∧
      getContext r seq task = { r with map := (getNext r.map).2 }) ∨
    ∃ c, (getNext r.map).1 = some c ∧
      getContext r seq task = { r with
        map := (getNext r.map).2
        getting := ⟨r.calls, seq, task, c.1, c.2⟩ :: r.getting
        calls := r.calls + 1 } ∧
      (getContext r seq task).outstanding.Perm
        (⟨r.calls, seq, task, c.1, c.2⟩ :: r.outstanding) := by
  rw [FlinterAsyncRouter.getContext]
  cases hc : (getNext r.map).1 with
  | none => exact .inl ⟨rfl, rfl⟩
  | some c => exact .inr ⟨c, rfl, rfl, List.perm_middle⟩

theorem getInsert_outstanding (channel : Object → Channel)
    (hrelease : r.timeout.autoRelease = true) (ht : track ∈ r.getting)
    (now timeout : Int) :
    (getInsert r channel track now timeout).outstanding.Perm r.outstanding := by
  refine List.perm_iff_count.mpr fun t => ?_
  have hpool := (TimeoutPool.insert_perm (k := track.seq) (v := track) hrelease
    now timeout).count_eq t
  have hget := (List.perm_cons_erase ht).count_eq t
  simp only [List.count_append, List.count_cons] at hpool hget
  simp only [FlinterAsyncRouter.getInsert, AsyncRouter.outstanding,
    List.count_append]
  omega

/-- `Put` takes a track out of the pool, if there is one. -/
theorem putErase_cases (seq : Seq) (wanted : Bool) :
    ((r.timeout.erase seq).1 = none ∧ putErase r seq wanted = r) ∨
    ∃ t, (r.timeout.erase seq).1 = some t ∧
      putErase r seq wanted = { r with
        timeout := (r.timeout.erase seq).2
        putting := (t, wanted) :: r.putting } := by
  rw [FlinterAsyncRouter.putErase]
  cases hp : (r.timeout.erase seq).1 with
  | none => exact .inl ⟨rfl, rfl⟩
  | some t => exact .inr ⟨t, rfl, rfl⟩

theorem putErase_outstanding (seq : Seq) (wanted : Bool) :
    (putErase r seq wanted).outstanding.Perm r.outstanding := by
  rcases putErase_cases (r := r) seq wanted with ⟨-, heq⟩ | ⟨u, hu, heq⟩
  · rw [heq]
  · rw [heq]
    refine List.perm_iff_count.mpr fun t => ?_
    have hpool := (TimeoutPool.erase_perm hu).count_eq t
    simp only [List.count_cons] at hpool
    simp only [AsyncRouter.outstanding, List.count_append, List.map_cons,
      List.count_cons]
    omega

theorem putRelease_outstanding {wanted : Bool} (ht : (track, wanted) ∈ r.putting) :
    r.outstanding.Perm (track :: (putRelease r track wanted).outstanding) := by
  refine List.perm_iff_count.mpr fun t => ?_
  have hput := ((List.perm_cons_erase ht).map (·.1)).count_eq t
  simp only [List.map_cons, List.count_cons] at hput
  simp only [FlinterAsyncRouter.putRelease, AsyncRouter.outstanding,
    List.count_append, List.count_cons]
  omega

theorem onTimeout_outstanding (ht : track ∈ r.expiring) :
    r.outstanding.Perm (track :: (onTimeout r track).outstanding) := by
  refine List.perm_iff_count.mpr fun t => ?_
  have hexp := (List.perm_cons_erase ht).count_eq t
  simp only [List.count_cons] at hexp
  simp only [FlinterAsyncRouter.onTimeout, AsyncRouter.outstanding,
    List.count_append, List.count_cons]
  omega

theorem cleanup_outstanding (hrelease : r.timeout.autoRelease = true) (now : Int) :
    (cleanup r now).outstanding.Perm r.outstanding := by
  refine List.perm_iff_count.mpr fun t => ?_
  have hpool := (TimeoutPool.check_perm hrelease now).count_eq t
  simp only [List.count_append] at hpool
  simp only [FlinterAsyncRouter.cleanup, AsyncRouter.outstanding,
    List.count_append]
  omega

theorem shutdownClear_outstanding (hrelease : r.timeout.autoRelease = true) :
    (shutdownClear r).outstanding.Perm r.outstanding := by
  obtain ⟨hreleased, hvalues⟩ := TimeoutPool.clear_perm hrelease
  refine List.perm_iff_count.mpr fun t => ?_
  simp only [FlinterAsyncRouter.shutdownClear, AsyncRouter.outstanding,
    hreleased, hvalues, List.count_append, List.count_nil]
  omega

theorem Ok.getContext (h : Ok r) (seq : Seq) (task : Option Task) :
    Ok (getContext r seq task) := by
  have hmanaged := h.managed.getNext
  have hempty := advance_of_empty (s := r.map)
  rcases getContext_outstanding (r := r) seq task with
    ⟨hnone, heq⟩ | ⟨c, hc, heq, hperm⟩
  · rw [heq, getNext_none hnone]
    exact h
  · have hopen : r.map.map.entries ≠ [] := by
      intro hm
      rw [getNext, hempty hm] at hc
      exact absurd hc (by simp)
    rw [hc] at hmanaged
    rw [heq] at hperm ⊢
    refine ⟨?_, h.release, ?_, fun p hp => ?_, fun hs => ?_, fun hs => ?_⟩
    · exact hmanaged.permHeld
        ((hperm.symm.map Track.reference).append_right r.adding)
    · refine ((hperm.map _).append_right _).trans ?_
      rw [List.range_succ]
      exact (h.calls.cons r.calls).trans (List.perm_append_singleton _ _).symm
    · exact Nat.lt_succ_of_lt (h.returned p hp)
    · exact absurd (h.erased hs) hopen
    · exact absurd (h.erased (.inr hs)) hopen

theorem Ok.getInsert (h : Ok r) {now timeout : Int} (ht : track ∈ r.getting) :
    Ok (getInsert r channel track now timeout) := by
  refine h.move (TimeoutPool.autoRelease_insert.trans h.release)
    (getInsert_outstanding channel h.release ht now timeout) ?_
  intro p hp
  rcases List.mem_append.mp hp with hp | hp
  · exact h.returned p hp
  · obtain rfl := List.mem_singleton.mp hp
    exact h.call_lt (List.mem_append_right _ (List.mem_append_left _ ht))

theorem Ok.putErase (h : Ok r) (seq : Seq) (wanted : Bool) :
    Ok (putErase r seq wanted) := by
  have hperm := putErase_outstanding (r := r) seq wanted
  rcases putErase_cases (r := r) seq wanted with ⟨-, heq⟩ | ⟨u, -, heq⟩
  · rw [heq]
    exact h
  · rw [heq] at hperm ⊢
    exact h.move (TimeoutPool.autoRelease_erase.trans h.release) hperm h.returned

theorem Ok.putRelease (h : Ok r) {wanted : Bool}
    (ht : (track, wanted) ∈ r.putting) : Ok (putRelease r track wanted) :=
  h.settle (.put wanted) (putRelease_outstanding ht)

theorem Ok.onTimeout (h : Ok r) (ht : track ∈ r.expiring) :
    Ok (onTimeout r track) :=
  h.settle .onTimeout (onTimeout_outstanding ht)

theorem Ok.cleanup (h : Ok r) (now : Int) : Ok (cleanup r now) :=
  h.move h.release (cleanup_outstanding h.release now) h.returned

theorem Ok.shutdownClear (h : Ok r) : Ok (shutdownClear r) := by
  have hmoved : Ok { r with
      timeout := r.timeout.clear.2
      expiring := r.timeout.clear.1 ++ r.expiring } :=
    h.move h.release (shutdownClear_outstanding h.release) h.returned
  exact ⟨hmoved.managed, hmoved.release, hmoved.calls, hmoved.returned,
    (by rintro (hs | hs) <;> cases hs), (by rintro ⟨⟩)⟩

theorem Ok.shutdownErase (h : Ok r) : Ok (shutdownErase r) :=
  ⟨h.managed.eraseAll, h.release, h.calls, h.returned, fun _ => rfl,
    (by rintro ⟨⟩)⟩

/-- Hosts are added: nothing is erased any more. -/
theorem Ok.reopen (h : Ok r) {map : ObjectMap Key}
    (adding : List (Key × Object))
    (hm : Managed map (adding ++ r.references)) :
    Ok { r with map := map, adding := adding ++ r.adding, stage := .open } := by
  refine ⟨hm.permHeld ?_, h.release, h.calls, h.returned,
    (by rintro (hs | hs) <;> cases hs), (by rintro ⟨⟩)⟩
  refine List.perm_iff_count.mpr fun c => ?_
  simp only [AsyncRouter.references, AsyncRouter.outstanding, List.count_append]
  omega

theorem Ok.addRelease (h : Ok r) {host : Key} {c : Object}
    (hin : (host, c) ∈ r.adding) : Ok (addRelease r host c) := by
  have href : (host, c) ∈ r.references := List.mem_append_right _ hin
  refine ⟨(h.managed.release href).permHeld ?_, h.release, h.calls, h.returned,
    fun hs => ?_, fun hs => ?_⟩
  · have hperm : r.references.Perm ((host, c) ::
        (r.outstanding.map Track.reference ++ r.adding.erase (host, c))) :=
      ((List.perm_cons_erase hin).append_left _).trans List.perm_middle
    have herase := hperm.erase (host, c)
    rw [List.erase_cons_head] at herase
    exact herase
  · exact (release_of_empty (h.erased hs)).1 ▸ h.erased hs
  · exact (release_of_empty (h.erased (.inr hs))).2 (h.closed hs)

theorem Ok.del (h : Ok r) (host : Key) :
    Ok { r with map := doErase r.map host } := by
  refine ⟨h.managed.doErase host, h.release, h.calls, h.returned,
    fun hs => ?_, fun hs => ?_⟩
  · show (doErase r.map host).map.entries = []
    rw [doErase_of_empty (h.erased hs)]
    exact h.erased hs
  · show (doErase r.map host).drop = []
    rw [doErase_of_empty (h.erased (.inr hs))]
    exact h.closed hs

-- ── Runs ─────────────────────────────────────────────────────────────────────

theorem ok_new (defaultTimeout : Int) :
    Ok (.new defaultTimeout : AsyncRouter Key Seq Channel) :=
  ⟨managed_empty, rfl, .refl _, fun p hp => absurd hp List.not_mem_nil,
    (by rintro (hs | hs) <;> cases hs), (by rintro ⟨⟩)⟩

/-- One critical section keeps the accounts. -/
theorem Ok.step {a : Step Key Seq} (h : Ok r) (hs : next r channel a = some r') :
    Ok r' := by
  cases a with
  | getContext seq task =>
      obtain rfl := Option.some.inj hs
      exact h.getContext seq task
  | getInsert track now timeout =>
      obtain ⟨ht, heq⟩ := Option.ite_none_right_eq_some.mp hs
      obtain rfl := Option.some.inj heq
      exact h.getInsert ht
  | putErase seq wanted =>
      obtain rfl := Option.some.inj hs
      exact h.putErase seq wanted
  | putRelease track wanted =>
      obtain ⟨ht, heq⟩ := Option.ite_none_right_eq_some.mp hs
      obtain rfl := Option.some.inj heq
      exact h.putRelease ht
  | onTimeout track =>
      obtain ⟨ht, heq⟩ := Option.ite_none_right_eq_some.mp hs
      obtain rfl := Option.some.inj heq
      exact h.onTimeout ht
  | cleanup now =>
      obtain rfl := Option.some.inj hs
      exact h.cleanup now
  | shutdownClear =>
      obtain ⟨-, heq⟩ := Option.ite_none_right_eq_some.mp hs
      obtain rfl := Option.some.inj heq
      exact h.shutdownClear
  | shutdownErase =>
      obtain ⟨-, heq⟩ := Option.ite_none_right_eq_some.mp hs
      obtain rfl := Option.some.inj heq
      exact h.shutdownErase
  | shutdownReturn =>
      obtain ⟨⟨hstage, hdrop⟩, heq⟩ := Option.ite_none_right_eq_some.mp hs
      obtain rfl := Option.some.inj heq
      exact ⟨h.managed, h.release, h.calls, h.returned,
        fun _ => h.erased (.inl hstage), fun _ => hdrop⟩
  | addHost host create =>
      obtain ⟨-, heq⟩ := Option.ite_none_right_eq_some.mp hs
      obtain rfl := Option.some.inj heq
      exact h.reopen _ (h.managed.add host create)
  | addRelease host c =>
      obtain ⟨hin, heq⟩ := Option.ite_none_right_eq_some.mp hs
      obtain rfl := Option.some.inj heq
      exact h.addRelease hin
  | del host =>
      obtain rfl := Option.some.inj hs
      exact h.del host
  | setAll hosts =>
      obtain ⟨-, heq⟩ := Option.ite_none_right_eq_some.mp hs
      obtain rfl := Option.some.inj heq
      exact h.reopen [] (h.managed.setAll hosts)

theorem Ok.reachable {defaultTimeout : Int}
    (h : Reachable (asyncRouter channel defaultTimeout) r) : Ok r := by
  refine h.invariant ?_ ?_
  · rintro _ rfl
    exact ok_new defaultTimeout
  · intro _ _ _ _ ho hs
    exact ho.step hs

-- ── What a run comes to ──────────────────────────────────────────────────────

/-- No call is in the middle of something. -/
structure Quiet (r : AsyncRouter Key Seq Channel) : Prop where
  getting : r.getting = []
  putting : r.putting = []
  expiring : r.expiring = []
  adding : r.adding = []

/-- What the router may be relied on for: a call is settled once at most, and
    after `Shutdown` once exactly; a connection counts its tracks, those in the
    hands of a call with them; a connection in use is not destroyed. -/
structure Settles (r : AsyncRouter Key Seq Channel) : Prop where
  once : (r.settled.map (·.1)).Nodup
  shutdown : r.stage = .closed →
    ∀ p ∈ r.returned, (r.settled.map (·.1)).count p.1 = 1
  counted : ∀ key c n, (key, c, n) ∈ r.map.map.entries ++ r.map.drop →
    n = (r.outstanding.map Track.reference).count (key, c) +
      r.adding.count (key, c)
  pool : Quiet r → ∀ key c n, (key, c, n) ∈ r.map.map.entries ++ r.map.drop →
    n = (r.timeout.values.map Track.reference).count (key, c)
  alive : ∀ track ∈ r.outstanding, track.context ∉ r.map.destroyed

theorem Ok.settles (h : Ok r) : Settles r := by
  have hcalls := h.calls.nodup_iff.mpr List.nodup_range
  have hcounted : ∀ key c n, (key, c, n) ∈ r.map.map.entries ++ r.map.drop →
      n = (r.outstanding.map Track.reference).count (key, c) +
        r.adding.count (key, c) := by
    intro key c n hin
    rw [← List.count_append]
    exact h.managed.counted.count _ hin
  refine ⟨(List.nodup_append.mp hcalls).2.1, fun hs p hp => ?_, hcounted, ?_,
    fun track ht => ?_⟩
  · have hrefs := h.managed.held_of_empty (h.erased (.inr hs)) (h.closed hs)
    have hout : r.outstanding = [] :=
      List.map_eq_nil_iff.mp (List.append_eq_nil_iff.mp hrefs).1
    have hperm := h.calls
    rw [hout] at hperm
    refine (hperm.count_eq p.1).trans ?_
    exact List.count_eq_one_of_mem List.nodup_range
      (List.mem_range.mpr (h.returned p hp))
  · intro hq key c n hin
    have hn := hcounted key c n hin
    rw [AsyncRouter.outstanding, hq.getting, hq.putting, hq.expiring, hq.adding,
      List.map_nil, List.append_nil, List.append_nil, List.append_nil,
      List.count_nil] at hn
    exact hn
  · have href : (track.key, track.context) ∈ r.references :=
      List.mem_append_left _ (List.mem_map.mpr ⟨track, ht, rfl⟩)
    have hw : RefCounted (⟨r.map, r.references⟩ : World Key) :=
      h.managed.refCounted
    exact hw.alive _ _ href

/-- **EVERY CALL IS SETTLED ONCE**: whatever the calls of whatever threads, the
    sequence numbers, the clock and the answers. -/
theorem settled_exactly_once {defaultTimeout : Int}
    (h : Reachable (asyncRouter channel defaultTimeout) r) : Settles r :=
  (Ok.reachable h).settles

/-- A host is added, two calls share a sequence number, the second is answered,
    and the router is shut down. -/
theorem settled_exactly_once_replaced :
    ∃ r : AsyncRouter Nat Nat Nat, r.stage = .closed ∧
      r.settled = [(0, .onTimeout), (1, .put true)] ∧ Settles r := by
  have h₁ := Reachable.next (M := asyncRouter id 0) (.start rfl)
    (show next (.new 0 : AsyncRouter Nat Nat Nat) id (.addHost 5 true) =
      some _ from rfl)
  have h₂ := h₁.next (show next _ id (.addRelease 5 0) = some _ from rfl)
  have h₃ := h₂.next (show next _ id (.getContext 9 none) = some _ from rfl)
  have h₄ := h₃.next
    (show next _ id (.getInsert ⟨0, 9, none, 5, 0⟩ 1 0) = some _ from rfl)
  have h₅ := h₄.next (show next _ id (.getContext 9 (some 3)) = some _ from rfl)
  have h₆ := h₅.next
    (show next _ id (.getInsert ⟨1, 9, some 3, 5, 0⟩ 2 0) = some _ from rfl)
  have h₇ := h₆.next
    (show next _ id (.onTimeout ⟨0, 9, none, 5, 0⟩) = some _ from rfl)
  have h₈ := h₇.next (show next _ id (.putErase 9 true) = some _ from rfl)
  have h₉ := h₈.next
    (show next _ id (.putRelease ⟨1, 9, some 3, 5, 0⟩ true) = some _ from rfl)
  have h₁₀ := h₉.next (show next _ id .shutdownClear = some _ from rfl)
  have h₁₁ := h₁₀.next (show next _ id .shutdownErase = some _ from rfl)
  have h₁₂ := h₁₁.next (show next _ id .shutdownReturn = some _ from rfl)
  exact ⟨_, rfl, rfl, settled_exactly_once h₁₂⟩

end FlinterAsyncRouter
