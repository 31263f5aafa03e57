import Flinter.AsyncRouterProofs

/-! # AsyncRouter: who releases a task

    A task given to `Get` belongs to the router until `Put` hands it back or
    `OnTimeout` deletes it.  It leaves by four routes: a `Put` takes its track
    out of the pool, its time is up, its sequence number is used again, or the
    pool is cleared.  A `Lifetime` is the router with `Clear` and the destructor
    and, as a ghost record, where the tracks went.

    No route settles a task twice.  Two of them do not settle it at all: a `Put`
    without an out-parameter deletes the track and forgets the task, and under
    `_clearing` the destructor of a track does nothing (`tasks_released`,
    `leaks_tasks`). -/

namespace FlinterAsyncRouter

open OrderedMaps Runs FlinterObjectMap FlinterTimeoutPool

variable {Key Seq Channel : Type} [LinearOrder Key] [LinearOrder Seq]

-- ── Clear and the destructor ─────────────────────────────────────────────────

/-- `AsyncRouter::Clear`.  `_clearing` is set throughout, so that `OnTimeout` of
    the tracks that the pool deletes returns at once. -/
def AsyncRouter.clear (r : AsyncRouter Key Seq Channel) :
    AsyncRouter Key Seq Channel :=
  { r with timeout := r.timeout.clear.2, map := FlinterObjectMap.clear r.map }

/-- No call is in progress: `Clear` is not thread safe. -/
def AsyncRouter.rests (r : AsyncRouter Key Seq Channel) : Bool :=
  r.getting.isEmpty && r.putting.isEmpty && r.expiring.isEmpty &&
    r.adding.isEmpty && r.stage.rests

/-- A router until it is destroyed.  The ghost lists are the tracks of the calls
    of `Get` that returned true, those whose task a `Put` handed back, those
    whose task `OnTimeout` deleted, and those that were deleted without either. -/
structure Lifetime (Key Seq Channel : Type) [LinearOrder Key] [LinearOrder Seq]
    where
  router : AsyncRouter Key Seq Channel
  destroyed : Bool
  got : List (Track Key Seq)
  handed : List (Track Key Seq)
  deleted : List (Track Key Seq)
  dropped : List (Track Key Seq)

inductive Event (Key Seq : Type) where
  | step (a : Step Key Seq)
  | clear
  | destroy
deriving DecidableEq, Repr

variable (l : Lifetime Key Seq Channel)

/-- Where a critical section leaves the tracks. -/
def Lifetime.after (a : Step Key Seq) (r : AsyncRouter Key Seq Channel) :
    Lifetime Key Seq Channel :=
  match a with
  | .getInsert track _ _ => { l with router := r, got := l.got ++ [track] }
  | .putRelease track true => { l with router := r, handed := l.handed ++ [track] }
  | .putRelease track false =>
    { l with router := r, dropped := l.dropped ++ [track] }
  | .onTimeout track => { l with router := r, deleted := l.deleted ++ [track] }
  | _ => { l with router := r }

/-- `AsyncRouter::Clear`, with the tracks that it deletes. -/
def Lifetime.clear : Lifetime Key Seq Channel :=
  { l with
    router := l.router.clear
    dropped := l.dropped ++ l.router.timeout.clear.1 }

/-- `AsyncRouter::~AsyncRouter`. -/
def Lifetime.destroy : Lifetime Key Seq Channel :=
  { l.clear with destroyed := true }

def Lifetime.next (channel : Object → Channel) :
    Event Key Seq → Option (Lifetime Key Seq Channel)
  | .step a =>
    if l.destroyed then none
    else (FlinterAsyncRouter.next l.router channel a).map (l.after a)
  | .clear => if l.destroyed ∨ ¬l.router.rests then none else some l.clear
  | .destroy => if l.destroyed ∨ ¬l.router.rests then none else some l.destroy

/-- The runs of a router from its constructor to its destructor. -/
def lifetime (channel : Object → Channel) (defaultTimeout : Int) :
    System (Lifetime Key Seq Channel) (Event Key Seq) where
  init := fun l => l = ⟨.new defaultTimeout, false, [], [], [], []⟩
  step := fun l e l' => l.next channel e = some l'

-- ── The accounts ─────────────────────────────────────────────────────────────

variable {l} {l' : Lifetime Key Seq Channel} {r : AsyncRouter Key Seq Channel}
variable {track : Track Key Seq} {channel : Object → Channel}

/-- Where a track can be. -/
def Lifetime.tracks (l : Lifetime Key Seq Channel) : List (Track Key Seq) :=
  l.router.outstanding ++ (l.handed ++ (l.deleted ++ l.dropped))

/-- **THE INVARIANT**: every call has one track, and that is in one place. -/
structure Owned (l : Lifetime Key Seq Channel) : Prop where
  release : l.router.timeout.autoRelease = true
  calls : (l.tracks.map (·.call)).Perm (List.range l.router.calls)
  got : ∀ track ∈ l.got, track ∈ l.tracks
  ended : l.destroyed = true → l.router.outstanding = []

/-- Tracks change hands. -/
theorem Owned.move (h : Owned l) (hrelease : l'.router.timeout.autoRelease = true)
    (hcalls : l'.router.calls = l.router.calls)
    (hperm : l'.tracks.Perm l.tracks)
    (hgot : ∀ track ∈ l'.got, track ∈ l.got ∨ track ∈ l.tracks)
    (hended : l'.destroyed = true → l'.router.outstanding = []) : Owned l' where
  release := hrelease
  calls := by
    rw [hcalls]
    exact (hperm.map _).trans h.calls
  got := by
    intro track ht
    rcases hgot track ht with hg | hg
    · exact hperm.mem_iff.mpr (h.got track hg)
    · exact hperm.mem_iff.mpr hg
  ended := hended

/-- The router changes, and no track goes anywhere. -/
theorem Owned.stay (h : Owned l) (hopen : l.destroyed = false)
    (hrelease : r.timeout.autoRelease = true) (hcalls : r.calls = l.router.calls)
    (hperm : r.outstanding.Perm l.router.outstanding) :
    Owned { l with router := r } := by
  refine h.move hrelease hcalls (hperm.append_right _) (fun _ ht => .inl ht)
    fun hd => ?_
  rw [hopen] at hd
  cases hd

theorem Owned.getContext (h : Owned l) (hopen : l.destroyed = false) (seq : Seq)
    (task : Option Task) :
    Owned { l with router := getContext l.router seq task } := by
  rcases getContext_outstanding (r := l.router) seq task with
    ⟨-, heq⟩ | ⟨c, -, heq, hperm⟩
  · rw [heq]
    exact h.stay hopen h.release rfl (.refl _)
  · rw [heq] at hperm ⊢
    -- a new track, under the next number
    refine ⟨h.release, ?_, fun track ht => ?_, fun hd => ?_⟩
    · refine ((hperm.append_right _).map _).trans ?_
      rw [List.range_succ]
      exact (h.calls.cons _).trans (List.perm_append_singleton _ _).symm
    · exact (hperm.append_right _).mem_iff.mpr
        (List.mem_cons_of_mem _ (h.got track ht))
    · rw [show l.destroyed = true from hd] at hopen
      cases hopen

theorem Owned.getInsert (h : Owned l) (hopen : l.destroyed = false)
    (ht : track ∈ l.router.getting) (now timeout : Int) :
    Owned { l with
      router := getInsert l.router channel track now timeout
      got := l.got ++ [track] } := by
  refine h.move (TimeoutPool.autoRelease_insert.trans h.release) rfl
    ((getInsert_outstanding channel h.release ht now timeout).append_right _)
    (fun t hmem => ?_) fun hd => ?_
  · rcases List.mem_append.mp hmem with hg | hg
    · exact .inl hg
    · obtain rfl := List.mem_singleton.mp hg
      exact .inr (List.mem_append_left _
        (List.mem_append_right _ (List.mem_append_left _ ht)))
  · rw [show l.destroyed = true from hd] at hopen
    cases hopen

theorem Owned.putErase (h : Owned l) (hopen : l.destroyed = false) (seq : Seq)
    (wanted : Bool) : Owned { l with router := putErase l.router seq wanted } := by
  have hperm := putErase_outstanding (r := l.router) seq wanted
  rcases putErase_cases (r := l.router) seq wanted with ⟨-, heq⟩ | ⟨u, -, heq⟩
  · rw [heq]
    exact h.stay hopen h.release rfl (.refl _)
  · rw [heq] at hperm ⊢
    exact h.stay hopen (TimeoutPool.autoRelease_erase.trans h.release) rfl hperm

/-- A track leaves the router for one of the lists. -/
theorem Owned.leave (h : Owned l) (hopen : l'.destroyed = false)
    (hrelease : l'.router.timeout.autoRelease = true)
    (hcalls : l'.router.calls = l.router.calls) (hgot : l'.got = l.got)
    (hout : l.router.outstanding.Perm (track :: l'.router.outstanding))
    (hlists : (l'.handed ++ (l'.deleted ++ l'.dropped)).Perm
      (track :: (l.handed ++ (l.deleted ++ l.dropped)))) : Owned l' := by
  refine h.move hrelease hcalls ?_ (fun t ht => .inl (hgot ▸ ht)) fun hd => ?_
  · refine ((hlists.append_left _).trans List.perm_middle).trans ?_
    exact (hout.append_right _).symm
  · rw [hopen] at hd
    cases hd

theorem Owned.putRelease (h : Owned l) (hopen : l.destroyed = false)
    {wanted : Bool} (ht : (track, wanted) ∈ l.router.putting) :
    Owned (l.after (.putRelease track wanted)
      (putRelease l.router track wanted)) := by
  have hout := putRelease_outstanding ht
  cases wanted with
  | true =>
      refine h.leave hopen h.release rfl rfl hout ?_
      show ((l.handed ++ [track]) ++ (l.deleted ++ l.dropped)).Perm _
      rw [List.append_assoc]
      exact List.perm_middle
  | false =>
      refine h.leave hopen h.release rfl rfl hout ?_
      show (l.handed ++ (l.deleted ++ (l.dropped ++ [track]))).Perm _
      rw [← List.append_assoc, ← List.append_assoc, ← List.append_assoc]
      exact List.perm_append_singleton _ _

theorem Owned.onTimeout (h : Owned l) (hopen : l.destroyed = false)
    (ht : track ∈ l.router.expiring) :
    Owned { l with
      router := onTimeout l.router track
      deleted := l.deleted ++ [track] } := by
  refine h.leave hopen h.release rfl rfl (onTimeout_outstanding ht) ?_
  refine List.perm_iff_count.mpr fun t => ?_
  simp only [List.count_append, List.count_cons, List.count_nil]
  omega

/-- Nothing is outstanding in a router at rest but what is in the pool. -/
theorem rests_outstanding (hrests : r.rests = true) :
    r.outstanding = r.timeout.values := by
  simp only [AsyncRouter.rests, Bool.and_eq_true, List.isEmpty_iff] at hrests
  obtain ⟨⟨⟨⟨hget, hput⟩, hexp⟩, -⟩, -⟩ := hrests
  rw [AsyncRouter.outstanding, hget, hput, hexp]
  exact List.append_nil _

theorem clear_outstanding (hrests : r.rests = true) : r.clear.outstanding = [] := by
  have hclear : r.clear.rests = true := hrests
  rw [rests_outstanding hclear]
  rfl

/-- `Clear` drops what is in the pool. -/
theorem Owned.clear (h : Owned l) (hrests : l.router.rests = true)
    (destroyed : Bool) : Owned { l.clear with destroyed := destroyed } := by
  have hvalues := (TimeoutPool.clear_perm h.release).1
  refine h.move h.release rfl ?_ (fun _ ht => .inl ht)
    fun _ => clear_outstanding hrests
  show (l.router.clear.outstanding ++ (l.handed ++ (l.deleted ++
    (l.dropped ++ l.router.timeout.clear.1)))).Perm _
  rw [clear_outstanding hrests, hvalues, Lifetime.tracks, rests_outstanding hrests]
  refine List.perm_iff_count.mpr fun t => ?_
  simp only [List.count_append, List.count_nil]
  omega

/-- **ONE STEP** of a router that is not destroyed: a new call gets its one track,
    and a track that leaves its place goes to one other. -/
theorem Owned.step {a : Step Key Seq} (h : Owned l) (hopen : l.destroyed = false)
    (hs : FlinterAsyncRouter.next l.router channel a = some r) :
    Owned (l.after a r) := by
  cases a with
  | getContext seq task =>
      obtain rfl := Option.some.inj hs
      exact h.getContext hopen seq task
  | getInsert track now timeout =>
      obtain ⟨ht, heq⟩ := Option.ite_none_right_eq_some.mp hs
      obtain rfl := Option.some.inj heq
      exact h.getInsert hopen ht now timeout
  | putErase seq wanted =>
      obtain rfl := Option.some.inj hs
      exact h.putErase hopen seq wanted
  | putRelease track wanted =>
      obtain ⟨ht, heq⟩ := Option.ite_none_right_eq_some.mp hs
      obtain rfl := Option.some.inj heq
      exact h.putRelease hopen ht
  | onTimeout track =>
      obtain ⟨ht, heq⟩ := Option.ite_none_right_eq_some.mp hs
      obtain rfl := Option.some.inj heq
      exact h.onTimeout hopen ht
  | cleanup now =>
      obtain rfl := Option.some.inj hs
      exact h.stay hopen h.release rfl (cleanup_outstanding h.release now)
  | shutdownClear =>
      obtain ⟨-, heq⟩ := Option.ite_none_right_eq_some.mp hs
      obtain rfl := Option.some.inj heq
      exact h.stay hopen h.release rfl (shutdownClear_outstanding h.release)
  | shutdownErase =>
      obtain ⟨-, heq⟩ := Option.ite_none_right_eq_some.mp hs
      obtain rfl := Option.some.inj heq
      exact h.stay hopen h.release rfl (.refl _)
  | shutdownReturn =>
      obtain ⟨-, heq⟩ := Option.ite_none_right_eq_some.mp hs
      obtain rfl := Option.some.inj heq
      exact h.stay hopen h.release rfl (.refl _)
  | addHost host create =>
      obtain ⟨-, heq⟩ := Option.ite_none_right_eq_some.mp hs
      obtain rfl := Option.some.inj heq
      exact h.stay hopen h.release rfl (.refl _)
  | addRelease host c =>
      obtain ⟨-, heq⟩ := Option.ite_none_right_eq_some.mp hs
      obtain rfl := Option.some.inj heq
      exact h.stay hopen h.release rfl (.refl _)
  | del host =>
      obtain rfl := Option.some.inj hs
      exact h.stay hopen h.release rfl (.refl _)
  | setAll hosts =>
      obtain ⟨-, heq⟩ := Option.ite_none_right_eq_some.mp hs
      obtain rfl := Option.some.inj heq
      exact h.stay hopen h.release rfl (.refl _)

/-- What an event does: a critical section, or a `Clear` at rest. -/
theorem next_eq_some {e : Event Key Seq} (hs : l.next channel e = some l') :
    l.destroyed = false ∧
    ((∃ a r, e = .step a ∧ FlinterAsyncRouter.next l.router channel a = some r ∧
        l' = l.after a r) ∨
      (∃ destroyed, (e = .clear ∨ e = .destroy) ∧ l.router.rests = true ∧
        l' = { l.clear with destroyed := destroyed })) := by
  cases e with
  | step a =>
      obtain ⟨hopen, hs⟩ := Option.ite_none_left_eq_some.mp hs
      obtain ⟨r, hr, heq⟩ := Option.map_eq_some_iff.mp hs
      exact ⟨Bool.eq_false_iff.mpr hopen, .inl ⟨a, r, rfl, hr, heq.symm⟩⟩
  | clear =>
      obtain ⟨hguard, hs⟩ := Option.ite_none_left_eq_some.mp hs
      obtain ⟨hopen, hrests⟩ := not_or.mp hguard
      have hfalse := Bool.eq_false_iff.mpr hopen
      refine ⟨hfalse, .inr ⟨false, .inl rfl, not_not.mp hrests, ?_⟩⟩
      rw [← Option.some.inj hs, ← hfalse]
      rfl
  | destroy =>
      obtain ⟨hguard, hs⟩ := Option.ite_none_left_eq_some.mp hs
      obtain ⟨hopen, hrests⟩ := not_or.mp hguard
      exact ⟨Bool.eq_false_iff.mpr hopen, .inr ⟨true, .inr rfl,
        not_not.mp hrests, (Option.some.inj hs).symm⟩⟩

theorem Owned.next {e : Event Key Seq} (h : Owned l)
    (hs : l.next channel e = some l') : Owned l' := by
  obtain ⟨hopen, ⟨a, r, -, hr, rfl⟩ | ⟨destroyed, -, hrests, rfl⟩⟩ :=
    next_eq_some hs
  · exact h.step hopen hr
  · exact h.clear hrests destroyed

theorem Owned.reachable {defaultTimeout : Int}
    (h : Reachable (lifetime channel defaultTimeout) l) : Owned l := by
  refine h.invariant ?_ ?_
  · rintro _ rfl
    exact ⟨rfl, .refl _, fun _ ht => absurd ht List.not_mem_nil, fun hd => by cases hd⟩
  · intro _ _ _ _ ho hs
    exact ho.next hs

-- ── Tasks ────────────────────────────────────────────────────────────────────

/-- What is asked of a router that is destroyed: a task was handed back or
    deleted, and once. -/
def TasksSettled (l : Lifetime Key Seq Channel) : Prop :=
  l.destroyed = true → ∀ track ∈ l.got, track.task ≠ none →
    (l.handed ++ l.deleted).count track = 1

/-- **THE CONDITION** on an event: a `Put` without an out-parameter finds no
    task, and nor does a `Clear` in the pool. -/
def KeepsTasks (l : Lifetime Key Seq Channel) : Event Key Seq → Prop
  | .step (.putErase seq false) =>
    ∀ track, (l.router.timeout.erase seq).1 = some track → track.task = none
  | .step _ => True
  | .clear => ∀ track ∈ l.router.timeout.values, track.task = none
  | .destroy => ∀ track ∈ l.router.timeout.values, track.task = none

/-- What is dropped, and what will be, has no task. -/
structure Tasked (l : Lifetime Key Seq Channel) : Prop where
  putting : ∀ track, (track, false) ∈ l.router.putting → track.task = none
  dropped : ∀ track ∈ l.dropped, track.task = none

/-- No track is in two places. -/
theorem Owned.nodup (h : Owned l) : l.tracks.Nodup :=
  .of_map (·.call) (h.calls.nodup_iff.mpr List.nodup_range)

/-- A track that was dropped is neither handed back nor deleted. -/
theorem Owned.dropped_lost (h : Owned l) (ht : track ∈ l.dropped) :
    (l.handed ++ l.deleted).count track = 0 := by
  have hlists := (List.nodup_append.mp h.nodup).2.1
  rw [← List.append_assoc] at hlists
  refine List.count_eq_zero.mpr fun hmem => ?_
  exact (List.nodup_append.mp hlists).2.2 track hmem track ht rfl

/-- **SETTLED UNLESS DROPPED**: at the end a task was handed back or deleted
    exactly once if its track was not dropped. -/
theorem Owned.settled (h : Owned l) (hend : l.destroyed = true)
    (ht : track ∈ l.got) (hkept : track ∉ l.dropped) :
    (l.handed ++ l.deleted).count track = 1 := by
  have hmem := h.got track ht
  have hnodup := h.nodup
  rw [Lifetime.tracks, h.ended hend, List.nil_append, ← List.append_assoc]
    at hmem hnodup
  have hin : track ∈ l.handed ++ l.deleted :=
    (List.mem_append.mp hmem).resolve_right hkept
  exact List.count_eq_one_of_mem (List.nodup_append.mp hnodup).1 hin

/-- A `Put` in progress began by taking its track out of the pool. -/
theorem next_putting {a : Step Key Seq} {r r' : AsyncRouter Key Seq Channel}
    (hs : FlinterAsyncRouter.next r channel a = some r') :
    ∀ p ∈ r'.putting, p ∈ r.putting ∨
      ∃ seq, a = .putErase seq p.2 ∧ (r.timeout.erase seq).1 = some p.1 := by
  intro p hp
  cases a with
  | getContext seq task =>
      obtain rfl := Option.some.inj hs
      rcases getContext_outstanding (r := r) seq task with
        ⟨-, heq⟩ | ⟨c, -, heq, -⟩ <;> rw [heq] at hp <;> exact .inl hp
  | putErase seq wanted =>
      obtain rfl := Option.some.inj hs
      rcases putErase_cases (r := r) seq wanted with ⟨-, heq⟩ | ⟨u, hu, heq⟩
      · rw [heq] at hp
        exact .inl hp
      · rw [heq] at hp
        rcases List.mem_cons.mp hp with rfl | hp
        · exact .inr ⟨seq, rfl, hu⟩
        · exact .inl hp
  | putRelease track wanted =>
      obtain ⟨-, heq⟩ := Option.ite_none_right_eq_some.mp hs
      obtain rfl := Option.some.inj heq
      exact .inl (List.mem_of_mem_erase hp)
  | cleanup now =>
      obtain rfl := Option.some.inj hs
      exact .inl hp
  | del host =>
      obtain rfl := Option.some.inj hs
      exact .inl hp
  | _ =>
      obtain ⟨-, heq⟩ := Option.ite_none_right_eq_some.mp hs
      obtain rfl := Option.some.inj heq
      exact .inl hp

theorem Tasked.step {a : Step Key Seq} (h : Tasked l)
    (hkeeps : KeepsTasks l (.step a))
    (hs : FlinterAsyncRouter.next l.router channel a = some r) :
    Tasked (l.after a r) := by
  have hputting : ∀ track, (track, false) ∈ r.putting → track.task = none := by
    intro track ht
    rcases next_putting hs _ ht with hold | ⟨seq, rfl, herase⟩
    · exact h.putting track hold
    · exact hkeeps track herase
  cases a with
  | putRelease track wanted =>
      obtain ⟨ht, -⟩ := Option.ite_none_right_eq_some.mp hs
      cases wanted with
      | true => exact ⟨hputting, h.dropped⟩
      | false =>
          refine ⟨hputting, fun t hmem => ?_⟩
          rcases List.mem_append.mp hmem with hold | hnew
          · exact h.dropped t hold
          · rw [List.mem_singleton.mp hnew]
            exact h.putting track ht
  | _ => exact ⟨hputting, h.dropped⟩

/-- What `Clear` drops was in the pool. -/
theorem Tasked.clear (h : Tasked l)
    (hkeeps : ∀ track ∈ l.router.timeout.values, track.task = none)
    (destroyed : Bool) : Tasked { l.clear with destroyed := destroyed } := by
  refine ⟨h.putting, fun track hmem => ?_⟩
  rcases List.mem_append.mp hmem with hold | hnew
  · exact h.dropped track hold
  · refine hkeeps track ?_
    have hsub : l.router.timeout.clear.1 ⊆ l.router.timeout.values := by
      show l.router.timeout.released _ ⊆ _
      rw [TimeoutPool.released]
      split
      · exact List.Subset.refl _
      · exact List.nil_subset _
    exact hsub hnew

theorem Tasked.reachable {defaultTimeout : Int}
    (h : Reachable ((lifetime channel defaultTimeout).restrict KeepsTasks) l) :
    Tasked l := by
  refine h.invariant ?_ ?_
  · rintro _ rfl
    exact ⟨fun _ ht => absurd ht List.not_mem_nil,
      fun _ ht => absurd ht List.not_mem_nil⟩
  · rintro l e l' - ht ⟨hkeeps, hs⟩
    obtain ⟨-, ⟨a, r, rfl, hr, rfl⟩ | ⟨destroyed, he, -, rfl⟩⟩ := next_eq_some hs
    · exact ht.step hkeeps hr
    · refine ht.clear ?_ destroyed
      rcases he with rfl | rfl
      · exact hkeeps
      · exact hkeeps

/-- **EVERY TASK IS RELEASED ONCE** in every run in which no `Put` without an
    out-parameter finds a task and no `Clear` finds one in the pool. -/
theorem tasks_released {defaultTimeout : Int}
    (h : Reachable ((lifetime channel defaultTimeout).restrict KeepsTasks) l) :
    TasksSettled l := by
  intro hend track ht htask
  refine (Owned.reachable h.of_restrict).settled hend ht fun hdropped => ?_
  exact htask ((Tasked.reachable h).dropped track hdropped)

/-- A run whose steps meet the condition goes on. -/
theorem keeps_next {defaultTimeout : Int} {e : Event Key Seq}
    (h : Reachable ((lifetime channel defaultTimeout).restrict KeepsTasks) l)
    (hkeeps : KeepsTasks l e) (hs : l.next channel e = some l') :
    Reachable ((lifetime channel defaultTimeout).restrict KeepsTasks) l' :=
  .next h ⟨hkeeps, hs⟩

/-- Two calls share a sequence number: the first task is deleted, the second is
    handed back. -/
theorem tasks_released_both :
    ∃ l : Lifetime Nat Nat Nat, l.destroyed = true ∧
      l.got = [⟨0, 9, some 2, 5, 0⟩, ⟨1, 9, some 3, 5, 0⟩] ∧ TasksSettled l := by
  have h₀ : Reachable ((lifetime id 0).restrict KeepsTasks)
      (⟨.new 0, false, [], [], [], []⟩ : Lifetime Nat Nat Nat) := .start rfl
  have h₁ := keeps_next h₀ (e := .step (.addHost 5 true)) trivial rfl
  have h₂ := keeps_next h₁ (e := .step (.addRelease 5 0)) trivial rfl
  have h₃ := keeps_next h₂ (e := .step (.getContext 9 (some 2))) trivial rfl
  have h₄ := keeps_next h₃
    (e := .step (.getInsert ⟨0, 9, some 2, 5, 0⟩ 1 0)) trivial rfl
  have h₅ := keeps_next h₄ (e := .step (.getContext 9 (some 3))) trivial rfl
  have h₆ := keeps_next h₅
    (e := .step (.getInsert ⟨1, 9, some 3, 5, 0⟩ 2 0)) trivial rfl
  have h₇ := keeps_next h₆
    (e := .step (.onTimeout ⟨0, 9, some 2, 5, 0⟩)) trivial rfl
  have h₈ := keeps_next h₇ (e := .step (.putErase 9 true)) trivial rfl
  have h₉ := keeps_next h₈
    (e := .step (.putRelease ⟨1, 9, some 3, 5, 0⟩ true)) trivial rfl
  have h₁₀ := keeps_next h₉ (e := .destroy)
    (fun _ ht => absurd ht List.not_mem_nil) rfl
  exact ⟨_, rfl, rfl, tasks_released h₁₀⟩

/-- A call is answered by a `Put` that does not ask for its task; in another run
    a call is pending when the router is destroyed.  Neither task is handed back
    or deleted. -/
theorem leaks_tasks :
    (∃ l : Lifetime Nat Nat Nat, Reachable (lifetime id 0) l ∧
      l.router.settled = [(0, .put false)] ∧ ¬ TasksSettled l) ∧
    (∃ l : Lifetime Nat Nat Nat, Reachable (lifetime id 0) l ∧
      l.dropped = [⟨0, 9, some 3, 5, 0⟩] ∧ l.router.settled = [] ∧
      ¬ TasksSettled l) := by
  have h₀ : Reachable (lifetime id 0)
      (⟨.new 0, false, [], [], [], []⟩ : Lifetime Nat Nat Nat) := .start rfl
  have h₁ := h₀.next
    (show Lifetime.next _ id (.step (.addHost 5 true)) = some _ from rfl)
  have h₂ := h₁.next
    (show Lifetime.next _ id (.step (.addRelease 5 0)) = some _ from rfl)
  have h₃ := h₂.next
    (show Lifetime.next _ id (.step (.getContext 9 (some 3))) = some _ from rfl)
  have h₄ := h₃.next
    (show Lifetime.next _ id (.step (.getInsert ⟨0, 9, some 3, 5, 0⟩ 1 0)) =
      some _ from rfl)
  have h₅ := h₄.next
    (show Lifetime.next _ id (.step (.putErase 9 false)) = some _ from rfl)
  have h₆ := h₅.next
    (show Lifetime.next _ id (.step (.putRelease ⟨0, 9, some 3, 5, 0⟩ false)) =
      some _ from rfl)
  have h₇ := h₆.next
    (show Lifetime.next _ id (.destroy) = some _ from rfl)
  have h₈ := h₄.next
    (show Lifetime.next _ id (.destroy) = some _ from rfl)
  refine ⟨⟨_, h₇, rfl, fun hall => ?_⟩, ⟨_, h₈, rfl, rfl, fun hall => ?_⟩⟩
  · have hone := hall rfl ⟨0, 9, some 3, 5, 0⟩ List.mem_cons_self (by simp)
    rw [(Owned.reachable h₇).dropped_lost List.mem_cons_self] at hone
    cases hone
  · have hone := hall rfl ⟨0, 9, some 3, 5, 0⟩ List.mem_cons_self (by simp)
    rw [(Owned.reachable h₈).dropped_lost List.mem_cons_self] at hone
    cases hone

end FlinterAsyncRouter
