import Flinter.GrowableThreadPoolShutdownProofs

/-! # GrowableThreadPool: who joins and deletes a thread

    An `internal::Thread` is in `_threads` until it exits or `Shutdown` takes
    it.  One that exits before `Shutdown` goes to `_exited`, and a thread in
    `MaybeShrink` takes it from there.  Each is joined by whoever takes it, and
    what is in `_exited` is owed to a thread that reaps, so nothing is left
    there when `Shutdown` returns.

    Only `Shutdown` deletes what it joins.  `MaybeShrink` does not, so an object
    is lost for each thread that it gets rid of. -/

namespace FlinterGrowableThreadPool

open Runs Tallies

variable {Job : Type} {s s' u : GrowableThreadPool Job} {t reaped exits : Nat}
variable {p q : Place Job} {who jobs : Finset Nat} {a : Act Job}
variable {out : List Nat} {m : Nat}

/-- The pool from its constructor on. -/
def newPool (Job : Type) : System (GrowableThreadPool Job) (Act Job) where
  init := fun s => s = .new
  step := fun s a s' => next s a = some s'

/-- How often each thread has been joined and deleted, and whether `MaybeShrink`
    has shrunk the pool. -/
structure Ends where
  joined : Nat → Nat
  deleted : Nat → Nat
  shrunk : Bool

/-- Nothing has ended. -/
def Ends.none : Ends := ⟨fun _ => 0, fun _ => 0, false⟩

/-- `Shutdown` joins and deletes, `MaybeShrink` joins. -/
def note (s : GrowableThreadPool Job) (a : Act Job) (k : Ends) : Ends :=
  match a with
  | .joined => { k with
      joined := fun t => k.joined t + if t ∈ s.joining then 1 else 0
      deleted := fun t => k.deleted t + if t ∈ s.joining then 1 else 0 }
  | a => { k with
      joined := fun t => k.joined t + (reaps s a).count t
      shrunk := k.shrunk || shrinks s a }

-- ── Where threads are put ────────────────────────────────────────────────────

/-- What a step does with thread objects that makes no threads and shuts nothing
    down: it joins `out`, and a thread may exit. -/
inductive Passes (s : GrowableThreadPool Job) (out : List Nat)
    (s' : GrowableThreadPool Job) : Prop where
  | stays (hexited : s.exited = out ++ s'.exited)
      (hthreads : s'.threads = s.threads) (hjoining : s'.joining = s.joining)
      (hspawned : s'.spawned = s.spawned)
  | exits (t : Nat) (rest : List Nat) (ht : t ∈ s.threads)
      (hexited : s.exited = out ++ rest) (hexited' : s'.exited = rest ++ [t])
      (hthreads : s'.threads = s.threads.erase t)
      (hjoining : s'.joining = s.joining) (hspawned : s'.spawned = s.spawned)

/-- What came before has moved no thread object but those in `out`. -/
theorem Passes.after (h : Passes u [] s') (hexited : s.exited = out ++ u.exited)
    (hthreads : u.threads = s.threads) (hjoining : u.joining = s.joining)
    (hspawned : u.spawned = s.spawned) : Passes s out s' := by
  cases h with
  | stays hu hthreads' hjoining' hspawned' =>
      exact .stays (hexited.trans (congrArg _ hu)) (hthreads'.trans hthreads)
        (hjoining'.trans hjoining) (hspawned'.trans hspawned)
  | exits t rest ht hu hu' hthreads' hjoining' hspawned' =>
      refine .exits t rest (hthreads ▸ ht) (hexited.trans (congrArg _ hu)) hu' ?_
        (hjoining'.trans hjoining) (hspawned'.trans hspawned)
      rw [hthreads', hthreads]

/-- A thread that takes an exit before `Shutdown` goes to `_exited`. -/
theorem tryRequestJob_passes {terminated : Bool}
    (ht : s.initializing = false → t ∈ s.threads)
    (hs : s.tryRequestJob t terminated who = some s') : Passes s [] s' := by
  rw [GrowableThreadPool.tryRequestJob] at hs
  by_cases hpos : 0 < sizeT s.exits
  · rw [if_pos hpos] at hs
    dsimp only at hs
    split at hs
    next =>
      obtain rfl := Option.some.inj hs
      exact .stays rfl rfl rfl rfl
    next hopen =>
      obtain ⟨-, ⟨⟩⟩ := Option.ite_none_right_eq_some.mp hs
      exact .exits t s.exited (ht (Bool.eq_false_iff.mpr hopen)) rfl rfl rfl rfl rfl
  · rw [if_neg hpos] at hs
    split at hs
    next =>
      obtain rfl := Option.some.inj hs
      exact .stays rfl rfl rfl rfl
    next =>
      obtain rfl := Option.some.inj hs
      exact .stays rfl rfl rfl rfl

theorem take_append_drop_min (n : Nat) (l : List Nat) :
    l = l.take n ++ l.drop (min n l.length) := by
  rw [List.take_eq_take_min]
  exact (List.take_append_drop _ l).symm

theorem reap_passes (ht : s.initializing = false → t ∈ s.threads)
    (hs : s.reap t reaped exits who = some s') :
    Passes s (s.exited.take (exits - reaped)) s' := by
  have htake := take_append_drop_min (exits - reaped) s.exited
  rw [GrowableThreadPool.reap] at hs
  split at hs
  next =>
    have hpasses := tryRequestJob_passes
      (s := { s with exited := s.exited.drop _ }.setPlace t .woken) ht hs
    exact hpasses.after htake rfl rfl rfl
  next =>
    obtain rfl := Option.some.inj hs
    exact .stays htake rfl rfl rfl

theorem requestJob_passes (ht : s.initializing = false → t ∈ s.threads)
    (hs : s.requestJob t jobs who = some s') :
    Passes s (reaps s (.requestJob t jobs who)) s' := by
  have hshrink : ∀ {terminated : Bool},
      (s.enter t).maybeShrink t terminated jobs who = some s' →
      Passes s (reaps s (.requestJob t jobs who)) s' := by
    intro terminated hs
    rw [GrowableThreadPool.maybeShrink] at hs
    by_cases hcalm : (s.enter t).initializing = true ∨
        (s.enter t).idles < (s.enter t).threshold
    · rw [if_pos hcalm] at hs
      have hnot : shrinks s (.requestJob t jobs who) = false := by
        rcases hcalm with hinit | hlt
        · have hinit : s.initializing = true := hinit
          simp [shrinks, hinit]
        · simp [shrinks, hlt]
      have hnone : reaps s (.requestJob t jobs who) = [] :=
        if_neg (Bool.eq_false_iff.mp hnot)
      rw [hnone]
      exact (tryRequestJob_passes (s := s.enter t) ht hs).after rfl rfl rfl rfl
    · rw [if_neg hcalm] at hs
      obtain ⟨hopen, hge⟩ := not_or.mp hcalm
      have hopen : s.initializing = false := Bool.eq_false_iff.mpr hopen
      have hdoes : shrinks s (.requestJob t jobs who) = true := by
        simp [shrinks, hopen, Nat.le_of_not_lt hge]
      have hreaps : reaps s (.requestJob t jobs who) =
          s.exited.take (s.enter t).shrinkBy := if_pos hdoes
      obtain ⟨-, hs⟩ := Option.ite_none_right_eq_some.mp hs
      have hpasses := reap_passes (s := (s.enter t).shrink t jobs) ht hs
      rw [hreaps]
      cases hpasses with
      | stays hu hthreads hjoining hspawned =>
          exact .stays hu hthreads hjoining hspawned
      | exits v rest hv hu hu' hthreads hjoining hspawned =>
          exact .exits v rest hv hu hu' hthreads hjoining hspawned
  rw [GrowableThreadPool.requestJob] at hs
  split at hs
  next => exact hshrink hs
  next => exact hshrink hs
  next => cases hs

theorem resume_passes (ht : s.initializing = false → t ∈ s.threads)
    (hs : s.resume t who = some s') : Passes s (reaps s (.resume t who)) s' := by
  rw [GrowableThreadPool.resume] at hs
  split at hs
  next hp =>
    have hnone : reaps s (.resume t who) = [] := by rw [reaps, hp]
    rw [hnone]
    exact tryRequestJob_passes ht hs
  next reaped exits hp =>
    have hreaps : reaps s (.resume t who) = s.exited.take (exits - reaped) := by
      rw [reaps, hp]
    rw [hreaps]
    exact reap_passes ht hs
  next => cases hs

/-- A step of a thread, or one that wakes or cancels one. -/
def Threadlike : Act Job → Prop
  | .requestJob _ _ _ | .resume _ _ | .stir _ | .cancel _ => True
  | _ => False

theorem next_passes (hlive : s.initializing = false →
      ∀ t, (s.place t).live = 1 → t ∈ s.threads)
    (ha : Threadlike a) (hs : next s a = some s') : Passes s (reaps s a) s' := by
  cases a with
  | requestJob t jobs who =>
      refine requestJob_passes (fun hopen => hlive hopen t ?_) hs
      have hs : s.requestJob t jobs who = some s' := hs
      rw [GrowableThreadPool.requestJob] at hs
      split at hs
      next hp => rw [hp]; rfl
      next hp => rw [hp]; rfl
      next => cases hs
  | resume t who =>
      refine resume_passes (fun hopen => hlive hopen t ?_) hs
      have hs : s.resume t who = some s' := hs
      rw [GrowableThreadPool.resume] at hs
      split at hs
      next hp => rw [hp]; rfl
      next hp => rw [hp]; rfl
      next => cases hs
  | stir t =>
      have hs : s.stir t = some s' := hs
      rw [GrowableThreadPool.stir] at hs
      obtain ⟨-, ⟨⟩⟩ := Option.ite_none_right_eq_some.mp hs
      exact .stays rfl rfl rfl rfl
  | cancel t =>
      have hs : s.cancel t = some s' := hs
      rw [GrowableThreadPool.cancel] at hs
      split at hs
      next =>
        obtain rfl := Option.some.inj hs
        exact .stays rfl rfl rfl rfl
      next => cases hs
  | _ => exact ha.elim

/-- What `AppendJob` leaves alone, and the threads that it makes. -/
structure Spawns (s s' : GrowableThreadPool Job) (size : Nat) : Prop where
  exited : s'.exited = s.exited
  joining : s'.joining = s.joining
  threads : s'.threads = s.threads ∪ Finset.Ico s.spawned (s.spawned + size)
  spawned : s'.spawned = s.spawned + size

theorem appendJob_spawns {job : Job} (hs : s.appendJob job who = some s') :
    ∃ size, Spawns s s' size := by
  obtain ⟨u, -, -, rfl, hu⟩ := appendJob_cases hs
  split at hu
  next =>
    subst hu
    exact ⟨s.size, ⟨rfl, rfl, rfl, rfl⟩⟩
  next =>
    subst hu
    refine ⟨0, ⟨rfl, rfl, ?_, rfl⟩⟩
    show s.threads = _
    rw [Nat.add_zero, Finset.Ico_self, Finset.union_empty]

theorem appendJobThrows_spawns {job : Job} {made : Nat}
    (hs : s.appendJobThrows job made = some s') : Spawns s s' made := by
  obtain ⟨-, -, -, -, rfl⟩ := appendJobThrows_cases hs
  exact ⟨rfl, rfl, rfl, rfl⟩

-- ── Each object is in one place ──────────────────────────────────────────────

/-- A thread was made and is nowhere any more. -/
def Ended (s : GrowableThreadPool Job) (t : Nat) : Prop :=
  t < s.spawned ∧ t ∉ s.threads ∧ t ∉ s.joining ∧ t ∉ s.exited

/-- A thread object is in `_threads`, with `Shutdown` or in `_exited`, or it has
    been joined once. -/
structure Held (s : GrowableThreadPool Job) (joined : Nat → Nat) : Prop where
  nodup : s.exited.Nodup
  apart : ∀ t ∈ s.exited, t ∉ s.threads ∧ t ∉ s.joining
  made : ∀ t, t ∈ s.threads ∨ t ∈ s.joining ∨ t ∈ s.exited → t < s.spawned
  alone : s.threads = ∅ ∨ s.joining = ∅
  once : ∀ t, Ended s t → joined t = 1
  never : ∀ t, ¬Ended s t → joined t = 0

variable {joined : Nat → Nat} {rest : List Nat}

theorem not_ended (ht : t ∈ s.threads ∨ t ∈ s.joining ∨ t ∈ s.exited) :
    ¬Ended s t := by
  rintro ⟨-, hthreads, hjoining, hexited⟩
  rcases ht with ht | ht | ht
  · exact hthreads ht
  · exact hjoining ht
  · exact hexited ht

/-- Those that are joined have not been, and the others are where they were. -/
theorem Held.count (h : Held s joined) (v : GrowableThreadPool Job)
    (hexited : s.exited = out ++ rest) (hin : ∀ t ∈ out, Ended v t)
    (hout : ∀ t ∉ out, Ended v t ↔ Ended s t) (t : Nat) :
    (Ended v t → joined t + out.count t = 1) ∧
      (¬Ended v t → joined t + out.count t = 0) := by
  by_cases ht : t ∈ out
  · have hnodup : out.Nodup := by
      have hall := h.nodup
      rw [hexited] at hall
      exact hall.of_append_left
    have hmem : t ∈ s.exited := by
      rw [hexited]
      exact List.mem_append_left _ ht
    rw [h.never t (not_ended (.inr (.inr hmem))), List.count_eq_one_of_mem hnodup ht]
    exact ⟨fun _ => rfl, fun hnot => absurd (hin t ht) hnot⟩
  · rw [List.count_eq_zero_of_not_mem ht, Nat.add_zero, hout t ht]
    exact ⟨h.once t, h.never t⟩

/-- A thread is in `out` or in what is left of `_exited`. -/
theorem Held.split (h : Held s joined) (hexited : s.exited = out ++ rest) :
    (∀ t, t ∈ s.exited ↔ t ∈ out ∨ t ∈ rest) ∧ rest.Nodup ∧
      ∀ t ∈ out, t ∉ rest := by
  have hnodup := h.nodup
  rw [hexited] at hnodup
  refine ⟨fun t => ?_, hnodup.of_append_right, List.disjoint_of_nodup_append hnodup⟩
  rw [hexited, List.mem_append]

theorem Held.passes (h : Held s joined) (hp : Passes s out s') :
    Held s' fun t => joined t + out.count t := by
  cases hp with
  | stays hexited hthreads hjoining hspawned =>
      obtain ⟨hmem, hnodup, hdisjoint⟩ := h.split hexited
      have hended : ∀ t, Ended s' t ↔
          t < s.spawned ∧ t ∉ s.threads ∧ t ∉ s.joining ∧ t ∉ s'.exited := by
        intro t
        rw [Ended, hspawned, hthreads, hjoining]
      have hcount := h.count s' hexited (fun t ht => ?_) fun t ht => ?_
      · refine ⟨hnodup, fun t ht => ?_, fun t ht => ?_, ?_, fun t => (hcount t).1,
          fun t => (hcount t).2⟩
        · rw [hthreads, hjoining]
          exact h.apart t ((hmem t).mpr (.inr ht))
        · rw [hthreads, hjoining] at ht
          rw [hspawned]
          exact h.made t (ht.imp_right (Or.imp_right fun ht => (hmem t).mpr (.inr ht)))
        · rw [hthreads, hjoining]
          exact h.alone
      · have hin := (hmem t).mpr (.inl ht)
        obtain ⟨hthread, hjoin⟩ := h.apart t hin
        exact (hended t).mpr
          ⟨h.made t (.inr (.inr hin)), hthread, hjoin, hdisjoint t ht⟩
      · rw [hended, Ended, hmem]
        simp only [ht, false_or]
  | exits v rest hv hexited hexited' hthreads hjoining hspawned =>
      obtain ⟨hmem, hnodup, hdisjoint⟩ := h.split hexited
      have hnot : v ∉ s.exited := fun hin => (h.apart v hin).1 hv
      have hmem' : ∀ t, t ∈ s'.exited ↔ t ∈ rest ∨ t = v := by
        intro t
        rw [hexited', List.mem_append, List.mem_singleton]
      have herase : ∀ t, t ∈ s'.threads ↔ t ≠ v ∧ t ∈ s.threads := by
        intro t
        rw [hthreads, Finset.mem_erase]
      have hnone : s.joining = ∅ := by
        refine h.alone.resolve_left fun hempty => ?_
        rw [hempty] at hv
        exact absurd hv (Finset.notMem_empty v)
      have hended : ∀ t, Ended s' t ↔ t < s.spawned ∧ t ≠ v ∧ t ∉ s.threads ∧
          t ∉ s.joining ∧ t ∉ rest := by
        intro t
        rw [Ended, hspawned, hjoining, hmem', herase]
        tauto
      have hcount := h.count s' hexited (fun t ht => ?_) fun t ht => ?_
      · refine ⟨?_, fun t ht => ?_, fun t ht => ?_, ?_, fun t => (hcount t).1,
          fun t => (hcount t).2⟩
        · rw [hexited', ← List.concat_eq_append]
          exact hnodup.concat fun hin => hnot ((hmem v).mpr (.inr hin))
        · rw [herase, hjoining, hnone]
          refine ⟨?_, Finset.notMem_empty t⟩
          rcases (hmem' t).mp ht with hin | rfl
          · exact fun hthread => (h.apart t ((hmem t).mpr (.inr hin))).1 hthread.2
          · exact fun hthread => hthread.1 rfl
        · rw [hspawned]
          rw [herase, hjoining, hmem'] at ht
          refine h.made t ?_
          rcases ht with ht | ht | ht | rfl
          · exact .inl ht.2
          · exact .inr (.inl ht)
          · exact .inr (.inr ((hmem t).mpr (.inr ht)))
          · exact .inl hv
        · rw [hjoining]
          exact .inr hnone
      · have hin := (hmem t).mpr (.inl ht)
        obtain ⟨hthread, hjoin⟩ := h.apart t hin
        refine (hended t).mpr
          ⟨h.made t (.inr (.inr hin)), ?_, hthread, hjoin, hdisjoint t ht⟩
        rintro rfl
        exact hnot hin
      · rw [hended, Ended, hmem]
        have hne : t ∉ s.threads → t ≠ v := by
          rintro hthread rfl
          exact hthread hv
        tauto

theorem Held.resize {size : Nat} (h : Held s joined) :
    Held { s with size := size } joined := by
  have hp : Passes s [] { s with size := size } := .stays rfl rfl rfl rfl
  exact h.passes hp

/-- Threads are made. -/
theorem Held.spawns {size : Nat} (h : Held s joined) (hs : Spawns s s' size)
    (hopen : s.joining = ∅) : Held s' joined := by
  obtain ⟨hexited, hjoining, hthreads, hspawned⟩ := hs
  have hmem : ∀ t, t ∈ s'.threads ↔
      t ∈ s.threads ∨ s.spawned ≤ t ∧ t < s.spawned + size := by
    intro t
    rw [hthreads, Finset.mem_union, Finset.mem_Ico]
  have hmade := h.made
  have hended : ∀ t, Ended s' t ↔ Ended s t := by
    intro t
    rw [Ended, Ended, hmem, hjoining, hspawned, hexited]
    constructor
    · rintro ⟨hlt, hnot, hjoin, hin⟩
      obtain ⟨hthread, hnew⟩ := not_or.mp hnot
      exact ⟨by omega, hthread, hjoin, hin⟩
    · rintro ⟨hlt, hthread, hjoin, hin⟩
      refine ⟨by omega, not_or.mpr ⟨hthread, by omega⟩, hjoin, hin⟩
  refine ⟨by rw [hexited]; exact h.nodup, fun t ht => ?_, fun t ht => ?_, ?_,
    fun t ht => h.once t ((hended t).mp ht),
    fun t ht => h.never t fun hs => ht ((hended t).mpr hs)⟩
  · rw [hexited] at ht
    rw [hmem, hjoining]
    have hlt := hmade t (.inr (.inr ht))
    refine ⟨?_, (h.apart t ht).2⟩
    rintro (hin | hin)
    · exact (h.apart t ht).1 hin
    · omega
  · rw [hmem, hjoining, hexited] at ht
    rw [hspawned]
    rcases ht with (ht | ht) | ht
    · exact Nat.lt_of_lt_of_le (hmade t (.inl ht)) (Nat.le_add_right ..)
    · exact ht.2
    · exact Nat.lt_of_lt_of_le (hmade t (.inr ht)) (Nat.le_add_right ..)
  · rw [hjoining]
    exact .inr hopen

/-- `Shutdown` takes all threads. -/
theorem Held.shuts (h : Held s joined) (hexited : s'.exited = s.exited)
    (hthreads : s'.threads = ∅) (hjoining : s'.joining = s.threads)
    (hspawned : s'.spawned = s.spawned) (hopen : s.joining = ∅) :
    Held s' joined := by
  have hnot : ∀ t, t ∉ s.joining := by
    intro t
    rw [hopen]
    exact Finset.notMem_empty t
  have hended : ∀ t, Ended s' t ↔ Ended s t := by
    intro t
    have hnone := Finset.notMem_empty t
    have hjoin := hnot t
    rw [Ended, Ended, hthreads, hjoining, hspawned, hexited]
    tauto
  refine ⟨by rw [hexited]; exact h.nodup, fun t ht => ?_, fun t ht => ?_,
    .inl hthreads, fun t ht => h.once t ((hended t).mp ht),
    fun t ht => h.never t fun hs => ht ((hended t).mpr hs)⟩
  · rw [hexited] at ht
    rw [hthreads, hjoining]
    exact ⟨Finset.notMem_empty t, (h.apart t ht).1⟩
  · rw [hthreads, hjoining, hexited] at ht
    rw [hspawned]
    refine h.made t ?_
    rcases ht with ht | ht | ht
    · exact absurd ht (Finset.notMem_empty t)
    · exact .inl ht
    · exact .inr (.inr ht)

/-- And has joined them. -/
theorem Held.finishes (h : Held s joined)
    (hs' : s' = { s with joining := ∅, initializing := false }) :
    Held s' fun t => joined t + if t ∈ s.joining then 1 else 0 := by
  subst hs'
  refine ⟨h.nodup, fun t ht => ⟨(h.apart t ht).1, Finset.notMem_empty t⟩,
    fun t ht => ?_, .inr rfl, fun t ht => ?_, fun t ht => ?_⟩
  · refine h.made t ?_
    rcases ht with ht | ht | ht
    · exact .inl ht
    · exact absurd ht (Finset.notMem_empty t)
    · exact .inr (.inr ht)
  · obtain ⟨hlt, hthread, -, hexited⟩ := ht
    by_cases hin : t ∈ s.joining
    · rw [if_pos hin, h.never t (not_ended (.inr (.inl hin)))]
    · rw [if_neg hin, h.once t ⟨hlt, hthread, hin, hexited⟩]
  · have hin : t ∉ s.joining := by
      intro hin
      refine ht ⟨h.made t (.inr (.inl hin)), fun hthread => ?_,
        Finset.notMem_empty t, fun hexited => (h.apart t hexited).2 hin⟩
      rcases h.alone with hempty | hempty
      · rw [hempty] at hthread
        exact absurd hthread (Finset.notMem_empty t)
      · rw [hempty] at hin
        exact absurd hin (Finset.notMem_empty t)
    rw [if_neg hin, h.never t fun hended => ht
      ⟨hended.1, hended.2.1, Finset.notMem_empty t, hended.2.2.2⟩]

-- ── Runs from the constructor on ─────────────────────────────────────────────

/-- Before the first `Initialize`. -/
structure Bare (s : GrowableThreadPool Job) : Prop where
  size : s.size = 0
  is_open : s.initializing = false
  threads : s.threads = ∅
  actives : s.actives = ∅
  joining : s.joining = ∅
  exited : s.exited = []
  exits : s.exits = 0
  spawned : s.spawned = 0
  place : ∀ t, s.place t = .absent

/-- How far the pool is, and that those that reap are owed what is in
    `_exited`. -/
inductive Stage (s : GrowableThreadPool Job) : Prop where
  | bare (h : Bare s)
  | going (h : Sound s) (hjoining : s.joining = ∅)
      (howes : s.exits + s.exited.length ≤ s.tally Place.owed)
  | closing (h : Shut s) (howes : s.exited.length ≤ s.tally Place.owed)
      (hexits : s.exits ≤ s.tally Place.idle + s.tally Place.serves)

/-- What a run keeps: without a shrink nothing is in `_exited`, and after one a
    thread is yet to be joined by `MaybeShrink`, or has been and is not
    deleted. -/
structure Kept (s : GrowableThreadPool Job) (k : Ends) : Prop where
  stage : Stage s
  held : Held s k.joined
  le : ∀ t, k.deleted t ≤ k.joined t
  calm : k.shrunk = false → k.deleted = k.joined ∧ s.exited = [] ∧
    (s.initializing = false → s.exits = 0)
  lost : k.shrunk = true →
    0 < s.tally Place.owed ∨ ∃ t, k.joined t = 1 ∧ k.deleted t = 0

variable {k : Ends}

theorem no_more (h : shrinks s a = false) : shrinks s a = true ↔ 0 < 0 := by
  simp [h]

theorem note_eq (ha : a ≠ .joined) : note s a k = { k with
    joined := fun t => k.joined t + (reaps s a).count t
    shrunk := k.shrunk || shrinks s a } := by
  cases a <;> first | rfl | exact absurd rfl ha

/-- A step that is not the end of `Shutdown`. -/
theorem Kept.step (h : Kept s k) (ha : a ≠ .joined) (hstage : Stage s')
    (hheld : Held s' fun t => k.joined t + (reaps s a).count t)
    (hout : ∃ rest, s.exited = reaps s a ++ rest)
    (howed : s'.tally Place.owed + (reaps s a).length =
      s.tally Place.owed + m)
    (hmore : shrinks s a = true ↔ 0 < m)
    (hcalm : m = 0 → s.exited = [] → (s.initializing = false → s.exits = 0) →
      s'.exited = [] ∧ (s'.initializing = false → s'.exits = 0)) :
    Kept s' (note s a k) := by
  obtain ⟨rest, hexited⟩ := hout
  rw [note_eq ha]
  refine ⟨hstage, hheld, fun t => ?_, fun hshrunk => ?_, fun hshrunk => ?_⟩
  · exact Nat.le_trans (h.le t) (Nat.le_add_right ..)
  · obtain ⟨hold, hnot⟩ := Bool.or_eq_false_iff.mp hshrunk
    obtain ⟨hdeleted, hnone, hzero⟩ := h.calm hold
    have hmore : m = 0 := by
      by_contra hne
      rw [hmore.mpr (Nat.pos_of_ne_zero hne)] at hnot
      cases hnot
    have hempty : reaps s a = [] := by
      rw [hnone] at hexited
      exact (List.append_eq_nil_iff.mp hexited.symm).1
    refine ⟨?_, hcalm hmore hnone hzero⟩
    funext t
    show k.deleted t = k.joined t + (reaps s a).count t
    rw [hdeleted, hempty]
    rfl
  · have hshrunk : (k.shrunk || shrinks s a) = true := hshrunk
    cases hreaps : reaps s a with
    | nil =>
        rw [hreaps, List.length_nil] at howed
        rw [Bool.or_eq_true] at hshrunk
        rcases hshrunk with hold | hnew
        · rcases h.lost hold with hpos | hlost
          · exact .inl (by omega)
          · exact .inr hlost
        · have hpos := hmore.mp hnew
          exact .inl (by omega)
    | cons x out =>
        -- the first that is joined now is not deleted
        have hx : x ∈ reaps s a := by
          rw [hreaps]
          exact List.mem_cons_self
        have hcount := List.count_pos_iff.mpr hx
        have hmem : x ∈ s.exited := by
          rw [hexited]
          exact List.mem_append_left _ hx
        have hzero := h.held.never x (not_ended (.inr (.inr hmem)))
        have hle := h.le x
        have hended : Ended s' x := by
          by_contra hnot
          have hnever := hheld.never x hnot
          omega
        refine .inr ⟨x, ?_, by show k.deleted x = 0; omega⟩
        rw [← hreaps]
        exact hheld.once x hended

/-- A step before `Shutdown`. -/
theorem Kept.turn (h : Kept s k) (ha : a ≠ .joined) (hopen : s.initializing = false)
    (howes : s.exits + s.exited.length ≤ s.tally Place.owed)
    (hturn : Turn s s' (reaps s a).length m)
    (hmore : shrinks s a = true ↔ 0 < m) (hjoining : s'.joining = ∅)
    (hheld : Held s' fun t => k.joined t + (reaps s a).count t)
    (hout : ∃ rest, s.exited = reaps s a ++ rest) : Kept s' (note s a k) := by
  obtain ⟨hsound, howed, hexits, -⟩ := hturn
  refine h.step ha (.going hsound hjoining (by omega)) hheld hout howed hmore ?_
  intro hnone hexited hzero
  rw [hexited, List.length_nil, hzero hopen] at hexits
  exact ⟨List.length_eq_zero_iff.mp (by omega), fun _ => by omega⟩

theorem Passes.starts (hp : Passes s out s') : ∃ rest, s.exited = out ++ rest := by
  cases hp with
  | stays hexited _ _ _ => exact ⟨_, hexited⟩
  | exits t rest _ hexited _ _ _ _ => exact ⟨rest, hexited⟩

theorem Passes.joining (hp : Passes s out s') : s'.joining = s.joining := by
  cases hp with
  | stays _ _ hjoining _ => exact hjoining
  | exits _ _ _ _ _ _ hjoining _ => exact hjoining

/-- A step of a thread before `Shutdown`. -/
theorem Kept.passes (h : Kept s k) (ha : a ≠ .joined)
    (hopen : s.initializing = false) (hjoining : s.joining = ∅)
    (howes : s.exits + s.exited.length ≤ s.tally Place.owed)
    (hturn : Turn s s' (reaps s a).length m)
    (hmore : shrinks s a = true ↔ 0 < m) (hp : Passes s (reaps s a) s') :
    Kept s' (note s a k) :=
  h.turn ha hopen howes hturn hmore (hp.joining.trans hjoining) (h.held.passes hp)
    hp.starts

/-- A step of a thread while `Shutdown` joins. -/
theorem Kept.shut (h : Kept s k) (ha : a ≠ .joined) (hshut : Shut s) (hshut' : Shut s')
    (hp : Passes s (reaps s a) s')
    (howed : s'.tally Place.owed + s.exited.length =
      s.tally Place.owed + s'.exited.length)
    (howes : s.exited.length ≤ s.tally Place.owed)
    (hexits : s'.exits ≤ s'.tally Place.idle + s'.tally Place.serves) :
    Kept s' (note s a k) := by
  have hexited : s.exited = reaps s a ++ s'.exited := by
    cases hp with
    | stays hexited _ _ _ => exact hexited
    | exits t _ ht _ _ _ _ _ =>
        rw [hshut.threads] at ht
        exact absurd ht (Finset.notMem_empty t)
  have hlength := congrArg List.length hexited
  rw [List.length_append] at hlength
  have hnot : shrinks s a = false := by
    cases a <;> first | rfl | simp [shrinks, hshut.initializing]
  refine h.step (m := 0) ha (.closing hshut' (by omega) hexits) (h.held.passes hp)
    hp.starts (by omega) (no_more hnot) fun _ hnone _ => ?_
  rw [hnone] at hexited
  refine ⟨(List.append_eq_nil_iff.mp hexited.symm).2, fun hopen => ?_⟩
  rw [hshut'.initializing] at hopen
  cases hopen

/-- A thread that takes an exit of another leaves none too many. -/
theorem Steals.keeps (h : Shut s) (hs : Steals s t s')
    (hexits : s.exits ≤ s.tally Place.idle + s.tally Place.serves) :
    Shut s' ∧ s'.tally Place.owed = s.tally Place.owed ∧ s'.exited = s.exited ∧
      s'.exits ≤ s'.tally Place.idle + s'.tally Place.serves := by
  obtain ⟨⟨job, hp⟩, hpos, rfl⟩ := hs
  have hlive : (s.place t).live = 1 := by rw [hp]; rfl
  have hmove := tally_move (q := .gone)
    (u := { s with exits := s.exits - 1 }.setPlace t .gone) (h.lt hlive) rfl rfl
  rw [hp] at hmove
  have hidle : _ + 0 = _ + 0 := hmove Place.idle
  have hserves : _ + 0 = _ + 0 := hmove Place.serves
  have howed : _ + 0 = _ + 0 := hmove Place.owed
  refine ⟨h.moved (q := .gone) hlive trivial (Nat.sub_le ..), howed, rfl, ?_⟩
  show s.exits - 1 ≤ _
  omega

theorem Kept.closing (h : Kept s k) (hshut : Shut s)
    (howes : s.exited.length ≤ s.tally Place.owed)
    (hexits : s.exits ≤ s.tally Place.idle + s.tally Place.serves)
    (ha : Threadlike a) (hs : next s a = some s') : Kept s' (note s a k) := by
  have hpasses : Passes s (reaps s a) s' := by
    refine next_passes (fun hopen => ?_) ha hs
    rw [hshut.initializing] at hopen
    cases hopen
  have hne : a ≠ .joined := by
    rintro rfl
    exact ha
  have hmoves : ∀ {t : Nat}, Moves s t s' → Kept s' (note s a k) := by
    intro t hm
    obtain ⟨hshut', howed, hkeeps⟩ := hm.keeps hshut
    exact h.shut hne hshut hshut' hpasses howed howes (by omega)
  cases a with
  | requestJob t jobs who =>
      rcases hshut.requestJob hs with ⟨-, hm⟩ | hsteals
      · exact hmoves hm
      · obtain ⟨hshut', howed, hexited, hle⟩ := hsteals.keeps hshut hexits
        exact h.shut hne hshut hshut' hpasses (by rw [howed, hexited]) howes hle
  | resume t who => exact hmoves (hshut.resume hs)
  | stir t =>
      have hs : s.stir t = some s' := hs
      rw [GrowableThreadPool.stir] at hs
      obtain ⟨-, ⟨⟩⟩ := Option.ite_none_right_eq_some.mp hs
      have hserves : (s.wakeUp {t}).tally Place.serves = s.tally Place.serves :=
        total_rouse fun _ _ => Place.serves_wake _
      refine h.shut hne hshut hshut.wakeUp hpasses ?_ howes ?_
      · rw [tally_owed_wakeUp]
        rfl
      · rw [tally_idle_wakeUp, hserves]
        exact hexits
  | cancel t =>
      have hs : s.cancel t = some s' := hs
      rw [GrowableThreadPool.cancel] at hs
      split at hs
      next hp =>
        obtain rfl := Option.some.inj hs
        exact hmoves (.ends hp)
      next => cases hs
  | _ => exact ha.elim

/-- `Shutdown` has joined and deleted its threads. -/
theorem Kept.finishes (h : Kept s k) (hshut : Shut s)
    (howes : s.exited.length ≤ s.tally Place.owed)
    (hexits : s.exits ≤ s.tally Place.idle + s.tally Place.serves)
    (hs : s.joined = some s') : Kept s' (note s .joined k) := by
  obtain ⟨hsound, hs', hzero⟩ := hshut.joined hs
  have hidle := hzero Place.idle fun p hp => Place.live_of_pos (.inr (.inl hp))
  have hserves := hzero Place.serves fun p hp => Place.live_of_pos (.inr (.inr hp))
  have howed := hzero Place.owed fun p hp => Place.live_of_pos (.inl hp)
  have hnone : s.exited = [] := List.length_eq_zero_iff.mp (by omega)
  have hcount : s.exits = 0 := by omega
  have hheld := h.held.finishes hs'
  subst hs'
  refine ⟨.going hsound rfl ?_, hheld, fun t => Nat.add_le_add_right (h.le t) _,
    fun hshrunk => ?_, fun hshrunk => ?_⟩
  · show s.exits + s.exited.length ≤ s.tally Place.owed
    omega
  · refine ⟨?_, hnone, fun _ => hcount⟩
    funext t
    exact congrArg (· + _) (congrFun (h.calm hshrunk).1 t)
  · rcases h.lost hshrunk with hpos | ⟨t, hjoined, hdeleted⟩
    · omega
    · have hin : t ∉ s.joining := by
        intro hin
        rw [h.held.never t (not_ended (.inr (.inl hin)))] at hjoined
        cases hjoined
      refine .inr ⟨t, ?_, ?_⟩
      · show k.joined t + (if t ∈ s.joining then 1 else 0) = 1
        rw [if_neg hin, hjoined]
      · show k.deleted t + (if t ∈ s.joining then 1 else 0) = 0
        rw [if_neg hin, hdeleted]

/-- `Shutdown` begins to join. -/
theorem Kept.shutdown {w : Bool} (h : Kept s k) (hsound : Sound s)
    (hjoining : s.joining = ∅)
    (howes : s.exits + s.exited.length ≤ s.tally Place.owed)
    (hs : s.shutdown w = some s') : Kept s' (note s (.shutdown w) k) := by
  obtain ⟨hshut, hexits, howed, hexited⟩ := hsound.shutdown hs
  have hheld : Held s' k.joined := by
    rw [GrowableThreadPool.shutdown] at hs
    obtain ⟨-, ⟨⟩⟩ := Option.ite_none_left_eq_some.mp hs
    exact h.held.shuts rfl rfl rfl rfl hjoining
  refine h.step (m := 0) (by simp)
    (.closing hshut (by rw [howed, hexited]; omega) (Nat.le_of_eq hexits)) hheld
    ⟨_, rfl⟩ howed (no_more rfl) fun _ hnone _ => ⟨hexited.trans hnone, fun hopen => ?_⟩
  rw [hshut.initializing] at hopen
  cases hopen

/-- A step of a pool that has been initialized. -/
theorem Kept.going (h : Kept s k) (hsound : Sound s) (hjoining : s.joining = ∅)
    (howes : s.exits + s.exited.length ≤ s.tally Place.owed)
    (hs : next s a = some s') : Kept s' (note s a k) := by
  have hlive : s.initializing = false → ∀ t, (s.place t).live = 1 → t ∈ s.threads :=
    fun _ t ht => (hsound.threads t).mpr ht
  cases a with
  | initializeSize size =>
      obtain ⟨hturn, rfl⟩ := hsound.initializeSize hs
      exact h.turn (m := 0) (by simp) hsound.is_open howes hturn
        (no_more rfl) hjoining h.held.resize ⟨_, rfl⟩
  | appendJob job who =>
      obtain ⟨size, hspawns⟩ := appendJob_spawns hs
      exact h.turn (m := 0) (by simp) hsound.is_open howes (hsound.appendJob hs)
        (no_more rfl) (hspawns.joining.trans hjoining)
        (h.held.spawns hspawns hjoining) ⟨_, rfl⟩
  | appendJobThrows job made =>
      have hspawns := appendJobThrows_spawns hs
      exact h.turn (m := 0) (by simp) hsound.is_open howes (hsound.appendJobThrows hs)
        (no_more rfl) (hspawns.joining.trans hjoining)
        (h.held.spawns hspawns hjoining) ⟨_, rfl⟩
  | requestJob t jobs who =>
      obtain ⟨more, hturn, hmore⟩ := hsound.requestJob hs
      exact h.passes (by simp) hsound.is_open hjoining howes hturn hmore
        (next_passes hlive trivial hs)
  | resume t who =>
      exact h.passes (by simp) hsound.is_open hjoining howes (hsound.resume hs)
        (no_more rfl) (next_passes (a := .resume t who) hlive trivial hs)
  | stir t =>
      exact h.passes (m := 0) (by simp) hsound.is_open hjoining howes (hsound.stir hs)
        (no_more rfl) (next_passes (a := .stir t) hlive trivial hs)
  | cancel t =>
      have hs : s.cancel t = some s' := hs
      rw [GrowableThreadPool.cancel] at hs
      split at hs
      next hp => cases hsound.not_terminated hp
      next => cases hs
  | shutdown w => exact h.shutdown hsound hjoining howes hs
  | joined =>
      have hs : s.joined = some s' := hs
      rw [GrowableThreadPool.joined, hsound.is_open] at hs
      obtain ⟨⟨hinit, -⟩, -⟩ := Option.ite_none_right_eq_some.mp hs
      cases hinit

theorem Bare.initializeSize {size : Nat} (h : Bare s)
    (hs : s.initializeSize size = some s') :
    Sound s' ∧ s' = { s with size := size } := by
  rw [GrowableThreadPool.initializeSize] at hs
  obtain ⟨hcond, ⟨⟩⟩ := Option.ite_none_left_eq_some.mp hs
  have hsize : 0 < size := Nat.pos_of_ne_zero fun heq => hcond (.inl heq)
  refine ⟨⟨hsize, h.is_open, fun t _ => h.place t, fun t => ?_, fun t => ?_,
    fun t => ?_, ?_⟩, rfl⟩
  · show t ∈ s.threads ↔ (s.place t).live = 1
    rw [h.threads, h.place]
    exact ⟨fun ht => absurd ht (Finset.notMem_empty t),
      fun hone => absurd hone Nat.zero_ne_one⟩
  · show t ∈ s.actives ↔ (s.place t).runs = 1
    rw [h.actives, h.place]
    exact ⟨fun ht => absurd ht (Finset.notMem_empty t),
      fun hone => absurd hone Nat.zero_ne_one⟩
  · show (s.place t).proper
    rw [h.place]
    trivial
  · show s.threads.card < 2 ^ 64
    rw [h.threads]
    exact Nat.two_pow_pos 64

/-- Without a size no threads are made. -/
theorem Bare.appendJob {job : Job} (h : Bare s)
    (hs : s.appendJob job who = some s') : Bare s' := by
  obtain ⟨u, -, -, rfl, hu⟩ := appendJob_cases hs
  have hbare : Bare u := by
    split at hu
    next =>
      subst hu
      refine ⟨h.size, h.is_open, ?_, h.actives, h.joining, h.exited, h.exits, ?_,
        fun t => ?_⟩
      · show s.threads ∪ Finset.Ico s.spawned (s.spawned + s.size) = ∅
        rw [h.threads, h.size, Nat.add_zero, Finset.Ico_self, Finset.union_empty]
      · show s.spawned + s.size = 0
        rw [h.spawned, h.size]
      · have hnew : ¬(s.spawned ≤ t ∧ t < s.spawned + s.size) := by
          rw [h.spawned, h.size]
          omega
        exact (if_neg hnew).trans (h.place t)
    next =>
      subst hu
      exact ⟨h.size, h.is_open, h.threads, h.actives, h.joining, h.exited, h.exits,
        h.spawned, h.place⟩
  refine ⟨hbare.size, hbare.is_open, hbare.threads, hbare.actives, hbare.joining,
    hbare.exited, hbare.exits, hbare.spawned, fun t => ?_⟩
  rcases wakeUp_place u who t with heq | heq
  · rw [heq, hbare.place]
    rfl
  · rw [heq, hbare.place]

theorem Bare.owed (h : Bare s) : s.tally Place.owed = 0 := by
  rw [GrowableThreadPool.tally, h.spawned]
  rfl

theorem bare_new : Bare (.new : GrowableThreadPool Job) :=
  ⟨rfl, rfl, rfl, rfl, rfl, rfl, rfl, rfl, fun _ => rfl⟩

/-- A pool that has got no job either is new. -/
theorem Bare.eq_new (h : Bare s) (hpending : s.pendingJobs = []) : s = .new := by
  obtain ⟨hsize, hopen, hthreads, hactives, hjoining, hexited, hexits, hspawned,
    hplace⟩ := h
  have hplace := funext hplace
  cases s
  dsimp only at *
  subst hsize hopen hthreads hactives hjoining hexited hexits hspawned hplace hpending
  rfl

/-- Before the first `Initialize` jobs are appended, and nothing else happens. -/
theorem Bare.next_cases (h : Bare s) (hs : next s a = some s') :
    (∃ job who, a = .appendJob job who ∧ s.appendJob job who = some s') ∨
      ∃ size, a = .initializeSize size ∧ s.initializeSize size = some s' := by
  cases a with
  | initializeSize size => exact .inr ⟨size, rfl, hs⟩
  | appendJob job who => exact .inl ⟨job, who, rfl, hs⟩
  | appendJobThrows job made =>
      obtain ⟨-, -, hmade, -⟩ := appendJobThrows_cases hs
      rw [h.size] at hmade
      cases hmade
  | requestJob t jobs who =>
      have hs : s.requestJob t jobs who = some s' := hs
      rw [GrowableThreadPool.requestJob, h.place] at hs
      cases hs
  | resume t who =>
      have hs : s.resume t who = some s' := hs
      rw [GrowableThreadPool.resume, h.place] at hs
      cases hs
  | stir t =>
      have hs : s.stir t = some s' := hs
      rw [GrowableThreadPool.stir, h.place, if_neg] at hs
      · cases hs
      · rintro (hw | hw) <;> cases hw
  | cancel t =>
      have hs : s.cancel t = some s' := hs
      rw [GrowableThreadPool.cancel, h.place] at hs
      cases hs
  | shutdown w =>
      have hs : s.shutdown w = some s' := hs
      rw [GrowableThreadPool.shutdown, if_pos (.inr h.threads)] at hs
      cases hs
  | joined =>
      have hs : s.joined = some s' := hs
      rw [GrowableThreadPool.joined, h.is_open] at hs
      obtain ⟨⟨hinit, -⟩, -⟩ := Option.ite_none_right_eq_some.mp hs
      cases hinit

/-- A step before the first `Initialize`, or that. -/
theorem Kept.bare (h : Kept s k) (hbare : Bare s) (hs : next s a = some s') :
    Kept s' (note s a k) := by
  rcases hbare.next_cases hs with ⟨job, who, rfl, hs⟩ | ⟨size, rfl, hs⟩
  · have hbare' := hbare.appendJob hs
    obtain ⟨size, hspawns⟩ := appendJob_spawns hs
    exact h.step (m := 0) (by simp) (.bare hbare')
      (h.held.spawns hspawns hbare.joining) ⟨_, rfl⟩
      (hbare'.owed.trans hbare.owed.symm) (no_more rfl)
      fun _ _ _ => ⟨hbare'.exited, fun _ => hbare'.exits⟩
  · obtain ⟨hsound, rfl⟩ := hbare.initializeSize hs
    refine h.turn (m := 0) (by simp) hbare.is_open ?_
      (.of_same hsound rfl (Nat.le_refl _) rfl rfl)
      (no_more rfl) hbare.joining h.held.resize ⟨_, rfl⟩
    rw [hbare.exits, hbare.exited]
    exact Nat.zero_le _

theorem reachable_kept (h : Reachable ((newPool Job).record .none note) (s, k)) :
    Kept s k := by
  refine h.invariant (I := fun x => Kept x.1 x.2) ?_ ?_
  · rintro ⟨s, k⟩ ⟨hs, hk⟩
    have hs : s = .new := hs
    have hk : k = .none := hk
    subst hs hk
    refine ⟨.bare bare_new,
      ⟨List.nodup_nil, nofun, ?_, .inl rfl, ?_, fun _ _ => rfl⟩, fun _ => Nat.le_refl _,
      fun _ => ⟨rfl, rfl, fun _ => rfl⟩, nofun⟩
    · rintro t (ht | ht | ht) <;> cases ht
    · rintro t ⟨ht, -⟩
      cases ht
  · rintro ⟨s, k⟩ a ⟨s', k'⟩ _ ih ⟨hs, hk⟩
    have ih : Kept s k := ih
    have hs : next s a = some s' := hs
    have hk : k' = note s a k := hk
    subst hk
    rcases ih.stage with hbare | ⟨hsound, hjoining, howes⟩ | ⟨hshut, howes, hexits⟩
    · exact ih.bare hbare hs
    · exact ih.going hsound hjoining howes hs
    · have hthread : Threadlike a → Kept s' (note s a k) := fun ha =>
        ih.closing hshut howes hexits ha hs
      cases a with
      | requestJob t jobs who => exact hthread trivial
      | resume t who => exact hthread trivial
      | stir t => exact hthread trivial
      | cancel t => exact hthread trivial
      | joined => exact ih.finishes hshut howes hexits hs
      | initializeSize size =>
          have hs : s.initializeSize size = some s' := hs
          rw [GrowableThreadPool.initializeSize,
            if_pos (.inr (.inl hshut.initializing))] at hs
          cases hs
      | appendJob job who =>
          have hs : s.appendJob job who = some s' := hs
          rw [GrowableThreadPool.appendJob, if_pos hshut.initializing] at hs
          cases hs
      | appendJobThrows job made =>
          have hs : s.appendJobThrows job made = some s' := hs
          rw [GrowableThreadPool.appendJobThrows, if_pos hshut.initializing] at hs
          cases hs
      | shutdown w =>
          have hs : s.shutdown w = some s' := hs
          rw [GrowableThreadPool.shutdown, if_pos (.inl hshut.initializing)] at hs
          cases hs

/-- `Shutdown` has returned, or returns at once. -/
def Returned (s : GrowableThreadPool Job) : Prop :=
  s.initializing = false ∧ s.threads = ∅

/-- Nothing is owed, and nothing left in `_exited`. -/
theorem Stage.returned (h : Stage s) (hr : Returned s) :
    s.tally Place.owed = 0 ∧ s.exited = [] ∧ s.joining = ∅ := by
  obtain ⟨hopen, hthreads⟩ := hr
  rcases h with hbare | ⟨hsound, hjoining, howes⟩ | ⟨hshut, -, -⟩
  · exact ⟨hbare.owed, hbare.exited, hbare.joining⟩
  · have howed : s.tally Place.owed = 0 := by
      by_contra hne
      obtain ⟨t, -, hpos⟩ := exists_of_total_pos (Nat.pos_of_ne_zero hne)
      have ht := (hsound.threads t).mpr (Place.live_of_pos (.inl hpos))
      rw [hthreads] at ht
      exact absurd ht (Finset.notMem_empty t)
    exact ⟨howed, List.length_eq_zero_iff.mp (by omega), hjoining⟩
  · rw [hshut.initializing] at hopen
    cases hopen

/-- **EACH THREAD IS JOINED ONCE** when `Shutdown` has returned, and none is
    deleted twice; each is deleted if and only if `MaybeShrink` has not shrunk
    the pool. -/
theorem threads_conserved
    (h : Reachable ((newPool Job).record .none note) (s, k)) (hr : Returned s) :
    (∀ t < s.spawned, k.joined t = 1 ∧ k.deleted t ≤ 1) ∧
      ((∀ t < s.spawned, k.joined t = 1 ∧ k.deleted t = 1) ↔ k.shrunk = false) := by
  have hkept := reachable_kept h
  obtain ⟨howed, hexited, hjoining⟩ := hkept.stage.returned hr
  have hended : ∀ t, Ended s t ↔ t < s.spawned := by
    intro t
    rw [Ended, hr.2, hjoining, hexited]
    simp
  have hjoined : ∀ t < s.spawned, k.joined t = 1 := fun t ht =>
    hkept.held.once t ((hended t).mpr ht)
  refine ⟨fun t ht => ⟨hjoined t ht, hjoined t ht ▸ hkept.le t⟩, fun hall => ?_,
    fun hcalm t ht => ⟨hjoined t ht, ?_⟩⟩
  · by_contra hne
    rcases hkept.lost (Bool.not_eq_false _ ▸ hne) with hpos | ⟨t, hone, hzero⟩
    · omega
    · have ht : t < s.spawned := by
        by_contra hge
        rw [hkept.held.never t fun hin => hge ((hended t).mp hin)] at hone
        cases hone
      rw [(hall t ht).2] at hzero
      cases hzero
  · rw [(hkept.calm hcalm).1]
    exact hjoined t ht

namespace Pair

/-- The first of two threads exits for the second one to join, and `Shutdown`
    joins that. -/
def acts : List (Act Nat) :=
  [.initializeSize 1, .appendJob 7 ∅, .appendJob 8 ∅, .requestJob 0 ∅ ∅,
    .requestJob 1 ∅ ∅, .requestJob 0 ∅ ∅, .requestJob 1 {0} ∅, .resume 0 {1},
    .resume 1 ∅, .shutdown true, .resume 1 ∅, .joined]

/-- One step, with the record. -/
def recordNext (x : GrowableThreadPool Nat × Ends) (a : Act Nat) :
    Option (GrowableThreadPool Nat × Ends) :=
  match next x.1 a with
  | some s => some (s, note x.1 a x.2)
  | none => none

def returned : GrowableThreadPool Nat × Ends :=
  (acts.foldlM recordNext (.new, .none)).get (by decide)

theorem reachable_returned :
    Reachable ((newPool Nat).record .none note) (returned.1, returned.2) := by
  have hstart : Reachable ((newPool Nat).record .none note) (.new, .none) :=
    .start ⟨rfl, rfl⟩
  have hreturned : Reachable ((newPool Nat).record .none note) returned := by
    refine hstart.follow (fun a _ x x' (hs : recordNext x a = some x') => ?_)
      (Option.some_get _).symm
    rw [recordNext] at hs
    split at hs
    next s hnext =>
      obtain rfl := Option.some.inj hs
      exact ⟨hnext, rfl⟩
    next => cases hs
  exact hreturned

theorem returned_returned : Returned returned.1 := by
  exact ⟨by decide, by decide⟩

end Pair

/-- Of two threads, one of which is got rid of by `MaybeShrink`. -/
theorem threads_conserved_pair : Pair.returned.2.joined 0 = 1 := by
  have hconserved := threads_conserved Pair.reachable_returned Pair.returned_returned
  exact (hconserved.1 0 (by decide)).1

/-- **A THREAD IS LOST**: it is joined by `MaybeShrink` and never deleted. -/
theorem thread_leaked : ¬∀ s k,
    Reachable ((newPool Nat).record .none note) (s, k) → Returned s →
    ∀ t < s.spawned, k.joined t = 1 ∧ k.deleted t = 1 := by
  intro hclaim
  have hall := hclaim _ _ Pair.reachable_returned Pair.returned_returned 0 (by decide)
  revert hall
  decide

end FlinterGrowableThreadPool
