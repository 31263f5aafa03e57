import Flinter.RunProofs
import Flinter.TallyProofs

/-! # The read-write lock with a counter and semaphores

    `ReadWriteLock` as it is built where there is no `pthread_rwlock_t`: under a
    mutex it counts those who have access, as `-1` for a writer, and those who
    queue, and each kind queues at a semaphore of its own.  `Unlock` hands the
    access over before those it is for have woken: it takes them out of the
    queue, counts them as having access and leaves a token for each.

    A thread is outside, waits at a semaphore, or holds the lock; who holds it
    unlocks it once.  What a function does under the mutex is one step, and its
    wait is another.  The numbers are `int`s in the source and have no bound
    here. -/

namespace FlinterReadWriteLock

open Runs Tallies

-- ── The code ─────────────────────────────────────────────────────────────────

/-- `ReadWriteLock::Context`, with the counts of its semaphores. -/
structure ReadWriteLock where
  access : Int
  readerQueue : Nat
  writerQueue : Nat
  readerWait : Nat
  writerWait : Nat
deriving DecidableEq, Repr

namespace ReadWriteLock

def new : ReadWriteLock := ⟨0, 0, 0, 0, 0⟩

/-- `ReaderLock`: whether the access is pending. -/
def readerLock (l : ReadWriteLock) : Bool × ReadWriteLock :=
  let accessPending : Bool := l.access < 0 || l.writerQueue > 0
  if accessPending then (accessPending, { l with readerQueue := l.readerQueue + 1 })
  else (accessPending, { l with access := l.access + 1 })

/-- `WriterLock`: whether the access is pending. -/
def writerLock (l : ReadWriteLock) : Bool × ReadWriteLock :=
  let accessPending : Bool := l.access ≠ 0
  if accessPending then (accessPending, { l with writerQueue := l.writerQueue + 1 })
  else (accessPending, { l with access := l.access - 1 })

/-- `TryReaderLock`: whether the access is granted. -/
def tryReaderLock (l : ReadWriteLock) : Bool × ReadWriteLock :=
  if l.access ≥ 0 ∧ l.writerQueue = 0 then
    (true, { l with access := l.access + 1 })
  else (false, l)

/-- `TryWriterLock`: whether the access is granted. -/
def tryWriterLock (l : ReadWriteLock) : Bool × ReadWriteLock :=
  if l.access = 0 then (true, { l with access := l.access - 1 })
  else (false, l)

/-- `Unlock`: the access that is handed over. -/
def handOver (l : ReadWriteLock) : ReadWriteLock :=
  if l.access = 0 then
    if l.writerQueue > 0 then
      { l with
        access := l.access - 1
        writerQueue := l.writerQueue - 1
        writerWait := l.writerWait + 1 }
    else if l.readerQueue > 0 then
      { l with
        access := l.readerQueue
        readerQueue := 0
        readerWait := l.readerWait + l.readerQueue }
    else l
  else l

/-- `Unlock`. -/
def unlock (l : ReadWriteLock) : ReadWriteLock :=
  handOver { l with
    access := if l.access > 0 then l.access - 1 else l.access + 1 }

end ReadWriteLock

-- ── Threads ──────────────────────────────────────────────────────────────────

/-- Where a thread is. -/
inductive Place where
  | outside
  | queuedReader
  | queuedWriter
  | reading
  | writing
deriving DecidableEq, Repr

/-- What a thread does; to resume is to get a token. -/
inductive Call where
  | readerLock
  | writerLock
  | tryReaderLock
  | tryWriterLock
  | resume
  | unlock
deriving DecidableEq, Repr

structure World where
  lock : ReadWriteLock
  place : Nat → Place

namespace World

def move (s : World) (lock : ReadWriteLock) (t : Nat) (p : Place) : World :=
  { lock := lock, place := Function.update s.place t p }

end World

/-- One step of a thread. -/
def call (s : World) (t : Nat) : Place → Call → Option World
  | .outside, .readerLock =>
      let (pending, lock) := s.lock.readerLock
      some (s.move lock t (if pending then .queuedReader else .reading))
  | .outside, .writerLock =>
      let (pending, lock) := s.lock.writerLock
      some (s.move lock t (if pending then .queuedWriter else .writing))
  | .outside, .tryReaderLock =>
      let (granted, lock) := s.lock.tryReaderLock
      some (s.move lock t (if granted then .reading else .outside))
  | .outside, .tryWriterLock =>
      let (granted, lock) := s.lock.tryWriterLock
      some (s.move lock t (if granted then .writing else .outside))
  | .queuedReader, .resume =>
      if 0 < s.lock.readerWait then
        some (s.move { s.lock with readerWait := s.lock.readerWait - 1 } t .reading)
      else none
  | .queuedWriter, .resume =>
      if 0 < s.lock.writerWait then
        some (s.move { s.lock with writerWait := s.lock.writerWait - 1 } t .writing)
      else none
  | .reading, .unlock => some (s.move s.lock.unlock t .outside)
  | .writing, .unlock => some (s.move s.lock.unlock t .outside)
  | _, _ => none

def next (n : Nat) (s : World) (l : Nat × Call) : Option World :=
  if l.1 < n then call s l.1 (s.place l.1) l.2 else none

/-- `n` threads and a lock. -/
def readWriteLock (n : Nat) : System World (Nat × Call) where
  init := fun s => s = ⟨.new, fun _ => .outside⟩
  step := fun s l s' => next n s l = some s'

-- ── Counting ─────────────────────────────────────────────────────────────────

variable {n t : Nat} {s s' : World} {l : ReadWriteLock} {p q : Place}
variable {c c' : Place → Nat}

/-- How many threads are at a place. -/
def World.count (s : World) (n : Nat) (q : Place) : Nat :=
  total (fun p => if p = q then 1 else 0) n s.place

/-- Readers that `Unlock` has let in, but that have not resumed. -/
def World.grantedReaders (s : World) (n : Nat) : Nat :=
  s.count n .queuedReader - s.lock.readerQueue

/-- Writers that `Unlock` has let in, but that have not resumed. -/
def World.grantedWriters (s : World) (n : Nat) : Nat :=
  s.count n .queuedWriter - s.lock.writerQueue

/-- One thread goes from `p` to `q`. -/
def Moved (c c' : Place → Nat) (p q : Place) : Prop :=
  ∀ r, c' r + (if p = r then 1 else 0) = c r + if q = r then 1 else 0

theorem moved_move (ht : t < n) (hp : s.place t = p) :
    Moved (s.count n) ((s.move l t q).count n) p q := by
  intro r
  rw [← hp]
  exact total_update ht

/-- Where the counters look. -/
theorem Moved.counts (h : Moved c c' p q) :
    c' .queuedReader + (if p = .queuedReader then 1 else 0) =
        c .queuedReader + (if q = .queuedReader then 1 else 0) ∧
      c' .queuedWriter + (if p = .queuedWriter then 1 else 0) =
        c .queuedWriter + (if q = .queuedWriter then 1 else 0) ∧
      c' .reading + (if p = .reading then 1 else 0) =
        c .reading + (if q = .reading then 1 else 0) ∧
      c' .writing + (if p = .writing then 1 else 0) =
        c .writing + (if q = .writing then 1 else 0) :=
  ⟨h _, h _, h _, h _⟩

-- ── What each function keeps ─────────────────────────────────────────────────

/-- The counters, the tokens and the numbers of threads agree, and nobody queues
    at a lock that is free. -/
structure Agrees (l : ReadWriteLock) (c : Place → Nat) : Prop where
  readers : l.readerQueue + l.readerWait = c .queuedReader
  writers : l.writerQueue + l.writerWait = c .queuedWriter
  access : l.access = -1 ∧ c .writing + l.writerWait = 1 ∧
      c .reading + l.readerWait = 0 ∨
    l.access = c .reading + l.readerWait ∧ c .writing + l.writerWait = 0
  free : l.access = 0 → l.readerQueue = 0 ∧ l.writerQueue = 0

namespace Agrees

variable (h : Agrees l c)
include h

theorem readerLock (hm : Moved c c' .outside
    (if l.readerLock.1 then .queuedReader else .reading)) :
    Agrees l.readerLock.2 c' := by
  obtain ⟨hreaders, hwriters, haccess, hfree⟩ := h
  obtain ⟨h₁, h₂, h₃, h₄⟩ := hm.counts
  unfold ReadWriteLock.readerLock at *
  by_cases hpending : (l.access < 0 || l.writerQueue > 0) = true
  · simp only [hpending, reduceCtorEq, ↓reduceIte] at h₁ h₂ h₃ h₄ ⊢
    rw [Bool.or_eq_true, decide_eq_true_eq, decide_eq_true_eq] at hpending
    constructor <;> dsimp only <;> omega
  · simp only [hpending, reduceCtorEq, ↓reduceIte] at h₁ h₂ h₃ h₄ ⊢
    rw [Bool.or_eq_true, decide_eq_true_eq, decide_eq_true_eq] at hpending
    constructor <;> dsimp only <;> omega

theorem writerLock (hm : Moved c c' .outside
    (if l.writerLock.1 then .queuedWriter else .writing)) :
    Agrees l.writerLock.2 c' := by
  obtain ⟨hreaders, hwriters, haccess, hfree⟩ := h
  obtain ⟨h₁, h₂, h₃, h₄⟩ := hm.counts
  unfold ReadWriteLock.writerLock at *
  by_cases hpending : l.access = 0
  · simp only [hpending, ne_eq, not_true_eq_false, decide_false,
      Bool.false_eq_true, reduceCtorEq, ↓reduceIte] at h₁ h₂ h₃ h₄ ⊢
    constructor <;> dsimp only <;> omega
  · simp only [hpending, ne_eq, not_false_eq_true, decide_true, reduceCtorEq,
      ↓reduceIte] at h₁ h₂ h₃ h₄ ⊢
    constructor <;> dsimp only <;> omega

theorem tryReaderLock (hm : Moved c c' .outside
    (if l.tryReaderLock.1 then .reading else .outside)) :
    Agrees l.tryReaderLock.2 c' := by
  obtain ⟨hreaders, hwriters, haccess, hfree⟩ := h
  obtain ⟨h₁, h₂, h₃, h₄⟩ := hm.counts
  unfold ReadWriteLock.tryReaderLock at *
  by_cases hgranted : l.access ≥ 0 ∧ l.writerQueue = 0
  · simp only [if_pos hgranted, reduceCtorEq, ↓reduceIte] at h₁ h₂ h₃ h₄ ⊢
    constructor <;> dsimp only <;> omega
  · simp only [if_neg hgranted, Bool.false_eq_true, reduceCtorEq,
      ↓reduceIte] at h₁ h₂ h₃ h₄ ⊢
    constructor <;> omega

theorem tryWriterLock (hm : Moved c c' .outside
    (if l.tryWriterLock.1 then .writing else .outside)) :
    Agrees l.tryWriterLock.2 c' := by
  obtain ⟨hreaders, hwriters, haccess, hfree⟩ := h
  obtain ⟨h₁, h₂, h₃, h₄⟩ := hm.counts
  unfold ReadWriteLock.tryWriterLock at *
  by_cases hgranted : l.access = 0
  · simp only [if_pos hgranted, reduceCtorEq, ↓reduceIte] at h₁ h₂ h₃ h₄ ⊢
    constructor <;> dsimp only <;> omega
  · simp only [if_neg hgranted, Bool.false_eq_true, reduceCtorEq,
      ↓reduceIte] at h₁ h₂ h₃ h₄ ⊢
    constructor <;> omega

/-- A reader gets a token: it was counted when it was let in. -/
theorem resumeReader (hwait : 0 < l.readerWait)
    (hm : Moved c c' .queuedReader .reading) :
    Agrees { l with readerWait := l.readerWait - 1 } c' := by
  obtain ⟨hreaders, hwriters, haccess, hfree⟩ := h
  obtain ⟨h₁, h₂, h₃, h₄⟩ := hm.counts
  simp only [reduceCtorEq, ↓reduceIte] at h₁ h₂ h₃ h₄
  constructor <;> dsimp only <;> omega

/-- A writer gets a token: it was counted when it was let in. -/
theorem resumeWriter (hwait : 0 < l.writerWait)
    (hm : Moved c c' .queuedWriter .writing) :
    Agrees { l with writerWait := l.writerWait - 1 } c' := by
  obtain ⟨hreaders, hwriters, haccess, hfree⟩ := h
  obtain ⟨h₁, h₂, h₃, h₄⟩ := hm.counts
  simp only [reduceCtorEq, ↓reduceIte] at h₁ h₂ h₃ h₄
  constructor <;> dsimp only <;> omega

/-- A holder unlocks: the last one hands the access over. -/
theorem unlock (hp : p = .reading ∨ p = .writing)
    (hm : Moved c c' p .outside) : Agrees l.unlock c' := by
  obtain ⟨hreaders, hwriters, haccess, hfree⟩ := h
  obtain ⟨h₁, h₂, h₃, h₄⟩ := hm.counts
  have hcounts : c' .queuedReader = c .queuedReader ∧
      c' .queuedWriter = c .queuedWriter ∧
      (l.access > 0 ∧ c' .reading + 1 = c .reading ∧
          c' .writing = c .writing ∨
        l.access = -1 ∧ c' .reading = c .reading ∧
          c' .writing + 1 = c .writing) := by
    rcases hp with rfl | rfl
    · simp only [reduceCtorEq, ↓reduceIte] at h₁ h₂ h₃ h₄
      omega
    · simp only [reduceCtorEq, ↓reduceIte] at h₁ h₂ h₃ h₄
      omega
  obtain ⟨hqr, hqw, hheld⟩ := hcounts
  rw [ReadWriteLock.unlock]
  generalize hleft : (if l.access > 0 then l.access - 1 else l.access + 1) = left
  have hleft' : left = c' .reading + l.readerWait ∧
      c' .writing + l.writerWait = 0 := by
    split at hleft <;> omega
  rw [ReadWriteLock.handOver]
  split
  · split
    · constructor <;> dsimp only at * <;> omega
    · split
      · constructor <;> dsimp only at * <;> omega
      · constructor <;> dsimp only at * <;> omega
  · constructor <;> dsimp only at * <;> omega

end Agrees

-- ── Runs ─────────────────────────────────────────────────────────────────────

/-- **THE STEP**: whatever a thread does, the lock agrees with the threads. -/
theorem agrees_next {l : Nat × Call} (hs : next n s l = some s')
    (h : Agrees s.lock (s.count n)) : Agrees s'.lock (s'.count n) := by
  obtain ⟨t, what⟩ := l
  unfold next at hs
  split at hs
  · next ht =>
      have hmoved := fun {lock : ReadWriteLock} {q : Place} =>
        @moved_move n t s lock (s.place t) q ht rfl
      unfold call at hs
      split at hs
      · next hp _ =>
          rw [hp] at hmoved
          obtain rfl := Option.some.inj hs
          exact h.readerLock hmoved
      · next hp _ =>
          rw [hp] at hmoved
          obtain rfl := Option.some.inj hs
          exact h.writerLock hmoved
      · next hp _ =>
          rw [hp] at hmoved
          obtain rfl := Option.some.inj hs
          exact h.tryReaderLock hmoved
      · next hp _ =>
          rw [hp] at hmoved
          obtain rfl := Option.some.inj hs
          exact h.tryWriterLock hmoved
      · next hp _ =>
          rw [hp] at hmoved
          split at hs
          · next hwait =>
              obtain rfl := Option.some.inj hs
              exact h.resumeReader hwait hmoved
          · cases hs
      · next hp _ =>
          rw [hp] at hmoved
          split at hs
          · next hwait =>
              obtain rfl := Option.some.inj hs
              exact h.resumeWriter hwait hmoved
          · cases hs
      · next hp _ =>
          rw [hp] at hmoved
          obtain rfl := Option.some.inj hs
          exact h.unlock (.inl rfl) hmoved
      · next hp _ =>
          rw [hp] at hmoved
          obtain rfl := Option.some.inj hs
          exact h.unlock (.inr rfl) hmoved
      · cases hs
  · cases hs

theorem reachable_agrees (h : Reachable (readWriteLock n) s) :
    Agrees s.lock (s.count n) := by
  refine h.invariant (I := fun s => Agrees s.lock (s.count n)) ?_ ?_
  · rintro s rfl
    have hcount : ∀ q, q ≠ .outside →
        World.count ⟨.new, fun _ => .outside⟩ n q = 0 := by
      intro q hq
      rw [World.count, total]
      exact Finset.sum_eq_zero fun t _ => if_neg hq.symm
    constructor
    · rw [hcount _ (by decide)]
      rfl
    · rw [hcount _ (by decide)]
      rfl
    · rw [hcount _ (by decide), hcount _ (by decide)]
      exact .inr ⟨rfl, rfl⟩
    · exact fun _ => ⟨rfl, rfl⟩
  · exact fun s l s' _ hi hs => agrees_next hs hi

theorem count_pos (ht : t < n) (hp : s.place t = q) : 0 < s.count n q := by
  have hle := @le_total _ (fun p => if p = q then 1 else 0) n t s.place ht
  rw [if_pos hp] at hle
  exact hle

theorem count_two {t t' : Nat} (ht : t < n) (ht' : t' < n) (hne : t' ≠ t)
    (hp : s.place t = .writing) (hp' : s.place t' = .writing) :
    2 ≤ s.count n .writing := by
  -- with one of them gone the other is still counted
  have hmoved := moved_move (l := s.lock) (q := .outside) ht hp .writing
  have hstays : (s.move s.lock t .outside).place t' = .writing :=
    (Function.update_of_ne hne _ _).trans hp'
  have hpos := count_pos ht' hstays
  simp only [reduceCtorEq, ↓reduceIte] at hmoved
  omega

theorem exists_of_count_pos (h : 0 < s.count n q) : ∃ t < n, s.place t = q := by
  obtain ⟨t, ht, hpos⟩ := exists_of_total_pos h
  refine ⟨t, ht, ?_⟩
  by_contra hne
  rw [if_neg hne] at hpos
  cases hpos

/-- **THE LOCK**: for any number of threads, in every reachable state a writer
    holds the lock alone; the tokens are as many as the threads that were let in
    while they queued and have not resumed; `_access` counts those and the
    holders, or is `-1` for a writer; and if a thread queues without a token,
    somebody holds the lock or was let in. -/
theorem reachable_lock (h : Reachable (readWriteLock n) s) :
    (∀ t < n, s.place t = .writing → ∀ t' < n, t' ≠ t →
      s.place t' ≠ .reading ∧ s.place t' ≠ .writing) ∧
    (s.lock.readerQueue ≤ s.count n .queuedReader ∧
      s.lock.readerWait = s.grantedReaders n ∧
      s.lock.writerQueue ≤ s.count n .queuedWriter ∧
      s.lock.writerWait = s.grantedWriters n) ∧
    ((s.lock.access = -1 ∧ s.count n .writing + s.grantedWriters n = 1 ∧
        s.count n .reading + s.grantedReaders n = 0) ∨
      (s.lock.access = s.count n .reading + s.grantedReaders n ∧
        s.count n .writing + s.grantedWriters n = 0)) ∧
    (s.lock.readerWait < s.count n .queuedReader ∨
        s.lock.writerWait < s.count n .queuedWriter →
      (∃ t < n, s.place t = .reading ∨ s.place t = .writing) ∨
        0 < s.grantedReaders n + s.grantedWriters n) := by
  have hagrees := reachable_agrees h
  have hreaders := hagrees.readers
  have hwriters := hagrees.writers
  have haccess := hagrees.access
  have hfree := hagrees.free
  rw [World.grantedReaders, World.grantedWriters]
  refine ⟨?_, ⟨by omega, by omega, by omega, by omega⟩, by omega, ?_⟩
  · intro t ht hwriting t' ht' hne
    have hpos := count_pos ht hwriting
    constructor
    · intro hreading
      have hpos' := count_pos ht' hreading
      omega
    · intro hwriting'
      have htwo := count_two ht ht' hne hwriting hwriting'
      omega
  · intro hqueued
    by_cases hreading : 0 < s.count n .reading
    · obtain ⟨t, ht, hp⟩ := exists_of_count_pos hreading
      exact .inl ⟨t, ht, .inl hp⟩
    · by_cases hwriting : 0 < s.count n .writing
      · obtain ⟨t, ht, hp⟩ := exists_of_count_pos hwriting
        exact .inl ⟨t, ht, .inr hp⟩
      · exact .inr (by omega)

/-- A reader has queued at a writer, which then unlocks. -/
def handedOver : World :=
  let place : Nat → Place := fun _ => .outside
  let place := Function.update place 0 .writing
  let place := Function.update place 1 .queuedReader
  ⟨⟨1, 0, 0, 1, 0⟩, Function.update place 0 .outside⟩

theorem reachable_handedOver : Reachable (readWriteLock 2) handedOver := by
  have hrun : [(0, .writerLock), (1, .readerLock), (0, .unlock)].foldlM (next 2)
      ⟨.new, fun _ => .outside⟩ = some handedOver := rfl
  exact Reachable.follow (fun _ _ _ _ hs => hs) (.start rfl) hrun

theorem reachable_lock_handedOver :
    handedOver.place 1 = .queuedReader ∧ handedOver.grantedReaders 2 = 1 ∧
      handedOver.lock.readerWait = 1 := by
  obtain ⟨-, ⟨-, htokens, -⟩, -⟩ := reachable_lock reachable_handedOver
  exact ⟨rfl, htokens.symm, rfl⟩

end FlinterReadWriteLock
