import Flinter.RunProofs

/-! # Programs that lock mutexes and call back

    A program locks and unlocks mutexes, asks what only its surroundings know,
    and calls code it does not know.  That code runs on the same thread, and
    may start programs of its own before it replies.  A mutex is not recursive:
    a thread that locks one it holds already waits for itself.

    `Safe` is what a program promises from the mutexes it is started with: it
    calls back with none held, and locks none that is held.  Programs are put
    together by `bind`, and so are their promises; a thread all of whose
    programs keep theirs never calls back with a mutex held and never waits for
    itself. -/

namespace Locks

open Runs

variable {M Q C O : Type} {A : Q → Type} {R : C → Type} {α β : Type}

/-- A program over the mutexes `M`, the questions `Q` with their answers and the
    callbacks `C` with their replies. -/
inductive Prog (M : Type) {Q C : Type} (A : Q → Type) (R : C → Type)
    (α : Type) : Type where
  | pure (a : α)
  | lock (m : M) (next : Prog M A R α)
  | unlock (m : M) (next : Prog M A R α)
  | ask (q : Q) (next : A q → Prog M A R α)
  | call (c : C) (next : R c → Prog M A R α)

namespace Prog

/-- One program after another. -/
def bind : Prog M A R α → (α → Prog M A R β) → Prog M A R β
  | .pure a, f => f a
  | .lock m p, f => .lock m (p.bind f)
  | .unlock m p, f => .unlock m (p.bind f)
  | .ask q p, f => .ask q fun a => (p a).bind f
  | .call c p, f => .call c fun r => (p r).bind f

instance : Monad (Prog M A R) where
  pure := .pure
  bind := .bind

end Prog

/-- Locks `m`. -/
def acquire (m : M) : Prog M A R Unit := .lock m (.pure ())

/-- Unlocks `m`. -/
def relinquish (m : M) : Prog M A R Unit := .unlock m (.pure ())

/-- Asks `q`. -/
def query (q : Q) : Prog M A R (A q) := .ask q .pure

/-- Calls `c` back. -/
def callback (c : C) : Prog M A R (R c) := .call c .pure

-- ── What a program promises ──────────────────────────────────────────────────

variable [DecidableEq M] {ok : ∀ q, A q → Prop} {held : List M}
variable {post post' : α → List M → Prop} {p : Prog M A R α} {m : M}

/-- With the mutexes `held`, and answers that `ok` lets through, the program
    calls back with none held, locks none that is held, and ends as `post`
    says. -/
def Prog.Safe (ok : ∀ q, A q → Prop) :
    Prog M A R α → List M → (α → List M → Prop) → Prop
  | .pure a, held, post => post a held
  | .lock m p, held, post => m ∉ held ∧ p.Safe ok (m :: held) post
  | .unlock m p, held, post => p.Safe ok (held.erase m) post
  | .ask q p, held, post => ∀ a, ok q a → (p a).Safe ok held post
  | .call _ p, held, post => held = [] ∧ ∀ r, (p r).Safe ok held post

/-- **THE COMPOSITION RULE**: the second program starts where the first one
    ends. -/
theorem Prog.Safe.bind {f : α → Prog M A R β} {post : β → List M → Prop}
    (h : p.Safe ok held fun a held' => (f a).Safe ok held' post) :
    (p.bind f).Safe ok held post := by
  induction p generalizing held with
  | pure a => exact h
  | lock m p ih =>
      obtain ⟨hm, hp⟩ := h
      exact ⟨hm, ih hp⟩
  | unlock m p ih => exact ih h
  | ask q p ih =>
      intro a ha
      exact ih a (h a ha)
  | call c p ih =>
      obtain ⟨hheld, hp⟩ := h
      refine ⟨hheld, ?_⟩
      intro r
      exact ih r (hp r)

/-- A weaker promise about the end. -/
theorem Prog.Safe.imp (h : p.Safe ok held post)
    (himp : ∀ a held', post a held' → post' a held') : p.Safe ok held post' := by
  induction p generalizing held with
  | pure a => exact himp a held h
  | lock m p ih =>
      obtain ⟨hm, hp⟩ := h
      exact ⟨hm, ih hp⟩
  | unlock m p ih => exact ih h
  | ask q p ih =>
      intro a ha
      exact ih a (h a ha)
  | call c p ih =>
      obtain ⟨hheld, hp⟩ := h
      refine ⟨hheld, ?_⟩
      intro r
      exact ih r (hp r)

/-- One program after another in `do` notation. -/
theorem safe_bind {f : α → Prog M A R β} {post : β → List M → Prop}
    (h : p.Safe ok held fun a held' => (f a).Safe ok held' post) :
    (p >>= f).Safe ok held post :=
  Prog.Safe.bind h

/-- The answer is one of those let through. -/
theorem safe_query {q : Q} {post : A q → List M → Prop}
    (h : ∀ a, ok q a → post a held) :
    (query q : Prog M A R (A q)).Safe ok held post := h

theorem safe_acquire_bind {f : Unit → Prog M A R β} {post : β → List M → Prop}
    (hm : m ∉ held) (h : (f ()).Safe ok (m :: held) post) :
    (acquire m >>= f).Safe ok held post :=
  ⟨hm, h⟩

/-- The mutex that was locked last is unlocked. -/
theorem safe_relinquish {post : Unit → List M → Prop} (h : post () held) :
    (relinquish m : Prog M A R Unit).Safe ok (m :: held) post := by
  show post () ((m :: held).erase m)
  rw [List.erase_cons_head]
  exact h

theorem safe_relinquish_bind {f : Unit → Prog M A R β}
    {post : β → List M → Prop} (h : (f ()).Safe ok held post) :
    (relinquish m >>= f).Safe ok (m :: held) post :=
  safe_bind (safe_relinquish h)

/-- A program that ends with the mutexes it was started with. -/
abbrev Prog.Keeps (ok : ∀ q, A q → Prop) (p : Prog M A R α) (held : List M) :
    Prop :=
  p.Safe ok held fun _ held' => held' = held

theorem keeps_query {q : Q} : (query q : Prog M A R (A q)).Keeps ok held :=
  fun _ _ => rfl

/-- After a program that ends with the mutexes it was started with. -/
theorem keeps_bind {f : α → Prog M A R β} {post : β → List M → Prop}
    (hp : p.Keeps ok held) (hf : ∀ a, (f a).Safe ok held post) :
    (p >>= f).Safe ok held post := by
  refine safe_bind (hp.imp ?_)
  rintro a _ rfl
  exact hf a

/-- A program with no mutex held, and none left. -/
abbrev Prog.Clean (ok : ∀ q, A q → Prop) (p : Prog M A R α) : Prop :=
  p.Keeps ok []

theorem clean_callback {c : C} : (callback c : Prog M A R (R c)).Clean ok :=
  ⟨rfl, fun _ => rfl⟩

-- ── A thread ─────────────────────────────────────────────────────────────────

/-- What a thread runs: code that is called back, or a program. -/
inductive Activity (M : Type) {Q C : Type} (A : Q → Type) (R : C → Type) :
    Type where
  | outside
  | inside (p : Prog M A R Unit)

/-- A thread: the mutexes it holds, the calls it has yet to reply to, the last
    one first, and what it runs. -/
structure Thread (M : Type) {Q C : Type} (A : Q → Type) (R : C → Type) where
  held : List M
  frames : List ((c : C) × (R c → Prog M A R Unit))
  activity : Activity M A R

/-- What a step of a thread chooses. -/
inductive Choice (O : Type) {Q C : Type} (A : Q → Type) (R : C → Type) where
  | start (o : O)
  | answer (q : Q) (a : A q)
  | reply (c : C) (r : R c)
  | go

/-- The steps of a thread whose programs are `program`.  Where code is called
    back, it may start those that `entry` lets it. -/
inductive Step (program : O → Prog M A R Unit) (entry : O → Prop) :
    Thread M A R → Choice O A R → Thread M A R → Prop where
  | start {held frames} (o : O) (h : frames = [] ∨ entry o) :
      Step program entry ⟨held, frames, .outside⟩ (.start o)
        ⟨held, frames, .inside (program o)⟩
  | lock {held frames m p} (h : m ∉ held) :
      Step program entry ⟨held, frames, .inside (.lock m p)⟩ .go
        ⟨m :: held, frames, .inside p⟩
  | unlock {held frames m p} :
      Step program entry ⟨held, frames, .inside (.unlock m p)⟩ .go
        ⟨held.erase m, frames, .inside p⟩
  | answer {held frames q p} (a : A q) :
      Step program entry ⟨held, frames, .inside (.ask q p)⟩ (.answer q a)
        ⟨held, frames, .inside (p a)⟩
  | call {held frames c p} :
      Step program entry ⟨held, frames, .inside (.call c p)⟩ .go
        ⟨held, ⟨c, p⟩ :: frames, .outside⟩
  | reply {held frames c p} (r : R c) :
      Step program entry ⟨held, ⟨c, p⟩ :: frames, .outside⟩ (.reply c r)
        ⟨held, frames, .inside (p r)⟩
  | done {held frames} :
      Step program entry ⟨held, frames, .inside (.pure ())⟩ .go
        ⟨held, frames, .outside⟩

/-- A thread from its start. -/
def machine (program : O → Prog M A R Unit) (entry : O → Prop) :
    System (Thread M A R) (Choice O A R) where
  init := fun th => th = ⟨[], [], .outside⟩
  step := Step program entry

/-- The answers of a step are among those that `ok` lets through. -/
def Answering (ok : ∀ q, A q → Prop) (_ : Thread M A R) :
    Choice O A R → Prop
  | .answer q a => ok q a
  | _ => True

/-- The thread is about to call `c`. -/
def Thread.Calling (th : Thread M A R) (c : C) : Prop :=
  ∃ p, th.activity = .inside (.call c p)

/-- The thread is about to lock a mutex that it holds. -/
def Thread.WaitsForItself (th : Thread M A R) : Prop :=
  ∃ m p, th.activity = .inside (.lock m p) ∧ m ∈ th.held

/-- What a thread keeps: the program it runs, and those that wait for a reply,
    keep their promises. -/
structure Thread.Safe (ok : ∀ q, A q → Prop) (th : Thread M A R) : Prop where
  outside : th.activity = .outside → th.held = []
  inside : ∀ p, th.activity = .inside p → p.Safe ok th.held fun _ held => held = []
  frames : ∀ f ∈ th.frames, ∀ r, (f.2 r).Clean ok

/-- A thread that runs a program which keeps its promise. -/
theorem Thread.safe_inside {p : Prog M A R Unit}
    {frames : List ((c : C) × (R c → Prog M A R Unit))}
    (hp : p.Safe ok held fun _ held => held = [])
    (hframes : ∀ f ∈ frames, ∀ r, (f.2 r).Clean ok) :
    Thread.Safe ok ⟨held, frames, .inside p⟩ := by
  refine ⟨fun h => absurd h (by simp), ?_, hframes⟩
  rintro p' hp'
  obtain rfl := Activity.inside.inj hp'
  exact hp

theorem Thread.Safe.step {program : O → Prog M A R Unit} {entry : O → Prop}
    {th th' : Thread M A R} {l : Choice O A R}
    (hprogram : ∀ o, (program o).Clean ok) (h : th.Safe ok)
    (hl : Answering ok th l) (hs : Step program entry th l th') : th'.Safe ok := by
  obtain ⟨houtside, hinside, hframes⟩ := h
  cases hs with
  | start o _ =>
      obtain rfl := houtside rfl
      exact Thread.safe_inside (hprogram o) hframes
  | lock _ =>
      exact Thread.safe_inside (hinside _ rfl).2 hframes
  | unlock =>
      exact Thread.safe_inside (hinside _ rfl) hframes
  | answer a =>
      exact Thread.safe_inside (hinside _ rfl a hl) hframes
  | call =>
      obtain ⟨hheld, hp⟩ := hinside _ rfl
      obtain rfl := hheld
      refine ⟨fun _ => rfl, fun p h => absurd h (by simp), ?_⟩
      rintro f hf
      rcases List.mem_cons.mp hf with rfl | hf
      · exact hp
      · exact hframes f hf
  | reply r =>
      obtain rfl := houtside rfl
      exact Thread.safe_inside (hframes _ List.mem_cons_self r)
        fun f hf => hframes f (List.mem_cons_of_mem _ hf)
  | done =>
      refine ⟨fun _ => hinside _ rfl, fun p h => absurd h (by simp), hframes⟩

/-- **A THREAD OF CLEAN PROGRAMS**: in every run with answers that `ok` lets
    through, it calls back with no mutex held and never waits for itself. -/
theorem calls_unlocked {program : O → Prog M A R Unit} {entry : O → Prop}
    {th : Thread M A R} (hprogram : ∀ o, (program o).Clean ok)
    (h : Reachable ((machine program entry).restrict (Answering ok)) th) :
    (∀ c, th.Calling c → th.held = []) ∧ ¬th.WaitsForItself := by
  have hsafe : th.Safe ok := by
    refine h.invariant ?_ ?_
    · rintro _ rfl
      exact ⟨fun _ => rfl, fun p h => absurd h (by simp),
        fun _ hf => absurd hf List.not_mem_nil⟩
    · rintro th l th' - hsafe ⟨hl, hs⟩
      exact hsafe.step hprogram hl hs
  constructor
  · rintro c ⟨p, hp⟩
    exact (hsafe.inside _ hp).1
  · rintro ⟨m, p, hp, hm⟩
    exact (hsafe.inside _ hp).1 hm

-- ── Runs step by step ────────────────────────────────────────────────────────

section Runs

variable {program : O → Prog M A R Unit} {entry : O → Prop}
variable {frames : List ((c : C) × (R c → Prog M A R Unit))}
variable {p p' : Prog M A R Unit}

theorem run_start (h : Reachable ((machine program entry).restrict (Answering ok))
      ⟨held, frames, .outside⟩) (o : O) (ho : frames = [] ∨ entry o) :
    Reachable ((machine program entry).restrict (Answering ok))
      ⟨held, frames, .inside (program o)⟩ :=
  .next (l := .start o) h ⟨trivial, .start o ho⟩

theorem run_lock (h : Reachable ((machine program entry).restrict (Answering ok))
      ⟨held, frames, .inside p⟩) (m : M) (hp : p = .lock m p') (hm : m ∉ held) :
    Reachable ((machine program entry).restrict (Answering ok))
      ⟨m :: held, frames, .inside p'⟩ := by
  subst hp
  exact .next (l := .go) h ⟨trivial, .lock hm⟩

theorem run_unlock (h : Reachable ((machine program entry).restrict (Answering ok))
      ⟨held, frames, .inside p⟩) (m : M) (hp : p = .unlock m p') :
    Reachable ((machine program entry).restrict (Answering ok))
      ⟨held.erase m, frames, .inside p'⟩ := by
  subst hp
  exact .next (l := .go) h ⟨trivial, .unlock⟩

theorem run_answer (h : Reachable ((machine program entry).restrict (Answering ok))
      ⟨held, frames, .inside p⟩) (q : Q) (a : A q) {f : A q → Prog M A R Unit}
      (hp : p = .ask q f) (ha : ok q a) :
    Reachable ((machine program entry).restrict (Answering ok))
      ⟨held, frames, .inside (f a)⟩ := by
  subst hp
  exact .next (l := .answer q a) h ⟨ha, .answer a⟩

theorem run_call (h : Reachable ((machine program entry).restrict (Answering ok))
      ⟨held, frames, .inside p⟩) (c : C) {f : R c → Prog M A R Unit}
      (hp : p = .call c f) :
    Reachable ((machine program entry).restrict (Answering ok))
      ⟨held, ⟨c, f⟩ :: frames, .outside⟩ := by
  subst hp
  exact .next (l := .go) h ⟨trivial, .call⟩

theorem run_done (h : Reachable ((machine program entry).restrict (Answering ok))
      ⟨held, frames, .inside p⟩) (hp : p = .pure ()) :
    Reachable ((machine program entry).restrict (Answering ok))
      ⟨held, frames, .outside⟩ := by
  subst hp
  exact .next (l := .go) h ⟨trivial, .done⟩

end Runs

end Locks
