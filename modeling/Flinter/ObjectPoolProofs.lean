import Flinter.CustodyProofs
import Flinter.RunProofs
import Mathlib.Data.Set.Lattice

/-! # ObjectPool: who has an object

    `_pool` has an entry for each object that is idle or held.  `Grab` creates
    outside the lock, `Remove` and `Shrink` destroy outside of it, so what
    happens from one lock to the next unlock is one step, and so are `Create`
    and each `Destroy`.

    Two accounts are kept.  By one, each object is with a thread that holds it,
    with a call that makes or destroys it, idle, or destroyed; by the other, it
    is in `_pool`, with such a call, or destroyed.  Both hold in every run, and
    together they say that `in_use` marks what is held. -/

namespace FlinterObjectPool

open Custodies Runs

/-- `T *`. -/
abbrev Object := Nat

/-- `ObjectPool::object_t`. -/
structure Entry where
  object : Object
  inUse : Bool
  timestamp : Int
deriving DecidableEq, Repr

-- ── What is done to `_pool` with the lock held ───────────────────────────────

/-- The loop of `Grab`: the first object that is not in use. -/
def grabFirst : List Entry → Option (Object × List Entry)
  | [] => none
  | e :: es =>
    if ¬e.inUse then some (e.object, { e with inUse := true } :: es)
    else (grabFirst es).map fun r => (r.1, e :: r.2)

/-- The loop of `Remove`. -/
def removeFirst (object : Object) : List Entry → List Entry
  | [] => []
  | e :: es => if e.object = object then es else e :: removeFirst object es

/-- The loop of `Release`. -/
def releaseFirst (object : Object) (now : Int) : List Entry → List Entry
  | [] => []
  | e :: es =>
    if e.object = object then { e with inUse := false, timestamp := now } :: es
    else e :: releaseFirst object now es

/-- What the loop of `Clear` takes out. -/
def Entry.leaves (all : Bool) (deadline : Int) (e : Entry) : Bool :=
  all || (!e.inUse && decide (e.timestamp < deadline))

/-- The loop of `Clear`: `gone`, and what stays. -/
def clearPool (all : Bool) (now maxIdleTime : Int) (pool : List Entry) :
    List Object × List Entry :=
  let deadline := now - maxIdleTime
  ((pool.filter (·.leaves all deadline)).map (·.object),
    pool.filter fun e => !e.leaves all deadline)

-- ── Threads ──────────────────────────────────────────────────────────────────

/-- Where a thread is: outside, at the lock of `Grab` behind a `Remove`, before
    and behind `Create`, or before the calls of `Destroy`, after which `Exchange`
    goes on. -/
inductive Stage where
  | outside
  | grabbing
  | creating
  | created (object : Object)
  | destroying (gone : List Object) (exchange : Bool)
deriving DecidableEq, Repr

/-- The objects a call has outside the lock. -/
def Stage.objects : Stage → List Object
  | .outside => []
  | .grabbing => []
  | .creating => []
  | .created object => [object]
  | .destroying gone _ => gone

/-- A thread: the objects it has got and not given back, and the call it is in. -/
structure Thread where
  held : List Object
  stage : Stage
deriving DecidableEq, Repr

/-- An `ObjectPool` and the threads that use it.  `created` and `destroyed` are
    what `Create` and `Destroy` did: the objects are numbered by the former. -/
structure World (T : Type) where
  pool : List Entry
  created : Nat
  destroyed : List Object
  now : Int
  threads : T → Thread

/-- What a thread does next, or the clock. -/
inductive Call (T : Type) where
  | grab (t : T)
  | create (t : T) (succeeds : Bool)
  | add (t : T)
  | release (t : T) (object : Object)
  | remove (t : T) (object : Object) (exchange : Bool)
  | shrink (t : T) (maxIdleTime : Int)
  | destroy (t : T)
  | tick (now : Int)

variable {T : Type} [DecidableEq T]

namespace World

/-- A thread goes on. -/
def setThread (w : World T) (t : T) (thread : Thread) : World T :=
  { w with threads := Function.update w.threads t thread }

/-- `Grab` up to its unlock. -/
def grab (w : World T) (t : T) : World T :=
  let thread := w.threads t
  match grabFirst w.pool with
  | some (object, pool) =>
    { w with pool := pool }.setThread t ⟨object :: thread.held, .outside⟩
  | none => w.setThread t { thread with stage := .creating }

/-- `Create` in `Grab`: a new object, or `NULL`. -/
def create (w : World T) (t : T) (succeeds : Bool) : World T :=
  let thread := w.threads t
  if succeeds then
    { w with created := w.created + 1 }.setThread t
      { thread with stage := .created w.created }
  else w.setThread t { thread with stage := .outside }

/-- `Grab` from its second lock on. -/
def add (w : World T) (t : T) (object : Object) : World T :=
  { w with pool := w.pool ++ [Entry.mk object true (-1)] }.setThread t
    ⟨object :: (w.threads t).held, .outside⟩

/-- `Release`. -/
def release (w : World T) (t : T) (object : Object) : World T :=
  { w with pool := releaseFirst object w.now w.pool }.setThread t
    ⟨(w.threads t).held.erase object, .outside⟩

/-- `Remove` up to its unlock; `exchange` if `Exchange` calls it. -/
def remove (w : World T) (t : T) (object : Object) (exchange : Bool) : World T :=
  { w with pool := removeFirst object w.pool }.setThread t
    ⟨(w.threads t).held.erase object, .destroying [object] exchange⟩

/-- `Shrink` up to its unlock, which is that of `Clear(false)`. -/
def shrink (w : World T) (t : T) (maxIdleTime : Int) : World T :=
  let r := clearPool false w.now maxIdleTime w.pool
  { w with pool := r.2 }.setThread t
    { w.threads t with stage := .destroying r.1 false }

/-- One `Destroy`. -/
def destroy (w : World T) (t : T) (object : Object) (gone : List Object)
    (exchange : Bool) : World T :=
  { w with destroyed := w.destroyed ++ [object] }.setThread t
    { w.threads t with stage := .destroying gone exchange }

/-- The calls of `Destroy` are done. -/
def finish (w : World T) (t : T) (exchange : Bool) : World T :=
  w.setThread t { w.threads t with stage := if exchange then .grabbing else .outside }

end World

/-- One step.  A call begins outside the others of its thread, and what is given
    back is held. -/
def next (w : World T) : Call T → Option (World T)
  | .grab t =>
    if (w.threads t).stage = .outside ∨ (w.threads t).stage = .grabbing then
      some (w.grab t)
    else none
  | .create t succeeds =>
    if (w.threads t).stage = .creating then some (w.create t succeeds) else none
  | .add t =>
    match (w.threads t).stage with
    | .created object => some (w.add t object)
    | _ => none
  | .release t object =>
    if (w.threads t).stage = .outside ∧ object ∈ (w.threads t).held then
      some (w.release t object)
    else none
  | .remove t object exchange =>
    if (w.threads t).stage = .outside ∧ object ∈ (w.threads t).held then
      some (w.remove t object exchange)
    else none
  | .shrink t maxIdleTime =>
    if (w.threads t).stage = .outside then some (w.shrink t maxIdleTime) else none
  | .destroy t =>
    match (w.threads t).stage with
    | .destroying [] exchange => some (w.finish t exchange)
    | .destroying (object :: gone) exchange => some (w.destroy t object gone exchange)
    | _ => none
  | .tick now => if w.now ≤ now then some { w with now := now } else none

/-- A new pool, and threads that have nothing of it. -/
def World.opened (now : Int) : World T := ⟨[], 0, [], now, fun _ => ⟨[], .outside⟩⟩

/-- Calls of any number of threads, in any order. -/
def objectPools (T : Type) [DecidableEq T] : System (World T) (Call T) where
  init := fun w => ∃ now, w = .opened now
  step := fun w c w' => next w c = some w'

-- ── What the loops do to the objects ─────────────────────────────────────────

/-- The objects of the entries. -/
def objects (pool : List Entry) : List Object := pool.map (·.object)

/-- Those that are not in use. -/
def idle (pool : List Entry) : List Object := objects (pool.filter fun e => !e.inUse)

section Loops

variable {pool pool' : List Entry} {e : Entry} {o : Object}

theorem objects_cons : objects (e :: pool) = e.object :: objects pool := rfl

theorem mem_objects : o ∈ objects pool ↔ ∃ e ∈ pool, e.object = o := List.mem_map

theorem mem_idle : o ∈ idle pool ↔ ∃ e ∈ pool, e.inUse = false ∧ e.object = o := by
  rw [idle, mem_objects]
  refine exists_congr fun e => ?_
  rw [List.mem_filter, Bool.not_eq_true', and_assoc]

theorem idle_cons_used (h : e.inUse = true) : idle (e :: pool) = idle pool := by
  rw [idle, List.filter_cons_of_neg (by rw [h]; exact Bool.false_ne_true), idle]

theorem idle_cons_idle (h : e.inUse = false) : idle (e :: pool) = e.object :: idle pool := by
  rw [idle, List.filter_cons_of_pos (by rw [h]; rfl), objects_cons, idle]

theorem used_head (hused : o ∉ idle (e :: pool)) (heq : e.object = o) : e.inUse = true := by
  cases hin : e.inUse with
  | true => rfl
  | false =>
      rw [idle_cons_idle hin, heq] at hused
      exact absurd List.mem_cons_self hused

theorem used_tail (hused : o ∉ idle (e :: pool)) : o ∉ idle pool := by
  intro h
  obtain ⟨x, hx, hxo⟩ := mem_idle.mp h
  exact hused (mem_idle.mpr ⟨x, List.mem_cons_of_mem e hx, hxo⟩)

/-- **`Grab` TAKES AN IDLE OBJECT**, and its entry stays. -/
theorem grabFirst_some (h : grabFirst pool = some (o, pool')) :
    (o :: idle pool').Perm (idle pool) ∧ objects pool' = objects pool ∧
      ∀ e ∈ pool', e.inUse = false → e ∈ pool := by
  induction pool generalizing pool' with
  | nil => exact absurd h.symm (Option.some_ne_none _)
  | cons e es ih =>
      rw [grabFirst] at h
      split at h
      next hidle =>
        obtain ⟨rfl, rfl⟩ := Prod.mk.inj (Option.some.inj h)
        rw [idle_cons_used rfl, idle_cons_idle (Bool.eq_false_iff.mpr hidle)]
        refine ⟨.refl _, rfl, fun x hx hf => ?_⟩
        rcases List.mem_cons.mp hx with rfl | hx
        · exact absurd hf.symm Bool.false_ne_true
        · exact List.mem_cons_of_mem e hx
      next hused =>
        obtain ⟨⟨o', es'⟩, hes, heq⟩ := Option.map_eq_some_iff.mp h
        obtain ⟨rfl, rfl⟩ := Prod.mk.inj heq
        obtain ⟨hperm, hobjects, hstays⟩ := ih hes
        have hin : e.inUse = true := Decidable.not_not.mp hused
        rw [idle_cons_used hin, idle_cons_used hin, objects_cons, objects_cons, hobjects]
        refine ⟨hperm, rfl, fun x hx hf => ?_⟩
        rcases List.mem_cons.mp hx with rfl | hx
        · exact List.mem_cons_self
        · exact List.mem_cons_of_mem e (hstays x hx hf)

/-- **`Release` MAKES AN OBJECT IDLE** that is in use, from now on. -/
theorem releaseFirst_used (now : Int) (ho : o ∈ objects pool) (hused : o ∉ idle pool) :
    (idle (releaseFirst o now pool)).Perm (o :: idle pool) ∧
      objects (releaseFirst o now pool) = objects pool ∧
      ∀ e ∈ releaseFirst o now pool, e.inUse = false →
        e ∈ pool ∨ (e.object = o ∧ e.timestamp = now) := by
  induction pool with
  | nil => exact absurd ho List.not_mem_nil
  | cons e es ih =>
      rw [releaseFirst]
      split
      next heq =>
        have hin := used_head hused heq
        rw [idle_cons_idle rfl, idle_cons_used hin]
        refine ⟨.of_eq (congrArg (· :: _) heq), rfl, fun x hx _ => ?_⟩
        rcases List.mem_cons.mp hx with rfl | hx
        · exact .inr ⟨heq, rfl⟩
        · exact .inl (List.mem_cons_of_mem e hx)
      next hne =>
        have ho' : o ∈ objects es := (List.mem_cons.mp ho).resolve_left (Ne.symm hne)
        obtain ⟨hperm, hobjects, hstays⟩ := ih ho' (used_tail hused)
        rw [objects_cons, objects_cons, hobjects]
        refine ⟨?_, rfl, fun x hx hf => ?_⟩
        · cases hin : e.inUse with
          | true =>
              rw [idle_cons_used hin, idle_cons_used hin]
              exact hperm
          | false =>
              rw [idle_cons_idle hin, idle_cons_idle hin]
              exact (hperm.cons e.object).trans (.swap _ _ _)
        · rcases List.mem_cons.mp hx with rfl | hx
          · exact .inl List.mem_cons_self
          · exact (hstays x hx hf).imp_left (List.mem_cons_of_mem e)

/-- **`Remove` TAKES AN ENTRY OUT** of an object in use. -/
theorem removeFirst_used (ho : o ∈ objects pool) (hused : o ∉ idle pool) :
    (o :: objects (removeFirst o pool)).Perm (objects pool) ∧
      idle (removeFirst o pool) = idle pool ∧ ∀ e ∈ removeFirst o pool, e ∈ pool := by
  induction pool with
  | nil => exact absurd ho List.not_mem_nil
  | cons e es ih =>
      rw [removeFirst]
      split
      next heq =>
        have hin := used_head hused heq
        rw [idle_cons_used hin, objects_cons, heq]
        exact ⟨.refl _, rfl, fun x hx => List.mem_cons_of_mem e hx⟩
      next hne =>
        have ho' : o ∈ objects es := (List.mem_cons.mp ho).resolve_left (Ne.symm hne)
        obtain ⟨hperm, hidle, hstays⟩ := ih ho' (used_tail hused)
        refine ⟨?_, ?_, fun x hx => ?_⟩
        · rw [objects_cons, objects_cons]
          exact (List.Perm.swap _ _ _).trans (hperm.cons e.object)
        · cases hin : e.inUse with
          | true => rw [idle_cons_used hin, idle_cons_used hin, hidle]
          | false => rw [idle_cons_idle hin, idle_cons_idle hin, hidle]
        · rcases List.mem_cons.mp hx with rfl | hx
          · exact List.mem_cons_self
          · exact List.mem_cons_of_mem e (hstays x hx)

/-- **`Shrink` TAKES OUT** what is idle and was so before its deadline. -/
theorem clearPool_idle (pool : List Entry) (now maxIdleTime : Int) :
    let r := clearPool false now maxIdleTime pool
    (r.1 ++ objects r.2).Perm (objects pool) ∧ (r.1 ++ idle r.2).Perm (idle pool) ∧
      (∀ e ∈ r.2, e ∈ pool) ∧
      ∀ o ∈ r.1, ∃ e ∈ pool, e.object = o ∧ e.inUse = false ∧
        maxIdleTime < now - e.timestamp := by
  intro r
  have hleaves : ∀ e : Entry, e.leaves false (now - maxIdleTime) = true ↔
      e.inUse = false ∧ e.timestamp < now - maxIdleTime := by
    intro e
    rw [Entry.leaves, Bool.false_or, Bool.and_eq_true, Bool.not_eq_true', decide_eq_true_eq]
  have hsplit : ∀ es : List Entry,
      (objects (es.filter (·.leaves false (now - maxIdleTime))) ++
        objects (es.filter fun e => !e.leaves false (now - maxIdleTime))).Perm
        (objects es) := by
    intro es
    rw [objects, objects, ← List.map_append]
    exact (List.filter_append_perm _ es).map _
  refine ⟨hsplit pool, ?_, fun e he => (List.mem_filter.mp he).1, fun o ho => ?_⟩
  · -- what leaves is idle
    have hgone : r.1 = objects ((pool.filter fun e => !e.inUse).filter
        (·.leaves false (now - maxIdleTime))) := by
      rw [List.filter_filter]
      refine congrArg objects (List.filter_congr fun e _ => ?_)
      rw [Bool.eq_iff_iff, Bool.and_eq_true, hleaves]
      exact ⟨fun h => ⟨h, by rw [h.1]; rfl⟩, And.left⟩
    have hkept : idle r.2 = objects ((pool.filter fun e => !e.inUse).filter
        fun e => !e.leaves false (now - maxIdleTime)) :=
      congrArg objects (List.filter_comm _ _ pool)
    rw [hgone, hkept]
    exact hsplit _
  · obtain ⟨e, he, rfl⟩ := mem_objects.mp ho
    obtain ⟨hin, hleave⟩ := List.mem_filter.mp he
    obtain ⟨hidle, hlt⟩ := (hleaves e).mp hleave
    exact ⟨e, hin, rfl, hidle, by omega⟩

end Loops

-- ── The two accounts ─────────────────────────────────────────────────────────

/-- Who may have an object: a thread that got it, a call of a thread outside the
    lock, the pool, or nobody any more. -/
inductive Keeper (T : Type) where
  | held (t : T)
  | call (t : T)
  | pool
  | destroyed

/-- The same, seen by one thread. -/
inductive Side where
  | held
  | call
  | pool
  | destroyed

def Side.keeper (t : T) : Side → Keeper T
  | .held => .held t
  | .call => .call t
  | .pool => .pool
  | .destroyed => .destroyed

/-- Lists for the keepers, where `mine` is what is said to be held. -/
def lists (mine : Thread → List Object) (threads : T → Thread)
    (pool destroyed : List Object) : Keeper T → List Object
  | .held t => mine (threads t)
  | .call t => (threads t).stage.objects
  | .pool => pool
  | .destroyed => destroyed

/-- The lists that a step of one thread involves. -/
def desk (mine : Thread → List Object) (thread : Thread)
    (pool destroyed : List Object) : Side → List Object
  | .held => mine thread
  | .call => thread.stage.objects
  | .pool => pool
  | .destroyed => destroyed

/-- Who has the objects; the pool has those that are idle. -/
def World.owners (w : World T) : Keeper T → List Object :=
  lists Thread.held w.threads (idle w.pool) w.destroyed

/-- Where the objects are; those that are held have an entry. -/
def World.places (w : World T) : Keeper T → List Object :=
  lists (fun _ => []) w.threads (objects w.pool) w.destroyed

/-- What a thread has in hand, in a call or not. -/
def World.hands (w : World T) (t : T) : List Object :=
  (w.threads t).held ++ (w.threads t).stage.objects

/-- **THE TWO ACCOUNTS** of the objects that were created. -/
structure Accounted (w : World T) : Prop where
  owners : Custody {o | o < w.created} w.owners
  places : Custody {o | o < w.created} w.places

section Lists

variable {mine : Thread → List Object} {threads : T → Thread} {t : T} {thread : Thread}
  {pool pool' destroyed destroyed' : List Object} {items : Set Object} {o : Object}

omit [DecidableEq T] in
theorem lists_keeper (s : Side) : lists mine threads pool destroyed (s.keeper t)
    = desk mine (threads t) pool destroyed s := by
  cases s with
  | held => rfl
  | call => rfl
  | pool => rfl
  | destroyed => rfl

theorem lists_update (s : Side) :
    lists mine (Function.update threads t thread) pool destroyed (s.keeper t)
      = desk mine thread pool destroyed s := by
  rw [lists_keeper, Function.update_self]

/-- Other threads have what they had. -/
theorem lists_other {r : Keeper T} (hr : ∀ s : Side, s.keeper t ≠ r) :
    lists mine (Function.update threads t thread) pool' destroyed' r
      = lists mine threads pool destroyed r := by
  cases r with
  | held t' =>
      have hne : t' ≠ t := fun heq => hr .held (congrArg Keeper.held heq.symm)
      rw [lists, lists, Function.update_of_ne hne]
  | call t' =>
      have hne : t' ≠ t := fun heq => hr .call (congrArg Keeper.call heq.symm)
      rw [lists, lists, Function.update_of_ne hne]
  | pool => exact absurd rfl (hr .pool)
  | destroyed => exact absurd rfl (hr .destroyed)

/-- A step of a thread that moves nothing. -/
theorem stay (h : Custody items (lists mine threads pool destroyed))
    (hdesk : ∀ s, desk mine thread pool' destroyed' s
      = desk mine (threads t) pool destroyed s) :
    Custody items (lists mine (Function.update threads t thread) pool' destroyed') := by
  refine h.perm fun r => .of_eq ?_
  by_cases hr : ∃ s : Side, s.keeper t = r
  · obtain ⟨s, rfl⟩ := hr
    rw [lists_update, lists_keeper, hdesk s]
  · exact lists_other fun s hs => hr ⟨s, hs⟩

/-- A step of a thread that moves objects from one side to another. -/
theorem turn (h : Custody items (lists mine threads pool destroyed)) (p q : Side)
    (gone : List Object) (hpq : p.keeper t ≠ q.keeper t)
    (hp : (gone ++ desk mine thread pool' destroyed' p).Perm
      (desk mine (threads t) pool destroyed p))
    (hq : (desk mine thread pool' destroyed' q).Perm
      (gone ++ desk mine (threads t) pool destroyed q))
    (hrest : ∀ s, s ≠ p → s ≠ q → desk mine thread pool' destroyed' s
      = desk mine (threads t) pool destroyed s) :
    Custody items (lists mine (Function.update threads t thread) pool' destroyed') := by
  refine h.move (p.keeper t) (q.keeper t) gone hpq ?_ ?_ fun r hrp hrq => ?_
  · rw [lists_update, lists_keeper]
    exact hp
  · rw [lists_update, lists_keeper]
    exact hq
  by_cases hr : ∃ s : Side, s.keeper t = r
  · obtain ⟨s, rfl⟩ := hr
    rw [lists_update, lists_keeper]
    exact hrest s (fun h0 => hrp (congrArg _ h0)) fun h0 => hrq (congrArg _ h0)
  · exact lists_other fun s hs => hr ⟨s, hs⟩

/-- A step of a thread whose call has made an object. -/
theorem appear (h : Custody items (lists mine threads pool destroyed)) (hnew : o ∉ items)
    (hcall : (desk mine thread pool destroyed .call).Perm
      (o :: desk mine (threads t) pool destroyed .call))
    (hheld : mine thread = mine (threads t)) :
    Custody (insert o items)
      (lists mine (Function.update threads t thread) pool destroyed) := by
  refine h.enter (.call t) hnew ?_ fun r hr => ?_
  · show (lists mine _ pool destroyed (Side.call.keeper t)).Perm
      (o :: lists mine threads pool destroyed (Side.call.keeper t))
    rw [lists_update, lists_keeper]
    exact hcall
  by_cases hs : ∃ s : Side, s.keeper t = r
  · obtain ⟨s, rfl⟩ := hs
    rw [lists_update, lists_keeper]
    cases s with
    | held => exact hheld
    | call => exact absurd rfl hr
    | pool => rfl
    | destroyed => rfl
  · exact lists_other fun s h0 => hs ⟨s, h0⟩

end Lists

-- ── One step keeps both accounts ─────────────────────────────────────────────

section Steps

variable {w w' : World T} {t : T} {o : Object} {maxIdleTime : Int} {exchange : Bool}

omit [DecidableEq T] in
/-- What is held has an entry that is in use. -/
theorem Accounted.used (h : Accounted w) (ho : o ∈ (w.threads t).held) :
    o ∈ objects w.pool ∧ o ∉ idle w.pool := by
  -- by the first account it is held, and nothing else
  have hheld : ∀ p, o ∈ w.owners p → p = .held t := fun p hp => h.owners.unique hp ho
  constructor
  · obtain ⟨p, hp⟩ := (h.places.mem o).mp ((h.owners.mem o).mpr ⟨.held t, ho⟩)
    cases p with
    | held t' => exact absurd hp List.not_mem_nil
    | call t' => cases hheld (.call t') hp
    | pool => exact hp
    | destroyed => cases hheld .destroyed hp
  · intro hidle
    cases hheld .pool hidle

omit [DecidableEq T] in
/-- What is idle is in nobody's hands. -/
theorem Accounted.idle_free (h : Accounted w) (ho : o ∈ idle w.pool) (t : T) :
    o ∉ w.hands t := by
  intro hin
  have hpool : ∀ p, o ∈ w.owners p → p = .pool := fun p hp => h.owners.unique hp ho
  rcases List.mem_append.mp hin with hin | hin
  · cases hpool (.held t) hin
  · cases hpool (.call t) hin

theorem setThread_self {thread : Thread} : (w.setThread t thread).threads t = thread :=
  show Function.update w.threads t thread t = thread from Function.update_self ..

/-- A step that moves no object. -/
theorem Accounted.quiet (h : Accounted w) {stage : Stage}
    (hstage : stage.objects = (w.threads t).stage.objects) :
    Accounted (w.setThread t { w.threads t with stage := stage }) := by
  have hdesk : ∀ (mine : Thread → List Object) (pool : List Object) (s : Side),
      mine { w.threads t with stage := stage } = mine (w.threads t) →
      desk mine { w.threads t with stage := stage } pool w.destroyed s
        = desk mine (w.threads t) pool w.destroyed s := by
    intro mine pool s hmine
    cases s with
    | held => exact hmine
    | call => exact hstage
    | pool => rfl
    | destroyed => rfl
  exact ⟨stay h.owners fun s => hdesk _ _ s rfl, stay h.places fun s => hdesk _ _ s rfl⟩

theorem Accounted.grab (h : Accounted w) (hstage : (w.threads t).stage.objects = []) :
    Accounted (w.grab t) := by
  rw [World.grab]
  cases hg : grabFirst w.pool with
  | none => exact h.quiet hstage.symm
  | some r =>
      obtain ⟨o, pool⟩ := r
      obtain ⟨hidle, hobjects, -⟩ := grabFirst_some hg
      constructor
      · refine turn h.owners .pool .held [o] (by rintro ⟨⟩) hidle (.refl _) fun s hp hq => ?_
        cases s with
        | held => exact absurd rfl hq
        | call => exact hstage.symm
        | pool => exact absurd rfl hp
        | destroyed => rfl
      · refine stay h.places fun s => ?_
        cases s with
        | held => rfl
        | call => exact hstage.symm
        | pool => exact hobjects
        | destroyed => rfl

theorem Accounted.create (h : Accounted w) {succeeds : Bool}
    (hstage : (w.threads t).stage.objects = []) : Accounted (w.create t succeeds) := by
  have hnew : w.created ∉ {o | o < w.created} := Nat.lt_irrefl w.created
  have hmore : insert w.created {o | o < w.created} = {o | o < w.created + 1} :=
    Set.ext fun o => Nat.lt_succ_iff_lt_or_eq.trans or_comm |>.symm
  rw [World.create]
  split
  · constructor
    · show Custody {o | o < w.created + 1} _
      rw [← hmore]
      exact appear h.owners hnew (.of_eq (congrArg (w.created :: ·) hstage.symm)) rfl
    · show Custody {o | o < w.created + 1} _
      rw [← hmore]
      exact appear h.places hnew (.of_eq (congrArg (w.created :: ·) hstage.symm)) rfl
  · exact h.quiet hstage.symm

theorem Accounted.add (h : Accounted w) (hstage : (w.threads t).stage = .created o) :
    Accounted (w.add t o) := by
  have hobjects : objects (w.pool ++ [⟨o, true, -1⟩]) = objects w.pool ++ [o] :=
    List.map_append
  have hidle : idle (w.pool ++ [⟨o, true, -1⟩]) = idle w.pool := by
    rw [idle, List.filter_append]
    exact congrArg objects (List.append_nil _)
  have hcall : (w.threads t).stage.objects = [o] := congrArg Stage.objects hstage
  constructor
  · refine turn h.owners .call .held [o] (by rintro ⟨⟩) (.of_eq hcall.symm) (.refl _)
      fun s hp hq => ?_
    cases s with
    | held => exact absurd rfl hq
    | call => exact absurd rfl hp
    | pool => exact hidle
    | destroyed => rfl
  · refine turn h.places .call .pool [o] (by rintro ⟨⟩) (.of_eq hcall.symm) ?_
      fun s hp hq => ?_
    · show (objects (w.pool ++ [⟨o, true, -1⟩])).Perm _
      rw [hobjects]
      exact List.perm_append_comm
    cases s with
    | held => rfl
    | call => exact absurd rfl hp
    | pool => exact absurd rfl hq
    | destroyed => rfl

theorem Accounted.release (h : Accounted w) (hstage : (w.threads t).stage = .outside)
    (ho : o ∈ (w.threads t).held) : Accounted (w.release t o) := by
  obtain ⟨hin, hused⟩ := h.used ho
  obtain ⟨hidle, hobjects, -⟩ := releaseFirst_used w.now hin hused
  have hcall : (w.threads t).stage.objects = [] := congrArg Stage.objects hstage
  constructor
  · refine turn h.owners .held .pool [o] (by rintro ⟨⟩) (List.perm_cons_erase ho).symm hidle
      fun s hp hq => ?_
    cases s with
    | held => exact absurd rfl hp
    | call => exact hcall.symm
    | pool => exact absurd rfl hq
    | destroyed => rfl
  · refine stay h.places fun s => ?_
    cases s with
    | held => rfl
    | call => exact hcall.symm
    | pool => exact hobjects
    | destroyed => rfl

theorem Accounted.remove (h : Accounted w) (hstage : (w.threads t).stage = .outside)
    (ho : o ∈ (w.threads t).held) : Accounted (w.remove t o exchange) := by
  obtain ⟨hin, hused⟩ := h.used ho
  obtain ⟨hobjects, hidle, -⟩ := removeFirst_used hin hused
  have hcall : (w.threads t).stage.objects = [] := congrArg Stage.objects hstage
  have hgone : [o] = [o] ++ (w.threads t).stage.objects := by rw [hcall, List.append_nil]
  constructor
  · refine turn h.owners .held .call [o] (by rintro ⟨⟩) (List.perm_cons_erase ho).symm
      (.of_eq hgone) fun s hp hq => ?_
    cases s with
    | held => exact absurd rfl hp
    | call => exact absurd rfl hq
    | pool => exact hidle
    | destroyed => rfl
  · refine turn h.places .pool .call [o] (by rintro ⟨⟩) hobjects (.of_eq hgone)
      fun s hp hq => ?_
    cases s with
    | held => rfl
    | call => exact absurd rfl hq
    | pool => exact absurd rfl hp
    | destroyed => rfl

theorem Accounted.shrink (h : Accounted w) (hstage : (w.threads t).stage = .outside) :
    Accounted (w.shrink t maxIdleTime) := by
  obtain ⟨hobjects, hidle, -, -⟩ :=
    clearPool_idle w.pool w.now maxIdleTime
  have hcall : (w.threads t).stage.objects = [] := congrArg Stage.objects hstage
  have hgone : (clearPool false w.now maxIdleTime w.pool).1 =
      (clearPool false w.now maxIdleTime w.pool).1 ++ (w.threads t).stage.objects := by
    rw [hcall, List.append_nil]
  refine ⟨turn h.owners .pool .call _ (by rintro ⟨⟩) hidle (.of_eq hgone) fun s hp hq => ?_,
    turn h.places .pool .call _ (by rintro ⟨⟩) hobjects (.of_eq hgone) fun s hp hq => ?_⟩
  · cases s with
    | held => rfl
    | call => exact absurd rfl hq
    | pool => exact absurd rfl hp
    | destroyed => rfl
  · cases s with
    | held => rfl
    | call => exact absurd rfl hq
    | pool => exact absurd rfl hp
    | destroyed => rfl

theorem Accounted.destroy (h : Accounted w) {gone : List Object}
    (hstage : (w.threads t).stage = .destroying (o :: gone) exchange) :
    Accounted (w.destroy t o gone exchange) := by
  have hcall : [o] ++ gone = (w.threads t).stage.objects :=
    congrArg Stage.objects hstage.symm
  constructor
  · refine turn h.owners .call .destroyed [o] (by rintro ⟨⟩) (.of_eq hcall)
      List.perm_append_comm fun s hp hq => ?_
    cases s with
    | held => rfl
    | call => exact absurd rfl hp
    | pool => rfl
    | destroyed => exact absurd rfl hq
  · refine turn h.places .call .destroyed [o] (by rintro ⟨⟩) (.of_eq hcall)
      List.perm_append_comm fun s hp hq => ?_
    cases s with
    | held => rfl
    | call => exact absurd rfl hp
    | pool => rfl
    | destroyed => exact absurd rfl hq

/-- The steps there are, and where they are taken. -/
inductive Stepped (w : World T) : Call T → World T → Prop where
  | grab (t : T) (hcall : (w.threads t).stage.objects = []) :
      Stepped w (.grab t) (w.grab t)
  | create (t : T) (succeeds : Bool) (hcall : (w.threads t).stage.objects = []) :
      Stepped w (.create t succeeds) (w.create t succeeds)
  | add (t : T) (o : Object) (hstage : (w.threads t).stage = .created o) :
      Stepped w (.add t) (w.add t o)
  | release (t : T) (o : Object) (hstage : (w.threads t).stage = .outside)
      (ho : o ∈ (w.threads t).held) : Stepped w (.release t o) (w.release t o)
  | remove (t : T) (o : Object) (exchange : Bool) (hstage : (w.threads t).stage = .outside)
      (ho : o ∈ (w.threads t).held) :
      Stepped w (.remove t o exchange) (w.remove t o exchange)
  | shrink (t : T) (maxIdleTime : Int) (hstage : (w.threads t).stage = .outside) :
      Stepped w (.shrink t maxIdleTime) (w.shrink t maxIdleTime)
  | destroy (t : T) (o : Object) (gone : List Object) (exchange : Bool)
      (hstage : (w.threads t).stage = .destroying (o :: gone) exchange) :
      Stepped w (.destroy t) (w.destroy t o gone exchange)
  | finish (t : T) (exchange : Bool)
      (hstage : (w.threads t).stage = .destroying [] exchange) :
      Stepped w (.destroy t) (w.finish t exchange)
  | tick (now : Int) : Stepped w (.tick now) { w with now := now }

theorem next_cases {c : Call T} (hs : next w c = some w') : Stepped w c w' := by
  cases c with
  | grab t =>
      obtain ⟨hstage, hs⟩ := Option.ite_none_right_eq_some.mp hs
      obtain rfl := Option.some.inj hs
      refine .grab t ?_
      rcases hstage with hstage | hstage
      · exact congrArg Stage.objects hstage
      · exact congrArg Stage.objects hstage
  | create t succeeds =>
      obtain ⟨hstage, hs⟩ := Option.ite_none_right_eq_some.mp hs
      obtain rfl := Option.some.inj hs
      exact .create t succeeds (congrArg Stage.objects hstage)
  | add t =>
      rw [next] at hs
      split at hs
      next o hstage =>
        obtain rfl := Option.some.inj hs
        exact .add t o hstage
      next => exact absurd hs.symm (Option.some_ne_none _)
  | release t o =>
      obtain ⟨⟨hstage, ho⟩, hs⟩ := Option.ite_none_right_eq_some.mp hs
      obtain rfl := Option.some.inj hs
      exact .release t o hstage ho
  | remove t o exchange =>
      obtain ⟨⟨hstage, ho⟩, hs⟩ := Option.ite_none_right_eq_some.mp hs
      obtain rfl := Option.some.inj hs
      exact .remove t o exchange hstage ho
  | shrink t maxIdleTime =>
      obtain ⟨hstage, hs⟩ := Option.ite_none_right_eq_some.mp hs
      obtain rfl := Option.some.inj hs
      exact .shrink t maxIdleTime hstage
  | destroy t =>
      rw [next] at hs
      split at hs
      next exchange hstage =>
        obtain rfl := Option.some.inj hs
        exact .finish t exchange hstage
      next o gone exchange hstage =>
        obtain rfl := Option.some.inj hs
        exact .destroy t o gone exchange hstage
      next => exact absurd hs.symm (Option.some_ne_none _)
  | tick now =>
      obtain ⟨-, hs⟩ := Option.ite_none_right_eq_some.mp hs
      obtain rfl := Option.some.inj hs
      exact .tick now

/-- **ONE STEP KEEPS BOTH ACCOUNTS.** -/
theorem Accounted.next {c : Call T} (h : Accounted w) (hs : next w c = some w') :
    Accounted w' := by
  cases next_cases hs with
  | grab t hcall => exact h.grab hcall
  | create t succeeds hcall => exact h.create hcall
  | add t o hstage => exact h.add hstage
  | release t o hstage ho => exact h.release hstage ho
  | remove t o exchange hstage ho => exact h.remove hstage ho
  | shrink t maxIdleTime hstage => exact h.shrink hstage
  | destroy t o gone exchange hstage => exact h.destroy hstage
  | finish t exchange hstage =>
      have hcall : (w.threads t).stage.objects = [] := congrArg Stage.objects hstage
      refine h.quiet ?_
      rw [hcall]
      cases exchange with
      | true => rfl
      | false => rfl
  | tick now => exact ⟨h.owners, h.places⟩

/-- An entry that is not in use was there, or its object is released now. -/
theorem next_idle {c : Call T} {e : Entry} (h : Accounted w) (hs : next w c = some w')
    (he : e ∈ w'.pool) (hidle : e.inUse = false) :
    e ∈ w.pool ∨ (∃ t, e.object ∈ w.hands t) ∧ e.timestamp = w.now := by
  cases next_cases hs with
  | grab t hcall =>
      rw [World.grab] at he
      cases hg : grabFirst w.pool with
      | none =>
          rw [hg] at he
          exact .inl he
      | some r =>
          rw [hg] at he
          have hfirst : grabFirst w.pool = some (r.1, r.2) := hg
          exact .inl ((grabFirst_some hfirst).2.2 e he hidle)
  | create t succeeds hcall =>
      rw [World.create] at he
      split at he
      · exact .inl he
      · exact .inl he
  | add t o hstage =>
      rcases List.mem_append.mp he with he | he
      · exact .inl he
      · rw [List.mem_singleton.mp he] at hidle
        exact absurd hidle.symm Bool.false_ne_true
  | release t o hstage ho =>
      obtain ⟨hin, hused⟩ := h.used ho
      refine ((releaseFirst_used w.now hin hused).2.2 e he hidle).imp_right
        fun ⟨heq, hnow⟩ => ?_
      exact ⟨⟨t, List.mem_append_left _ (heq ▸ ho)⟩, hnow⟩
  | remove t o exchange hstage ho =>
      obtain ⟨hin, hused⟩ := h.used ho
      exact .inl ((removeFirst_used hin hused).2.2 e he)
  | shrink t maxIdleTime hstage => exact .inl ((clearPool_idle _ _ _).2.2.1 e he)
  | destroy t o gone exchange hstage => exact .inl he
  | finish t exchange hstage => exact .inl he
  | tick now => exact .inl he

end Steps

-- ── Runs ─────────────────────────────────────────────────────────────────────

open Classical in
/-- When an object was last seen in somebody's hands. -/
noncomputable def lastHeld (w : World T) (_ : Call T) (since : Object → Int) :
    Object → Int :=
  fun o => if ∃ t, o ∈ w.hands t then w.now else since o

/-- Calls of any number of threads, and since when each object is left alone. -/
noncomputable def watchedPools (T : Type) [DecidableEq T] :
    System (World T × (Object → Int)) (Call T) :=
  (objectPools T).record (fun _ => 0) lastHeld

/-- What holds of a pool in every state: nobody shares an object, each one that was
    made is in the pool, in somebody's hands or destroyed for good, and what
    `Shrink` is going to destroy was left alone for long enough. -/
structure Exclusive (w : World T) (since : Object → Int) : Prop where
  once : ∀ t, (w.hands t).Nodup
  alone : ∀ t t' o, o ∈ w.hands t → o ∈ w.hands t' → t = t'
  created : ∀ o, o < w.created ↔
    o ∈ objects w.pool ∨ (∃ t, o ∈ w.hands t) ∨ o ∈ w.destroyed
  destroyedOnce : w.destroyed.Nodup
  destroyed : ∀ o ∈ w.destroyed, o ∉ objects w.pool ∧ ∀ t, o ∉ w.hands t
  shrink : ∀ t maxIdleTime w', next w (.shrink t maxIdleTime) = some w' →
    ∀ o ∈ (w'.threads t).stage.objects,
      (∀ t', o ∉ w.hands t') ∧ maxIdleTime < w.now - since o

/-- The time stamp of an idle entry tells since when it is. -/
def Dated (w : World T) (since : Object → Int) : Prop :=
  ∀ e ∈ w.pool, e.inUse = false → e.timestamp = since e.object

section Runs

variable {w w' : World T} {since : Object → Int} {t : T} {o : Object} {e : Entry}

omit [DecidableEq T] in
theorem accounted_opened (now : Int) : Accounted (.opened now : World T) := by
  have hnone : {o : Object | o < 0} = ∅ :=
    Set.eq_empty_iff_forall_notMem.mpr fun o => Nat.not_lt_zero o
  have howners : ∀ p : Keeper T, (World.opened now : World T).owners p = [] := by
    intro p
    cases p <;> rfl
  have hplaces : ∀ p : Keeper T, (World.opened now : World T).places p = [] := by
    intro p
    cases p <;> rfl
  constructor
  · exact (congrArg (Custody · _) hnone).mpr (custody_nil howners)
  · exact (congrArg (Custody · _) hnone).mpr (custody_nil hplaces)

/-- The date of an object is that of its release. -/
theorem Dated.next {c : Call T} (hd : Dated w since) (h : Accounted w)
    (hs : next w c = some w') : Dated w' (lastHeld w c since) := by
  intro e he hidle
  rw [lastHeld]
  rcases next_idle h hs he hidle with hold | ⟨hheld, hnow⟩
  · have hfree : ¬∃ t, e.object ∈ w.hands t := by
      rintro ⟨t, ht⟩
      exact h.idle_free (mem_idle.mpr ⟨e, hold, hidle, rfl⟩) t ht
    rw [if_neg hfree]
    exact hd e hold hidle
  · rw [if_pos hheld]
    exact hnow

theorem accounted_of_reachable (h : Reachable (watchedPools T) (w, since)) :
    Accounted w ∧ Dated w since := by
  refine h.invariant (I := fun p => Accounted p.1 ∧ Dated p.1 p.2) ?_ ?_
  · rintro ⟨w, since⟩ ⟨⟨now, rfl⟩, -⟩
    exact ⟨accounted_opened now, fun e he => absurd he List.not_mem_nil⟩
  · rintro ⟨w, since⟩ c ⟨w', since'⟩ _ ⟨ha, hd⟩ ⟨hs, rfl⟩
    exact ⟨ha.next hs, hd.next ha hs⟩

omit [DecidableEq T] in
/-- **`in_use` MARKS WHAT IS HELD.** -/
theorem Accounted.inUse_iff (h : Accounted w) (he : e ∈ w.pool) :
    e.inUse = true ↔ ∃ t, e.object ∈ (w.threads t).held := by
  have hplace : e.object ∈ w.places .pool := mem_objects.mpr ⟨e, he, rfl⟩
  constructor
  · intro hused
    obtain ⟨p, hp⟩ := (h.owners.mem _).mp ((h.places.mem _).mpr ⟨_, hplace⟩)
    cases p with
    | held t => exact ⟨t, hp⟩
    | call t => cases h.places.unique hplace (show e.object ∈ w.places (.call t) from hp)
    | destroyed => cases h.places.unique hplace (show e.object ∈ w.places .destroyed from hp)
    | pool =>
        -- an idle entry of this object would be this entry
        obtain ⟨e', he', hidle, heq⟩ := mem_idle.mp hp
        obtain rfl := List.inj_on_of_nodup_map (h.places.nodup .pool) he' he heq
        rw [hused] at hidle
        cases hidle
  · rintro ⟨t, ht⟩
    cases hin : e.inUse with
    | true => rfl
    | false => exact absurd (mem_idle.mpr ⟨e, he, hin, rfl⟩) (h.used ht).2

omit [DecidableEq T] in
/-- A thread has in hand what it got, or what its call has. -/
theorem mem_hands : o ∈ w.hands t ↔ o ∈ w.owners (.held t) ∨ o ∈ w.owners (.call t) :=
  List.mem_append

theorem Accounted.exclusive (h : Accounted w) (hd : Dated w since) : Exclusive w since where
  once := by
    intro t
    refine List.nodup_append'.mpr ⟨h.owners.nodup (.held t), h.owners.nodup (.call t), ?_⟩
    exact h.owners.disjoint (show Keeper.held t ≠ .call t by rintro ⟨⟩)
  alone := by
    intro t t' o ho ho'
    rcases mem_hands.mp ho with ho | ho
    · rcases mem_hands.mp ho' with ho' | ho'
      · exact Keeper.held.inj (h.owners.unique ho ho')
      · cases h.owners.unique ho ho'
    · rcases mem_hands.mp ho' with ho' | ho'
      · cases h.owners.unique ho ho'
      · exact Keeper.call.inj (h.owners.unique ho ho')
  created := by
    intro o
    constructor
    · intro ho
      obtain ⟨p, hp⟩ := (h.owners.mem o).mp ho
      cases p with
      | held t => exact .inr (.inl ⟨t, mem_hands.mpr (.inl hp)⟩)
      | call t => exact .inr (.inl ⟨t, mem_hands.mpr (.inr hp)⟩)
      | pool =>
          obtain ⟨e, he, -, heq⟩ := mem_idle.mp hp
          exact .inl (mem_objects.mpr ⟨e, he, heq⟩)
      | destroyed => exact .inr (.inr hp)
    · rintro (ho | ⟨t, ho⟩ | ho)
      · exact (h.places.mem o).mpr ⟨.pool, ho⟩
      · exact (h.owners.mem o).mpr ((mem_hands.mp ho).elim (⟨_, ·⟩) (⟨_, ·⟩))
      · exact (h.owners.mem o).mpr ⟨.destroyed, ho⟩
  destroyedOnce := h.owners.nodup .destroyed
  destroyed := by
    intro o ho
    constructor
    · intro hin
      cases h.places.unique (p := .destroyed) (q := .pool) ho hin
    · intro t hin
      rcases mem_hands.mp hin with hin | hin
      · cases h.owners.unique (p := .destroyed) ho hin
      · cases h.owners.unique (p := .destroyed) ho hin
  shrink := by
    intro t maxIdleTime w' hs o ho
    obtain ⟨-, hs⟩ := Option.ite_none_right_eq_some.mp hs
    obtain rfl := Option.some.inj hs
    have hgone : o ∈ (clearPool false w.now maxIdleTime w.pool).1 := by
      rw [World.shrink, setThread_self] at ho
      exact ho
    obtain ⟨e, he, rfl, hidle, hlong⟩ := (clearPool_idle _ _ _).2.2.2 o hgone
    rw [← hd e he hidle]
    exact ⟨h.idle_free (mem_idle.mpr ⟨e, he, hidle, rfl⟩), hlong⟩

/-- **EXCLUSIVE OWNERSHIP**, for any number of threads and every order of their
    steps. -/
theorem exclusive_ownership (h : Reachable (watchedPools T) (w, since)) :
    Exclusive w since := by
  obtain ⟨ha, hd⟩ := accounted_of_reachable h
  exact ha.exclusive hd

/-- Two threads get an object each; one gives its object back, and gets rid of it
    with a `Shrink` that finds it idle for 10 when 5 are allowed. -/
def shrinking : List (Call Bool) :=
  [.grab true, .create true true, .add true, .grab false, .create false true, .add false,
    .release true 0, .tick 10, .shrink true 5, .destroy true, .destroy true]

def shrunkPool : World Bool := (shrinking.foldlM next (.opened 0)).getD (.opened 0)

theorem exclusive_ownership_shrunk :
    shrunkPool.hands true = [] ∧ shrunkPool.hands false = [1] ∧
      shrunkPool.destroyed = [0] ∧ ∃ since, Exclusive shrunkPool since := by
  have hrun : shrinking.foldlM next (.opened 0) = some shrunkPool := rfl
  have hr : Reachable (objectPools Bool) shrunkPool :=
    .follow (fun _ _ _ _ hs => hs) (.start ⟨0, rfl⟩) hrun
  obtain ⟨since, hwatched⟩ := hr.exists_record (fun _ => 0) lastHeld
  exact ⟨rfl, rfl, rfl, since, exclusive_ownership hwatched⟩

end Runs

end FlinterObjectPool
