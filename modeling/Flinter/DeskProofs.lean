import Flinter.RunProofs
import Mathlib.Data.List.Nodup
import Mathlib.Logic.Function.Basic

/-! # Items that queue for workers

    Items enter queues and leave them at the head: a worker that is free takes
    one, or it is withdrawn.  A worker starts on what it has taken and finishes
    it, or abandons it before or after the start.

    All of this is logged.  A queue is what has entered it less what has left
    it, in one order, and a worker starts in the order in which it takes.  What
    the log says of an item is the story of one phase, so no item is taken
    twice, or taken and withdrawn. -/

namespace Desks

open Runs

variable {Q W J : Type}

/-- What a worker has in hand. -/
inductive Work (J : Type) where
  | free
  | holding (item : J)
  | working (item : J)
deriving DecidableEq, Repr

inductive Event (Q W J : Type) where
  | enter (q : Q) (item : J)
  | take (w : W) (q : Q) (item : J)
  | start (w : W) (item : J)
  | finish (w : W) (item : J)
  | withdraw (q : Q) (item : J)
  | abandon (w : W) (item : J)
deriving DecidableEq, Repr

/-- The item that it is about. -/
def Event.item : Event Q W J → J
  | .enter _ i | .take _ _ i | .start _ i | .finish _ i | .withdraw _ i
  | .abandon _ i => i

/-- The queues, the workers and the log. -/
structure Desk (Q W J : Type) where
  queue : Q → List J
  work : W → Work J
  log : List (Event Q W J)

/-- One event. -/
inductive Step [DecidableEq Q] [DecidableEq W] :
    Desk Q W J → Desk Q W J → Prop where
  | enter {d} (q : Q) (i : J) (hnew : ∀ e ∈ d.log, e.item ≠ i) :
      Step d ⟨Function.update d.queue q (d.queue q ++ [i]), d.work,
        d.log ++ [.enter q i]⟩
  | take {d w q i rest} (hq : d.queue q = i :: rest) (hw : d.work w = .free) :
      Step d ⟨Function.update d.queue q rest,
        Function.update d.work w (.holding i), d.log ++ [.take w q i]⟩
  | start {d w i} (hw : d.work w = .holding i) :
      Step d ⟨d.queue, Function.update d.work w (.working i),
        d.log ++ [.start w i]⟩
  | finish {d w i} (hw : d.work w = .working i) :
      Step d ⟨d.queue, Function.update d.work w .free, d.log ++ [.finish w i]⟩
  | withdraw {d q i rest} (hq : d.queue q = i :: rest) :
      Step d ⟨Function.update d.queue q rest, d.work, d.log ++ [.withdraw q i]⟩
  | abandon {d w i} (hw : d.work w = .holding i ∨ d.work w = .working i) :
      Step d ⟨d.queue, Function.update d.work w .free, d.log ++ [.abandon w i]⟩

/-- At the start nothing has entered. -/
def machine (Q W J : Type) [DecidableEq Q] [DecidableEq W] :
    System (Desk Q W J) Unit where
  init := fun d => d = ⟨fun _ => [], fun _ => .free, []⟩
  step := fun d _ d' => Step d d'

-- ── What a log says of a queue and of a worker ───────────────────────────────

section Logs

variable [DecidableEq Q] {q : Q} {i : J} {log : List (Event Q W J)}

/-- What has entered a queue. -/
def entered (q : Q) (log : List (Event Q W J)) : List J :=
  log.filterMap fun
    | .enter q' i => if q' = q then some i else none
    | _ => none

/-- What has left it. -/
def left (q : Q) (log : List (Event Q W J)) : List J :=
  log.filterMap fun
    | .take _ q' i | .withdraw q' i => if q' = q then some i else none
    | _ => none

theorem mem_entered : i ∈ entered q log ↔ .enter q i ∈ log := by
  rw [entered, List.mem_filterMap]
  constructor
  · rintro ⟨e, he, hi⟩
    match e, hi with
    | .enter q' i', hi =>
        obtain ⟨rfl, ⟨⟩⟩ := Option.ite_none_right_eq_some.mp hi
        exact he
  · intro hin
    exact ⟨_, hin, if_pos rfl⟩

theorem entered_append (log log' : List (Event Q W J)) :
    entered q (log ++ log') = entered q log ++ entered q log' :=
  List.filterMap_append

theorem left_append (log log' : List (Event Q W J)) :
    left q (log ++ log') = left q log ++ left q log' :=
  List.filterMap_append

end Logs

section Workers

variable [DecidableEq W] {w : W} {i : J} {log : List (Event Q W J)}

/-- What a worker has taken. -/
def taken (w : W) (log : List (Event Q W J)) : List J :=
  log.filterMap fun
    | .take w' _ i => if w' = w then some i else none
    | _ => none

/-- What a worker has started on. -/
def started (w : W) (log : List (Event Q W J)) : List J :=
  log.filterMap fun
    | .start w' i => if w' = w then some i else none
    | _ => none

theorem mem_taken : i ∈ taken w log ↔ ∃ q, .take w q i ∈ log := by
  rw [taken, List.mem_filterMap]
  constructor
  · rintro ⟨e, he, hi⟩
    match e, hi with
    | .take w' q i', hi =>
        obtain ⟨rfl, ⟨⟩⟩ := Option.ite_none_right_eq_some.mp hi
        exact ⟨q, he⟩
  · rintro ⟨q, hin⟩
    exact ⟨_, hin, if_pos rfl⟩

theorem mem_started : i ∈ started w log ↔ .start w i ∈ log := by
  rw [started, List.mem_filterMap]
  constructor
  · rintro ⟨e, he, hi⟩
    match e, hi with
    | .start w' i', hi =>
        obtain ⟨rfl, ⟨⟩⟩ := Option.ite_none_right_eq_some.mp hi
        exact he
  · intro hin
    exact ⟨_, hin, if_pos rfl⟩

theorem taken_append (log log' : List (Event Q W J)) :
    taken w (log ++ log') = taken w log ++ taken w log' :=
  List.filterMap_append

theorem started_append (log log' : List (Event Q W J)) :
    started w (log ++ log') = started w log ++ started w log' :=
  List.filterMap_append

/-- What a worker holds and has not started on. -/
def Work.unstarted : Work J → List J
  | .holding i => [i]
  | _ => []

end Workers

-- ── Order ────────────────────────────────────────────────────────────────────

/-- The head of a queue leaves it. -/
theorem ledger_of_left [DecidableEq Q] {d : Desk Q W J} {q q' : Q} {i : J}
    {e : Event Q W J} {rest : List J} (hq : d.queue q' = i :: rest)
    (henter : entered q [e] = []) (hleft : left q [e] = if q' = q then [i] else [])
    (h : entered q d.log = left q d.log ++ d.queue q) :
    entered q (d.log ++ [e]) =
      left q (d.log ++ [e]) ++ Function.update d.queue q' rest q := by
  rw [entered_append, left_append, henter, hleft, h, List.append_nil]
  by_cases heq : q' = q
  · subst heq
    rw [if_pos rfl, Function.update_self, hq, List.append_assoc, List.singleton_append]
  · rw [if_neg heq, Function.update_of_ne (Ne.symm heq), List.append_nil]

/-- What a worker has in hand changes, and the event says so. -/
theorem order_of_update [DecidableEq W] {d : Desk Q W J} {e : Event Q W J}
    {w' : W} {work : Work J} (es : List J)
    (htaken : taken w' [e] = es) (hother : ∀ u, u ≠ w' → taken u [e] = [])
    (hstarted : ∀ u, u ≠ w' → started u [e] = [])
    (h : ∀ u, (started u d.log ++ (d.work u).unstarted).Sublist (taken u d.log))
    (hself : (started w' d.log ++ (started w' [e] ++ work.unstarted)).Sublist
      (taken w' d.log ++ es)) (u : W) :
    (started u (d.log ++ [e]) ++
      (Function.update d.work w' work u).unstarted).Sublist
      (taken u (d.log ++ [e])) := by
  rw [started_append, taken_append]
  by_cases heq : u = w'
  · subst heq
    rw [Function.update_self, htaken, List.append_assoc]
    exact hself
  · rw [Function.update_of_ne heq, hother u heq, hstarted u heq, List.append_nil,
      List.append_nil]
    exact h u

section Order

variable [DecidableEq Q] [DecidableEq W]
variable {d d' : Desk Q W J} {q : Q} {w : W} {i : J} {e : Event Q W J}

theorem Step.ledger (hs : Step d d') (q : Q)
    (h : entered q d.log = left q d.log ++ d.queue q) :
    entered q d'.log = left q d'.log ++ d'.queue q := by
  cases hs with
  | enter q' i hnew =>
      have henter : entered q [(.enter q' i : Event Q W J)] =
          if q' = q then [i] else [] := by
        by_cases heq : q' = q <;> simp [entered, heq]
      have hleft : left q [(.enter q' i : Event Q W J)] = [] := rfl
      rw [entered_append, left_append, henter, hleft, h, List.append_nil,
        List.append_assoc]
      show _ = left q d.log ++ Function.update d.queue q' (d.queue q' ++ [i]) q
      by_cases heq : q' = q
      · subst heq
        rw [if_pos rfl, Function.update_self]
      · rw [if_neg heq, Function.update_of_ne (Ne.symm heq), List.append_nil]
  | @take w q' i rest hq hw =>
      refine ledger_of_left hq rfl ?_ h
      by_cases heq : q' = q <;> simp [left, heq]
  | @withdraw q' i rest hq =>
      refine ledger_of_left hq rfl ?_ h
      by_cases heq : q' = q <;> simp [left, heq]
  | start _ => simpa [entered, left] using h
  | finish _ => simpa [entered, left] using h
  | abandon _ => simpa [entered, left] using h

/-- **FIRST IN, FIRST OUT**: a queue is what has entered it without what has
    left it. -/
theorem entered_eq (h : Reachable (machine Q W J) d) (q : Q) :
    entered q d.log = left q d.log ++ d.queue q := by
  refine h.invariant
    (I := fun d => entered q d.log = left q d.log ++ d.queue q) ?_ ?_
  · rintro _ rfl
    rfl
  · intro d l d' _ ih hs
    exact Step.ledger hs q ih

/-- No item enters twice. -/
theorem entered_nodup (h : Reachable (machine Q W J) d) (q : Q) :
    (entered q d.log).Nodup := by
  refine h.invariant (I := fun d => (entered q d.log).Nodup) ?_ ?_
  · rintro _ rfl
    exact List.nodup_nil
  · intro d l d' _ ih hs
    cases hs with
    | enter q' i hnew =>
        rw [entered_append]
        by_cases heq : q' = q
        · have hone : entered q [(.enter q' i : Event Q W J)] = [i] := by
            simp [entered, heq]
          rw [hone, ← List.concat_eq_append]
          exact .concat (fun hin => hnew _ (mem_entered.mp hin) rfl) ih
        · simpa [entered, heq] using ih
    | take _ _ => simpa [entered] using ih
    | withdraw _ => simpa [entered] using ih
    | start _ => simpa [entered] using ih
    | finish _ => simpa [entered] using ih
    | abandon _ => simpa [entered] using ih

theorem queue_nodup (h : Reachable (machine Q W J) d) (q : Q) :
    (d.queue q).Nodup := by
  have hnodup := entered_nodup h q
  rw [entered_eq h] at hnodup
  exact hnodup.of_append_right

/-- A worker starts on what it has taken, in that order. -/
theorem started_sublist (h : Reachable (machine Q W J) d) (w : W) :
    (started w d.log ++ (d.work w).unstarted).Sublist (taken w d.log) := by
  refine h.invariant (I := fun d => ∀ w,
    (started w d.log ++ (d.work w).unstarted).Sublist (taken w d.log)) ?_ ?_ w
  · rintro _ rfl w
    exact .refl _
  · intro d l d' _ ih hs
    cases hs with
    | enter q i hnew => intro w; simpa [started, taken] using ih w
    | withdraw hq => intro w; simpa [started, taken] using ih w
    | @take w' q i rest hq hw =>
        have ih' := ih w'
        rw [hw] at ih'
        refine order_of_update [i] (by simp [taken]) (fun u hu => ?_)
          (fun u hu => rfl) ih ?_
        · simp [taken, Ne.symm hu]
        · have ih' : (started w' d.log ++ []).Sublist (taken w' d.log) := ih'
          rw [List.append_nil] at ih'
          exact ih'.append_right [i]
    | @start w' i hw =>
        have ih' := ih w'
        rw [hw] at ih'
        refine order_of_update [] rfl (fun u hu => rfl) (fun u hu => ?_) ih ?_
        · simp [started, Ne.symm hu]
        · simpa [started, Work.unstarted] using ih'
    | @finish w' i hw =>
        have ih' := ih w'
        rw [hw] at ih'
        refine order_of_update [] rfl (fun u hu => rfl) (fun u hu => rfl) ih ?_
        simpa [started, Work.unstarted] using ih'
    | @abandon w' i hw =>
        have ih' := (List.sublist_append_left _ _).trans (ih w')
        refine order_of_update [] rfl (fun u hu => rfl) (fun u hu => rfl) ih ?_
        simpa [started, Work.unstarted] using ih'

/-- What a worker has started on it has in hand, or is done with. -/
theorem of_started (h : Reachable (machine Q W J) d) :
    ∀ w, ∀ i ∈ started w d.log, d.work w = .working i ∨
      .finish w i ∈ d.log ∨ .abandon w i ∈ d.log := by
  refine h.invariant (I := fun d => ∀ w, ∀ i ∈ started w d.log,
    d.work w = .working i ∨ .finish w i ∈ d.log ∨ .abandon w i ∈ d.log) ?_ ?_
  · rintro _ rfl w i hi
    cases hi
  · intro d l d' _ ih hs w i hi
    have hlog : ∀ {e : Event Q W J}, (.finish w i ∈ d.log ∨ .abandon w i ∈ d.log) →
        .finish w i ∈ d.log ++ [e] ∨ .abandon w i ∈ d.log ++ [e] := fun h =>
      h.imp (List.mem_append_left _) (List.mem_append_left _)
    have hold : ∀ {e : Event Q W J}, started w [e] = [] →
        i ∈ started w (d.log ++ [e]) → d.work w = .working i ∨
          .finish w i ∈ d.log ++ [e] ∨ .abandon w i ∈ d.log ++ [e] := by
      intro e hnone hi
      rw [started_append, hnone, List.append_nil] at hi
      exact (ih w i hi).imp_right hlog
    cases hs with
    | enter q j hnew => exact hold rfl hi
    | withdraw hq => exact hold rfl hi
    | @take w' q j rest hq hw =>
        rcases hold rfl hi with hwork | hdone
        · refine .inl ?_
          show Function.update d.work w' _ w = .working i
          by_cases heq : w = w'
          · rw [heq, hw] at hwork
            cases hwork
          · rw [Function.update_of_ne heq]
            exact hwork
        · exact .inr hdone
    | @start w' j hw =>
        rw [started_append] at hi
        by_cases heq : w = w'
        · subst heq
          rcases List.mem_append.mp hi with hi | hi
          · rcases ih w i hi with hwork | hdone
            · rw [hw] at hwork
              cases hwork
            · exact .inr (hlog hdone)
          · have hi : i ∈ (if w = w then some j else none).toList := by
              simpa [started] using hi
            rw [if_pos rfl] at hi
            obtain rfl := List.mem_singleton.mp hi
            exact .inl (Function.update_self ..)
        · have hnone : started w [(.start w' j : Event Q W J)] = [] := by
            simp [started, Ne.symm heq]
          rw [hnone, List.append_nil] at hi
          refine (ih w i hi).imp (fun hwork => ?_) hlog
          exact (Function.update_of_ne heq ..).trans hwork
    | @finish w' j hw =>
        rcases hold rfl hi with hwork | hdone
        · by_cases heq : w = w'
          · subst heq
            rw [hw] at hwork
            obtain rfl := Work.working.inj hwork
            exact .inr (.inl (List.mem_append_right _ List.mem_cons_self))
          · exact .inl ((Function.update_of_ne heq ..).trans hwork)
        · exact .inr hdone
    | @abandon w' j hw =>
        rcases hold rfl hi with hwork | hdone
        · by_cases heq : w = w'
          · subst heq
            rcases hw with hw | hw
            · rw [hw] at hwork
              cases hwork
            · rw [hw] at hwork
              obtain rfl := Work.working.inj hwork
              exact .inr (.inr (List.mem_append_right _ List.mem_cons_self))
          · exact .inl ((Function.update_of_ne heq ..).trans hwork)
        · exact .inr hdone

/-- Where a worker starts, it is done with what it has started on before. -/
def Alone (pre : List (Event Q W J)) (e : Event Q W J) : Prop :=
  ∀ w i, e = .start w i → ∀ j ∈ started w pre,
    .finish w j ∈ pre ∨ .abandon w j ∈ pre

/-- **ONE AT A TIME**. -/
theorem one_at_a_time (h : Reachable (machine Q W J) d) :
    Throughout Alone d.log := by
  refine h.invariant (I := fun d => Throughout Alone d.log) ?_ ?_
  · rintro _ rfl
    exact throughout_nil
  · intro d l d' hr ih hs
    cases hs with
    | @start w j hw =>
        refine throughout_snoc.mpr ⟨ih, ?_⟩
        rintro w' i heq k hk
        cases heq
        refine (of_started hr w k hk).resolve_left fun hwork => ?_
        rw [hw] at hwork
        cases hwork
    | enter q i hnew => exact throughout_snoc.mpr ⟨ih, nofun⟩
    | take _ _ => exact throughout_snoc.mpr ⟨ih, nofun⟩
    | finish _ => exact throughout_snoc.mpr ⟨ih, nofun⟩
    | withdraw _ => exact throughout_snoc.mpr ⟨ih, nofun⟩
    | abandon _ => exact throughout_snoc.mpr ⟨ih, nofun⟩

/-- What a worker takes that takes from one queue only. -/
theorem taken_sublist {home : W → Q} {log : List (Event Q W J)}
    (hown : ∀ w q i, .take w q i ∈ log → q = home w) (w : W) :
    (taken w log).Sublist (left (home w) log) := by
  induction log with
  | nil => exact .refl _
  | cons e log ih =>
      have ih := ih fun u q i hin => hown u q i (List.mem_cons_of_mem e hin)
      rw [← List.singleton_append, taken_append, left_append]
      refine List.Sublist.append ?_ ih
      match e with
      | .take u q i =>
          obtain rfl := hown u q i List.mem_cons_self
          by_cases heq : u = w
          · subst heq
            simp [taken, left]
          · simp [taken, heq]
      | .enter _ _ | .start _ _ | .finish _ _ | .withdraw _ _ | .abandon _ _ =>
          exact List.nil_sublist _

/-- **IN ORDER**: a worker that takes from one queue only starts on what has
    entered that, in the order in which it has. -/
theorem started_sublist_entered (home : W → Q) (h : Reachable (machine Q W J) d)
    (hown : ∀ w q i, .take w q i ∈ d.log → q = home w) (w : W) :
    (started w d.log).Sublist (entered (home w) d.log) := by
  rw [entered_eq h]
  exact ((List.sublist_append_left _ _).trans (started_sublist h w)).trans
    ((taken_sublist hown w).trans (List.sublist_append_left _ _))

end Order

-- ── The story of an item ─────────────────────────────────────────────────────

/-- How far an item has come. -/
inductive Phase (Q W : Type) where
  | absent
  | queued (q : Q)
  | held (q : Q) (w : W)
  | begun (q : Q) (w : W)
  | finished (q : Q) (w : W)
  | withdrawn (q : Q)
  | dropped (q : Q) (w : W) (begun : Bool)

namespace Phase

/-- What the log says of an item that has come so far. -/
def story (i : J) : Phase Q W → List (Event Q W J)
  | .absent => []
  | .queued q => [.enter q i]
  | .held q w => [.enter q i, .take w q i]
  | .begun q w => [.enter q i, .take w q i, .start w i]
  | .finished q w => [.enter q i, .take w q i, .start w i, .finish w i]
  | .withdrawn q => [.enter q i, .withdraw q i]
  | .dropped q w false => [.enter q i, .take w q i, .abandon w i]
  | .dropped q w true => [.enter q i, .take w q i, .start w i, .abandon w i]

/-- The queue that it is in. -/
def queue? : Phase Q W → Option Q
  | .queued q => some q
  | _ => none

/-- The worker that holds it. -/
def holder? : Phase Q W → Option W
  | .held _ w => some w
  | _ => none

/-- The worker that has started on it. -/
def worker? : Phase Q W → Option W
  | .begun _ w => some w
  | _ => none

theorem of_queue {p : Phase Q W} {q : Q} (h : p.queue? = some q) :
    p = .queued q := by
  match p, h with
  | .queued q, rfl => rfl

theorem of_holder {p : Phase Q W} {w : W} (h : p.holder? = some w) :
    ∃ q, p = .held q w := by
  match p, h with
  | .held q w, rfl => exact ⟨q, rfl⟩

theorem of_worker {p : Phase Q W} {w : W} (h : p.worker? = some w) :
    ∃ q, p = .begun q w := by
  match p, h with
  | .begun q w, rfl => exact ⟨q, rfl⟩

end Phase

section Stories

variable [DecidableEq J] {d d' : Desk Q W J} {p p' : Phase Q W} {i : J}
variable {e : Event Q W J}

/-- What the log says of an item. -/
def about (i : J) (log : List (Event Q W J)) : List (Event Q W J) :=
  log.filter fun e => e.item = i

/-- An item is where its phase says. -/
structure Agrees (d : Desk Q W J) (i : J) (p : Phase Q W) : Prop where
  story : about i d.log = p.story i
  queue : ∀ q, i ∈ d.queue q ↔ p.queue? = some q
  holding : ∀ w, d.work w = .holding i ↔ p.holder? = some w
  working : ∀ w, d.work w = .working i ↔ p.worker? = some w

theorem about_append (log log' : List (Event Q W J)) :
    about i (log ++ log') = about i log ++ about i log' :=
  List.filter_append ..

/-- An event that is about the item. -/
theorem Agrees.tell (h : Agrees d i p) (he : e.item = i)
    (hstory : p'.story i = p.story i ++ [e]) :
    about i (d.log ++ [e]) = p'.story i := by
  have hone : about i [e] = [e] := by simp [about, he]
  rw [about_append, hone, h.story, hstory]

/-- An event that is about another item. -/
theorem Agrees.other (h : Agrees d i p) (hlog : d'.log = d.log ++ [e])
    (he : e.item ≠ i)
    (hqueue : ∀ q, i ∈ d'.queue q ↔ i ∈ d.queue q)
    (hholding : ∀ w, d'.work w = .holding i ↔ d.work w = .holding i)
    (hworking : ∀ w, d'.work w = .working i ↔ d.work w = .working i) :
    Agrees d' i p := by
  have hnone : about i [e] = [] := by simp [about, he]
  refine ⟨?_, fun q => (hqueue q).trans (h.queue q),
    fun w => (hholding w).trans (h.holding w),
    fun w => (hworking w).trans (h.working w)⟩
  rw [hlog, about_append, hnone, List.append_nil]
  exact h.story

end Stories

section Moves

variable [DecidableEq W] {work : W → Work J} {w u : W} {x y : Work J}

/-- A worker that neither had `y` in hand nor has it now. -/
theorem update_iff (hold : work w ≠ y) (hnew : x ≠ y) (u : W) :
    Function.update work w x u = y ↔ work u = y := by
  by_cases heq : u = w
  · subst heq
    rw [Function.update_self]
    exact ⟨fun h => absurd h hnew, fun h => absurd h hold⟩
  · rw [Function.update_of_ne heq]

/-- Nobody had `y` in hand, and a worker has it now. -/
theorem update_gain (hnone : ∀ u, work u = y ↔ none = some u) (u : W) :
    Function.update work w y u = y ↔ some w = some u := by
  by_cases heq : u = w
  · subst heq
    rw [Function.update_self]
    exact ⟨fun _ => rfl, fun _ => rfl⟩
  · rw [Function.update_of_ne heq, hnone, Option.some_inj]
    exact ⟨nofun, fun h => absurd h.symm heq⟩

/-- A worker had `y` in hand, and nobody has it now. -/
theorem update_lose (hsome : ∀ u, work u = y ↔ some w = some u) (hnew : x ≠ y)
    (u : W) : Function.update work w x u = y ↔ none = some u := by
  by_cases heq : u = w
  · subst heq
    rw [Function.update_self]
    exact ⟨fun h => absurd h hnew, nofun⟩
  · rw [Function.update_of_ne heq, hsome, Option.some_inj]
    exact ⟨fun h => absurd h.symm heq, nofun⟩

/-- Nobody has `y` in hand still. -/
theorem update_none (hnone : ∀ u, work u = y ↔ none = some u) (hnew : x ≠ y)
    (u : W) : Function.update work w x u = y ↔ none = some u := by
  rw [update_iff (fun h => nomatch (hnone w).mp h) hnew]
  exact hnone u

end Moves

section Queues

variable [DecidableEq Q] {queue : Q → List J} {q : Q} {i j : J} {rest : List J}

/-- Another item leaves. -/
theorem mem_update_left (hq : queue q = j :: rest) (hne : j ≠ i) (q' : Q) :
    i ∈ Function.update queue q rest q' ↔ i ∈ queue q' := by
  by_cases heq : q' = q
  · subst heq
    rw [Function.update_self, hq, List.mem_cons]
    exact ⟨.inr, fun h => h.resolve_left (Ne.symm hne)⟩
  · rw [Function.update_of_ne heq]

/-- An item leaves the queue that it is in. -/
theorem mem_update_self (hq : queue q = i :: rest) (hnodup : (queue q).Nodup)
    (hin : ∀ q', i ∈ queue q' ↔ some q = some q') (q' : Q) :
    i ∈ Function.update queue q rest q' ↔ none = some q' := by
  refine ⟨fun h => ?_, nofun⟩
  by_cases heq : q' = q
  · subst heq
    rw [Function.update_self] at h
    rw [hq, List.nodup_cons] at hnodup
    exact absurd h hnodup.1
  · rw [Function.update_of_ne heq, hin, Option.some_inj] at h
    exact absurd h.symm heq

end Queues

-- ── Runs ─────────────────────────────────────────────────────────────────────

section Runs

variable [DecidableEq Q] [DecidableEq W] {d d' : Desk Q W J} {i : J}

/-- The story goes on. -/
theorem Step.tells [DecidableEq J] (hs : Step d d') (hnodup : ∀ q, (d.queue q).Nodup)
    (h : ∃ p, Agrees d i p) : ∃ p, Agrees d' i p := by
  obtain ⟨p, hp⟩ := h
  cases hs with
  | enter q j hnew =>
      by_cases heq : j = i
      · subst heq
        have hstory : about j d.log = [] := by
          rw [about, List.filter_eq_nil_iff]
          intro e he
          simpa using hnew e he
        obtain rfl : p = .absent := by
          have htold := hp.story
          rw [hstory] at htold
          match p, htold with
          | .absent, _ => rfl
          | .dropped q w begun, htold => cases begun <;> cases htold
        refine ⟨.queued q, hp.tell rfl rfl, fun q' => ?_, hp.holding, hp.working⟩
        show j ∈ Function.update d.queue q (d.queue q ++ [j]) q' ↔ some q = some q'
        by_cases hq : q' = q
        · subst hq
          rw [Function.update_self, List.mem_append]
          exact ⟨fun _ => rfl, fun _ => .inr List.mem_cons_self⟩
        · rw [Function.update_of_ne hq, hp.queue, Option.some_inj]
          exact ⟨nofun, fun h => absurd h.symm hq⟩
      · refine ⟨p, hp.other rfl heq (fun q' => ?_) (fun _ => .rfl) fun _ => .rfl⟩
        show i ∈ Function.update d.queue q (d.queue q ++ [j]) q' ↔ _
        by_cases hq : q' = q
        · subst hq
          rw [Function.update_self, List.mem_append, List.mem_singleton]
          exact ⟨fun h => h.resolve_right (Ne.symm heq), .inl⟩
        · rw [Function.update_of_ne hq]
  | @take w q j rest hq hw =>
      have hfree : ∀ y : Work J, y ≠ .free → d.work w ≠ y := by
        intro y hy heq
        exact hy (heq.symm.trans hw)
      by_cases heq : j = i
      · subst heq
        obtain rfl := Phase.of_queue ((hp.queue q).mp (by rw [hq]; exact List.mem_cons_self))
        exact ⟨.held q w, hp.tell rfl rfl, mem_update_self hq (hnodup q) hp.queue,
          update_gain hp.holding, update_none hp.working nofun⟩
      · refine ⟨p, hp.other rfl heq (mem_update_left hq heq)
          (update_iff (hfree _ nofun) ?_) (update_iff (hfree _ nofun) nofun)⟩
        exact fun h => heq (Work.holding.inj h)
  | @start w j hw =>
      by_cases heq : j = i
      · subst heq
        obtain ⟨q, rfl⟩ := Phase.of_holder ((hp.holding w).mp hw)
        exact ⟨.begun q w, hp.tell rfl rfl, hp.queue, update_lose hp.holding nofun,
          update_gain hp.working⟩
      · refine ⟨p, hp.other rfl heq (fun _ => .rfl) (update_iff ?_ nofun)
          (update_iff ?_ ?_)⟩
        · rw [hw]
          exact fun h => heq (Work.holding.inj h)
        · rw [hw]
          exact nofun
        · exact fun h => heq (Work.working.inj h)
  | @finish w j hw =>
      by_cases heq : j = i
      · subst heq
        obtain ⟨q, rfl⟩ := Phase.of_worker ((hp.working w).mp hw)
        exact ⟨.finished q w, hp.tell rfl rfl, hp.queue, update_none hp.holding nofun,
          update_lose hp.working nofun⟩
      · refine ⟨p, hp.other rfl heq (fun _ => .rfl) (update_iff ?_ nofun)
          (update_iff ?_ nofun)⟩
        · rw [hw]
          exact nofun
        · rw [hw]
          exact fun h => heq (Work.working.inj h)
  | @withdraw q j rest hq =>
      by_cases heq : j = i
      · subst heq
        obtain rfl := Phase.of_queue ((hp.queue q).mp (by rw [hq]; exact List.mem_cons_self))
        exact ⟨.withdrawn q, hp.tell rfl rfl, mem_update_self hq (hnodup q) hp.queue,
          hp.holding, hp.working⟩
      · exact ⟨p, hp.other rfl heq (mem_update_left hq heq) (fun _ => .rfl)
          fun _ => .rfl⟩
  | @abandon w j hw =>
      by_cases heq : j = i
      · subst heq
        rcases hw with hw | hw
        · obtain ⟨q, rfl⟩ := Phase.of_holder ((hp.holding w).mp hw)
          exact ⟨.dropped q w false, hp.tell rfl rfl, hp.queue,
            update_lose hp.holding nofun, update_none hp.working nofun⟩
        · obtain ⟨q, rfl⟩ := Phase.of_worker ((hp.working w).mp hw)
          exact ⟨.dropped q w true, hp.tell rfl rfl, hp.queue,
            update_none hp.holding nofun, update_lose hp.working nofun⟩
      · refine ⟨p, hp.other rfl heq (fun _ => .rfl) (update_iff ?_ nofun)
          (update_iff ?_ nofun)⟩
        · rcases hw with hw | hw
          · rw [hw]
            exact fun h => heq (Work.holding.inj h)
          · rw [hw]
            exact nofun
        · rcases hw with hw | hw
          · rw [hw]
            exact nofun
          · rw [hw]
            exact fun h => heq (Work.working.inj h)

/-- **THE STORY OF EACH ITEM** is that of one phase, which says where it is. -/
theorem agrees [DecidableEq J] (h : Reachable (machine Q W J) d) (i : J) : ∃ p, Agrees d i p := by
  refine h.invariant (I := fun d => ∃ p, Agrees d i p) ?_ ?_
  · rintro _ rfl
    exact ⟨.absent, rfl, fun _ => ⟨nofun, nofun⟩, fun _ => ⟨nofun, nofun⟩,
      fun _ => ⟨nofun, nofun⟩⟩
  · intro d l d' hr ih hs
    exact Step.tells hs (queue_nodup hr) ih

omit [DecidableEq Q] [DecidableEq W] in
/-- What is told of an item is in the log. -/
theorem mem_story [DecidableEq J] {p : Phase Q W} (hp : Agrees d i p)
    {e : Event Q W J} (he : e.item = i) : e ∈ d.log ↔ e ∈ p.story i := by
  rw [← hp.story, about, List.mem_filter]
  exact ⟨fun hin => ⟨hin, decide_eq_true he⟩, fun hin => hin.1⟩

/-- An item enters one queue, and is taken from there. -/
theorem enter_unique [DecidableEq J] (h : Reachable (machine Q W J) d) {q q' : Q}
    (hin : .enter q i ∈ d.log) (hin' : .enter q' i ∈ d.log) : q = q' := by
  obtain ⟨p, hp⟩ := agrees h i
  rw [mem_story hp rfl] at hin hin'
  match p, hin, hin' with
  | .queued _, hin, hin' | .held _ _, hin, hin' | .begun _ _, hin, hin'
  | .finished _ _, hin, hin' | .withdrawn _, hin, hin'
  | .dropped _ _ false, hin, hin' | .dropped _ _ true, hin, hin' =>
      simp only [Phase.story, List.mem_cons, List.not_mem_nil, Event.enter.injEq,
        reduceCtorEq, or_false, and_true] at hin hin'
      exact hin.trans hin'.symm

theorem entered_of_take [DecidableEq J] (h : Reachable (machine Q W J) d) {w : W}
    {q : Q} (hin : .take w q i ∈ d.log) : .enter q i ∈ d.log := by
  obtain ⟨p, hp⟩ := agrees h i
  rw [mem_story hp rfl] at hin ⊢
  match p, hin with
  | .held _ _, hin | .begun _ _, hin | .finished _ _, hin
  | .dropped _ _ false, hin | .dropped _ _ true, hin =>
      simp only [Phase.story, List.mem_cons, List.not_mem_nil, Event.take.injEq,
        reduceCtorEq, false_or, or_false, and_true] at hin
      rw [hin.2]
      exact List.mem_cons_self
  | .absent, hin => cases hin
  | .queued _, hin | .withdrawn _, hin => simp [Phase.story] at hin

/-- All that is in the queues may be withdrawn at once. -/
theorem Reachable.withdraw {queue : Q → List J} {work : W → Work J}
    {log : List (Event Q W J)} {out : List (Q × J)}
    (h : Reachable (machine Q W J) ⟨queue, work, log⟩)
    (hout : ∀ q, queue q = (out.filter fun x => x.1 = q).map Prod.snd) :
    Reachable (machine Q W J) ⟨fun _ => [], work,
      log ++ out.map fun x => .withdraw x.1 x.2⟩ := by
  induction out generalizing queue log with
  | nil =>
      obtain rfl : queue = fun _ => [] := funext hout
      rw [List.map_nil, List.append_nil]
      exact h
  | cons x out ih =>
      obtain ⟨q, i⟩ := x
      have hq : queue q = i :: (out.filter fun x => x.1 = q).map Prod.snd := by
        rw [hout, List.filter_cons_of_pos (by simp)]
        rfl
      rw [List.map_cons, List.append_cons]
      have hs : Step ⟨queue, work, log⟩ _ := .withdraw hq
      refine ih (.next (l := ()) h hs) fun q' => ?_
      by_cases heq : q' = q
      · subst heq
        rw [Function.update_self]
      · have hq' : queue q' = (out.filter fun x => x.1 = q').map Prod.snd := by
          rw [hout, List.filter_cons_of_neg]
          simpa using Ne.symm heq
        rw [Function.update_of_ne heq]
        exact hq'

end Runs

-- ── How often ────────────────────────────────────────────────────────────────

/-- What an event is. -/
inductive Kind where
  | enter
  | take
  | start
  | finish
  | withdraw
  | abandon
deriving DecidableEq, Repr

def Event.kind : Event Q W J → Kind
  | .enter _ _ => .enter
  | .take _ _ _ => .take
  | .start _ _ => .start
  | .finish _ _ => .finish
  | .withdraw _ _ => .withdraw
  | .abandon _ _ => .abandon

variable [DecidableEq J] {i : J}

/-- How often that has happened to an item. -/
def times (k : Kind) (i : J) (log : List (Event Q W J)) : Nat :=
  ((about i log).map Event.kind).count k

theorem times_append (k : Kind) (i : J) (log log' : List (Event Q W J)) :
    times k i (log ++ log') = times k i log + times k i log' := by
  rw [times, about_append, List.map_append, List.count_append]
  rfl

/-- An event happens once, to one item. -/
theorem times_singleton (k : Kind) (i : J) (e : Event Q W J) :
    times k i [e] = if e.kind = k ∧ e.item = i then 1 else 0 := by
  by_cases hi : e.item = i
  · have habout : about i [e] = [e] := by simp [about, hi]
    rw [times, habout, List.map_singleton, List.count_singleton]
    by_cases hk : e.kind = k
    · simp [hk, hi]
    · simp [hk]
  · have habout : about i [e] = [] := by simp [about, hi]
    rw [times, habout, if_neg (fun h => hi h.2)]
    rfl

/-- An event of another kind. -/
theorem times_snoc {k : Kind} {e : Event Q W J} (hk : e.kind ≠ k) (i : J)
    (log : List (Event Q W J)) : times k i (log ++ [e]) = times k i log := by
  rw [times_append, times_singleton, if_neg fun h => hk h.1, Nat.add_zero]

/-- What is withdrawn at once. -/
theorem times_withdraw (i : J) (out : List (Q × J)) :
    times .withdraw i (out.map fun x => (.withdraw x.1 x.2 : Event Q W J)) =
      (out.map Prod.snd).count i := by
  induction out with
  | nil => rfl
  | cons x out ih =>
      rw [List.map_cons, List.map_cons, List.count_cons, ← List.singleton_append,
        times_append, ih, times_singleton, Nat.add_comm]
      simp [Event.kind, Event.item]

theorem times_withdraw_ne {k : Kind} (hk : k ≠ .withdraw) (i : J)
    (out : List (Q × J)) :
    times k i (out.map fun x => (.withdraw x.1 x.2 : Event Q W J)) = 0 := by
  induction out with
  | nil => rfl
  | cons x out ih =>
      rw [List.map_cons, ← List.singleton_append, times_append, ih, times_singleton,
        if_neg fun h => hk h.1.symm]

/-- What has happened to an item that has come so far. -/
def Phase.kinds : Phase Q W → List Kind
  | .absent => []
  | .queued _ => [.enter]
  | .held _ _ => [.enter, .take]
  | .begun _ _ => [.enter, .take, .start]
  | .finished _ _ => [.enter, .take, .start, .finish]
  | .withdrawn _ => [.enter, .withdraw]
  | .dropped _ _ false => [.enter, .take, .abandon]
  | .dropped _ _ true => [.enter, .take, .start, .abandon]

theorem times_of_story {p : Phase Q W} {log : List (Event Q W J)}
    (h : about i log = p.story i) (k : Kind) : times k i log = p.kinds.count k := by
  rw [times, h]
  match p with
  | .absent | .queued _ | .held _ _ | .begun _ _ | .finished _ _ | .withdrawn _
  | .dropped _ _ true | .dropped _ _ false => rfl

variable [DecidableEq Q] [DecidableEq W] {d : Desk Q W J}

/-- **AT MOST ONCE**: an item enters once, and is taken once or withdrawn once,
    if at all; it is started on once, if it is, when it has been taken, and
    finished once or abandoned. -/
theorem at_most_once (h : Reachable (machine Q W J) d) (i : J) :
    times .enter i d.log ≤ 1 ∧
    times .take i d.log + times .withdraw i d.log ≤ times .enter i d.log ∧
    times .start i d.log ≤ times .take i d.log ∧
    times .finish i d.log ≤ times .start i d.log ∧
    times .finish i d.log + times .abandon i d.log ≤ times .take i d.log := by
  obtain ⟨p, hp⟩ := agrees h i
  have htimes := times_of_story hp.story
  rw [htimes, htimes, htimes, htimes, htimes, htimes]
  match p with
  | .absent | .queued _ | .held _ _ | .begun _ _ | .finished _ _ | .withdrawn _
  | .dropped _ _ true | .dropped _ _ false =>
      simp only [Phase.kinds]
      decide

/-- An item that has come to its end. -/
inductive Over (log : List (Event Q W J)) (i : J) : Prop where
  | finished (q : Q) (w : W) (h : about i log = (Phase.finished q w).story i)
  | withdrawn (q : Q) (h : about i log = (Phase.withdrawn (W := W) q).story i)
  | dropped (q : Q) (w : W) (begun : Bool)
      (h : about i log = (Phase.dropped q w begun).story i)

/-- **ALL IS OVER** once the queues are empty and the workers free. -/
theorem over_of_idle (h : Reachable (machine Q W J) d)
    (hqueue : ∀ q, d.queue q = [])
    (hwork : ∀ w, d.work w = .free) {q : Q} (hin : .enter q i ∈ d.log) :
    Over d.log i := by
  obtain ⟨p, hp⟩ := agrees h i
  match p, hp with
  | .absent, hp =>
      rw [mem_story hp rfl] at hin
      cases hin
  | .queued q, hp =>
      have hmem := (hp.queue q).mpr rfl
      rw [hqueue] at hmem
      cases hmem
  | .held q w, hp =>
      have heq := (hp.holding w).mpr rfl
      rw [hwork] at heq
      cases heq
  | .begun q w, hp =>
      have heq := (hp.working w).mpr rfl
      rw [hwork] at heq
      cases heq
  | .finished q w, hp => exact .finished q w hp.story
  | .withdrawn q, hp => exact .withdrawn q hp.story
  | .dropped q w begun, hp => exact .dropped q w begun hp.story

end Desks
