import Flinter.RunProofs

/-! # What a linkage sees of its worker

    The life of a linkage on a worker: it is attached, which may fail and be
    tried again; once that is done it is called back, and at some time it is
    disconnected and, if its worker owns it, deleted.

    A log that tells such a life for a linkage has at most one `OnDisconnected`
    in it and at most one deletion, and no callback behind the former. -/

namespace FlinterLinkageLife

open Runs

/-- What a worker calls. -/
inductive Callback where
  | onReadable
  | onWritable
  | onError
  | cleanup
deriving DecidableEq, Repr

/-- What happens to a linkage: `DoAttach`, the end of an `Attach` that is true, of
    one that is false, and what the worker does. -/
inductive Event where
  | attach (autoRelease : Bool)
  | attached (autoRelease : Bool)
  | detach
  | call (callback : Callback)
  | onDisconnected
  | deleted
deriving DecidableEq, Repr

/-- How far a linkage is. -/
inductive Life where
  | out
  | attaching (autoRelease : Bool)
  | attached (autoRelease : Bool)
  | released (autoRelease : Bool)
  | deleted
deriving DecidableEq, Repr

/-- What may happen, and how far the linkage is then. -/
inductive Life.Step : Life → Event → Life → Prop where
  | attach (a : Bool) : Step .out (.attach a) (.attaching a)
  | attached (a : Bool) : Step (.attaching a) (.attached a) (.attached a)
  | detach (a : Bool) : Step (.attaching a) .detach .out
  | call (a : Bool) (callback : Callback) :
      Step (.attached a) (.call callback) (.attached a)
  | onDisconnected (a : Bool) : Step (.attached a) .onDisconnected (.released a)
  | deleted : Step (.released true) .deleted .deleted

/-- What happened to a linkage, and how far it is. -/
inductive Lived : List Event → Life → Prop where
  | nil : Lived [] .out
  | snoc {es : List Event} {e : Event} {life life' : Life} :
      Lived es life → life.Step e life' → Lived (es ++ [e]) life'

/-- How often it was disconnected. -/
def Life.disconnections : Life → Nat
  | .released _ => 1
  | .deleted => 1
  | _ => 0

/-- How often it was deleted. -/
def Life.deletions : Life → Nat
  | .deleted => 1
  | _ => 0

/-- It has a worker. -/
def Life.hasWorker : Life → Bool
  | .out => false
  | _ => true

/-- Its `Attach` is in progress. -/
def Life.isAttaching : Life → Bool
  | .attaching _ => true
  | _ => false

/-- It is on its worker; whether the worker owns it. -/
def Life.onWorker : Life → Option Bool
  | .attaching a => some a
  | .attached a => some a
  | _ => none

variable {es : List Event} {life : Life}

theorem Lived.count_onDisconnected (h : Lived es life) :
    es.count .onDisconnected = life.disconnections := by
  induction h with
  | nil => rfl
  | snoc _ hs ih =>
      rw [List.count_append, ih]
      cases hs <;> rfl

theorem Lived.count_deleted (h : Lived es life) :
    es.count .deleted = life.deletions := by
  induction h with
  | nil => rfl
  | snoc _ hs ih =>
      rw [List.count_append, ih]
      cases hs <;> rfl

/-- After `OnDisconnected` there is only the deletion. -/
theorem Lived.quiet (h : Lived es life) :
    Throughout (fun pre e => .onDisconnected ∈ pre → e = .deleted) es := by
  induction h with
  | nil => exact throughout_nil
  | @snoc es e life life' hl hs ih =>
      rw [throughout_snoc]
      refine ⟨ih, ?_⟩
      intro hmem
      have hcount := hl.count_onDisconnected
      have hpos : 0 < es.count .onDisconnected := List.count_pos_iff.mpr hmem
      cases hs with
      | deleted => rfl
      | _ =>
          rw [hcount] at hpos
          exact absurd hpos (Nat.lt_irrefl 0)

/-- How far a linkage is that was attached. -/
theorem Lived.of_attached (h : Lived es life) {a : Bool}
    (ha : .attached a ∈ es) :
    life = .attached a ∨ life = .released a ∨ (a = true ∧ life = .deleted) := by
  induction h with
  | nil => exact absurd ha List.not_mem_nil
  | snoc _ hs ih =>
      rcases List.mem_append.mp ha with ha | ha
      · have hlife := ih ha
        cases hs with
        | attach _ => simp at hlife
        | attached _ => simp at hlife
        | detach _ => simp at hlife
        | call _ _ => exact hlife
        | onDisconnected _ =>
            simp only [Life.attached.injEq, reduceCtorEq, and_false, or_false]
              at hlife
            rw [hlife]
            exact .inr (.inl rfl)
        | deleted =>
            simp only [Life.released.injEq, reduceCtorEq, and_false, or_false,
              false_or] at hlife
            exact .inr (.inr ⟨hlife.symm, rfl⟩)
      · obtain rfl := List.mem_singleton.mp ha
        cases hs
        exact .inl rfl

-- ── One log for all ──────────────────────────────────────────────────────────

/-- What happened to linkage `l`. -/
def seen (l : Nat) (log : List (Nat × Event)) : List Event :=
  (log.filter fun e => decide (e.1 = l)).map Prod.snd

variable {l l' : Nat} {log : List (Nat × Event)} {e : Event}

theorem seen_snoc_self : seen l (log ++ [(l, e)]) = seen l log ++ [e] := by
  unfold seen
  simp

theorem seen_snoc_other (h : l' ≠ l) : seen l (log ++ [(l', e)]) = seen l log := by
  unfold seen
  simp [h]

theorem mem_seen : e ∈ seen l log ↔ (l, e) ∈ log := by
  unfold seen
  simp

end FlinterLinkageLife
