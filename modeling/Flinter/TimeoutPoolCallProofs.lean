import Flinter.TimeoutPoolProofs

/-! # TimeoutPool: what becomes of a value

    Any calls in any order, at any times.  Each value that goes in is accounted
    for, once for each time it went in: it has been handed back by `Erase`, it
    has gone by being replaced, by being due or with the rest, or it is still
    there.  What is under a key is the latest value put there, as long as
    nothing has ended it since. -/

namespace FlinterTimeoutPool

open OrderedMaps

universe u v

variable {K : Type u} {V : Type v} [LinearOrder K]

/-- A call of `TimeoutPool`, with the time where it reads the clock. -/
inductive Event (K : Type u) (V : Type v) where
  | insert (now : Int) (k : K) (v : V) (timeout : Int)
  | erase (k : K)
  | check (now : Int)
  | clear

namespace TimeoutPool

variable {p : TimeoutPool K V} {e : Event K V} {es : List (Event K V)} {k : K} {v : V}
  {d : Int}

/-- The deadline `Insert` gives a value. -/
def deadline (p : TimeoutPool K V) (now timeout : Int) : Int :=
  now + if 0 < timeout then timeout else p.defaultTimeout

/-- What a call hands back, what it deletes, and the pool behind it. -/
def perform (p : TimeoutPool K V) : Event K V → Option V × List V × TimeoutPool K V
  | .insert now k v timeout => (none, p.insert now k v timeout)
  | .erase k => ((p.erase k).1, [], (p.erase k).2)
  | .check now => (none, p.check now)
  | .clear => (none, p.clear)

/-- What a call puts into the pool. -/
def entering : Event K V → List V
  | .insert _ _ v _ => [v]
  | .erase _ => []
  | .check _ => []
  | .clear => []

/-- What leaves the pool in a call and is not handed back: what is replaced,
    what is due, or all. -/
def leaving (p : TimeoutPool K V) : Event K V → List V
  | .insert _ k _ _ => ((p.pool.find k).map (·.2)).toList
  | .erase _ => []
  | .check now => (p.pool.entries.filter fun e => e.2.1 ≤ now).map (·.2.2)
  | .clear => p.values

-- ── The values ───────────────────────────────────────────────────────────────

/-- What leaves is deleted by a pool that deletes. -/
theorem perform_deleted (p : TimeoutPool K V) (e : Event K V) :
    (p.perform e).2.1 = p.released (p.leaving e) := by
  cases e with
  | insert now k v timeout =>
      show (p.insert now k v timeout).1 = _
      rw [insert, leaving]
      cases p.pool.find k with
      | none => exact (ite_self []).symm
      | some value => rfl
  | erase k => exact (ite_self []).symm
  | check now => rfl
  | clear => rfl

/-- **ONE CALL**: what was there and what comes in is handed back, leaves, or
    is there. -/
theorem perform_perm (p : TimeoutPool K V) (e : Event K V) :
    ((p.perform e).1.toList ++ (p.leaving e ++ (p.perform e).2.2.values)).Perm
      (entering e ++ p.values) := by
  -- the entries of a pool do not depend on whether it deletes
  let keen : TimeoutPool K V := { p with autoRelease := true }
  cases e with
  | insert now k v timeout =>
      have hkeen : (keen.insert now k v timeout).2.values =
            (p.insert now k v timeout).2.values ∧
          (keen.insert now k v timeout).1 = p.leaving (.insert now k v timeout) := by
        rw [insert, insert, leaving]
        cases p.pool.find k <;> exact ⟨rfl, rfl⟩
      have hperm := insert_perm (p := keen) (k := k) (v := v) rfl now timeout
      rw [hkeen.1, hkeen.2] at hperm
      exact hperm
  | erase k =>
      show ((p.erase k).1.toList ++ (p.erase k).2.values).Perm p.values
      cases hv : (p.erase k).1 with
      | none =>
          rw [erase] at hv ⊢
          cases hf : p.pool.find k with
          | none => exact .refl _
          | some value =>
              rw [hf] at hv
              exact absurd hv (Option.some_ne_none _)
      | some v => exact (erase_perm hv).symm
  | check now => exact check_perm (p := keen) rfl now
  | clear =>
      show (p.values ++ []).Perm p.values
      rw [List.append_nil]

-- ── The entries ──────────────────────────────────────────────────────────────

/-- What `Insert` leaves: its own entry, and those of the other keys. -/
theorem mem_insert {now timeout : Int} {x : K × Int × V} :
    x ∈ (p.insert now k v timeout).2.pool.entries ↔
      x = (k, p.deadline now timeout, v) ∨ x ∈ p.pool.entries ∧ x.1 ≠ k := by
  rw [insert]
  cases hf : p.pool.find k with
  | none =>
      have hnew := OrderedMap.find_eq_none.mp hf
      show x ∈ (p.pool.insertNew k (p.deadline now timeout, v)).entries ↔ _
      rw [(OrderedMap.perm_insertNew hnew).mem_iff, List.mem_cons]
      refine or_congr_right ⟨fun hx => ⟨hx, fun hk => hnew ?_⟩, And.left⟩
      exact OrderedMap.mem_keys.mpr ⟨x, hx, hk⟩
  | some value =>
      have hin := OrderedMap.find_eq_some.mp hf
      show x ∈ (p.pool.modify k fun _ => (p.deadline now timeout, v)).entries ↔ _
      rw [(OrderedMap.perm_modify hin _).mem_iff, List.mem_cons]
      exact or_congr_right OrderedMap.mem_erase

/-- `Erase` leaves the entries of the other keys. -/
theorem mem_erase {x : K × Int × V} :
    x ∈ (p.erase k).2.pool.entries ↔ x ∈ p.pool.entries ∧ x.1 ≠ k := by
  rw [erase]
  cases hf : p.pool.find k with
  | none =>
      refine ⟨fun hx => ⟨hx, fun hk => ?_⟩, And.left⟩
      exact OrderedMap.find_eq_none.mp hf (OrderedMap.mem_keys.mpr ⟨x, hx, hk⟩)
  | some value => exact OrderedMap.mem_erase

theorem mem_check {now : Int} {x : K × Int × V} :
    x ∈ (p.check now).2.pool.entries ↔ x ∈ p.pool.entries ∧ now < x.2.1 := by
  rw [check_entries, List.mem_filter, decide_eq_true_eq]

/-- A call puts this value under this key, to stay until this deadline. -/
def puts (p : TimeoutPool K V) (k : K) (d : Int) (v : V) (e : Event K V) : Prop :=
  ∃ now timeout, e = .insert now k v timeout ∧ d = p.deadline now timeout

/-- A call after which what was under a key with a deadline is there no more:
    it is replaced or taken out, it is due, or all goes. -/
def ends (k : K) (d : Int) : Event K V → Prop
  | .insert _ k' _ _ => k' = k
  | .erase k' => k' = k
  | .check now => d ≤ now
  | .clear => True

/-- **ONE CALL**: an entry is there when the call has put it there, or when it
    was and the call does not end it. -/
theorem mem_perform (p : TimeoutPool K V) (e : Event K V) :
    (k, d, v) ∈ (p.perform e).2.2.pool.entries ↔
      p.puts k d v e ∨ (k, d, v) ∈ p.pool.entries ∧ ¬ends k d e := by
  have hno : ∀ e' : Event K V, (∀ now v' timeout, e' ≠ .insert now k v' timeout) →
      ¬p.puts k d v e' := by
    rintro e' hne ⟨now, timeout, he, -⟩
    exact hne now v timeout he
  cases e with
  | insert now k' v' timeout =>
      refine mem_insert.trans (or_congr ⟨fun heq => ?_, ?_⟩ (and_congr_right fun _ => ?_))
      · obtain ⟨rfl, hd, rfl⟩ := Prod.mk.inj heq |>.imp_right Prod.mk.inj
        exact ⟨now, timeout, rfl, hd⟩
      · rintro ⟨now', timeout', he, rfl⟩
        obtain ⟨rfl, rfl, rfl, rfl⟩ := Event.insert.inj he
        rfl
      · exact not_congr eq_comm
  | erase k' =>
      rw [or_iff_right (hno _ (by rintro _ _ _ ⟨⟩))]
      exact mem_erase.trans (and_congr_right fun _ => not_congr eq_comm)
  | check now =>
      rw [or_iff_right (hno _ (by rintro _ _ _ ⟨⟩))]
      exact mem_check.trans (and_congr_right fun _ => not_le.symm)
  | clear =>
      rw [or_iff_right (hno _ (by rintro _ _ _ ⟨⟩))]
      exact iff_of_false (by rintro ⟨⟩) fun h => h.2 trivial

-- ── Any number of calls ──────────────────────────────────────────────────────

/-- A pool with the account of what it has been through: what went in, what
    `Erase` has handed back, what has left otherwise, and what was deleted. -/
structure Account (K : Type u) (V : Type v) [LinearOrder K] where
  pool : TimeoutPool K V
  entered : List V
  returned : List V
  gone : List V
  deleted : List V

/-- A call, and what it adds to the account. -/
def Account.after (a : Account K V) (e : Event K V) : Account K V where
  pool := (a.pool.perform e).2.2
  entered := a.entered ++ entering e
  returned := a.returned ++ (a.pool.perform e).1.toList
  gone := a.gone ++ a.pool.leaving e
  deleted := a.deleted ++ (a.pool.perform e).2.1

/-- `TimeoutPool::TimeoutPool`, with an empty account. -/
def opened (defaultTimeout : Int) (autoRelease : Bool) : Account K V where
  pool := { defaultTimeout, autoRelease, pool := .empty }
  entered := []
  returned := []
  gone := []
  deleted := []

/-- A pool after these calls. -/
def history (defaultTimeout : Int) (autoRelease : Bool) (es : List (Event K V)) :
    Account K V :=
  es.foldl Account.after (opened defaultTimeout autoRelease)

section History

variable {defaultTimeout : Int} {autoRelease : Bool}

theorem history_snoc :
    history defaultTimeout autoRelease (es ++ [e]) =
      (history defaultTimeout autoRelease es).after e := by
  rw [history, List.foldl_append]
  rfl

theorem perform_settings (p : TimeoutPool K V) (e : Event K V) :
    (p.perform e).2.2.autoRelease = p.autoRelease ∧
      (p.perform e).2.2.defaultTimeout = p.defaultTimeout := by
  cases e with
  | insert now k v timeout =>
      show (p.insert now k v timeout).2.autoRelease = _ ∧
        (p.insert now k v timeout).2.defaultTimeout = _
      rw [insert]
      cases p.pool.find k <;> exact ⟨rfl, rfl⟩
  | erase k =>
      show (p.erase k).2.autoRelease = _ ∧ (p.erase k).2.defaultTimeout = _
      rw [erase]
      cases p.pool.find k <;> exact ⟨rfl, rfl⟩
  | check now => exact ⟨rfl, rfl⟩
  | clear => exact ⟨rfl, rfl⟩

/-- The settings of a pool stay. -/
theorem history_settings :
    (history defaultTimeout autoRelease es).pool.autoRelease = autoRelease ∧
      (history defaultTimeout autoRelease es).pool.defaultTimeout = defaultTimeout := by
  induction es using List.reverseRecOn with
  | nil => exact ⟨rfl, rfl⟩
  | append_singleton es e ih =>
      rw [history_snoc]
      exact (perform_settings _ e).imp (·.trans ih.1) (·.trans ih.2)

/-- What went in has been handed back, has left, or is there. -/
def Account.Balanced (a : Account K V) : Prop :=
  a.entered.Perm (a.returned ++ (a.gone ++ a.pool.values))

theorem Account.Balanced.after {a : Account K V} (h : a.Balanced) (e : Event K V) :
    (a.after e).Balanced := by
  classical
  refine List.perm_iff_count.mpr fun x => ?_
  have hbefore := h.count_eq x
  have hstep := (perform_perm a.pool e).count_eq x
  show (a.entered ++ entering e).count x =
    ((a.returned ++ (a.pool.perform e).1.toList) ++
      ((a.gone ++ a.pool.leaving e) ++ (a.pool.perform e).2.2.values)).count x
  simp only [List.count_append] at hbefore hstep ⊢
  omega

theorem history_balanced (defaultTimeout : Int) (autoRelease : Bool)
    (es : List (Event K V)) : (history defaultTimeout autoRelease es).Balanced := by
  induction es using List.reverseRecOn with
  | nil => exact .refl _
  | append_singleton es e ih =>
      rw [history_snoc]
      exact ih.after e

/-- What leaves is deleted by a pool that deletes. -/
theorem history_deleted :
    (history defaultTimeout autoRelease es).deleted =
      if autoRelease then (history defaultTimeout autoRelease es).gone else [] := by
  induction es using List.reverseRecOn with
  | nil => exact (ite_self []).symm
  | append_singleton es e ih =>
      rw [history_snoc]
      show _ ++ ((history defaultTimeout autoRelease es).pool.perform e).2.1 = _
      rw [ih, perform_deleted, released, history_settings.1]
      cases autoRelease <;> rfl

/-- The latest value put under a key, which nothing has ended since. -/
def Standing (defaultTimeout : Int) (es : List (Event K V)) (k : K) (d : Int) (v : V) :
    Prop :=
  ∃ before now timeout after, es = before ++ .insert now k v timeout :: after ∧
    d = (now + if 0 < timeout then timeout else defaultTimeout) ∧
    ∀ e ∈ after, ¬ends k d e

omit [LinearOrder K] in
theorem standing_snoc :
    Standing defaultTimeout (es ++ [e]) k d v ↔
      (∃ now timeout, e = .insert now k v timeout ∧
        d = now + if 0 < timeout then timeout else defaultTimeout) ∨
      Standing defaultTimeout es k d v ∧ ¬ends k d e := by
  constructor
  · rintro ⟨before, now, timeout, after, heq, hd, hafter⟩
    rcases List.eq_nil_or_concat after with rfl | ⟨after, e', rfl⟩
    · obtain ⟨-, he⟩ := List.append_inj' heq rfl
      exact .inl ⟨now, timeout, List.singleton_inj.mp he, hd⟩
    · rw [List.concat_eq_append, ← List.cons_append, ← List.append_assoc] at heq
      obtain ⟨hes, he⟩ := List.append_inj' heq rfl
      obtain rfl := List.singleton_inj.mp he
      rw [List.concat_eq_append] at hafter
      refine .inr ⟨⟨before, now, timeout, after, hes, hd, fun e' he' => ?_⟩, ?_⟩
      · exact hafter e' (List.mem_append_left _ he')
      · exact hafter e (List.mem_append_right _ List.mem_cons_self)
  · rintro (⟨now, timeout, rfl, hd⟩ | ⟨⟨before, now, timeout, after, rfl, hd, hafter⟩, he⟩)
    · exact ⟨es, now, timeout, [], rfl, hd, fun e' he' => absurd he' List.not_mem_nil⟩
    · refine ⟨before, now, timeout, after ++ [e], ?_, hd, fun e' he' => ?_⟩
      · rw [List.append_assoc, List.cons_append]
      · rcases List.mem_append.mp he' with he' | he'
        · exact hafter e' he'
        · obtain rfl := List.mem_singleton.mp he'
          exact he

/-- What the pool holds, read off the calls. -/
theorem mem_history :
    (k, d, v) ∈ (history defaultTimeout autoRelease es).pool.pool.entries ↔
      Standing defaultTimeout es k d v := by
  induction es using List.reverseRecOn with
  | nil =>
      refine iff_of_false (by rintro ⟨⟩) ?_
      rintro ⟨before, now, timeout, after, heq, -⟩
      exact absurd heq.symm (by simp)
  | append_singleton es e ih =>
      rw [history_snoc, standing_snoc, ← ih]
      refine (mem_perform _ e).trans (or_congr_left ?_)
      rw [puts]
      simp only [deadline, history_settings.2]

/-- **EACH VALUE LEAVES ONCE**: after any calls each value that went in has
    been handed back, has left, or is there, as often as it went in; what has
    left is deleted if and only if the pool deletes; nothing is there after
    `Clear`.  `Check` takes what is due and nothing else, and `Erase` hands back
    the latest value under its key, if nothing has ended it. -/
theorem values_leave_once (defaultTimeout : Int) (autoRelease : Bool)
    (es : List (Event K V)) :
    let a := history defaultTimeout autoRelease es
    a.entered.Perm (a.returned ++ (a.gone ++ a.pool.values)) ∧
      a.deleted = (if autoRelease then a.gone else []) ∧
      (a.after .clear).pool.values = [] ∧
      (a.after .clear).entered.Perm
        ((a.after .clear).returned ++ (a.after .clear).gone) ∧
      (∀ now, (a.pool.check now).2.pool.entries =
          a.pool.pool.entries.filter (fun x => now < x.2.1) ∧
        (a.after (.check now)).gone =
          a.gone ++ (a.pool.pool.entries.filter fun x => x.2.1 ≤ now).map (·.2.2)) ∧
      ∀ k v, (a.pool.erase k).1 = some v ↔ ∃ d, Standing defaultTimeout es k d v := by
  have hbalanced := history_balanced defaultTimeout autoRelease es
  refine ⟨hbalanced, history_deleted, rfl, ?_, fun now => ⟨check_entries, rfl⟩,
    fun k v => ?_⟩
  · have hclear := hbalanced.after .clear
    exact hclear.trans (.of_eq (congrArg _ (List.append_nil _)))
  · rw [erase]
    constructor
    · intro hv
      cases hf : (history defaultTimeout autoRelease es).pool.pool.find k with
      | none =>
          rw [hf] at hv
          exact absurd hv.symm (Option.some_ne_none _)
      | some value =>
          rw [hf] at hv
          obtain rfl := Option.some.inj hv
          exact ⟨value.1, mem_history.mp (OrderedMap.find_eq_some.mp hf)⟩
    · rintro ⟨d, hd⟩
      rw [OrderedMap.find_eq_some.mpr (mem_history.mpr hd)]

end History

end TimeoutPool

end FlinterTimeoutPool
