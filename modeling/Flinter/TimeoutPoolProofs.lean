import Flinter.OrderedMapProofs

/-! # TimeoutPool: values that are released when their time is up

    A value leaves the pool by being taken out, by being replaced under its key,
    or because its deadline has passed.  In the last two cases, and when the
    pool is cleared, it is released if the pool is told to do so. -/

namespace FlinterTimeoutPool

open OrderedMaps

universe u v

variable {K : Type u} {V : Type v} [LinearOrder K]

/-- `TimeoutPool`; a `Value` is its deadline and what was inserted. -/
structure TimeoutPool (K : Type u) (V : Type v) [LinearOrder K] where
  defaultTimeout : Int
  autoRelease : Bool
  pool : OrderedMap K (Int × V)

namespace TimeoutPool

variable {p : TimeoutPool K V} {k : K} {v : V} {now timeout : Int}

/-- What is deleted of these values. -/
def released (p : TimeoutPool K V) (values : List V) : List V :=
  if p.autoRelease then values else []

/-- `TimeoutPool::Insert` at a time: what it releases, and the pool. -/
def insert (p : TimeoutPool K V) (now : Int) (k : K) (v : V) (timeout : Int) :
    List V × TimeoutPool K V :=
  let deadline := now + if 0 < timeout then timeout else p.defaultTimeout
  match p.pool.find k with
  | none => ([], { p with pool := p.pool.insertNew k (deadline, v) })
  | some value =>
    (p.released [value.2],
      { p with pool := p.pool.modify k fun _ => (deadline, v) })

/-- `TimeoutPool::Erase`. -/
def erase (p : TimeoutPool K V) (k : K) : Option V × TimeoutPool K V :=
  match p.pool.find k with
  | none => (none, p)
  | some value => (some value.2, { p with pool := p.pool.erase k })

/-- `TimeoutPool::Check` at a time. -/
def check (p : TimeoutPool K V) (now : Int) : List V × TimeoutPool K V :=
  let drop := p.pool.entries.filter fun e => e.2.1 ≤ now
  (p.released (drop.map (·.2.2)),
    { p with pool := (drop.map (·.1)).foldl OrderedMap.erase p.pool })

/-- `TimeoutPool::Clear`. -/
def clear (p : TimeoutPool K V) : List V × TimeoutPool K V :=
  (p.released (p.pool.entries.map (·.2.2)), { p with pool := .empty })

/-- The values in the pool. -/
def values (p : TimeoutPool K V) : List V := p.pool.entries.map (·.2.2)

-- ── Where the values go ──────────────────────────────────────────────────────

/-- A value goes in; the one it replaces is released. -/
theorem insert_perm (h : p.autoRelease = true) (now timeout : Int) :
    ((p.insert now k v timeout).1 ++ (p.insert now k v timeout).2.values).Perm
      (v :: p.values) := by
  rw [insert]
  cases hf : p.pool.find k with
  | none =>
      exact (OrderedMap.perm_insertNew (OrderedMap.find_eq_none.mp hf)).map _
  | some value =>
      have hin := OrderedMap.find_eq_some.mp hf
      show (p.released [value.2] ++ (p.pool.modify k _).entries.map _).Perm _
      rw [released, if_pos h]
      refine (((OrderedMap.perm_modify hin _).map _).cons _).trans ?_
      refine (List.Perm.swap _ _ _).trans (List.Perm.cons v ?_)
      exact ((OrderedMap.perm_erase hin).map fun e => e.2.2).symm

/-- What is taken out was in the pool. -/
theorem erase_perm (h : (p.erase k).1 = some v) :
    p.values.Perm (v :: (p.erase k).2.values) := by
  rw [erase] at h ⊢
  cases hf : p.pool.find k with
  | none =>
      rw [hf] at h
      exact absurd h (by simp)
  | some value =>
      rw [hf] at h
      obtain rfl := Option.some.inj h
      exact (OrderedMap.perm_erase (OrderedMap.find_eq_some.mp hf)).map _

/-- **CHECK**: the entries that are due go, the others stay as they are. -/
theorem check_entries :
    (p.check now).2.pool.entries =
      p.pool.entries.filter fun e => now < e.2.1 := by
  refine OrderedMap.entries_foldl_erase.trans (List.filter_congr fun e he => ?_)
  refine decide_eq_decide.mpr ⟨fun hkey => ?_, fun hlt hkey => ?_⟩
  · refine not_le.mp fun hle => hkey (List.mem_map.mpr ⟨e, ?_, rfl⟩)
    exact List.mem_filter.mpr ⟨he, decide_eq_true hle⟩
  · obtain ⟨e', he', heq⟩ := List.mem_map.mp hkey
    obtain ⟨hin, hle⟩ := List.mem_filter.mp he'
    obtain rfl := OrderedMap.eq_of_key hin he heq
    exact not_le.mpr hlt (of_decide_eq_true hle)

/-- What is due is released. -/
theorem check_perm (h : p.autoRelease = true) (now : Int) :
    ((p.check now).1 ++ (p.check now).2.values).Perm p.values := by
  have hnot : (fun e : K × Int × V => !decide (e.2.1 ≤ now)) =
      fun e => decide (now < e.2.1) := by
    funext e
    rw [← decide_not]
    exact decide_eq_decide.mpr not_le
  have hsplit := List.filter_append_perm
    (fun e : K × Int × V => decide (e.2.1 ≤ now)) p.pool.entries
  rw [hnot] at hsplit
  rw [values, check_entries]
  show (p.released _ ++ _).Perm _
  rw [released, if_pos h, ← List.map_append]
  exact hsplit.map _

theorem clear_perm (h : p.autoRelease = true) :
    p.clear.1 = p.values ∧ p.clear.2.values = [] := by
  refine ⟨?_, rfl⟩
  show p.released _ = _
  rw [released, if_pos h]
  rfl

theorem autoRelease_insert :
    (p.insert now k v timeout).2.autoRelease = p.autoRelease := by
  rw [insert]
  cases p.pool.find k <;> rfl

theorem autoRelease_erase : (p.erase k).2.autoRelease = p.autoRelease := by
  rw [erase]
  cases p.pool.find k <;> rfl

end TimeoutPool

end FlinterTimeoutPool
