import Mathlib.Data.List.Nodup
import Mathlib.Logic.Function.Basic

/-! # Bindings

    Keys that are bound to values, one after the other and each key once.  A key that
    is bound again stays where it is; a new one comes last. -/

namespace BindingLists

universe u v

/-- Keys and what they are bound to. -/
structure Bindings (κ : Type u) (β : Type v) where
  entries : List (κ × β)
  distinct : (entries.map Prod.fst).Nodup

variable {κ : Type u} {β : Type v} [DecidableEq κ]

/-- Bind a key in its place, or at the end. -/
def rebind (k : κ) (b : β) : List (κ × β) → List (κ × β)
  | [] => [(k, b)]
  | e :: es => if e.1 = k then (k, b) :: es else e :: rebind k b es

variable {k k' : κ} {b b' : β} {es : List (κ × β)}

/-- A bound key keeps its place. -/
theorem keys_rebind_of_mem (h : k ∈ es.map Prod.fst) :
    (rebind k b es).map Prod.fst = es.map Prod.fst := by
  induction es with
  | nil => cases h
  | cons e es ih =>
      rw [rebind]
      split
      · next he => rw [List.map_cons, List.map_cons, he]
      · next he =>
          have hlater := (List.mem_cons.mp h).resolve_left fun heq => he heq.symm
          rw [List.map_cons, List.map_cons, ih hlater]

/-- A new key comes last. -/
theorem rebind_of_notMem (h : k ∉ es.map Prod.fst) : rebind k b es = es ++ [(k, b)] := by
  induction es with
  | nil => rfl
  | cons e es ih =>
      rw [List.map_cons, List.mem_cons, not_or] at h
      rw [rebind, if_neg fun he => h.1 he.symm, ih h.2, List.cons_append]

theorem nodup_rebind (hes : (es.map Prod.fst).Nodup) : ((rebind k b es).map Prod.fst).Nodup := by
  by_cases h : k ∈ es.map Prod.fst
  · rw [keys_rebind_of_mem h]
    exact hes
  · rw [rebind_of_notMem h, List.map_append, List.map_singleton]
    refine List.nodup_append.mpr ⟨hes, List.nodup_singleton k, fun x hx y hy heq => h ?_⟩
    have hk : x = k := heq.trans (List.mem_singleton.mp hy)
    exact hk ▸ hx

theorem lookup_cons_self (hk : k' = k) : ((k, b) :: es).lookup k' = some b := by
  rw [hk, List.lookup_cons_self]

theorem lookup_cons_of_ne {e : κ × β} (hk : k ≠ e.1) : (e :: es).lookup k = es.lookup k := by
  rw [List.lookup_cons, beq_eq_false_iff_ne.mpr hk]

theorem lookup_rebind : (rebind k b es).lookup k' = if k' = k then some b else es.lookup k' := by
  induction es with
  | nil =>
      rw [rebind]
      split
      · next hk => exact lookup_cons_self hk
      · next hk => exact lookup_cons_of_ne hk
  | cons e es ih =>
      rw [rebind]
      split
      · next he =>
          split
          · next hk => exact lookup_cons_self hk
          · next hk =>
              rw [lookup_cons_of_ne hk, lookup_cons_of_ne]
              rw [he]
              exact hk
      · next he =>
          by_cases hk : k' = e.1
          · obtain ⟨x, y⟩ := e
            rw [lookup_cons_self hk, if_neg fun h => he (hk.symm.trans h), lookup_cons_self hk]
          · rw [lookup_cons_of_ne hk, ih, lookup_cons_of_ne hk]

/-- If no key is bound twice, each binding counts. -/
theorem lookup_of_mem (hes : (es.map Prod.fst).Nodup) (h : (k, b) ∈ es) :
    es.lookup k = some b := by
  induction es with
  | nil => cases h
  | cons e es ih =>
      rw [List.map_cons, List.nodup_cons] at hes
      rcases List.mem_cons.mp h with rfl | h
      · exact List.lookup_cons_self
      · have hk : k ≠ e.1 := by
          rintro rfl
          exact hes.1 (List.mem_map.mpr ⟨_, h, rfl⟩)
        rw [lookup_cons_of_ne hk, ih hes.2 h]

namespace Bindings

variable (m : Bindings κ β)

/-- What a key is bound to. -/
def lookup (k : κ) : Option β := m.entries.lookup k

/-- Bind a key. -/
def bind (k : κ) (b : β) : Bindings κ β := ⟨rebind k b m.entries, nodup_rebind m.distinct⟩

variable {m}

theorem lookup_eq_some_iff : m.lookup k = some b ↔ (k, b) ∈ m.entries := by
  constructor
  · intro h
    obtain ⟨before, after, heq, -⟩ := List.lookup_eq_some_iff.mp h
    rw [heq]
    exact List.mem_append_right before List.mem_cons_self
  · exact lookup_of_mem m.distinct

theorem lookup_ne_none_iff : m.lookup k ≠ none ↔ k ∈ m.entries.map Prod.fst := by
  rw [Option.ne_none_iff_exists', List.mem_map]
  constructor
  · rintro ⟨b, h⟩
    exact ⟨(k, b), lookup_eq_some_iff.mp h, rfl⟩
  · rintro ⟨⟨x, b⟩, h, rfl⟩
    exact ⟨b, lookup_eq_some_iff.mpr h⟩

/-- **THE LAST BINDING COUNTS**, and no other key's changes. -/
theorem lookup_bind : (m.bind k b).lookup = Function.update m.lookup k (some b) := by
  funext k'
  rw [Function.update_apply]
  exact lookup_rebind

end Bindings

end BindingLists
