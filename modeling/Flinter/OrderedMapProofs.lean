import Mathlib.Data.Finset.Card
import Mathlib.Data.List.Sort
import Mathlib.Order.Basic

/-! # Ordered maps

    A map kept as its entries in ascending order of their keys, as an iterator
    sees it.  `insertNew` keeps an entry that is there; `upTo` and `below` are
    what an iterator passes on its way to a key. -/

namespace OrderedMaps

universe u v

variable {κ : Type u} {β : Type v} [LinearOrder κ]

/-- Entries in ascending order of their keys. -/
structure OrderedMap (κ : Type u) (β : Type v) [LinearOrder κ] where
  entries : List (κ × β)
  ascending : entries.Pairwise fun e e' => e.1 < e'.1

/-- Entry under a key, unless there is one. -/
def insertEntry (k : κ) (b : β) : List (κ × β) → List (κ × β)
  | [] => [(k, b)]
  | e :: es =>
    if k < e.1 then (k, b) :: e :: es
    else if k = e.1 then e :: es
    else e :: insertEntry k b es

theorem mem_insertEntry {k : κ} {b : β} {es : List (κ × β)} {e : κ × β}
    (h : e ∈ insertEntry k b es) : e = (k, b) ∨ e ∈ es := by
  induction es with
  | nil => exact .inl (List.mem_singleton.mp h)
  | cons e' es ih =>
      rw [insertEntry] at h
      split at h
      · exact List.mem_cons.mp h
      · split at h
        · exact .inr h
        · rcases List.mem_cons.mp h with rfl | h
          · exact .inr List.mem_cons_self
          · exact (ih h).imp_right (List.mem_cons_of_mem e')

theorem mem_of_mem_insertEntry {k : κ} {b : β} {es : List (κ × β)} {e : κ × β}
    (h : e ∈ es) : e ∈ insertEntry k b es := by
  induction es with
  | nil => exact absurd h List.not_mem_nil
  | cons e' es ih =>
      rw [insertEntry]
      split
      · exact List.mem_cons_of_mem _ h
      · split
        · exact h
        · rcases List.mem_cons.mp h with rfl | h
          · exact List.mem_cons_self
          · exact List.mem_cons_of_mem _ (ih h)

theorem key_mem_insertEntry (k : κ) (b : β) (es : List (κ × β)) :
    ∃ e ∈ insertEntry k b es, e.1 = k := by
  induction es with
  | nil => exact ⟨(k, b), List.mem_singleton_self _, rfl⟩
  | cons e' es ih =>
      rw [insertEntry]
      split
      · exact ⟨(k, b), List.mem_cons_self, rfl⟩
      · split
        case isTrue heq => exact ⟨e', List.mem_cons_self, heq.symm⟩
        case isFalse =>
            obtain ⟨e, he, hk⟩ := ih
            exact ⟨e, List.mem_cons_of_mem _ he, hk⟩

theorem insertEntry_ascending (k : κ) (b : β) {es : List (κ × β)}
    (h : es.Pairwise fun e e' => e.1 < e'.1) :
    (insertEntry k b es).Pairwise fun e e' => e.1 < e'.1 := by
  induction es with
  | nil => exact List.pairwise_singleton _ _
  | cons e' es ih =>
      obtain ⟨hhead, htail⟩ := List.pairwise_cons.mp h
      rw [insertEntry]
      split
      case isTrue hlt =>
          refine List.pairwise_cons.mpr ⟨fun e he => ?_, h⟩
          rcases List.mem_cons.mp he with rfl | he
          · exact hlt
          · exact lt_trans hlt (hhead e he)
      case isFalse hnlt =>
          split
          · exact h
          case isFalse hne =>
              refine List.pairwise_cons.mpr ⟨fun e he => ?_, ih htail⟩
              rcases mem_insertEntry he with rfl | he
              · exact lt_of_le_of_ne (not_lt.mp hnlt) (Ne.symm hne)
              · exact hhead e he

namespace OrderedMap

variable {m : OrderedMap κ β} {k : κ} {b : β} {e : κ × β}

def empty : OrderedMap κ β := ⟨[], .nil⟩

/-- `std::map::insert`. -/
def insertNew (m : OrderedMap κ β) (k : κ) (b : β) : OrderedMap κ β :=
  ⟨insertEntry k b m.entries, insertEntry_ascending k b m.ascending⟩

def keys (m : OrderedMap κ β) : Finset κ := (m.entries.map (·.1)).toFinset

/-- The entries from the beginning to `k`. -/
def upTo (m : OrderedMap κ β) (k : κ) : List (κ × β) :=
  m.entries.takeWhile (·.1 ≤ k)

/-- The entries before `k`. -/
def below (m : OrderedMap κ β) (k : κ) : List (κ × β) :=
  m.entries.takeWhile (·.1 < k)

theorem mem_keys : k ∈ m.keys ↔ ∃ e ∈ m.entries, e.1 = k := by
  rw [keys, List.mem_toFinset, List.mem_map]

theorem mem_keys_insertNew {k' : κ} :
    k' ∈ (m.insertNew k b).keys ↔ k' = k ∨ k' ∈ m.keys := by
  rw [mem_keys, mem_keys]
  constructor
  · rintro ⟨e, he, rfl⟩
    rcases mem_insertEntry he with rfl | he
    · exact .inl rfl
    · exact .inr ⟨e, he, rfl⟩
  · rintro (rfl | ⟨e, he, rfl⟩)
    · exact key_mem_insertEntry k' b m.entries
    · exact ⟨e, mem_of_mem_insertEntry he, rfl⟩

-- ── What an iterator passes ──────────────────────────────────────────────────

/-- Where a property is lost once for all, a prefix is a filter. -/
theorem takeWhile_eq_filter {γ : Type u} {p : γ → Bool} {l : List γ}
    (h : l.Pairwise fun x y => p y = true → p x = true) :
    l.takeWhile p = l.filter p := by
  induction l with
  | nil => rfl
  | cons a l ih =>
      obtain ⟨hhead, htail⟩ := List.pairwise_cons.mp h
      by_cases ha : p a = true
      · rw [List.takeWhile_cons_of_pos ha, List.filter_cons_of_pos ha, ih htail]
      · rw [List.takeWhile_cons_of_neg ha, List.filter_cons_of_neg ha]
        refine (List.filter_eq_nil_iff.mpr fun x hx hp => ?_).symm
        exact ha (hhead x hx hp)

theorem upTo_eq_filter : m.upTo k = m.entries.filter (·.1 ≤ k) := by
  refine takeWhile_eq_filter (m.ascending.imp fun hlt hle => ?_)
  rw [decide_eq_true_eq] at hle ⊢
  exact le_trans (le_of_lt hlt) hle

theorem below_eq_filter : m.below k = m.entries.filter (·.1 < k) := by
  refine takeWhile_eq_filter (m.ascending.imp fun hlt hle => ?_)
  rw [decide_eq_true_eq] at hle ⊢
  exact lt_trans hlt hle

theorem keys_nodup : (m.entries.map (·.1)).Nodup := by
  refine List.Pairwise.map _ ?_ m.ascending
  intro e e' hlt
  exact ne_of_lt hlt

/-- Entries that pass a test of their keys are as many as these keys. -/
theorem length_filter (p : κ → Prop) [DecidablePred p] :
    (m.entries.filter fun e => decide (p e.1)).length = (m.keys.filter p).card := by
  have hnodup : ((m.entries.filter fun e => decide (p e.1)).map (·.1)).Nodup :=
    m.keys_nodup.sublist (List.filter_sublist.map _)
  rw [← List.length_map (·.1), ← List.toFinset_card_of_nodup hnodup]
  refine congrArg Finset.card (Finset.ext fun k => ?_)
  simp only [keys, List.mem_toFinset, List.mem_map, List.mem_filter,
    Finset.mem_filter, decide_eq_true_eq]
  constructor
  · rintro ⟨e, ⟨he, hp⟩, rfl⟩
    exact ⟨⟨e, he, rfl⟩, hp⟩
  · rintro ⟨⟨e, he, rfl⟩, hp⟩
    exact ⟨e, ⟨he, hp⟩, rfl⟩

theorem length_upTo : (m.upTo k).length = (m.keys.filter (· ≤ k)).card := by
  rw [upTo_eq_filter]
  exact length_filter (· ≤ k)

theorem length_below : (m.below k).length = (m.keys.filter (· < k)).card := by
  rw [below_eq_filter]
  exact length_filter (· < k)

theorem mem_below : e ∈ m.below k ↔ e ∈ m.entries ∧ e.1 < k := by
  rw [below_eq_filter, List.mem_filter, decide_eq_true_eq]

/-- The last `n` entries before a key have as many keys. -/
theorem card_nearest (n : Nat) :
    (((m.below k).reverse.take n).map (·.1)).toFinset.card =
      min n (m.below k).length := by
  have hbelow : ((m.below k).map (·.1)).Nodup :=
    m.keys_nodup.sublist ((List.takeWhile_sublist _).map _)
  have hreverse : ((m.below k).reverse.map (·.1)).Nodup := by
    rw [List.map_reverse]
    exact List.nodup_reverse.mpr hbelow
  have hnodup : (((m.below k).reverse.take n).map (·.1)).Nodup :=
    hreverse.sublist ((List.take_sublist _ _).map _)
  rw [List.toFinset_card_of_nodup hnodup, List.length_map, List.length_take,
    List.length_reverse]

/-- At a key an iterator has passed one entry less. -/
theorem length_upTo_of_mem (h : k ∈ m.keys) :
    (m.upTo k).length = (m.below k).length + 1 := by
  have hsplit : m.keys.filter (· ≤ k) = insert k (m.keys.filter (· < k)) := by
    ext k'
    simp only [Finset.mem_filter, Finset.mem_insert]
    constructor
    · rintro ⟨hk', hle⟩
      rcases eq_or_lt_of_le hle with rfl | hlt
      · exact .inl rfl
      · exact .inr ⟨hk', hlt⟩
    · rintro (rfl | ⟨hk', hlt⟩)
      · exact ⟨h, le_refl _⟩
      · exact ⟨hk', le_of_lt hlt⟩
  rw [length_upTo, length_below, hsplit, Finset.card_insert_of_notMem]
  intro hmem
  exact lt_irrefl k (Finset.mem_filter.mp hmem).2

-- ── Looking up, changing and erasing ─────────────────────────────────────────

/-- `std::map::find`. -/
def find (m : OrderedMap κ β) (k : κ) : Option β :=
  (m.entries.find? fun e => e.1 = k).map (·.2)

/-- The value under a key is changed where it stands. -/
def modify (m : OrderedMap κ β) (k : κ) (f : β → β) : OrderedMap κ β where
  entries := m.entries.map fun e => if e.1 = k then (e.1, f e.2) else e
  ascending := by
    have hkey : ∀ e : κ × β, (if e.1 = k then (e.1, f e.2) else e).1 = e.1 := by
      intro e
      split <;> rfl
    refine m.ascending.map _ fun e e' hlt => ?_
    rw [hkey, hkey]
    exact hlt

/-- `std::map::erase`. -/
def erase (m : OrderedMap κ β) (k : κ) : OrderedMap κ β where
  entries := m.entries.filter fun e => e.1 ≠ k
  ascending := m.ascending.filter _

/-- The entry behind a key, where an iterator goes from there. -/
def after (m : OrderedMap κ β) (k : κ) : Option (κ × β) :=
  m.entries.find? fun e => k < e.1

/-- A key has one entry. -/
theorem eq_of_key {e' : κ × β} (he : e ∈ m.entries) (he' : e' ∈ m.entries)
    (h : e.1 = e'.1) : e = e' :=
  List.inj_on_of_nodup_map m.keys_nodup he he' h

theorem find_eq_some : m.find k = some b ↔ (k, b) ∈ m.entries := by
  rw [find, Option.map_eq_some_iff]
  constructor
  · rintro ⟨e, he, rfl⟩
    have hkey := List.find?_some he
    obtain rfl := of_decide_eq_true hkey
    exact List.mem_of_find?_eq_some he
  · intro h
    cases hf : m.entries.find? fun e => e.1 = k with
    | none => exact absurd (decide_eq_true rfl) (List.find?_eq_none.mp hf _ h)
    | some e =>
        have hkey := List.find?_some hf
        refine ⟨e, rfl, ?_⟩
        rw [eq_of_key (List.mem_of_find?_eq_some hf) h (of_decide_eq_true hkey)]

theorem find_eq_none : m.find k = none ↔ k ∉ m.keys := by
  rw [mem_keys]
  constructor
  · rintro h ⟨e, he, rfl⟩
    rw [find_eq_some.mpr he] at h
    exact absurd h (by simp)
  · intro h
    cases hf : m.find k with
    | none => rfl
    | some b => exact absurd ⟨(k, b), find_eq_some.mp hf, rfl⟩ h

theorem mem_erase {k' : κ} {b' : β} :
    (k', b') ∈ (m.erase k).entries ↔ (k', b') ∈ m.entries ∧ k' ≠ k := by
  rw [erase, List.mem_filter, decide_eq_true_eq]

theorem mem_keys_modify {k' : κ} {f : β → β} :
    k' ∈ (m.modify k f).keys ↔ k' ∈ m.keys := by
  have hkeys : (m.modify k f).entries.map (·.1) = m.entries.map (·.1) := by
    rw [modify, List.map_map]
    refine List.map_congr_left fun e _ => ?_
    rw [Function.comp_apply]
    split <;> rfl
  rw [keys, hkeys]
  exact Iff.rfl

/-- Erasing one key after the other. -/
theorem entries_foldl_erase {ks : List κ} :
    (ks.foldl erase m).entries = m.entries.filter fun e => e.1 ∉ ks := by
  induction ks generalizing m with
  | nil => exact (List.filter_eq_self.mpr fun e _ => by simp).symm
  | cons k ks ih =>
      rw [List.foldl_cons, ih]
      show (m.entries.filter fun e => decide (e.1 ≠ k)).filter _ = _
      rw [List.filter_filter]
      refine List.filter_congr fun e _ => ?_
      simp only [List.mem_cons, not_or, Bool.decide_and, Bool.and_comm]

/-- The entry of a key, and those of the others around it. -/
theorem split_of_mem (h : (k, b) ∈ m.entries) :
    ∃ es es', m.entries = es ++ (k, b) :: es' ∧ ∀ e ∈ es ++ es', e.1 ≠ k := by
  obtain ⟨es, es', heq⟩ := List.append_of_mem h
  refine ⟨es, es', heq, fun e he hk => ?_⟩
  have hnodup := m.keys_nodup
  have hperm : (m.entries.map (·.1)).Perm (k :: (es ++ es').map (·.1)) := by
    rw [heq]
    exact List.perm_middle.map _
  rw [hperm.nodup_iff] at hnodup
  exact (List.nodup_cons.mp hnodup).1 (List.mem_map.mpr ⟨e, he, hk⟩)

theorem erase_entries {es es' : List (κ × β)}
    (heq : m.entries = es ++ (k, b) :: es') (hne : ∀ e ∈ es ++ es', e.1 ≠ k) :
    (m.erase k).entries = es ++ es' := by
  show m.entries.filter (fun e => decide (e.1 ≠ k)) = es ++ es'
  rw [heq, List.filter_append, List.filter_cons_of_neg (by simp),
    ← List.filter_append]
  exact List.filter_eq_self.mpr fun e he => decide_eq_true (hne e he)

/-- What is erased is one entry. -/
theorem perm_erase (h : (k, b) ∈ m.entries) :
    m.entries.Perm ((k, b) :: (m.erase k).entries) := by
  obtain ⟨es, es', heq, hne⟩ := split_of_mem h
  rw [erase_entries heq hne, heq]
  exact List.perm_middle

/-- What is changed is one entry. -/
theorem perm_modify (h : (k, b) ∈ m.entries) (f : β → β) :
    (m.modify k f).entries.Perm ((k, f b) :: (m.erase k).entries) := by
  obtain ⟨es, es', heq, hne⟩ := split_of_mem h
  have hsame : ∀ l : List (κ × β), (∀ e ∈ l, e.1 ≠ k) →
      l.map (fun e => if e.1 = k then (e.1, f e.2) else e) = l := by
    intro l hl
    refine (List.map_congr_left fun e he => ?_).trans (List.map_id l)
    exact if_neg (hl e he)
  have hmodify : (m.modify k f).entries = es ++ (k, f b) :: es' := by
    show m.entries.map (fun e => if e.1 = k then (e.1, f e.2) else e) = _
    rw [heq, List.map_append, List.map_cons, if_pos rfl,
      hsame es fun e he => hne e (List.mem_append_left _ he),
      hsame es' fun e he => hne e (List.mem_append_right _ he)]
  rw [erase_entries heq hne, hmodify]
  exact List.perm_middle

/-- A new key makes one entry more. -/
theorem perm_insertNew (h : k ∉ m.keys) :
    (m.insertNew k b).entries.Perm ((k, b) :: m.entries) := by
  have hne : ∀ e ∈ m.entries, e.1 ≠ k :=
    fun e he hk => h (mem_keys.mpr ⟨e, he, hk⟩)
  show (insertEntry k b m.entries).Perm _
  generalize m.entries = es at hne
  induction es with
  | nil => exact .refl _
  | cons e es ih =>
      rw [insertEntry]
      split
      · exact .refl _
      · rw [if_neg (Ne.symm (hne e List.mem_cons_self))]
        refine ((ih fun e' he' => hne e' ?_).cons e).trans (.swap _ _ _)
        exact List.mem_cons_of_mem e he'

-- ── Going through the keys ───────────────────────────────────────────────────

/-- Behind an entry comes the next one. -/
theorem after_getElem {j : Nat} (hj : j < m.entries.length) :
    m.after m.entries[j].1 = m.entries[j + 1]? := by
  have hsorted := List.pairwise_iff_getElem.mp m.ascending
  have hbefore : ∀ i (hi : i < m.entries.length), i ≤ j →
      ¬m.entries[j].1 < m.entries[i].1 := by
    intro i hi hij
    rcases Nat.lt_or_eq_of_le hij with hlt | rfl
    · exact lt_asymm (hsorted i j hi hj hlt)
    · exact lt_irrefl _
  rw [after]
  by_cases hnext : j + 1 < m.entries.length
  · rw [List.getElem?_eq_getElem hnext, List.find?_eq_some_iff_getElem]
    refine ⟨decide_eq_true (hsorted j (j + 1) hj hnext (Nat.lt_succ_self j)),
      j + 1, hnext, rfl, fun i hi => ?_⟩
    rw [Bool.not_eq_true', decide_eq_false_iff_not]
    exact hbefore i (by omega) (by omega)
  · rw [List.getElem?_eq_none (not_lt.mp hnext), List.find?_eq_none]
    intro e he hlt
    obtain ⟨i, hi, rfl⟩ := List.getElem_of_mem he
    exact hbefore i hi (by omega) (of_decide_eq_true hlt)

theorem ascending_keys : (m.entries.map (·.1)).Pairwise (· < ·) :=
  List.pairwise_map.mpr m.ascending

/-- A set of keys has one order. -/
theorem map_fst_eq_of_keys {m' : OrderedMap κ β} (h : m.keys = m'.keys) :
    m.entries.map (·.1) = m'.entries.map (·.1) :=
  (List.perm_of_nodup_nodup_toFinset_eq m.keys_nodup m'.keys_nodup h).eq_of_pairwise
    (fun _ _ _ _ hlt hgt => absurd hlt (lt_asymm hgt)) m.ascending_keys m'.ascending_keys

end OrderedMap

end OrderedMaps
