import Flinter.ObjectMapProofs
import Mathlib.Data.List.Rotate

/-! # ObjectMap: going round with GetNext

    `_ptr` stays between calls.  What makes or erases an element puts it back to
    the end, everything else leaves it, and `GetNext` goes on from it, from the
    end to the beginning.  So while the keys stay they are returned in turn, and
    `_ptr` is never on an element that has gone. -/

namespace FlinterObjectMap

open OrderedMaps Runs

variable {K : Type} [LinearOrder K] {s s' : ObjectMap K} {w w' : World K} {key : K}

-- ── The calls ────────────────────────────────────────────────────────────────

/-- A call, or `Clear`, which takes the references with it. -/
inductive Operation (K : Type) where
  | call (c : Call K)
  | clear
deriving DecidableEq, Repr

/-- One operation. -/
def perform (w : World K) : Operation K → Option (World K)
  | .call c => next w c
  | .clear => some ⟨clear w.objects, []⟩

/-- Operations of any number of threads, in any order. -/
def objectMaps : System (World K) (Operation K) where
  init := fun w => w = ⟨.empty, []⟩
  step := fun w o w' => perform w o = some w'

theorem Managed.clear {held : List (K × Object)} (h : Managed s held) :
    Managed (clear s) [] := by
  refine ⟨⟨fun e he => absurd he List.not_mem_nil, ?_, fun r hr => absurd hr List.not_mem_nil⟩,
    fun e he => absurd he List.not_mem_nil, fun k hk => absurd hk.symm (Option.some_ne_none k)⟩
  refine List.Perm.trans ?_ h.counted.objects
  show (s.destroyed ++ (s.drop.map (·.2.1) ++ s.map.entries.map (·.2.1))).Perm _
  rw [List.map_append]
  exact List.perm_append_comm.trans (List.perm_append_comm.append_right _)

theorem Managed.perform {o : Operation K} (h : Managed w.objects w.held)
    (hs : perform w o = some w') : Managed w'.objects w'.held := by
  cases o with
  | call c => exact h.call hs
  | clear =>
      obtain rfl := Option.some.inj hs
      exact h.clear

theorem managed_of_reachable (h : Reachable objectMaps w) : Managed w.objects w.held := by
  refine h.invariant (I := fun w => Managed w.objects w.held) ?_ ?_
  · rintro _ rfl
    exact managed_empty
  · intro _ _ _ _ hm hs
    exact hm.perform hs

-- ── Where `_ptr` stands ──────────────────────────────────────────────────────

/-- `GetNext` goes on at this place: behind the element of `_ptr`, or from the
    beginning. -/
def At (s : ObjectMap K) (i : Nat) : Prop :=
  s.ptr = none ∧ i = 0 ∨
    ∃ j, ∃ hj : j < s.map.entries.length, s.ptr = some s.map.entries[j].1 ∧ i = j + 1

/-- There is always such a place. -/
theorem exists_at (h : ∀ key, s.ptr = some key → key ∈ s.map.keys) : ∃ i, At s i := by
  cases hptr : s.ptr with
  | none => exact ⟨0, .inl ⟨hptr, rfl⟩⟩
  | some key =>
      obtain ⟨e, he, rfl⟩ := OrderedMap.mem_keys.mp (h key hptr)
      obtain ⟨j, hj, rfl⟩ := List.getElem_of_mem he
      exact ⟨j + 1, .inr ⟨j, hj, hptr, rfl⟩⟩

/-- **ONE FURTHER**: from the last place to the first. -/
theorem advance_at {i : Nat} (h : At s i) :
    advance s = s.map.entries[i % s.map.entries.length]? := by
  rw [advance]
  rcases h with ⟨hptr, rfl⟩ | ⟨j, hj, hptr, rfl⟩
  · rw [hptr, Option.bind_none, Nat.zero_mod]
    exact List.head?_eq_getElem?
  · rw [hptr, Option.bind_some, OrderedMap.after_getElem hj]
    rcases Nat.lt_or_ge (j + 1) s.map.entries.length with hlt | hge
    · rw [Nat.mod_eq_of_lt hlt, List.getElem?_eq_getElem hlt]
    · rw [List.getElem?_eq_none hge, show j + 1 = s.map.entries.length by omega, Nat.mod_self]
      exact List.head?_eq_getElem?

theorem length_of_keys (hkeys : s'.map.entries.map (·.1) = s.map.entries.map (·.1)) :
    s'.map.entries.length = s.map.entries.length := by
  rw [← List.length_map (f := fun e : K × V => e.1), hkeys, List.length_map]

theorem ne_nil_of_keys (hkeys : s'.map.entries.map (·.1) = s.map.entries.map (·.1))
    (hne : s.map.entries ≠ []) : s'.map.entries ≠ [] := by
  intro hnil
  rw [hnil] at hkeys
  exact hne (List.map_eq_nil_iff.mp hkeys.symm)

/-- Where `_ptr` stands is told by the keys alone. -/
theorem at_of_keys {i : Nat} (h : At s i) (hptr : s'.ptr = s.ptr)
    (hkeys : s'.map.entries.map (·.1) = s.map.entries.map (·.1)) : At s' i := by
  rcases h with ⟨hnone, rfl⟩ | ⟨j, hj, hsome, rfl⟩
  · exact .inl ⟨hptr.trans hnone, rfl⟩
  · have hj' : j < s'.map.entries.length := length_of_keys hkeys ▸ hj
    have hkey : s'.map.entries[j].1 = s.map.entries[j].1 := by
      have hlist := List.getElem_of_eq hkeys (i := j) (by rw [List.length_map]; exact hj')
      rwa [List.getElem_map, List.getElem_map] at hlist
    exact .inr ⟨j, hj', by rw [hptr, hsome, hkey], rfl⟩

theorem map_fst_modify (s : ObjectMap K) (key : K) (f : V → V) :
    (s.map.modify key f).entries.map (·.1) = s.map.entries.map (·.1) := by
  refine OrderedMap.map_fst_eq_of_keys (Finset.ext fun k => ?_)
  exact OrderedMap.mem_keys_modify

/-- `GetNext` returns the key of its place, and stands on it then. -/
theorem getNext_at {i : Nat} (h : At s i) (hne : s.map.entries ≠ []) :
    ((getNext s).1.map (·.1)) = (s.map.entries.map (·.1))[i % s.map.entries.length]? ∧
      At (getNext s).2 (i % s.map.entries.length + 1) ∧
      (getNext s).2.map.entries.map (·.1) = s.map.entries.map (·.1) := by
  have hlt : i % s.map.entries.length < s.map.entries.length :=
    Nat.mod_lt _ (List.length_pos_of_ne_nil hne)
  rw [getNext, advance_at h, List.getElem?_eq_getElem hlt]
  dsimp only
  have hkeys := map_fst_modify s s.map.entries[i % s.map.entries.length].1
    fun v => (v.1, v.2 + 1)
  refine ⟨?_, ?_, hkeys⟩
  · rw [List.getElem?_map, List.getElem?_eq_getElem hlt]
    rfl
  · refine at_of_keys (s := { s with ptr := some s.map.entries[i % s.map.entries.length].1 })
      ?_ rfl hkeys
    exact .inr ⟨_, hlt, rfl, rfl⟩

-- ── What leaves `_ptr` where it is ───────────────────────────────────────────

/-- An operation that leaves the keys as they are, other than `GetNext`. -/
def Quiet (w : World K) (o : Operation K) (w' : World K) : Prop :=
  o ≠ .call .getNext ∧ perform w o = some w' ∧ w'.objects.map.keys = w.objects.map.keys

theorem doErase_of_keys (h : (doErase s key).map.keys = s.map.keys) : doErase s key = s := by
  by_contra hne
  have hin : key ∈ s.map.keys := by
    by_contra hout
    exact hne (by rw [doErase, OrderedMap.find_eq_none.mpr hout])
  rw [← h] at hin
  obtain ⟨e, he, rfl⟩ := OrderedMap.mem_keys.mp hin
  exact (mem_doErase.mp he).2 rfl

/-- `SetAll` of keys that are there, and all of them, does nothing. -/
theorem setAll_of_keys {keys : List (K × Bool)}
    (h : (setAll s keys).map.keys = s.map.keys) : setAll s keys = s := by
  have hadded : ∀ ks : List (K × Bool), (∀ k ∈ ks, k.2 = true → k.1 ∈ s.map.keys) →
      ks.foldl addKey s = s := by
    intro ks hks
    induction ks with
    | nil => rfl
    | cons k ks ih =>
        rw [List.foldl_cons]
        rcases addKey_cases s k with ⟨heq, -⟩ | ⟨hnone, hcreate, -⟩
        · rw [heq]
          exact ih fun k' hk' => hks k' (List.mem_cons_of_mem k hk')
        · exact absurd (hks k List.mem_cons_self hcreate) (OrderedMap.find_eq_none.mp hnone)
  have hsame : keys.foldl addKey s = s := by
    refine hadded keys fun k hk hcreate => ?_
    obtain ⟨k, create⟩ := k
    obtain rfl : create = true := hcreate
    obtain ⟨e, he, rfl⟩ := OrderedMap.mem_keys.mp (mem_addKeys.mpr (.inr hk))
    rw [← h]
    exact OrderedMap.mem_keys.mpr
      ⟨e, mem_setAll.mpr ⟨he, List.mem_map.mpr ⟨_, hk, rfl⟩⟩, rfl⟩
  have hgone : ((s.map.entries.map (·.1)).filter fun k => k ∉ keys.map (·.1)) = [] := by
    refine List.filter_eq_nil_iff.mpr fun k hk => ?_
    rw [decide_eq_true_eq, not_not]
    have hin : k ∈ (setAll s keys).map.keys := h ▸ List.mem_toFinset.mpr hk
    obtain ⟨e, he, rfl⟩ := OrderedMap.mem_keys.mp hin
    exact (mem_setAll.mp he).2
  show List.foldl doErase (keys.foldl addKey s)
    (((keys.foldl addKey s).map.entries.map (·.1)).filter fun k => k ∉ keys.map (·.1)) = s
  rw [hsame, hgone]
  rfl

/-- **WHILE THE KEYS STAY `_ptr` STAYS.** -/
theorem Quiet.ptr {o : Operation K} (h : Quiet w o w') (hm : Managed w.objects w.held) :
    w'.objects.ptr = w.objects.ptr := by
  obtain ⟨hnext, hs, hkeys⟩ := h
  have hempty : w'.objects.map.keys = ∅ → w'.objects.ptr = none →
      w'.objects.ptr = w.objects.ptr := by
    intro hnone hptr
    rw [hptr]
    cases hold : w.objects.ptr with
    | none => rfl
    | some key =>
        have hin := hm.ptr key hold
        rw [← hkeys, hnone] at hin
        exact absurd hin (Finset.notMem_empty key)
  cases o with
  | clear =>
      obtain rfl := Option.some.inj hs
      exact hempty rfl rfl
  | call c =>
      cases c with
      | add key create =>
          obtain rfl := Option.some.inj hs
          show (doAdd w.objects key 1 create).2.ptr = _
          have hkeys : (doAdd w.objects key 1 create).2.map.keys = w.objects.map.keys := hkeys
          rw [doAdd] at hkeys ⊢
          cases hf : w.objects.map.find key with
          | some v => rfl
          | none =>
              cases create with
              | false => rfl
              | true =>
                  rw [hf] at hkeys
                  have hin : key ∈ w.objects.map.keys :=
                    hkeys ▸ OrderedMap.mem_keys_insertNew.mpr (.inl rfl)
                  exact absurd hin (OrderedMap.find_eq_none.mp hf)
      | get key =>
          obtain rfl := Option.some.inj hs
          show (get w.objects key).2.ptr = _
          rw [get]
          cases w.objects.map.find key <;> rfl
      | getNext => exact absurd rfl hnext
      | release key object =>
          obtain ⟨-, hs⟩ := Option.ite_none_right_eq_some.mp hs
          obtain rfl := Option.some.inj hs
          show (release w.objects key object).ptr = _
          rw [release]
          split <;> rfl
      | erase key =>
          obtain rfl := Option.some.inj hs
          exact congrArg ObjectMap.ptr (doErase_of_keys hkeys)
      | eraseAll =>
          obtain rfl := Option.some.inj hs
          exact hempty rfl rfl
      | setAll keys =>
          obtain rfl := Option.some.inj hs
          exact congrArg ObjectMap.ptr (setAll_of_keys hkeys)

-- ── Round and round ──────────────────────────────────────────────────────────

/-- Calls of `GetNext` and what they return, with operations that leave the keys
    as they are in between. -/
inductive Walk : World K → List (Option (K × Object)) → World K → Prop where
  | done (w : World K) : Walk w [] w
  | getNext {w w' w'' : World K} {rs : List (Option (K × Object))} :
      perform w (.call .getNext) = some w' → Walk w' rs w'' →
      Walk w ((getNext w.objects).1 :: rs) w''
  | quiet {w w' w'' : World K} {o : Operation K} {rs : List (Option (K × Object))} :
      Quiet w o w' → Walk w' rs w'' → Walk w rs w''

/-- What is returned are the keys from the place on, over and over. -/
theorem walk_at {rs : List (Option (K × Object))} {i : Nat} (h : Walk w rs w')
    (hm : Managed w.objects w.held) (hi : At w.objects i) (hne : w.objects.map.entries ≠ []) :
    rs.map (Option.map (·.1)) = (List.range rs.length).map fun j =>
      (w.objects.map.entries.map (·.1))[(i + j) % w.objects.map.entries.length]? := by
  induction h generalizing i with
  | done w => rfl
  | @getNext w w' w'' rs hs hwalk ih =>
      have hm' := hm.perform hs
      obtain ⟨hkey, hi', hkeys⟩ := getNext_at hi hne
      obtain rfl := Option.some.inj hs
      have hlen := length_of_keys hkeys
      rw [List.map_cons, List.length_cons, List.range_succ_eq_map, List.map_cons, List.map_map,
        ih hm' hi' (ne_nil_of_keys hkeys hne), hkey, Nat.add_zero]
      refine congrArg _ (List.map_congr_left fun j _ => ?_)
      show ((FlinterObjectMap.getNext w.objects).2.map.entries.map (·.1))[_]? = _
      rw [Function.comp_apply, hkeys, hlen, Nat.add_assoc, Nat.mod_add_mod, Nat.add_comm 1 j]
  | @quiet w w' w'' o rs hquiet hwalk ih =>
      have hkeys := OrderedMap.map_fst_eq_of_keys hquiet.2.2
      rw [ih (hm.perform hquiet.2.1) (at_of_keys hi (hquiet.ptr hm) hkeys)
        (ne_nil_of_keys hkeys hne), hkeys, length_of_keys hkeys]

omit [LinearOrder K] in
/-- A list that is gone round from any place. -/
theorem round_eq_rotate (l : List K) (i : Nat) :
    ((List.range l.length).map fun j => l[(i + j) % l.length]?) = (l.rotate i).map some := by
  refine List.ext_getElem (by simp) fun j hj _ => ?_
  have hlt : j < l.length := by simpa using hj
  rw [List.getElem_map, List.getElem_map, List.getElem_range, List.getElem_rotate, Nat.add_comm i j,
    List.getElem?_eq_getElem (Nat.mod_lt _ (by omega))]

/-- **FAIRNESS**: as many calls as there are keys return each of them once. -/
theorem walk_perm {rs : List (Option (K × Object))} (h : Walk w rs w')
    (hm : Managed w.objects w.held) (hlen : rs.length = w.objects.map.entries.length) :
    (rs.map (Option.map (·.1))).Perm (w.objects.map.entries.map fun e => some e.1) := by
  by_cases hne : w.objects.map.entries = []
  · rw [hne] at hlen ⊢
    rw [List.length_eq_zero_iff.mp hlen]
    exact .refl _
  · obtain ⟨i, hi⟩ := exists_at hm.ptr
    have hround := round_eq_rotate (w.objects.map.entries.map (·.1)) i
    rw [List.length_map] at hround
    rw [walk_at h hm hi hne, hlen, hround]
    refine ((List.rotate_perm _ i).map some).trans (.of_eq ?_)
    rw [List.map_map]
    rfl

-- ── The element of `_ptr` ────────────────────────────────────────────────────

/-- Unless `_ptr` is put back it stays on its element, which stays too. -/
def Keeps (s s' : ObjectMap K) : Prop :=
  ∀ key, s'.ptr = some key → s.ptr = some key ∧
    ∀ object n, (key, object, n) ∈ s.map.entries → ∃ n', (key, object, n') ∈ s'.map.entries

theorem Keeps.refl (s : ObjectMap K) : Keeps s s :=
  fun _ hptr => ⟨hptr, fun _ n hin => ⟨n, hin⟩⟩

theorem Keeps.trans {s'' : ObjectMap K} (h : Keeps s s') (h' : Keeps s' s'') : Keeps s s'' := by
  intro key hptr
  obtain ⟨hptr', hstays'⟩ := h' key hptr
  obtain ⟨hptr, hstays⟩ := h key hptr'
  refine ⟨hptr, fun object n hin => ?_⟩
  obtain ⟨n', hin'⟩ := hstays object n hin
  exact hstays' object n' hin'

theorem keeps_of_rewound (h : s'.ptr = none) : Keeps s s' :=
  fun key hptr => absurd (h.symm.trans hptr).symm (Option.some_ne_none key)

/-- An element whose count changes is the same element. -/
theorem mem_modify (key : K) {f : V → V} (hf : ∀ v, (f v).1 = v.1) {k : K} {object n : Nat}
    (h : (k, object, n) ∈ s.map.entries) :
    ∃ n', (k, object, n') ∈ (s.map.modify key f).entries := by
  have hin := List.mem_map_of_mem (f := fun e : K × V => if e.1 = key then (e.1, f e.2) else e) h
  dsimp only at hin
  split at hin
  · refine ⟨(f (object, n)).2, ?_⟩
    have heq : f (object, n) = (object, (f (object, n)).2) := Prod.ext (hf _) rfl
    rw [heq] at hin
    exact hin
  · exact ⟨n, hin⟩

theorem keeps_modify {f : V → V} (hf : ∀ v, (f v).1 = v.1) :
    Keeps s { s with map := s.map.modify key f } :=
  fun _ hptr => ⟨hptr, fun _ _ hin => mem_modify _ hf hin⟩

theorem keeps_doAdd {init : Nat} {create : Bool} : Keeps s (doAdd s key init create).2 := by
  rw [doAdd]
  cases s.map.find key with
  | some v => exact keeps_modify fun _ => rfl
  | none =>
      cases create with
      | false => exact .refl s
      | true => exact keeps_of_rewound rfl

theorem keeps_doErase : Keeps s (doErase s key) := by
  rw [doErase]
  cases s.map.find key with
  | none => exact .refl s
  | some v =>
      dsimp only
      split
      · exact keeps_of_rewound rfl
      · exact keeps_of_rewound rfl

theorem keeps_release {object : Object} : Keeps s (release s key object) := by
  rw [release]
  split
  · exact keeps_modify fun _ => rfl
  · exact fun _ hptr => ⟨hptr, fun _ n hin => ⟨n, hin⟩⟩

theorem keeps_setAll {keys : List (K × Bool)} : Keeps s (setAll s keys) := by
  have hadd : ∀ (ks : List (K × Bool)) (s : ObjectMap K), Keeps s (ks.foldl addKey s) := by
    intro ks
    induction ks with
    | nil => exact Keeps.refl
    | cons k ks ih =>
        intro s
        have hone : Keeps s (addKey s k) := by
          rcases addKey_cases s k with ⟨heq, -⟩ | ⟨-, -, heq⟩
          · rw [heq]
            exact .refl s
          · rw [heq]
            exact keeps_of_rewound rfl
        exact hone.trans (ih _)
  have herase : ∀ (ks : List K) (s : ObjectMap K), Keeps s (ks.foldl doErase s) := by
    intro ks
    induction ks with
    | nil => exact Keeps.refl
    | cons k ks ih => exact fun s => keeps_doErase.trans (ih _)
  exact (hadd keys s).trans (herase _ _)

/-- Every operation but `GetNext` keeps the element of `_ptr` or gives it up. -/
theorem keeps_perform {o : Operation K} (hs : perform w o = some w')
    (hnext : o ≠ .call .getNext) : Keeps w.objects w'.objects := by
  cases o with
  | clear =>
      obtain rfl := Option.some.inj hs
      exact keeps_of_rewound rfl
  | call c =>
      cases c with
      | add key create =>
          obtain rfl := Option.some.inj hs
          exact keeps_doAdd
      | get key =>
          obtain rfl := Option.some.inj hs
          show Keeps _ (get w.objects key).2
          rw [get]
          cases w.objects.map.find key with
          | none => exact .refl _
          | some v => exact keeps_modify fun _ => rfl
      | getNext => exact absurd rfl hnext
      | release key object =>
          obtain ⟨-, hs⟩ := Option.ite_none_right_eq_some.mp hs
          obtain rfl := Option.some.inj hs
          exact keeps_release
      | erase key =>
          obtain rfl := Option.some.inj hs
          exact keeps_doErase
      | eraseAll =>
          obtain rfl := Option.some.inj hs
          exact keeps_of_rewound rfl
      | setAll keys =>
          obtain rfl := Option.some.inj hs
          exact keeps_setAll

/-- The element that `GetNext` has moved `_ptr` to, on record. -/
def moved (w : World K) (o : Operation K) (was : Option (K × Object)) : Option (K × Object) :=
  if o = .call .getNext then (getNext w.objects).1.or was else was

/-- `_ptr` is at the end, or on the element it was moved to, which is there. -/
def Standing (p : World K × Option (K × Object)) : Prop :=
  ∀ key, p.1.objects.ptr = some key →
    ∃ object n, p.2 = some (key, object) ∧ (key, object, n) ∈ p.1.objects.map.entries

theorem standing_step {o : Operation K} {x : Option (K × Object)} (h : Standing (w, x))
    (hs : perform w o = some w') : Standing (w', moved w o x) := by
  intro key hptr
  by_cases hnext : o = .call .getNext
  · obtain rfl := hnext
    obtain rfl := Option.some.inj hs
    have hptr : (getNext w.objects).2.ptr = some key := hptr
    show ∃ object n, moved w (.call .getNext) x = some (key, object) ∧
      (key, object, n) ∈ (getNext w.objects).2.map.entries
    rw [moved, if_pos rfl]
    cases hr : (getNext w.objects).1 with
    | none =>
        rw [getNext_none hr] at hptr ⊢
        exact h key hptr
    | some r =>
        rw [getNext] at hr hptr ⊢
        cases ha : advance w.objects with
        | none =>
            rw [ha] at hr
            exact absurd hr.symm (Option.some_ne_none r)
        | some e =>
            rw [ha] at hr hptr
            obtain rfl := Option.some.inj hr
            obtain rfl := Option.some.inj hptr
            obtain ⟨n', hin⟩ := mem_modify e.1
              (f := fun v => (v.1, v.2 + 1)) (fun _ => rfl) (mem_of_advance ha)
            exact ⟨e.2.1, n', rfl, hin⟩
  · rw [moved, if_neg hnext]
    obtain ⟨hptr, hstays⟩ := keeps_perform hs hnext key hptr
    obtain ⟨object, n, hx, hin⟩ := h key hptr
    obtain ⟨n', hin'⟩ := hstays object n hin
    exact ⟨object, n', hx, hin'⟩

/-- **`GetNext` IS FAIR**: after any operations, while the keys stay, as many
    calls as there are keys return each of them once; and whenever `_ptr` is not
    at the end it is on an element that is there. -/
theorem getNext_fair :
    (∀ (w w' : World K) rs, Reachable objectMaps w → Walk w rs w' →
      rs.length = w.objects.map.entries.length →
      (rs.map (Option.map (·.1))).Perm (w.objects.map.entries.map fun e => some e.1)) ∧
    ∀ p, Reachable (objectMaps.record (none : Option (K × Object)) moved) p → Standing p := by
  refine ⟨fun w w' rs hr hwalk hlen => walk_perm hwalk (managed_of_reachable hr) hlen, ?_⟩
  intro p hp
  refine hp.invariant ?_ ?_
  · rintro ⟨w, x⟩ ⟨rfl, rfl⟩ key hptr
    exact absurd hptr.symm (Option.some_ne_none key)
  · rintro ⟨w, x⟩ o ⟨w', x'⟩ - hstanding ⟨hs, rfl⟩
    exact standing_step hstanding hs

/-- Two keys, the first of which `GetNext` has returned. -/
def pair : World Nat :=
  ⟨⟨⟨[(3, (0, 1)), (7, (1, 0))], by decide⟩, [], some 3, 2, []⟩, [(3, 0)]⟩

/-- The next two calls, with a `Get` between them, return the other one and then
    the first. -/
theorem getNext_fair_pair :
    ([some (7, 1), some (3, 0)].map (Option.map Prod.fst)).Perm
      (pair.objects.map.entries.map fun e => some e.1) := by
  have h₁ := Reachable.next (M := objectMaps) (.start rfl)
    (show perform (⟨.empty, []⟩ : World Nat) (.call (.setAll [(3, true), (7, true)])) =
      some _ from rfl)
  have h₂ : Reachable objectMaps pair :=
    h₁.next (show perform _ (.call .getNext) = some pair from rfl)
  exact getNext_fair.1 pair _ _ h₂
    (.getNext rfl (.quiet (o := .call (.get 7)) ⟨by decide, rfl, by decide⟩
      (.getNext rfl (.done _)))) rfl

end FlinterObjectMap
