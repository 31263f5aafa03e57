import Flinter.OrderedMapProofs
import Flinter.RunProofs
import Mathlib.Data.List.Perm.Lattice
import Mathlib.Data.List.Range

/-! # ObjectMap: reference counted objects

    `_map` holds an object for each key and `_drop` those that were erased while
    somebody had a reference.  Every method holds `_mutex` from its first line to
    its last, so the calls of any number of threads are one sequence of calls.

    `World` adds the references that are outstanding.  The count that is kept
    with an object is proved to be their number, and an object to be destroyed
    when it has left the map and the last of them is gone. -/

namespace FlinterObjectMap

open OrderedMaps Runs

variable {K : Type} [LinearOrder K]

/-- `T *`. -/
abbrev Object := Nat

/-- `ObjectMap::V`: an object and its reference count. -/
abbrev V := Object × Nat

/-- `ObjectMap`.  `ptr` is `_ptr`, `none` its end; `created` and `destroyed` are
    what `Create` and `Destroy` did: the objects are numbered by the former. -/
structure ObjectMap (K : Type) [LinearOrder K] where
  map : OrderedMap K V
  drop : List (K × V)
  ptr : Option K
  created : Nat
  destroyed : List Object

-- ── The methods ──────────────────────────────────────────────────────────────

/-- `ObjectMap::DoAdd`; `create` is whether `Create` would make an object. -/
def doAdd (s : ObjectMap K) (key : K) (init : Nat) (create : Bool) :
    Option Object × ObjectMap K :=
  match s.map.find key with
  | some v =>
    (some v.1, { s with map := s.map.modify key fun v => (v.1, v.2 + 1) })
  | none =>
    if create then
      (some s.created, { s with
        map := s.map.insertNew key (s.created, init)
        ptr := none
        created := s.created + 1 })
    else (none, s)

/-- `ObjectMap::Add`. -/
def add (s : ObjectMap K) (key : K) (create : Bool) :
    Option Object × ObjectMap K :=
  doAdd s key 1 create

/-- `ObjectMap::DoErase`, and `ObjectMap::Erase`. -/
def doErase (s : ObjectMap K) (key : K) : ObjectMap K :=
  match s.map.find key with
  | none => s
  | some v =>
    if v.2 = 0 then
      { s with
        map := s.map.erase key
        ptr := none
        destroyed := s.destroyed ++ [v.1] }
    else
      { s with
        map := s.map.erase key
        ptr := none
        drop := s.drop ++ [(key, v)] }

/-- `ObjectMap::EraseAll` up to the wait. -/
def eraseAll (s : ObjectMap K) : ObjectMap K :=
  { s with
    map := .empty
    ptr := none
    drop := s.drop ++ s.map.entries.filter fun e => e.2.2 ≠ 0
    destroyed := s.destroyed ++
      (s.map.entries.filter fun e => e.2.2 = 0).map (·.2.1) }

/-- `ObjectMap::Clear`: everything goes, also what is in use. -/
def clear (s : ObjectMap K) : ObjectMap K :=
  { s with
    map := .empty
    drop := []
    ptr := none
    destroyed := s.destroyed ++ (s.drop.map (·.2.1) ++
      s.map.entries.map (·.2.1)) }

/-- The loop of `Release` over `_drop`: what is left of it, and what it
    destroys. -/
def releaseDropped (key : K) (object : Object) :
    List (K × V) → List (K × V) × List Object
  | [] => ([], [])
  | e :: es =>
    if e.1 = key ∧ e.2.1 = object then
      if e.2.2 - 1 = 0 then (es, [object])
      else ((key, (object, e.2.2 - 1)) :: es, [])
    else
      let r := releaseDropped key object es
      (e :: r.1, r.2)

/-- `ObjectMap::Release`. -/
def release (s : ObjectMap K) (key : K) (object : Object) : ObjectMap K :=
  if (s.map.find key).map (·.1) = some object then
    { s with map := s.map.modify key fun v => (v.1, v.2 - 1) }
  else
    let r := releaseDropped key object s.drop
    { s with drop := r.1, destroyed := s.destroyed ++ r.2 }

/-- `ObjectMap::Get`. -/
def get (s : ObjectMap K) (key : K) : Option Object × ObjectMap K :=
  match s.map.find key with
  | none => (none, s)
  | some v =>
    (some v.1, { s with map := s.map.modify key fun v => (v.1, v.2 + 1) })

/-- Where `GetNext` moves `_ptr`: one further, and from the end to the
    beginning. -/
def advance (s : ObjectMap K) : Option (K × V) :=
  match s.ptr.bind s.map.after with
  | some e => some e
  | none => s.map.entries.head?

/-- `ObjectMap::GetNext`. -/
def getNext (s : ObjectMap K) : Option (K × Object) × ObjectMap K :=
  match advance s with
  | none => (none, s)
  | some e =>
    (some (e.1, e.2.1), { s with
      map := s.map.modify e.1 fun v => (v.1, v.2 + 1)
      ptr := some e.1 })

/-- The first loop of `SetAll`: a key, and what `Create` would answer there. -/
def addKey (s : ObjectMap K) (k : K × Bool) : ObjectMap K :=
  match s.map.find k.1 with
  | none => (doAdd s k.1 0 k.2).2
  | some _ => s

/-- `ObjectMap::SetAll`. -/
def setAll (s : ObjectMap K) (keys : List (K × Bool)) : ObjectMap K :=
  let s := keys.foldl addKey s
  let gone := (s.map.entries.map (·.1)).filter fun k => k ∉ keys.map (·.1)
  gone.foldl doErase s

-- ── The system ───────────────────────────────────────────────────────────────

/-- The map, and the references that it has handed out and not got back. -/
structure World (K : Type) [LinearOrder K] where
  objects : ObjectMap K
  held : List (K × Object)

inductive Call (K : Type) where
  | add (key : K) (create : Bool)
  | get (key : K)
  | getNext
  | release (key : K) (object : Object)
  | erase (key : K)
  | eraseAll
  | setAll (keys : List (K × Bool))
deriving DecidableEq, Repr

/-- A reference that was handed out is outstanding. -/
def World.hold (w : World K) (key : K)
    (p : Option Object × ObjectMap K) : World K :=
  ⟨p.2, (p.1.map fun object => (key, object)).toList ++ w.held⟩

/-- Whether a reference is outstanding. -/
instance decidableHeld (ref : K × Object) (held : List (K × Object)) :
    Decidable (ref ∈ held) := List.instDecidableMemOfLawfulBEq ref held

/-- One call; a `Release` gives an outstanding reference back. -/
def next (w : World K) : Call K → Option (World K)
  | .add key create => some (w.hold key (add w.objects key create))
  | .get key => some (w.hold key (get w.objects key))
  | .getNext =>
    let p := getNext w.objects
    some ⟨p.2, p.1.toList ++ w.held⟩
  | .release key object =>
    if (key, object) ∈ w.held then
      some ⟨release w.objects key object, w.held.erase (key, object)⟩
    else none
  | .erase key => some { w with objects := doErase w.objects key }
  | .eraseAll => some { w with objects := eraseAll w.objects }
  | .setAll keys => some { w with objects := setAll w.objects keys }

def ObjectMap.empty : ObjectMap K := ⟨.empty, [], none, 0, []⟩

/-- Calls of any number of threads, in any order. -/
def objectMap : System (World K) (Call K) where
  init := fun w => w = ⟨.empty, []⟩
  step := fun w c w' => next w c = some w'

-- ── The accounts ─────────────────────────────────────────────────────────────

variable {s s' : ObjectMap K} {w w' : World K} {key : K} {object n created : Nat}
variable {es es' : List (K × V)} {held : List (K × Object)}
variable {destroyed : List Object}

/-- Objects `es`, references `held` and objects that were destroyed: every count
    is the number of references, every object made is in one place, and every
    reference is to an object that is there. -/
structure Counted (es : List (K × V)) (held : List (K × Object))
    (destroyed : List Object) (created : Nat) : Prop where
  count : ∀ e ∈ es, e.2.2 = held.count (e.1, e.2.1)
  objects : (es.map (·.2.1) ++ destroyed).Perm (List.range created)
  held : ∀ r ∈ held, ∃ n, (r.1, r.2, n) ∈ es

theorem Counted.perm (h : Counted es held destroyed created)
    (hp : es.Perm es') : Counted es' held destroyed created where
  count := fun e he => h.count e (hp.mem_iff.mpr he)
  objects := ((hp.map _).symm.append_right _).trans h.objects
  held := fun r hr => (h.held r hr).imp fun _ hn => hp.mem_iff.mp hn

/-- The order of the references does not matter. -/
theorem Counted.permHeld {held' : List (K × Object)}
    (h : Counted es held destroyed created) (hp : held.Perm held') :
    Counted es held' destroyed created where
  count := fun e he => (h.count e he).trans (hp.count_eq _)
  objects := h.objects
  held := fun r hr => h.held r (hp.mem_iff.mpr hr)

/-- No two entries have one object. -/
theorem Counted.ne (h : Counted ((key, object, n) :: es) held destroyed created)
    {e : K × V} (he : e ∈ es) : (e.1, e.2.1) ≠ (key, object) := by
  intro heq
  have hnodup := h.objects.nodup_iff.mpr List.nodup_range
  rw [List.map_cons, List.cons_append] at hnodup
  refine (List.nodup_cons.mp hnodup).1 (List.mem_append_left _ ?_)
  exact List.mem_map.mpr ⟨e, he, (Prod.mk.inj heq).2⟩

/-- A reference to an object that is there. -/
theorem Counted.hold
    (h : Counted ((key, object, n) :: es) held destroyed created) :
    Counted ((key, object, n + 1) :: es) ((key, object) :: held) destroyed
      created := by
  refine ⟨fun e he => ?_, h.objects, fun r hr => ?_⟩
  · rcases List.mem_cons.mp he with rfl | he
    · rw [List.count_cons_self]
      exact congrArg (· + 1) (h.count _ List.mem_cons_self)
    · rw [List.count_cons_of_ne (h.ne he).symm]
      exact h.count e (List.mem_cons_of_mem _ he)
  · rcases List.mem_cons.mp hr with rfl | hr
    · exact ⟨n + 1, List.mem_cons_self⟩
    · obtain ⟨n', hn⟩ := h.held r hr
      rcases List.mem_cons.mp hn with heq | hn
      · obtain ⟨rfl, hv⟩ := Prod.mk.inj heq
        obtain ⟨rfl, -⟩ := Prod.mk.inj hv
        exact ⟨n + 1, List.mem_cons_self⟩
      · exact ⟨n', List.mem_cons_of_mem _ hn⟩

/-- A reference that is given back. -/
theorem Counted.release
    (h : Counted ((key, object, n) :: es) held destroyed created) :
    Counted ((key, object, n - 1) :: es) (held.erase (key, object)) destroyed
      created := by
  refine ⟨fun e he => ?_, h.objects, fun r hr => ?_⟩
  · rcases List.mem_cons.mp he with rfl | he
    · rw [List.count_erase_self]
      exact congrArg (· - 1) (h.count _ List.mem_cons_self)
    · rw [List.count_erase_of_ne (h.ne he)]
      exact h.count e (List.mem_cons_of_mem _ he)
  · obtain ⟨n', hn⟩ := h.held r (List.mem_of_mem_erase hr)
    rcases List.mem_cons.mp hn with heq | hn
    · obtain ⟨rfl, hv⟩ := Prod.mk.inj heq
      obtain ⟨rfl, -⟩ := Prod.mk.inj hv
      exact ⟨n - 1, List.mem_cons_self⟩
    · exact ⟨n', List.mem_cons_of_mem _ hn⟩

/-- An object referred to has been made. -/
theorem Counted.lt (h : Counted es held destroyed created) {r : K × Object}
    (hr : r ∈ held) : r.2 < created := by
  obtain ⟨n, hn⟩ := h.held r hr
  refine List.mem_range.mp (h.objects.mem_iff.mp (List.mem_append_left _ ?_))
  exact List.mem_map.mpr ⟨_, hn, rfl⟩

/-- A new object, with as many references as it is made with. -/
theorem Counted.create (h : Counted es held destroyed created) (init : Nat) :
    Counted ((key, created, init) :: es)
      (List.replicate init (key, created) ++ held) destroyed (created + 1) := by
  induction init with
  | succ init ih => exact ih.hold
  | zero =>
      refine ⟨fun e he => ?_, ?_, fun r hr => ?_⟩
      · rcases List.mem_cons.mp he with rfl | he
        · refine (List.count_eq_zero.mpr fun hin => ?_).symm
          exact lt_irrefl _ (h.lt hin)
        · exact h.count e he
      · rw [List.range_succ, List.map_cons, List.cons_append]
        exact (h.objects.cons created).trans (List.perm_append_singleton _ _).symm
      · exact (h.held r hr).imp fun _ hn => List.mem_cons_of_mem _ hn

/-- An object without references goes. -/
theorem Counted.destroy
    (h : Counted ((key, object, 0) :: es) held destroyed created) :
    Counted es held (destroyed ++ [object]) created := by
  refine ⟨fun e he => h.count e (List.mem_cons_of_mem _ he), ?_, fun r hr => ?_⟩
  · refine List.Perm.trans ?_ h.objects
    rw [List.map_cons, List.cons_append, ← List.append_assoc]
    exact List.perm_append_singleton _ _
  · obtain ⟨n, hn⟩ := h.held r hr
    rcases List.mem_cons.mp hn with heq | hn
    · obtain ⟨rfl, hv⟩ := Prod.mk.inj heq
      obtain ⟨rfl, -⟩ := Prod.mk.inj hv
      have hzero := h.count _ List.mem_cons_self
      exact absurd hr (List.count_eq_zero.mp hzero.symm)
    · exact ⟨n, hn⟩

theorem Counted.destroyAll {zs : List (K × V)}
    (h : Counted (zs ++ es) held destroyed created)
    (hz : ∀ e ∈ zs, e.2.2 = 0) :
    Counted es held (destroyed ++ zs.map (·.2.1)) created := by
  induction zs generalizing destroyed with
  | nil => rw [List.map_nil, List.append_nil]; exact h
  | cons z zs ih =>
      obtain ⟨key, object, n⟩ := z
      obtain rfl : n = 0 := hz _ List.mem_cons_self
      rw [List.map_cons, List.append_cons]
      exact ih h.destroy fun e he => hz e (List.mem_cons_of_mem _ he)

-- ── The invariant ────────────────────────────────────────────────────────────

/-- **THE INVARIANT**: the accounts are right over both containers, an erased
    object is kept for its references, and `_ptr` is not left behind. -/
structure Managed (s : ObjectMap K) (held : List (K × Object)) : Prop where
  counted : Counted (s.map.entries ++ s.drop) held s.destroyed s.created
  drop : ∀ e ∈ s.drop, 0 < e.2.2
  ptr : ∀ key, s.ptr = some key → key ∈ s.map.keys

theorem Managed.permHeld {held' : List (K × Object)} (h : Managed s held)
    (hp : held.Perm held') : Managed s held' :=
  ⟨h.counted.permHeld hp, h.drop, h.ptr⟩

theorem perm_find {v : V} (h : (key, v) ∈ s.map.entries) :
    (s.map.entries ++ s.drop).Perm
      ((key, v) :: ((s.map.erase key).entries ++ s.drop)) :=
  (OrderedMap.perm_erase h).append_right s.drop

theorem perm_change {v : V} (h : (key, v) ∈ s.map.entries) (f : V → V) :
    ((key, f v) :: ((s.map.erase key).entries ++ s.drop)).Perm
      ((s.map.modify key f).entries ++ s.drop) :=
  ((OrderedMap.perm_modify h f).append_right s.drop).symm

/-- A reference is handed out; `_ptr` may move to the key. -/
theorem Managed.handOut (h : Managed s held)
    (hin : (key, object, n) ∈ s.map.entries) {ptr : Option K}
    (hptr : ptr = s.ptr ∨ ptr = some key) :
    Managed { s with
      map := s.map.modify key fun v => (v.1, v.2 + 1)
      ptr := ptr } ((key, object) :: held) := by
  refine ⟨?_, h.drop, fun key' hk => ?_⟩
  · exact ((h.counted.perm (perm_find hin)).hold).perm
      (perm_change hin fun v => (v.1, v.2 + 1))
  · refine OrderedMap.mem_keys_modify.mpr ?_
    rcases hptr with heq | heq
    · exact h.ptr key' (heq.symm.trans hk)
    · obtain rfl := Option.some.inj (heq.symm.trans hk)
      exact OrderedMap.mem_keys.mpr ⟨_, hin, rfl⟩

/-- An object is made for a key that has none. -/
theorem Managed.create (h : Managed s held) (hnew : s.map.find key = none)
    (init : Nat) :
    Managed { s with
      map := s.map.insertNew key (s.created, init)
      ptr := none
      created := s.created + 1 }
      (List.replicate init (key, s.created) ++ held) := by
  refine ⟨?_, h.drop, fun key' hk => absurd hk (by simp)⟩
  have hperm := OrderedMap.perm_insertNew (b := (s.created, init))
    (OrderedMap.find_eq_none.mp hnew)
  exact (h.counted.create init).perm (hperm.append_right s.drop).symm

theorem Managed.doErase (h : Managed s held) (key : K) :
    Managed (doErase s key) held := by
  rw [FlinterObjectMap.doErase]
  cases hf : s.map.find key with
  | none => exact h
  | some v =>
      obtain ⟨object, n⟩ := v
      have hin := OrderedMap.find_eq_some.mp hf
      have hcounted := h.counted.perm (perm_find hin)
      show Managed (if n = 0 then _ else _) held
      split
      case isTrue hzero =>
          subst hzero
          exact ⟨hcounted.destroy, h.drop, fun key' hk => absurd hk (by simp)⟩
      case isFalse hpos =>
          refine ⟨hcounted.perm ?_, fun e he => ?_,
            fun key' hk => absurd hk (by simp)⟩
          · rw [← List.append_assoc]
            exact (List.perm_append_singleton _ _).symm
          · rcases List.mem_append.mp he with he | he
            · exact h.drop e he
            · obtain rfl := List.mem_singleton.mp he
              exact Nat.pos_of_ne_zero hpos

theorem Managed.eraseAll (h : Managed s held) :
    Managed (eraseAll s) held := by
  have hsplit := List.filter_append_perm
    (fun e : K × V => decide (e.2.2 = 0)) s.map.entries
  refine ⟨?_, fun e he => ?_, fun key' (hk : none = some key') => ?_⟩
  · refine Counted.destroyAll (h.counted.perm ?_) fun e he =>
      of_decide_eq_true (List.mem_filter.mp he).2
    refine (hsplit.symm.append_right s.drop).trans ?_
    rw [List.append_assoc]
    refine List.Perm.append_left _ (List.perm_append_comm.trans ?_)
    have hnot : (fun e : K × V => !decide (e.2.2 = 0)) =
        fun e => decide (e.2.2 ≠ 0) := by
      funext e
      exact decide_not.symm
    rw [hnot]
    exact .refl _
  · rcases List.mem_append.mp he with he | he
    · exact h.drop e he
    · exact Nat.pos_of_ne_zero (of_decide_eq_true (List.mem_filter.mp he).2)
  · exact absurd hk (by simp)

/-- What the loop of `Release` does to the entry it finds. -/
theorem releaseDropped_perm (h : ∃ n, (key, object, n) ∈ es) :
    ∃ n rest, es.Perm ((key, object, n) :: rest) ∧
      (n - 1 = 0 ∧ (releaseDropped key object es).1.Perm rest ∧
          (releaseDropped key object es).2 = [object] ∨
        n - 1 ≠ 0 ∧
          (releaseDropped key object es).1.Perm ((key, object, n - 1) :: rest) ∧
          (releaseDropped key object es).2 = []) := by
  induction es with
  | nil => exact h.elim fun n hn => absurd hn List.not_mem_nil
  | cons e es ih =>
      obtain ⟨k, o, n⟩ := e
      rw [releaseDropped]
      by_cases hfound : k = key ∧ o = object
      · obtain ⟨rfl, rfl⟩ := hfound
        refine ⟨n, es, .refl _, ?_⟩
        rw [if_pos ⟨rfl, rfl⟩]
        split
        case isTrue hz => exact .inl ⟨hz, .refl _, rfl⟩
        case isFalse hz => exact .inr ⟨hz, .refl _, rfl⟩
      · have hrest : ∃ n, (key, object, n) ∈ es := by
          obtain ⟨n', hn⟩ := h
          rcases List.mem_cons.mp hn with heq | hn
          · obtain ⟨rfl, hv⟩ := Prod.mk.inj heq
            obtain ⟨rfl, -⟩ := Prod.mk.inj hv
            exact absurd ⟨rfl, rfl⟩ hfound
          · exact ⟨n', hn⟩
        obtain ⟨n', rest, hes, hr⟩ := ih hrest
        refine ⟨n', (k, o, n) :: rest, (hes.cons _).trans (.swap _ _ _), ?_⟩
        rw [if_neg hfound]
        rcases hr with ⟨hz, hp, hd⟩ | ⟨hz, hp, hd⟩
        · exact .inl ⟨hz, hp.cons _, hd⟩
        · exact .inr ⟨hz, (hp.cons _).trans (.swap _ _ _), hd⟩

/-- A reference that is outstanding is given back. -/
theorem Managed.release (h : Managed s held) (hin : (key, object) ∈ held) :
    Managed (release s key object) (held.erase (key, object)) := by
  obtain ⟨n, hn⟩ := h.counted.held _ hin
  rw [FlinterObjectMap.release]
  split
  case isTrue hf =>
      obtain ⟨⟨_, n⟩, hv, rfl⟩ := Option.map_eq_some_iff.mp hf
      have hmem := OrderedMap.find_eq_some.mp hv
      refine ⟨?_, h.drop, fun key' hk => ?_⟩
      · exact ((h.counted.perm (perm_find hmem)).release).perm
          (perm_change hmem fun v => (v.1, v.2 - 1))
      · exact OrderedMap.mem_keys_modify.mpr (h.ptr key' hk)
  case isFalse hf =>
      have hdrop : (key, object, n) ∈ s.drop := by
        rcases List.mem_append.mp hn with hn | hn
        · refine absurd ?_ hf
          rw [OrderedMap.find_eq_some.mpr hn]
          rfl
        · exact hn
      obtain ⟨n', rest, hes, hr⟩ := releaseDropped_perm ⟨n, hdrop⟩
      have hcounted := (h.counted.perm ((hes.append_left _).trans
        List.perm_middle)).release
      have hrest : ∀ e ∈ rest, 0 < e.2.2 := fun e he =>
        h.drop e (hes.mem_iff.mpr (List.mem_cons_of_mem _ he))
      rcases hr with ⟨hz, hp, hd⟩ | ⟨hz, hp, hd⟩
      · rw [hz] at hcounted
        refine ⟨?_, fun e he => hrest e (hp.mem_iff.mp he), h.ptr⟩
        show Counted _ _ (s.destroyed ++ (releaseDropped key object s.drop).2) _
        rw [hd]
        exact hcounted.destroy.perm (hp.symm.append_left _)
      · refine ⟨?_, fun e he => ?_, h.ptr⟩
        · show Counted _ _ (s.destroyed ++ (releaseDropped key object s.drop).2) _
          rw [hd, List.append_nil]
          exact hcounted.perm
            (List.perm_middle.symm.trans (hp.symm.append_left _))
        · rcases List.mem_cons.mp (hp.mem_iff.mp he) with rfl | he
          · exact Nat.pos_of_ne_zero hz
          · exact hrest e he

/-- `DoAdd`, with the reference that `Add` takes. -/
theorem Managed.add (h : Managed s held) (key : K) (create : Bool) :
    Managed (add s key create).2
      (((add s key create).1.map fun object => (key, object)).toList ++
        held) := by
  rw [FlinterObjectMap.add, doAdd]
  cases hf : s.map.find key with
  | some v => exact h.handOut (OrderedMap.find_eq_some.mp hf) (.inl rfl)
  | none =>
      cases create with
      | false => exact h
      | true => exact h.create hf 1

theorem Managed.get (h : Managed s held) (key : K) :
    Managed (get s key).2
      (((get s key).1.map fun object => (key, object)).toList ++ held) := by
  rw [FlinterObjectMap.get]
  cases hf : s.map.find key with
  | none => exact h
  | some v => exact h.handOut (OrderedMap.find_eq_some.mp hf) (.inl rfl)

/-- `GetNext` moves to an entry of the map. -/
theorem mem_of_advance {e : K × V} (h : advance s = some e) :
    e ∈ s.map.entries := by
  rw [advance] at h
  split at h
  case h_1 e' heq =>
      obtain rfl := Option.some.inj h
      obtain ⟨k, -, hk⟩ := Option.bind_eq_some_iff.mp heq
      exact List.mem_of_find?_eq_some hk
  case h_2 => exact List.mem_of_mem_head? h

/-- Without an object nothing happens. -/
theorem getNext_none (h : (getNext s).1 = none) : (getNext s).2 = s := by
  rw [getNext] at h ⊢
  cases ha : advance s with
  | none => rfl
  | some e =>
      rw [ha] at h
      exact absurd h (by simp)

theorem Managed.getNext (h : Managed s held) :
    Managed (getNext s).2 ((getNext s).1.toList ++ held) := by
  rw [FlinterObjectMap.getNext]
  cases ha : advance s with
  | none => exact h
  | some e => exact h.handOut (mem_of_advance ha) (.inr rfl)

/-- What `addKey` does: nothing, or an object for a key that has none. -/
theorem addKey_cases (s : ObjectMap K) (k : K × Bool) :
    addKey s k = s ∧ (k.1 ∈ s.map.keys ∨ k.2 = false) ∨
      s.map.find k.1 = none ∧ k.2 = true ∧
        addKey s k = { s with
          map := s.map.insertNew k.1 (s.created, 0)
          ptr := none
          created := s.created + 1 } := by
  obtain ⟨key, create⟩ := k
  rw [addKey, doAdd]
  cases hf : s.map.find key with
  | some v =>
      refine .inl ⟨rfl, .inl ?_⟩
      exact OrderedMap.mem_keys.mpr ⟨_, OrderedMap.find_eq_some.mp hf, rfl⟩
  | none =>
      cases create with
      | false => exact .inl ⟨rfl, .inr rfl⟩
      | true => exact .inr ⟨rfl, rfl, rfl⟩

theorem Managed.addKey (h : Managed s held) (k : K × Bool) :
    Managed (addKey s k) held := by
  rcases addKey_cases s k with ⟨heq, -⟩ | ⟨hnew, -, heq⟩
  · rw [heq]
    exact h
  · rw [heq]
    exact h.create hnew 0

theorem Managed.addKeys (h : Managed s held) (keys : List (K × Bool)) :
    Managed (keys.foldl FlinterObjectMap.addKey s) held := by
  induction keys generalizing s with
  | nil => exact h
  | cons k keys ih => exact ih (h.addKey k)

theorem Managed.eraseKeys (h : Managed s held) (keys : List K) :
    Managed (keys.foldl FlinterObjectMap.doErase s) held := by
  induction keys generalizing s with
  | nil => exact h
  | cons k keys ih => exact ih (h.doErase k)

theorem Managed.setAll (h : Managed s held) (keys : List (K × Bool)) :
    Managed (setAll s keys) held :=
  (h.addKeys keys).eraseKeys _

theorem managed_empty : Managed (.empty : ObjectMap K) [] :=
  ⟨⟨fun e he => absurd he List.not_mem_nil, .refl _,
      fun r hr => absurd hr List.not_mem_nil⟩,
    fun e he => absurd he List.not_mem_nil, fun k hk => absurd hk (by
      simp [ObjectMap.empty])⟩

/-- One call keeps the accounts. -/
theorem Managed.call {c : Call K} (h : Managed w.objects w.held)
    (hs : next w c = some w') : Managed w'.objects w'.held := by
  cases c with
  | add key create =>
      obtain rfl := Option.some.inj hs
      exact h.add key create
  | get key =>
      obtain rfl := Option.some.inj hs
      exact h.get key
  | getNext =>
      obtain rfl := Option.some.inj hs
      exact h.getNext
  | release key object =>
      obtain ⟨hin, heq⟩ := Option.ite_none_right_eq_some.mp hs
      obtain rfl := Option.some.inj heq
      exact h.release hin
  | erase key =>
      obtain rfl := Option.some.inj hs
      exact h.doErase key
  | eraseAll =>
      obtain rfl := Option.some.inj hs
      exact h.eraseAll
  | setAll keys =>
      obtain rfl := Option.some.inj hs
      exact h.setAll keys

theorem Managed.reachable (h : Reachable objectMap w) :
    Managed w.objects w.held := by
  refine h.invariant (I := fun w => Managed w.objects w.held) ?_ ?_
  · rintro _ rfl
    exact managed_empty
  · intro _ _ _ _ hm hs
    exact hm.call hs

-- ── An empty map ─────────────────────────────────────────────────────────────

theorem find_of_empty (h : s.map.entries = []) : s.map.find key = none := by
  rw [OrderedMap.find, h]
  rfl

theorem advance_of_empty (h : s.map.entries = []) : advance s = none := by
  cases ha : advance s with
  | none => rfl
  | some e => exact absurd (h ▸ mem_of_advance ha) List.not_mem_nil

theorem doErase_of_empty (h : s.map.entries = []) : doErase s key = s := by
  rw [doErase, find_of_empty h]

/-- What is released then was in `_drop`. -/
theorem release_of_empty (h : s.map.entries = []) :
    (release s key object).map = s.map ∧
      (s.drop = [] → (release s key object).drop = []) := by
  rw [release, find_of_empty h, if_neg (by simp)]
  refine ⟨rfl, fun hd => ?_⟩
  show (releaseDropped key object s.drop).1 = []
  rw [hd]
  rfl

/-- Then there are no references. -/
theorem Managed.held_of_empty (h : Managed s held) (hm : s.map.entries = [])
    (hd : s.drop = []) : held = [] := by
  refine List.eq_nil_iff_forall_not_mem.mpr fun r hr => ?_
  obtain ⟨n, hn⟩ := h.counted.held r hr
  rw [hm, hd] at hn
  exact List.not_mem_nil hn

-- ── What SetAll leaves ───────────────────────────────────────────────────────

theorem mem_addKeys {keys : List (K × Bool)} :
    key ∈ (keys.foldl addKey s).map.keys ↔
      key ∈ s.map.keys ∨ (key, true) ∈ keys := by
  induction keys generalizing s with
  | nil => simp
  | cons k keys ih =>
      rw [List.foldl_cons, ih, List.mem_cons]
      rcases addKey_cases s k with ⟨heq, hcase⟩ | ⟨-, hcreate, heq⟩
      · rw [heq]
        constructor
        · exact fun h => h.imp_right .inr
        · rintro (h | rfl | h)
          · exact .inl h
          · exact .inl (hcase.resolve_right (by simp))
          · exact .inr h
      · rw [heq, OrderedMap.mem_keys_insertNew]
        constructor
        · rintro ((rfl | h) | h)
          · exact .inr (.inl (Prod.ext rfl hcreate.symm))
          · exact .inl h
          · exact .inr (.inr h)
        · rintro (h | rfl | h)
          · exact .inl (.inr h)
          · exact .inl (.inl rfl)
          · exact .inr h

/-- Objects are added, and none is changed. -/
theorem addKeys_keeps {keys : List (K × Bool)} {e : K × V}
    (he : e ∈ s.map.entries) : e ∈ (keys.foldl addKey s).map.entries := by
  induction keys generalizing s with
  | nil => exact he
  | cons k keys ih =>
      refine ih ?_
      rcases addKey_cases s k with ⟨heq, -⟩ | ⟨-, -, heq⟩
      · rw [heq]
        exact he
      · rw [heq]
        exact mem_of_mem_insertEntry he

theorem mem_doErase {e : K × V} {k : K} :
    e ∈ (doErase s k).map.entries ↔ e ∈ s.map.entries ∧ e.1 ≠ k := by
  rw [doErase]
  cases hf : s.map.find k with
  | none =>
      have hno := OrderedMap.find_eq_none.mp hf
      refine ⟨fun he => ⟨he, ?_⟩, And.left⟩
      rintro rfl
      exact hno (OrderedMap.mem_keys.mpr ⟨e, he, rfl⟩)
  | some v =>
      show e ∈ (if v.2 = 0 then _ else _ : ObjectMap K).map.entries ↔ _
      split
      · exact OrderedMap.mem_erase
      · exact OrderedMap.mem_erase

theorem mem_eraseKeys {e : K × V} {keys : List K} :
    e ∈ (keys.foldl doErase s).map.entries ↔
      e ∈ s.map.entries ∧ e.1 ∉ keys := by
  induction keys generalizing s with
  | nil => simp
  | cons k keys ih =>
      rw [List.foldl_cons, ih, mem_doErase, List.mem_cons, not_or, and_assoc]

theorem mem_setAll {e : K × V} {keys : List (K × Bool)} :
    e ∈ (setAll s keys).map.entries ↔
      e ∈ (keys.foldl addKey s).map.entries ∧ e.1 ∈ keys.map (·.1) := by
  refine mem_eraseKeys.trans (and_congr_right fun he => ?_)
  rw [List.mem_filter, decide_eq_true_eq, not_and, not_not]
  exact ⟨fun h => h (List.mem_map.mpr ⟨e, he, rfl⟩), fun h _ => h⟩

/-- A key is obtainable when the map has it. -/
theorem get_isSome : (get s key).1.isSome = true ↔ key ∈ s.map.keys := by
  rw [get]
  cases hf : s.map.find key with
  | none => simpa using OrderedMap.find_eq_none.mp hf
  | some v =>
      exact iff_of_true rfl
        (OrderedMap.mem_keys.mpr ⟨_, OrderedMap.find_eq_some.mp hf, rfl⟩)

-- ── Reference counting ───────────────────────────────────────────────────────

/-- What the user may rely on: counts are right, nothing in use is destroyed,
    nothing is destroyed twice, and what is destroyed is what has left the map
    and is not referred to any more. -/
structure RefCounted (w : World K) : Prop where
  count : ∀ key object n, (key, object, n) ∈ w.objects.map.entries ∨
    (key, object, n) ∈ w.objects.drop → n = w.held.count (key, object)
  alive : ∀ key object, (key, object) ∈ w.held → object ∉ w.objects.destroyed
  once : w.objects.destroyed.Nodup
  destroyed : ∀ object < w.objects.created, object ∈ w.objects.destroyed ↔
    (∀ key n, (key, object, n) ∉ w.objects.map.entries) ∧
      ∀ key, (key, object) ∉ w.held

theorem Managed.refCounted (h : Managed w.objects w.held) : RefCounted w := by
  have hnodup := h.counted.objects.nodup_iff.mpr List.nodup_range
  have hapart := (List.nodup_append.mp hnodup).2.2
  have hstored : ∀ key object n,
      (key, object, n) ∈ w.objects.map.entries ++ w.objects.drop →
        object ∉ w.objects.destroyed := by
    intro key object n hin hd
    exact hapart _ (List.mem_map.mpr ⟨_, hin, rfl⟩) _ hd rfl
  refine ⟨?_, ?_, (List.nodup_append.mp hnodup).2.1, ?_⟩
  · intro key object n hin
    exact h.counted.count _ (List.mem_append.mpr hin)
  · intro key object hin
    obtain ⟨n, hn⟩ := h.counted.held _ hin
    exact hstored key object n hn
  · intro object hlt
    constructor
    · refine fun hd => ⟨fun key n hin => ?_, fun key hin => ?_⟩
      · exact hstored key object n (List.mem_append_left _ hin) hd
      · obtain ⟨n, hn⟩ := h.counted.held _ hin
        exact hstored key object n hn hd
    · rintro ⟨hmap, hheld⟩
      have hmade := h.counted.objects.mem_iff.mpr (List.mem_range.mpr hlt)
      rcases List.mem_append.mp hmade with hin | hd
      · obtain ⟨⟨key, _, n⟩, he, rfl⟩ := List.mem_map.mp hin
        rcases List.mem_append.mp he with he | he
        · exact absurd he (hmap key n)
        · have hpos := h.drop _ he
          rw [h.counted.count _ (List.mem_append_right _ he)] at hpos
          exact absurd (List.count_pos_iff.mp hpos) (hheld key)
      · exact hd

/-- **REFERENCE COUNTING**: after any calls of any threads the counts are right,
    and `SetAll` leaves the keys asked for whose `Create` succeeded, the objects
    that were there as they were. -/
theorem reference_counting (h : Reachable objectMap w) :
    RefCounted w ∧ ∀ keys : List (K × Bool),
      (∀ key, (get (setAll w.objects keys) key).1.isSome = true ↔
        key ∈ keys.map (·.1) ∧
          ((get w.objects key).1.isSome = true ∨ (key, true) ∈ keys)) ∧
      ∀ e ∈ w.objects.map.entries, e.1 ∈ keys.map (·.1) →
        e ∈ (setAll w.objects keys).map.entries := by
  refine ⟨(Managed.reachable h).refCounted, fun keys => ⟨fun key => ?_, ?_⟩⟩
  · rw [get_isSome, get_isSome, ← mem_addKeys, OrderedMap.mem_keys,
      OrderedMap.mem_keys]
    constructor
    · rintro ⟨e, he, rfl⟩
      obtain ⟨hin, hkey⟩ := mem_setAll.mp he
      exact ⟨hkey, e, hin, rfl⟩
    · rintro ⟨hkey, e, hin, rfl⟩
      exact ⟨e, mem_setAll.mpr ⟨hin, hkey⟩, rfl⟩
  · exact fun e he hkey => mem_setAll.mpr ⟨addKeys_keeps he, hkey⟩

/-- Add, erase, release: the object is destroyed with its last reference. -/
theorem reference_counting_erased :
    ∃ w : World Nat, w.objects.destroyed = [0] ∧ RefCounted w := by
  have h₁ := Reachable.next (M := objectMap) (.start rfl)
    (show next (⟨.empty, []⟩ : World Nat) (.add 7 true) = some _ from rfl)
  have h₂ := h₁.next (show next _ (.erase 7) = some _ from rfl)
  have h₃ := h₂.next (show next _ (.release 7 0) = some _ from rfl)
  exact ⟨_, by decide, (reference_counting h₃).1⟩

end FlinterObjectMap
