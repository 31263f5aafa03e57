import Mathlib.Data.Finset.Dedup
import Mathlib.Data.List.Perm.Subperm
import Flinter.RangedRandProofs
import Flinter.RunProofs

/-! # The addresses of a name, one after the other

    A cache entry of `Resolver` has the addresses of a name and the position of the
    one that was picked last.  The list is replaced if there are other addresses in
    it, and the position is reset then.

    Picking one address after the other goes round the list from any position.
    Picking one at random asks for a number up to the length of the list: the
    length itself is a possible result, and no position in the list. -/

namespace FlinterResolver

open Runs FlinterRandom

variable {T A : Type} [DecidableEq A]

/-- `Resolver::Cache`. -/
structure Cache (T : Type) where
  addr : List T
  resolved : ℤ
  current : ℤ
  resolving : Bool
deriving DecidableEq, Repr

/-- `Cache()`. -/
def newCache : Cache T := ⟨[], -1, -1, false⟩

/-- `Resolver::Option`. -/
inductive Choice where
  | first
  | random
  | sequential
deriving DecidableEq, Repr

-- ── The code ─────────────────────────────────────────────────────────────────

/-- `Cache::Set`: the loop that looks for addresses that were not there.  It is
    `true` if there is one, and otherwise what is left of those that were. -/
def differs (get : T → A) : Finset A → List T → Bool × Finset A
  | s, [] => (false, s)
  | s, a :: res => if get a ∈ s then differs get (s.erase (get a)) res else (true, s)

/-- `Cache::Set`, where `res` are the addresses of an `addrinfo`, if any. -/
def Cache.set (get : T → A) (c : Cache T) (res : List T) : Cache T :=
  if res = [] then { c with addr := [], current := -1 }
  else
    let (diff, s) := differs get (c.addr.map get).toFinset res
    if diff = false ∧ s = ∅ then c else { c with addr := res, current := -1 }

/-- `static_cast<int>`. -/
def asInt (n : Nat) : ℤ := (BitVec.ofNat 32 n).toInt

/-- `Resolver::Pick`: what `_current` becomes.  There is no remainder of a division
    by zero. -/
def nextCurrent (randMax : ℤ) (c : Cache T) (option : Choice) (draws : List ℤ) : Outcome :=
  let size := asInt c.addr.length
  if option = .first ∨ c.addr.length = 1 then .returned 0 draws
  else if option = .sequential then
    if size = 0 then .overflow else .returned ((c.current + 1).tmod size) draws
  else rangedRandR randMax size draws

/-- What `Resolver::Pick` comes to: `picked` has the cache afterwards and the index. -/
inductive Picked (T : Type) where
  | empty
  | undefined
  | drawing
  | picked (c : Cache T) (index : ℤ)
deriving DecidableEq, Repr

/-- `Resolver::Pick`, where `draws` is what `rand_r` makes of the seed. -/
def pick (randMax : ℤ) (c : Cache T) (option : Choice) (draws : List ℤ) : Picked T :=
  if c.addr = [] then .empty
  else
    match nextCurrent randMax c option draws with
    | .overflow => .undefined
    | .drawing => .drawing
    | .returned i _ => .picked { c with current := i } i

/-- What is read at an index. -/
def Cache.at? (c : Cache T) (index : ℤ) : Option T :=
  if index < 0 then none else c.addr[index.toNat]?

-- ── Uses of a cache ──────────────────────────────────────────────────────────

/-- What is done with a cache. -/
inductive Use (T : Type) (randMax : Nat) where
  | set (res : List T)
  | pick (option : Choice) (draws : List (Fin (randMax + 1)))

variable {randMax : Nat} {get : T → A} {c c' : Cache T} {u : Use T randMax}
variable {us : List (Use T randMax)} {res : List T}

/-- The cache afterwards, and the index if one was picked. -/
def Cache.use (get : T → A) (c : Cache T) : Use T randMax → Option (Cache T × Option ℤ)
  | .set res => some (c.set get res, none)
  | .pick option draws =>
      match FlinterResolver.pick randMax c option (draws.map drawn) with
      | .empty => some (c, none)
      | .undefined => none
      | .drawing => none
      | .picked c' i => some (c', some i)

/-- Any uses, one after the other. -/
def uses (get : T → A) (randMax : Nat) : System (Cache T) (Use T randMax) where
  init := fun c => c = newCache
  step := fun c u c' => ∃ i, c.use get u = some (c', i)

/-- The indices that are picked, one after the other. -/
def indices (get : T → A) : Cache T → List (Use T randMax) → List ℤ
  | _, [] => []
  | c, u :: us =>
      match c.use get u with
      | none => []
      | some (c', i) => i.toList ++ indices get c' us

/-- There are not too many addresses. -/
def Fits : Cache T → Use T randMax → Prop
  | _, .set res => res.length ≤ randMax
  | _, .pick _ _ => True

/-- The position is one of the list, or next to it. -/
structure Ok (randMax : Nat) (c : Cache T) : Prop where
  length : c.addr.length ≤ randMax
  low : -1 ≤ c.current
  high : c.current ≤ c.addr.length

theorem asInt_of_le {n : Nat} (h : (n : ℤ) ≤ intMax) : asInt n = n := by
  rw [intMax] at h
  rw [asInt, BitVec.toInt_eq_toNat_of_lt, BitVec.toNat_ofNat]
  · omega
  · rw [BitVec.toNat_ofNat]
    omega

/-- After a change the position is reset. -/
theorem set_eq (get : T → A) (c : Cache T) (res : List T) :
    c.set get res = c ∨ c.set get res = { c with addr := res, current := -1 } := by
  rw [Cache.set]
  split
  · next hres => exact .inr (by rw [hres])
  · dsimp only
    split
    · exact .inl rfl
    · exact .inr rfl

theorem Ok.set (h : Ok randMax c) (hres : res.length ≤ randMax) :
    Ok randMax (c.set get res) := by
  rcases set_eq get c res with heq | heq
  · rw [heq]
    exact h
  · rw [heq]
    exact ⟨hres, Int.le_refl _, (by decide : (-1 : ℤ) ≤ 0).trans (Int.natCast_nonneg _)⟩

theorem Ok.moved {i : ℤ} (h : Ok randMax c) (hlow : 0 ≤ i) (hhigh : i ≤ c.addr.length) :
    Ok randMax { c with current := i } :=
  ⟨h.length, (by decide : (-1 : ℤ) ≤ 0).trans hlow, hhigh⟩

/-- The next index, when one is picked after the other. -/
theorem nextCurrent_sequential (hok : Ok randMax c) (hmax : (randMax : ℤ) ≤ intMax)
    (hne : c.addr ≠ []) (draws : List ℤ) :
    nextCurrent randMax c .sequential draws =
      .returned ((c.current + 1) % c.addr.length) draws := by
  have hlow := hok.low
  have hlength : (c.addr.length : ℤ) ≤ intMax :=
    (Int.ofNat_le.mpr hok.length).trans hmax
  have hpos := List.length_pos_of_ne_nil hne
  rw [nextCurrent, asInt_of_le hlength]
  by_cases hone : c.addr.length = 1
  · rw [if_pos (.inr hone), hone]
    congr 1
    exact (Int.emod_one _).symm
  · rw [if_neg (not_or.mpr ⟨nofun, hone⟩), if_pos rfl, if_neg (by omega),
      Int.tmod_eq_emod_of_nonneg (by omega)]

/-- **A RANDOM POSITION**: it is up to the length, which is one too many. -/
theorem nextCurrent_random {i : ℤ} {rest : List ℤ} (hok : Ok randMax c)
    (hmax : (randMax : ℤ) ≤ intMax) (htwo : 2 ≤ c.addr.length)
    {draws : List (Fin (randMax + 1))}
    (h : nextCurrent randMax c .random (draws.map drawn) = .returned i rest) :
    (0 ≤ i ∧ i ≤ c.addr.length) ∧
      (draws.map drawn).findSome?
        (accept (acceptBound randMax c.addr.length) (c.addr.length + 1)) = some i := by
  have hlength : (c.addr.length : ℤ) ≤ intMax :=
    (Int.ofNat_le.mpr hok.length).trans hmax
  rw [nextCurrent, asInt_of_le hlength, if_neg (not_or.mpr ⟨nofun, by omega⟩),
    if_neg nofun, rangedRandR] at h
  have hpos : 0 < c.addr.length := by omega
  refine ⟨rangedRand_inRange hpos hok.length hmax (draws_range draws) h, ?_⟩
  rw [← rangedRand_value? hpos hok.length hmax (draws_range draws), h]
  rfl

/-- The number that is drawn leaves the length. -/
def PastTheEnd (c : Cache T) (option : Choice) (draws : List (Fin (randMax + 1))) : Prop :=
  option = .random ∧ 2 ≤ c.addr.length ∧
    (draws.map drawn).findSome?
      (accept (acceptBound randMax c.addr.length) (c.addr.length + 1)) =
        some (c.addr.length : ℤ)

/-- Only the position changes. -/
theorem pick_cache {max i : ℤ} {draws : List ℤ} {option : Choice}
    (h : pick max c option draws = .picked c' i) : c' = { c with current := i } := by
  rw [pick] at h
  split at h
  · cases h
  · split at h
    · cases h
    · cases h
    · obtain ⟨rfl, rfl⟩ := Picked.picked.inj h
      rfl

/-- What an index is, and when it is one of the list. -/
theorem index_of_pick {i : ℤ} {draws : List (Fin (randMax + 1))} {option : Choice}
    (hok : Ok randMax c) (hmax : (randMax : ℤ) ≤ intMax)
    (h : pick randMax c option (draws.map drawn) = .picked c' i) :
    c' = { c with current := i } ∧ (0 ≤ i ∧ i ≤ c.addr.length) ∧
      (i < c.addr.length ↔ ¬PastTheEnd c option draws) := by
  rw [pick] at h
  split at h
  · cases h
  · next hne =>
      have hpos := List.length_pos_of_ne_nil hne
      cases hnext : nextCurrent randMax c option (draws.map drawn) with
      | overflow =>
          rw [hnext] at h
          cases h
      | drawing =>
          rw [hnext] at h
          cases h
      | returned j rest =>
          rw [hnext] at h
          obtain ⟨rfl, rfl⟩ := Picked.picked.inj h
          refine ⟨rfl, ?_⟩
          have hfirst (hj : j = 0) (hpast : ¬PastTheEnd c option draws) :
              (0 ≤ j ∧ j ≤ c.addr.length) ∧
                (j < c.addr.length ↔ ¬PastTheEnd c option draws) := by
            rw [hj]
            exact ⟨⟨Int.le_refl _, Int.natCast_nonneg _⟩,
              iff_of_true (Int.natCast_pos.mpr hpos) hpast⟩
          by_cases hone : c.addr.length = 1
          · rw [nextCurrent, if_pos (.inr hone)] at hnext
            obtain ⟨rfl, -⟩ := Outcome.returned.inj hnext
            exact hfirst rfl fun hpast => absurd hpast.2.1 (by omega)
          · cases option with
            | first =>
                rw [nextCurrent, if_pos (.inl rfl)] at hnext
                obtain ⟨rfl, -⟩ := Outcome.returned.inj hnext
                exact hfirst rfl fun hpast => nomatch hpast.1
            | sequential =>
                rw [nextCurrent_sequential hok hmax hne] at hnext
                obtain ⟨rfl, -⟩ := Outcome.returned.inj hnext
                have hlt := Int.emod_lt_of_pos (c.current + 1) (Int.natCast_pos.mpr hpos)
                exact ⟨⟨Int.emod_nonneg _ (by omega), hlt.le⟩,
                  iff_of_true hlt fun hpast => nomatch hpast.1⟩
            | random =>
                have htwo : 2 ≤ c.addr.length := by omega
                obtain ⟨hrange, hdrawn⟩ := nextCurrent_random hok hmax htwo hnext
                refine ⟨hrange, ?_⟩
                rw [PastTheEnd, hdrawn, and_iff_right rfl, and_iff_right htwo,
                  Option.some.injEq]
                omega

theorem ok_of_reachable (hmax : (randMax : ℤ) ≤ intMax)
    (h : Reachable ((uses get randMax).restrict Fits) c) : Ok randMax c := by
  refine h.invariant (fun c hc => ?_) fun c u c' _ hok hstep => ?_
  · rw [show c = newCache from hc]
    exact ⟨Nat.zero_le _, Int.le_refl _, (by decide : (-1 : ℤ) ≤ 0)⟩
  · obtain ⟨hfits, i, huse⟩ := hstep
    cases u with
    | set res =>
        obtain ⟨rfl, -⟩ := Prod.mk.inj (Option.some.inj huse)
        exact hok.set hfits
    | pick option draws =>
        rw [Cache.use] at huse
        cases hpick : pick randMax c option (draws.map drawn) with
        | empty =>
            rw [hpick] at huse
            obtain ⟨rfl, -⟩ := Prod.mk.inj (Option.some.inj huse)
            exact hok
        | undefined =>
            rw [hpick] at huse
            cases huse
        | drawing =>
            rw [hpick] at huse
            cases huse
        | picked d j =>
            rw [hpick] at huse
            obtain ⟨rfl, -⟩ := Prod.mk.inj (Option.some.inj huse)
            obtain ⟨rfl, hrange, -⟩ := index_of_pick hok hmax hpick
            exact hok.moved hrange.1 hrange.2

-- ── Once round the list ──────────────────────────────────────────────────────

/-- Only sequential picks, and the list stays as it is; if it is set again as it is,
    there is no address twice in it. -/
def Steady (get : T → A) (c : Cache T) (us : List (Use T randMax)) : Prop :=
  ∀ u ∈ us, (∃ draws, u = .pick .sequential draws) ∨
    ∃ res, u = .set res ∧ (c.set get res).addr = c.addr ∧
      (res = c.addr → (c.addr.map get).Nodup)

/-- How often one is picked. -/
def picks : List (Use T randMax) → Nat
  | [] => 0
  | .set _ :: us => picks us
  | .pick _ _ :: us => picks us + 1

/-- Nothing is different, and nothing is left. -/
theorem differs_self (L : List T) (h : (L.map get).Nodup) :
    differs get (L.map get).toFinset L = (false, ∅) := by
  induction L with
  | nil => rfl
  | cons a L ih =>
      obtain ⟨hnot, hrest⟩ := List.nodup_cons.mp h
      rw [differs, if_pos (by simp), List.map_cons, List.toFinset_cons,
        Finset.erase_insert (fun ha => hnot (List.mem_toFinset.mp ha))]
      exact ih hrest

/-- A list that stays is not set again. -/
theorem set_steady (hne : c.addr ≠ []) (haddr : (c.set get res).addr = c.addr)
    (hres : res = c.addr → (c.addr.map get).Nodup) : c.set get res = c := by
  by_cases heq : res = c.addr
  · rw [Cache.set, heq, if_neg hne, differs_self c.addr (hres heq)]
    rfl
  · rcases set_eq get c res with hset | hset
    · exact hset
    · rw [hset] at haddr
      exact absurd haddr heq

/-- Whether it is set does not depend on the position. -/
theorem set_moved (c : Cache T) (i : ℤ) (res : List T) :
    ({ c with current := i }.set get res).addr = (c.set get res).addr := by
  rw [Cache.set, Cache.set]
  split
  · rfl
  · dsimp only
    split
    · rfl
    · rfl

/-- **THE INDICES**: from any position once or more often round the list. -/
theorem indices_steady (hok : Ok randMax c) (hmax : (randMax : ℤ) ≤ intMax)
    (hne : c.addr ≠ []) (hsteady : Steady get c us) :
    indices get c us =
      (List.range (picks us)).map fun j : Nat =>
        (c.current + 1 + j) % (c.addr.length : ℤ) := by
  induction us generalizing c with
  | nil => rfl
  | cons u us ih =>
      obtain ⟨hu, hus⟩ := List.forall_mem_cons.mp hsteady
      rcases hu with ⟨draws, rfl⟩ | ⟨res, rfl, haddr, hres⟩
      · have huse : c.use get (.pick .sequential draws : Use T randMax) =
            some ({ c with current := (c.current + 1) % c.addr.length },
              some ((c.current + 1) % c.addr.length)) := by
          rw [Cache.use, pick, if_neg hne, nextCurrent_sequential hok hmax hne]
        have hpos : (0 : ℤ) < c.addr.length :=
          Int.natCast_pos.mpr (List.length_pos_of_ne_nil hne)
        have hlow := Int.emod_nonneg (c.current + 1) hpos.ne'
        have hhigh := Int.emod_lt_of_pos (c.current + 1) hpos
        rw [indices, huse]
        dsimp only
        have hrest : Steady get { c with current := (c.current + 1) % c.addr.length } us := by
          intro u hu
          refine (hus u hu).imp_right ?_
          rintro ⟨res, hres, haddr, hnodup⟩
          exact ⟨res, hres, (set_moved c _ res).trans haddr, hnodup⟩
        rw [ih (hok.moved hlow hhigh.le) hne hrest, picks,
          List.range_succ_eq_map, List.map_cons, List.map_map]
        simp only [Option.toList_some, List.cons_append, List.nil_append]
        congr 1
        · rw [Nat.cast_zero, Int.add_zero]
        · refine List.map_congr_left fun j _ => ?_
          simp only [Function.comp_apply, Nat.cast_succ]
          rw [Int.add_assoc ((c.current + 1) % _), Int.emod_add_emod,
            Int.add_comm 1 (j : ℤ)]
      · have huse : c.use get (.set res : Use T randMax) = some (c, none) := by
          rw [Cache.use, set_steady hne haddr hres]
        rw [indices, huse]
        exact ih hok hne hus

/-- Going round from any position comes by every position once. -/
theorem round_perm {n : Nat} (hn : 0 < n) (start : ℤ) :
    ((List.range n).map fun j : Nat => (start + j) % (n : ℤ)).Perm
      ((List.range n).map fun j : Nat => (j : ℤ)) := by
  have hpos : (0 : ℤ) < n := Int.natCast_pos.mpr hn
  refine (List.subperm_of_subset ?_ ?_).perm_of_length_le (by simp)
  · refine List.Nodup.map_on (fun i hi j hj heq => ?_) List.nodup_range
    have hmod : (i : ℤ) % n = (j : ℤ) % n :=
      Int.ModEq.add_left_cancel' start heq
    have hi := List.mem_range.mp hi
    have hj := List.mem_range.mp hj
    rw [Int.emod_eq_of_lt (by omega) (by omega), Int.emod_eq_of_lt (by omega) (by omega)] at hmod
    exact Int.ofNat_inj.mp hmod
  · intro x hx
    obtain ⟨j, -, rfl⟩ := List.mem_map.mp hx
    have hlow := Int.emod_nonneg (start + j) hpos.ne'
    have hhigh := Int.emod_lt_of_pos (start + j) hpos
    exact List.mem_map.mpr ⟨((start + j) % n).toNat, List.mem_range.mpr (by omega), by omega⟩

/-- What stands at all indices of a list is the list. -/
theorem at?_range (c : Cache T) :
    ((List.range c.addr.length).map fun j : Nat => c.at? j) = c.addr.map some := by
  refine List.ext_getElem (by simp) fun i hi hi' => ?_
  rw [List.length_map] at hi'
  simp [Cache.at?]

/-- **WHICH ADDRESSES ARE PICKED.** -/
theorem picks_inside (get : T → A) (hmax : (randMax : ℤ) ≤ intMax)
    (h : Reachable ((uses get randMax).restrict Fits) c) :
    (∀ option (draws : List (Fin (randMax + 1))) c' i,
      pick randMax c option (draws.map drawn) = .picked c' i →
      (0 ≤ i ∧ i < c.addr.length ↔ ¬PastTheEnd c option draws)) ∧
    (∀ us : List (Use T randMax), c.addr ≠ [] → Steady get c us →
      picks us = c.addr.length →
      (indices get c us).Perm ((List.range c.addr.length).map fun j : Nat => (j : ℤ)) ∧
      ((indices get c us).map c.at?).Perm (c.addr.map some)) := by
  have hok := ok_of_reachable hmax h
  refine ⟨?_, ?_⟩
  · intro option draws c' i hpick
    obtain ⟨-, hrange, hlast⟩ := index_of_pick hok hmax hpick
    rw [and_iff_right hrange.1, hlast]
  · intro us hne hsteady hpicks
    have hperm : (indices get c us).Perm
        ((List.range c.addr.length).map fun j : Nat => (j : ℤ)) := by
      rw [indices_steady hok hmax hne hsteady, hpicks]
      exact round_perm (List.length_pos_of_ne_nil hne) _
    refine ⟨hperm, (hperm.map c.at?).trans ?_⟩
    rw [List.map_map, ← at?_range c]
    rfl

/-- A cache with two addresses. -/
def pair : Cache Nat := ⟨[7, 8], -1, -1, false⟩

theorem pair_reachable : Reachable ((uses (T := Nat) id 32767).restrict Fits) pair :=
  .next (l := .set [7, 8]) (.start rfl) ⟨(by decide : 2 ≤ 32767), none, rfl⟩

theorem picks_inside_pair :
    (indices id pair
      ([.pick .sequential [], .set [8, 7], .pick .sequential []] : List (Use Nat 32767))).Perm
      ((List.range 2).map fun j : Nat => (j : ℤ)) := by
  refine ((picks_inside id (by decide) pair_reachable).2
    [.pick .sequential [], .set [8, 7], .pick .sequential []] (by decide) ?_ rfl).1
  intro u hu
  simp only [List.mem_cons, List.not_mem_nil, or_false] at hu
  rcases hu with rfl | rfl | rfl
  · exact .inl ⟨[], rfl⟩
  · exact .inr ⟨[8, 7], rfl, by decide, by decide⟩
  · exact .inl ⟨[], rfl⟩

/-- Of two addresses, the third is picked. -/
theorem picked_outside : ¬∀ (c : Cache Nat) option (draws : List (Fin (32767 + 1))) c' i,
    Reachable (uses id 32767) c →
    pick (32767 : Nat) c option (draws.map drawn) = .picked c' i →
    0 ≤ i ∧ i < c.addr.length := by
  intro h
  have hpick : pick (32767 : Nat) pair .random (([2] : List (Fin (32767 + 1))).map drawn) =
      .picked ⟨[7, 8], -1, 2, false⟩ 2 := by decide
  exact absurd (h pair .random [2] _ 2 pair_reachable.of_restrict hpick) (by decide)

end FlinterResolver
