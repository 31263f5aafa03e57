import Flinter.SplittingProofs
import Flinter.TreeAliasProofs
import Flinter.TreeRunProofs

/-! # Full paths

    A node's full path should be the keys on the way to it, with dots between
    them, so that the root finds the node by it.  The path walk and the parsers
    leave the dot out below a root, `Merge` does not: a child that it creates
    there, in a copy for one, has a full path that begins with a dot.  And a key
    that is empty or has a dot in it cannot be part of a path at all. -/

namespace FlinterTree

open Forests Forest Runs

variable {w w' : World} {x y z : Ref} {t : Tree} {a b : Place} {n : Root}
variable {i j : Info} {k : Text} {p r : List Text} {ow : Bool} {path : Text}

-- ── Keys in paths ────────────────────────────────────────────────────────────

/-- A key that a path can have. -/
structure PlainKey (k : Text) : Prop where
  nonempty : k ≠ []
  dotless : '.' ∉ k
  whole : '\x00' ∉ k

theorem joined_ne_nil (hp : p ≠ []) (hplain : ∀ k ∈ p, PlainKey k) :
    joined p ≠ [] := by
  obtain ⟨k, q, rfl⟩ := List.exists_cons_of_ne_nil hp
  have hk := (hplain k List.mem_cons_self).nonempty
  by_cases hq : q = []
  · rw [hq, joined, List.intercalate_singleton]
    exact hk
  · rw [joined, List.intercalate_cons_of_ne_nil hq]
    simp [hk]

theorem joined_snoc (p : List Text) (k : Text) :
    joined (p ++ [k]) = if p = [] then k else joined p ++ '.' :: k := by
  split
  · next hp => rw [hp, List.nil_append, joined, List.intercalate_singleton]
  · next hp =>
      rw [joined_append hp (by simp), joined, joined, List.intercalate_singleton]

/-- `GetFullPath` joins one more key. -/
theorem fullPathUnder_joined (hplain : ∀ k ∈ p, PlainKey k) (k : Text) :
    fullPathUnder (joined p) k = joined (p ++ [k]) := by
  rw [fullPathUnder, joined_snoc]
  by_cases hp : p = []
  · rw [hp, if_pos rfl, if_pos (by rfl)]
  · rw [if_neg hp, if_neg (joined_ne_nil hp hplain)]

theorem not_mem_joined {c : Char} (hc : c ≠ '.') (h : ∀ k ∈ p, c ∉ k) :
    c ∉ joined p := by
  induction p with
  | nil => simp [joined]
  | cons k p ih =>
      obtain ⟨hk, hrest⟩ := List.forall_mem_cons.mp h
      by_cases hp : p = []
      · rw [hp, joined, List.intercalate_singleton]
        exact hk
      · have htail := ih hrest
        rw [joined] at htail
        rw [joined, List.intercalate_cons_of_ne_nil hp]
        simp [hk, hc, htail]

/-- A path of plain keys leads to the node that it is the path of. -/
theorem find_joined (hp : p ≠ []) (hplain : ∀ k ∈ p, PlainKey k) :
    find t (joined p) = t.at? p := by
  have hwhole : '\x00' ∉ joined p :=
    not_mem_joined (by decide) fun k hk => (hplain k hk).whole
  have hparts : components (joined p) = p := by
    rw [components_eq hwhole]
    exact List.splitOn_intercalate '.' (fun k hk => (hplain k hk).dotless) hp
  have hfollowed : Followed p :=
    .inl fun hmem => (hplain [] hmem).nonempty rfl
  rw [find_followed (joined_ne_nil hp hplain) (by rw [hparts]; exact hfollowed),
    hparts]

/-- What is between the dots of a text has no dots. -/
theorem mem_splitOn {s l : Text} (hl : l ∈ s.splitOn '.') {c : Char} (hc : c ∈ l) :
    c ∈ s ∧ c ≠ '.' :=
  (Splitting.not_sep_of_mem hl hc).imp_right ne_of_beq_false

/-- The components of a path are plain keys, unless they are empty. -/
theorem components_plain (hk : k ∈ components path) (hne : k ≠ []) : PlainKey k := by
  refine ⟨hne, fun hdot => (mem_splitOn hk hdot).2 rfl, fun hnull => ?_⟩
  have hread := List.mem_takeWhile_imp (mem_splitOn hk hnull).1
  simp at hread

-- ── Where a node stands ──────────────────────────────────────────────────────

/-- The keys on the way are plain, and the full path is those keys; that of a
    local copy does not matter. -/
def Placed (z : Ref) (i : Info) : Prop :=
  (∀ k ∈ z.path, PlainKey k) ∧ (z.root ≠ .copy → i.fullPath = joined z.path)

theorem plain_snoc (hplain : ∀ k ∈ p, PlainKey k) (hk : PlainKey k) :
    ∀ l ∈ p ++ [k], PlainKey l := by
  intro l hl
  rcases List.mem_append.mp hl with hl | hl
  · exact hplain l hl
  · rw [List.mem_singleton.mp hl]
    exact hk

theorem mem_digits_plain {c : Char} {m : Nat} (h : c ∈ Nat.toDigits 10 m) :
    c ≠ '.' ∧ c ≠ '\x00' := by
  have hdigit := Nat.isDigit_of_mem_toDigits (by decide) (by decide) h
  constructor
  · rintro rfl
    cases hdigit
  · rintro rfl
    cases hdigit

/-- **WHAT IS CREATED** by `Set` and the parsers is placed. -/
theorem grows_placed (x : Ref) :
    Grows PlainKey fun r => Placed (x.below r) where
  numbered k i total hk := by
    have hmem : ∀ c ∈ formatDuplicatedKey i total, c ≠ '.' ∧ c ≠ '\x00' := by
      intro c hc
      rw [formatDuplicatedKey] at hc
      simp only [List.cons_append, List.mem_cons, List.mem_append,
        List.mem_replicate, List.not_mem_nil, or_false] at hc
      rcases hc with rfl | (⟨-, rfl⟩ | hc) | rfl
      · decide
      · decide
      · exact mem_digits_plain hc
      · decide
    refine ⟨by simp [hk.nonempty], fun h => ?_, fun h => ?_⟩
    · rcases List.mem_append.mp h with h | h
      · exact hk.dotless h
      · exact (hmem _ h).1 rfl
    · rcases List.mem_append.mp h with h | h
      · exact hk.whole h
      · exact (hmem _ h).2 rfl
  indexed index := by
    have hmem : ∀ c ∈ (jsonKey index []).1, c ≠ '.' ∧ c ≠ '\x00' := by
      intro c hc
      rw [jsonKey, if_pos rfl] at hc
      simp only [List.cons_append, List.mem_cons, List.mem_append,
        List.not_mem_nil, or_false] at hc
      rcases hc with rfl | hc | rfl
      · decide
      · exact mem_digits_plain hc
      · decide
    refine ⟨?_, fun h => (hmem _ h).1 rfl, fun h => (hmem _ h).2 rfl⟩
    rw [jsonKey, if_pos rfl]
    simp
  child r above k v h hk := by
    have hpath : (x.below (r ++ [k])).path = (x.below r).path ++ [k] :=
      (List.append_assoc _ _ _).symm
    refine ⟨by rw [hpath]; exact plain_snoc h.1 hk, fun hroot => ?_⟩
    rw [hpath, ← fullPathUnder_joined h.1, ← h.2 hroot]
  value r i v h := h

theorem placed_set (value : Text) (hpath : path.head? ≠ some '\x00')
    (h : Each (fun r => Placed (x.below r)) t) :
    Each (fun r => Placed (x.below r)) (set t path value) := by
  by_cases hp : path = []
  · rw [set, createOrSet, if_pos hp]
    exact h
  · by_cases hfollowed : Followed (components path)
    · rw [set_followed hp hfollowed]
      refine h.ensure (grows_placed x) fun k hk => components_plain hk ?_
      -- the path is not a lone empty component
      rintro rfl
      rcases hfollowed with hvalid | halone
      · exact hvalid hk
      · obtain ⟨c, cs, rfl⟩ := List.exists_cons_of_ne_nil hp
        have hc : c ≠ '\x00' := fun heq => hpath (by rw [heq]; rfl)
        have hnil := components_singleton.mp halone
        rw [cString, List.takeWhile_cons_of_pos (by simpa using hc)] at hnil
        cases hnil
    · rw [set_not hp hfollowed]
      refine h.ensure (grows_placed x) fun k hk => ?_
      refine components_plain ((List.takeWhile_prefix _).subset hk) ?_
      simpa using List.mem_takeWhile_imp hk

-- ── Merging ──────────────────────────────────────────────────────────────────

/-- Not below a root, `Merge` makes the full path that it should. -/
theorem placed_snoc (h : Placed x i) (hk : PlainKey k)
    (hroot : x.root = .copy ∨ x.path ≠ []) (v : Text) :
    Placed (x.child k) ⟨k, v, i.fullPath ++ '.' :: k⟩ := by
  refine ⟨plain_snoc h.1 hk, fun hobject => ?_⟩
  have hpath : x.path ≠ [] := hroot.resolve_left hobject
  rw [h.2 hobject]
  exact ((joined_snoc x.path k).trans (if_neg hpath)).symm

theorem placed_overwritten (h : Placed x i) (source : Info) :
    Placed x (overwritten ow i source) := by
  rw [overwritten]
  split
  · exact h
  · exact h

/-- A key in the source. -/
theorem plain_of_child (h : EachNode Placed w) (hk : (w.view (y.child k)).isSome) :
    PlainKey k := by
  obtain ⟨i, hi⟩ := Option.isSome_iff_exists.mp hk
  exact (h _ i hi).1 k (by simp [Ref.child, Ref.below])

/-- A child that is created is placed, or is a new child right below a root. -/
theorem placed_createChild (h : EachNode Placed w) (hy : (w.view (y.child k)).isSome) :
    EachNode Placed (w.createChild x y k) ∨ (x.root ≠ .copy ∧ x.path = []) ∧
      w.view (x.child k) = none ∧ ((w.createChild x y k).view (x.child k)).isSome := by
  obtain ⟨iy, hiy⟩ := Option.isSome_iff_exists.mp hy
  by_cases hok : x.root = .copy ∨ x.path ≠ []
  · left
    intro z i hz
    rcases createChild_cases hiy hz with hz | ⟨rfl, -, ix, hix, rfl⟩
    · exact h z i hz
    · exact placed_snoc (h x ix hix) (plain_of_child h hy) hok _
  · rw [not_or, not_not] at hok
    by_cases hnew : w.view (x.child k) = none ∧
        ((w.createChild x y k).view (x.child k)).isSome
    · exact .inr ⟨hok, hnew⟩
    · left
      intro z i hz
      rcases createChild_cases hiy hz with hz' | ⟨rfl, hmissing, -⟩
      · exact h z i hz'
      · exact absurd ⟨hmissing, by rw [hz]; rfl⟩ hnew

theorem placed_overwrite (h : EachNode Placed w) :
    EachNode Placed (w.overwrite x y ow) := by
  intro z i hz
  rcases overwrite_cases hz with hz | ⟨rfl, ix, hix, rfl⟩
  · exact h z i hz
  · exact placed_overwritten (h z ix hix) _

/-- A merge that leaves no new child right below a root, whatever from. -/
theorem placed_merge (h : EachNode Placed w) (hy : (w.view y).isSome)
    (hmerge : Merges w x y ow w')
    (hroot : x.root = .copy ∨ x.path ≠ [] ∨
      ∀ k, (w'.view (x.child k)).isSome → (w.view (x.child k)).isSome) :
    EachNode Placed w' := by
  obtain ⟨fuel, hmerge⟩ := hmerge
  rw [merge] at hmerge
  split at hmerge
  · rw [← Option.some.inj hmerge]
    exact h
  -- as long as no such child is there, all is as it should be
  have hplaced := (mergeLoop_invariant
    (I := fun v => (∀ z, (w.view z).isSome → (v.view z).isSome) ∧
      (EachNode Placed v ∨ (x.root ≠ .copy ∧ x.path = []) ∧
        ∃ k, w.view (x.child k) = none ∧ (v.view (x.child k)).isSome))
    (P := fun z _ => z = x ∨ z.path ≠ [])
    (fun x y k _ => .inr (by simp [Ref.child, Ref.below])) ?_ ?_ (.inl rfl)
    ⟨fun z hz => hz, .inl h⟩ hy hmerge).1.2
  · rcases hplaced with hplaced | ⟨⟨hcopy, hpath⟩, k, hnone, hsome⟩
    · exact hplaced
    · have hthere := (hroot.resolve_left hcopy).resolve_left (not_not.mpr hpath) k hsome
      rw [hnone] at hthere
      cases hthere
  · rintro v z y k hz ⟨hkeep, hv⟩ hy
    refine ⟨fun z hz => createChild_isSome (hkeep z hz), ?_⟩
    rcases hv with hv | ⟨hroot, j, hnone, hsome⟩
    · refine (placed_createChild hv hy).imp_right ?_
      rintro ⟨hbelow, hmissing, hnew⟩
      obtain rfl := hz.resolve_right (not_not.mpr hbelow.2)
      refine ⟨hbelow, k, ?_, hnew⟩
      by_contra hthere
      have hthere' := hkeep _ (Option.isSome_iff_ne_none.mpr hthere)
      rw [hmissing] at hthere'
      cases hthere'
    · exact .inr ⟨hroot, j, hnone, createChild_isSome hsome⟩
  · rintro v z y _ ⟨hkeep, hv⟩ _
    refine ⟨fun z hz => overwrite_isSome (hkeep z hz), ?_⟩
    rcases hv with hv | ⟨hroot, j, hnone, hsome⟩
    · exact .inl (placed_overwrite hv)
    · exact .inr ⟨hroot, j, hnone, overwrite_isSome hsome⟩

theorem placed_empty (n : Root) : Placed n.ref emptyTree.info :=
  ⟨fun k hk => (by cases hk), fun _ => rfl⟩

theorem placed_clear (h : EachNode Placed w) : EachNode Placed (w.clear x) :=
  h.modify fun t ht => each_clear (ht [] t.info rfl)

-- ── The condition ────────────────────────────────────────────────────────────

/-- A merge creates no child of its target: the target has one for every child of
    the source.  If the source is at `q` below the target, children of the nodes at
    `q` below itself, at `q` below that and so on become its own; those that come
    after the first key of `q` are then come to. -/
structure NoNewChild (w : World) (x y : Place) : Prop where
  here : ∀ k, (w.view (y.ref.child k)).isSome → (w.view (x.ref.child k)).isSome
  further : ∀ q, q ≠ [] → y.ref = x.ref.below q → ∀ i k, Left q [k] →
    (w.view (y.ref.below ((List.replicate i q).flatten ++ [k]))).isSome →
      (w.view (x.ref.child k)).isSome

/-- What keeps full paths as they should be. -/
def KeepsPaths (w : World) : Operation → Prop
  | .set _ path _ => path.head? ≠ some '\x00'
  | .get _ path => path.head? ≠ some '\x00'
  | .setValue _ _ => True
  | .merge x y _ => x.path ≠ [] ∨ x = y ∨ NoNewChild w x y
  | .assign x y => x.path ≠ [] ∨ x = y ∨ ∀ k, w.view (y.ref.child k) = none
  | .construct _ y => ∀ k, w.view (y.ref.child k) = none
  | .clear _ => True
  | .parseXml _ doc => ∀ children properties, doc = .root children properties →
      children.Good PlainKey ∧ ∀ p ∈ properties, p.2 ≠ [] → PlainKey ('@' :: p.1)
  | .parseHdf _ doc => ∀ nodes, doc = .read nodes → nodes.Good PlainKey
  | .parseJson _ doc => ∀ nodes ∈ doc, nodes.Good PlainKey

theorem no_new_child {x y : Place} (hx : (w.view x.ref).isSome)
    (hy : (w.view y.ref).isSome) (hpath : x.path = []) (h : NoNewChild w x y)
    (hmerges : Merges w x.ref y.ref ow w')
    (hk : (w'.view (x.ref.child k)).isSome) : (w.view (x.ref.child k)).isSome := by
  obtain ⟨t, ht⟩ := Option.isSome_iff_exists.mp (World.view_isSome.mp hy)
  by_cases hxy : x.ref = y.ref
  · obtain ⟨fuel, hmerge⟩ := hmerges
    rw [merge, if_pos hxy] at hmerge
    rw [Option.some.inj hmerge]
    exact hk
  by_cases hin : ∃ q, q ≠ [] ∧ y.ref = x.ref.below q
  · obtain ⟨q, hq, heq⟩ := hin
    obtain ⟨w₁, hmerges₁, hread, -⟩ := merge_inside (x := x.ref) ow hq (heq ▸ hy)
    obtain rfl := hmerges.unique (heq ▸ hmerges₁)
    obtain ⟨N, K, hbounded⟩ := w'.values_bounded x.ref
    have hbelow : ∀ p, (w.values x.ref (q ++ p)).isSome →
        (w.view (y.ref.below p)).isSome := fun p hp => by
      rwa [World.values, World.valueAt_isSome, ← Ref.below_below, ← heq] at hp
    obtain ⟨j, s, rfl⟩ := List.exists_cons_of_ne_nil hq
    have hk' : (w'.values x.ref [k]).isSome := World.valueAt_isSome.mpr hk
    rw [hread, unionAt_isSome, seen] at hk'
    rcases hk' with hthere | hseen
    · exact World.valueAt_isSome.mp hthere
    split at hseen
    · next hlate =>
        rcases hlate with hleft | hfirst
        · -- the key is after the first of the way, and has come from further down
          obtain ⟨i, hi⟩ := exists_of_read hq hbounded hread hseen
          rw [← flatten_replicate_snoc, List.replicate_succ, List.flatten_cons,
            List.append_assoc] at hi
          obtain ⟨l, u, hlu, hlt⟩ := left_singleton.mp hleft
          have hfirst : j < k := (List.cons.inj hlu).1 ▸ hlt
          exact h.further _ hq heq i k (.inl hfirst) (hbelow _ hi)
        · obtain ⟨rfl, -⟩ := List.cons_prefix_cons.mp hfirst
          refine World.view_isSome_of_below (p := s) ?_
          rw [Ref.child_below, ← heq]
          exact hy
    · exact h.here k (hbelow [k] hseen)
  · have happart : Undisturbed w x y := by
      refine ⟨fun q hq heq => ?_, fun q hq heq => absurd ⟨q, hq, heq⟩ hin⟩
      have hnil : x.path = y.path ++ q := congrArg Ref.path heq
      rw [hpath] at hnil
      exact hq (List.append_eq_nil_iff.mp hnil.symm).2
    obtain ⟨w₁, hmerges₁, hmerged⟩ := merge_apart ow hx ht (happart.apart hxy ht)
    obtain rfl := hmerges.unique hmerges₁
    refine (hmerged.child hx hk).elim id fun hsource => h.here k ?_
    rw [Ref.child, World.view_below, ht]
    exact hsource

/-- A copy of a tree is placed, as far as it is asked for. -/
theorem placed_construct {fuel : Nat} (h : EachNode Placed w) (hy : (w.view y).isSome)
    (hn : y.root ≠ n) (hconstruct : construct fuel w n y = some w')
    (hleaf : n = .copy ∨ ∀ k, w.view (y.child k) = none) : EachNode Placed w' := by
  obtain ⟨t, ht⟩ := Option.isSome_iff_exists.mp (World.view_isSome.mp hy)
  obtain ⟨fuel', w₁, hconstruct', hmerged⟩ := construct_merged ht hn
  obtain rfl : w' = w₁ := Merges.unique ⟨fuel, hconstruct⟩ ⟨fuel', hconstruct'⟩
  have hsource : ((w.fresh n).view y).isSome := by
    rw [view_fresh_of_ne hn]
    exact hy
  refine placed_merge (h.fresh (placed_empty n)) hsource ⟨fuel, hconstruct⟩ ?_
  rcases hleaf with hcopy | hnone
  · exact .inl hcopy
  · refine .inr (.inr fun k hk => (hmerged.child view_fresh_isSome hk).elim id ?_)
    intro hchild
    have hnone' := hnone k
    rw [Ref.child, World.view_below, ht, Option.bind_some] at hnone'
    rw [hnone'] at hchild
    cases hchild

theorem placed_assign (h : EachNode Placed w) (ha : (w.view a.ref).isSome)
    (hb : (w.view b.ref).isSome)
    (hroot : a.path ≠ [] ∨ a = b ∨ ∀ k, w.view (b.ref.child k) = none)
    (hassign : Assigns w a b w') : EachNode Placed w' := by
  by_cases hab : a = b
  · obtain ⟨fuel, hassign⟩ := hassign
    rw [assign, if_pos hab] at hassign
    rw [← Option.some.inj hassign]
    exact h
  obtain ⟨w₃, hassign₃, hvalue⟩ := assign_value ha hb
  obtain rfl := hassign.unique hassign₃
  obtain ⟨fuel, hassign⟩ := hassign
  rw [assign, if_neg hab] at hassign
  obtain ⟨w₁, hconstruct, hrest⟩ := Option.bind_eq_some_iff.mp hassign
  obtain ⟨w₂, hmerge, rfl⟩ := Option.map_eq_some_iff.mp hrest
  have hcopy : EachNode Placed w₁ :=
    placed_construct h hb (place_ne_copy b _ rfl) hconstruct (.inl rfl)
  refine EachNode.fresh ?_ (placed_empty .copy)
  refine placed_merge (placed_clear hcopy) ?_ ⟨fuel, hmerge⟩ (.inr ?_)
  · have hne : ∀ p, Root.copy.ref ≠ a.ref.below p := fun p hp =>
      Root.noConfusion (congrArg Ref.root hp)
    rw [view_clear_of_not hne]
    refine merge_isSome ?_ hconstruct view_fresh_isSome
    rw [view_fresh_of_ne (place_ne_copy b _ rfl)]
    exact hb
  · rcases hroot with hpath | heq | hnone
    · exact .inl hpath
    · exact absurd heq hab
    · refine .inr fun k hk => ?_
      have hchild : (w.view (b.ref.child k)).isSome := by
        rw [← World.valueAt_isSome, Ref.child, ← hvalue, World.valueAt_isSome,
          view_fresh_copy]
        exact hk
      rw [hnone k] at hchild
      cases hchild

/-- **ONE STEP** that keeps the paths. -/
theorem placed_step {op : Operation} (h : EachNode Placed w) (hkeeps : KeepsPaths w op)
    (hstep : program.step w op w') : EachNode Placed w' := by
  obtain ⟨hthere, hdoes⟩ := hstep
  have hclear : ∀ {x : Ref} {t : Tree}, Each (fun r => Placed (x.below r)) t →
      Placed (x.below []) (clear t).info := @fun _ t ht => ht [] t.info rfl
  cases op with
  | set x path value =>
      obtain rfl := hdoes
      exact h.modify fun t ht => placed_set value hkeeps ht
  | get x path =>
      obtain rfl := hdoes
      refine h.modify fun t ht => ?_
      rw [get_snd]
      exact placed_set [] hkeeps ht
  | setValue x value =>
      obtain rfl := hdoes
      exact h.modify fun t ht => ht.setValue (grows_placed x.ref)
  | clear x =>
      obtain rfl := hdoes
      exact placed_clear h
  | parseXml x doc =>
      obtain rfl := hdoes
      exact h.modify fun t ht =>
        ht.parseFromXml (grows_placed x.ref) (hclear ht) hkeeps
  | parseHdf x doc =>
      obtain rfl := hdoes
      exact h.modify fun t ht =>
        Each.parseFromHdf (grows_placed x.ref) (hclear ht) hkeeps
  | parseJson x doc =>
      obtain rfl := hdoes
      exact h.modify fun t ht =>
        ht.parseFromJson (grows_placed x.ref) (hclear ht) hkeeps
  | assign x y =>
      exact placed_assign h (hthere x (by simp [Operation.places]))
        (hthere y (by simp [Operation.places])) hkeeps hdoes
  | construct i y =>
      obtain ⟨hi, fuel, hconstruct⟩ := hdoes
      have hy := hthere y (by simp [Operation.places])
      have hroot : y.ref.root ≠ .object i := fun heq => hi (Root.object.inj heq)
      exact placed_construct h hy hroot hconstruct (.inr hkeeps)
  | merge x y ow =>
      have hx := hthere x (by simp [Operation.places])
      have hy := hthere y (by simp [Operation.places])
      by_cases hpath : x.path = []
      · rcases hkeeps.resolve_left (not_not.mpr hpath) with rfl | hnew
        · obtain ⟨fuel, hmerge⟩ := hdoes
          rw [merge, if_pos rfl] at hmerge
          rw [← Option.some.inj hmerge]
          exact h
        · exact placed_merge h hy hdoes (.inr (.inr fun k hk =>
            no_new_child hx hy hpath hnew hdoes hk))
      · exact placed_merge h hy hdoes (.inr (.inl hpath))

-- ── Every run ────────────────────────────────────────────────────────────────

/-- The full path of every node below a root is the keys from the root to it, and
    the root finds the node by it. -/
def FullPaths (w : World) : Prop :=
  ∀ (n : Nat) p i, p ≠ [] → (w.tree (.object n)).view p = some i →
    i.fullPath = joined p ∧
      find (w.tree (.object n)) i.fullPath = (w.tree (.object n)).at? p

/-- **FULL PATHS** are the keys on the way, in every state of every run that keeps
    to the condition. -/
theorem full_paths_kept (h : Reachable (program.restrict KeepsPaths) w) :
    FullPaths w := by
  have hplaced : EachNode Placed w := by
    refine h.invariant (I := EachNode Placed) ?_ ?_
    · intro w hinit z i hz
      rw [World.view, hinit z.root] at hz
      obtain ⟨root, path⟩ := z
      cases path with
      | nil =>
          obtain rfl := Option.some.inj hz
          exact placed_empty root
      | cons k p => cases hz
    · rintro w op w' - hplaced ⟨hkeeps, hstep⟩
      exact placed_step hplaced hkeeps hstep
  intro n p i hp hview
  obtain ⟨hplain, hfull⟩ := hplaced ⟨.object n, p⟩ i hview
  have hjoined : i.fullPath = joined p := hfull Root.noConfusion
  exact ⟨hjoined, by rw [hjoined, find_joined hp hplain]⟩

/-- After a path of another tree is set, too. -/
def twoTrees : World :=
  oneChild.modify (Root.object 1).ref (fun t => set t "b".toList "2".toList)
    fun _ h => set_ascending h

/-- The second tree is merged below the child of the first, and cleared. -/
theorem full_paths_kept_merged :
    ∃ w, w.view ⟨.object 0, ["a".toList, "b".toList]⟩ =
      some ⟨"b".toList, "2".toList, "a.b".toList⟩ ∧ FullPaths w := by
  have hmerge : (merge 9 twoTrees ⟨.object 0, ["a".toList]⟩ (Root.object 1).ref true).map
      (fun w => (w.clear (Root.object 1).ref).view
        ⟨.object 0, ["a".toList, "b".toList]⟩) =
      some (some ⟨"b".toList, "2".toList, "a.b".toList⟩) := by decide
  obtain ⟨w, hw, hview⟩ := Option.map_eq_some_iff.mp hmerge
  have hone : Reachable (program.restrict KeepsPaths) oneChild :=
    .next (l := .set ⟨0, []⟩ "a".toList "1".toList) (.start fun _ => rfl)
      ⟨fun h => absurd h (by decide), by decide, rfl⟩
  have htwo : Reachable (program.restrict KeepsPaths) twoTrees :=
    hone.next (l := .set ⟨1, []⟩ "b".toList "2".toList)
      ⟨fun h => absurd h (by decide), by decide, rfl⟩
  have hmerged : Reachable (program.restrict KeepsPaths) w :=
    htwo.next (l := .merge ⟨0, ["a".toList]⟩ ⟨1, []⟩ true)
      ⟨.inl (by decide), by decide, 9, hw⟩
  refine ⟨_, hview, full_paths_kept
    (hmerged.next (l := .clear ⟨1, []⟩) ⟨trivial, ?_, rfl⟩)⟩
  intro x hx
  obtain rfl := List.mem_singleton.mp hx
  rfl

/-- The root is copied: the child's full path is `.a`. -/
theorem full_paths_copied : ¬∀ w, Reachable program w → FullPaths w := by
  intro h
  have hcopy : (construct 9 oneChild (.object 1) (Root.object 0).ref).map
      (fun w => w.view ⟨.object 1, ["a".toList]⟩) =
      some (some ⟨"a".toList, "1".toList, ".a".toList⟩) := by decide
  obtain ⟨w, hw, hview⟩ := Option.map_eq_some_iff.mp hcopy
  have hset : Reachable program oneChild :=
    .next (l := .set ⟨0, []⟩ "a".toList "1".toList) (.start fun _ => rfl)
      ⟨by decide, rfl⟩
  have hreach : Reachable program w :=
    .next (l := .construct 1 ⟨0, []⟩) hset ⟨by decide, by decide, 9, hw⟩
  have hpath := (h w hreach 1 ["a".toList] _ (by simp) hview).1
  revert hpath
  decide

end FlinterTree
