import Flinter.TreeRunProofs

/-! # Keys and places

    A node that is not a root has its key twice: its parent holds it under the
    one, and it has the other itself, which is what it is serialised with.  Nodes
    are created with both the same.  But `Clear` empties a node's own key, and
    `Merge` and `operator =` take over the other node's, whether or not the node
    is held by a parent. -/

namespace FlinterTree

open Forests Forest Runs

variable {w w' : World} {x y z : Ref} {t t₁ : Tree} {a b : Place} {n : Root}
variable {i : Info} {k : Text} {ow : Bool}

/-- The key is the last one on the way. -/
def Keyed (z : Ref) (i : Info) : Prop := ∀ k, z.path.getLast? = some k → i.key = k

theorem child_getLast? : (x.child k).path.getLast? = some k := by
  rw [Ref.child, Ref.below, List.getLast?_append_of_ne_nil _ (by simp)]
  rfl

theorem keyed_child {fullPath value : Text} :
    Keyed (x.child k) ⟨k, value, fullPath⟩ := by
  intro l hl
  rw [child_getLast?] at hl
  exact Option.some.inj hl

theorem keyed_root (n : Root) (i : Info) : Keyed n.ref i := by
  intro k hk
  cases hk

/-- **WHAT IS CREATED** by `Set` and the parsers has its key. -/
theorem grows_keyed (x : Ref) : Grows (fun _ => True) fun r => Keyed (x.below r) where
  numbered _ _ _ _ := trivial
  indexed _ := trivial
  child r above k v _ _ := by
    rw [← Ref.below_child]
    exact keyed_child
  value r i v h := h

theorem keyed_set {path value : Text} (h : Each (fun r => Keyed (x.below r)) t) :
    Each (fun r => Keyed (x.below r)) (set t path value) := by
  by_cases hp : path = []
  · rw [set, createOrSet, if_pos hp]
    exact h
  · by_cases hfollowed : Followed (components path)
    · rw [set_followed hp hfollowed]
      exact h.ensure (grows_keyed x) fun _ _ => trivial
    · rw [set_not hp hfollowed]
      exact h.ensure (grows_keyed x) fun _ _ => trivial

/-- Documents with any names. -/
theorem XmlNodes.good_true (nodes : XmlNodes) : nodes.Good fun _ => True := by
  induction nodes with
  | nil => trivial
  | element name children properties next ihc ihn =>
      exact ⟨fun _ _ => trivial, ihc, fun _ _ _ => trivial, ihn⟩
  | text name content next ih => exact ih
  | other name next ih => exact ih

theorem HdfNodes.good_true (nodes : HdfNodes) : nodes.Good fun _ => True := by
  induction nodes with
  | nil => trivial
  | node name value children next ihc ihn => exact ⟨trivial, ihc, ihn⟩

theorem JsonNodes.good_true (nodes : JsonNodes) : nodes.Good fun _ => True := by
  induction nodes with
  | nil => trivial
  | scalar name value next ih => exact ⟨fun _ => trivial, ih⟩
  | composite name members next ihm ihn => exact ⟨fun _ => trivial, ihm, ihn⟩

-- ── Merging ──────────────────────────────────────────────────────────────────

/-- The key of a node that is there. -/
theorem key_of_keyed (h : EachNode Keyed w) (hy : (w.view y).isSome)
    (hk : y.path.getLast? = some k) : (w.info y).key = k := by
  obtain ⟨i, hi⟩ := Option.isSome_iff_exists.mp hy
  rw [World.info_of_view hi]
  exact h y i hi k hk

/-- A merge that does not give the node another key: counterparts have the same
    key, and a root that is merged from keeps its own. -/
theorem keyed_merge (h : EachNode Keyed w) (hy : (w.view y).isSome)
    (hkey : ow = true → ∀ k, x.path.getLast? = some k → (w.info y).key = k)
    (hmerge : Merges w x y ow w') : EachNode Keyed w' := by
  obtain ⟨fuel, hmerge⟩ := hmerge
  rw [merge] at hmerge
  split at hmerge
  · rw [← Option.some.inj hmerge]
    exact h
  next hne =>
  have hlast : ∀ {z : Ref}, z.path ≠ [] → ∃ k, z.path.getLast? = some k := fun hz =>
    ⟨_, List.getLast?_eq_some_getLast hz⟩
  refine (mergeLoop_invariant
    (I := fun v => EachNode Keyed v ∧ (y.path = [] → (v.info y).key = (w.info y).key))
    (P := fun x' y' => (y.path = [] → x' ≠ y) ∧ (ow = true → ∀ k,
      x'.path.getLast? = some k → y'.path.getLast? = some k ∨
        y' = y ∧ y.path = [] ∧ k = (w.info y).key))
    ?_ ?_ ?_ ?_ ⟨h, fun _ => rfl⟩ hy hmerge).1.1
  · intro x' y' k _
    refine ⟨fun hroot heq => ?_, fun _ l hl => .inl ?_⟩
    · rw [← heq] at hroot
      exact absurd hroot (by simp [Ref.child, Ref.below])
    · rw [child_getLast?] at hl ⊢
      exact hl
  · rintro v x' y' k - ⟨hv, hroot⟩ hk
    refine ⟨fun z i hz => ?_, fun hpath => ?_⟩
    · obtain ⟨iy, hiy⟩ := Option.isSome_iff_exists.mp hk
      rcases createChild_cases hiy hz with hz | ⟨rfl, -, ix, -, rfl⟩
      · exact hv z i hz
      · exact keyed_child
    · rw [← hroot hpath, World.info, World.info, view_createChild_of_ne]
      rintro rfl
      exact absurd hpath (by simp [Ref.child, Ref.below])
  · rintro v x' y' ⟨hroot', hsame⟩ ⟨hv, hroot⟩ hy'
    refine ⟨fun z i hz => ?_, fun hpath => ?_⟩
    · rcases overwrite_cases hz with hz | ⟨rfl, ix, hix, rfl⟩
      · exact hv z i hz
      · rw [overwritten]
        split
        · next how =>
            intro k hk
            rcases hsame how k hk with hk' | ⟨rfl, hpath, rfl⟩
            · exact key_of_keyed hv hy' hk'
            · exact hroot hpath
        · exact hv z ix hix
    · rw [← hroot hpath, World.info, World.info,
        view_overwrite_of_ne (Ne.symm (hroot' hpath))]
  · refine ⟨fun _ => hne, fun how k hk => ?_⟩
    by_cases hpath : y.path = []
    · exact .inr ⟨rfl, hpath, (hkey how k hk).symm⟩
    · obtain ⟨l, hl⟩ := hlast hpath
      have hl' := key_of_keyed h hy hl
      rw [hkey how k hk] at hl'
      rw [hl']
      exact .inl hl

/-- A merge of what is apart, if the source has its keys. -/
theorem keyed_merged (h : Merged w w' x t ow) (hx : (w.view x).isSome)
    (hother : ∀ z i, z ≠ x → w.view z = some i → Keyed z i)
    (hself : ∀ ix, w.view x = some ix → Keyed x (overwritten ow ix t.info))
    (hsource : ∀ r k i, t.view (r ++ [k]) = some i → i.key = k) :
    EachNode Keyed w' := by
  obtain ⟨ix, hix⟩ := Option.isSome_iff_exists.mp hx
  have hchild : ∀ {r k i j}, t.view (r ++ [k]) = some i →
      Keyed (x.below (r ++ [k])) j →
      Keyed (x.below (r ++ [k])) (overwritten ow j i) := by
    intro r k i j hi hj
    rw [overwritten]
    split
    · intro l hl
      rw [← Ref.below_child, child_getLast?] at hl
      rw [← Option.some.inj hl]
      exact hsource r k i hi
    · exact hj
  refine h.each hix hother (hself ix hix) (fun r k i j hi hj => hchild hi hj)
    fun r k i above hi _ _ => hchild hi ?_
  rw [← Ref.below_child]
  exact keyed_child

/-- The nodes of a source have their keys. -/
theorem keyed_source (h : EachNode Keyed w) (ht : w.at? y = some t) :
    ∀ r k i, t.view (r ++ [k]) = some i → i.key = k := by
  intro r k i hi
  refine h (y.below (r ++ [k])) i ?_ k ?_
  · rw [World.view_below, ht, Option.bind_some, hi]
  · rw [← Ref.below_child, child_getLast?]

theorem keyed_construct (h : EachNode Keyed w) (ht : w.at? y = some t)
    (hmerged : Merged (w.fresh n) w' n.ref t true) : EachNode Keyed w' := by
  exact keyed_merged hmerged view_fresh_isSome
    (fun z i _ hz => h.fresh (keyed_root n _) z i hz) (fun ix _ => keyed_root n _)
    (keyed_source h ht)

/-- The copy of a tree has the key of its root. -/
theorem construct_key (ht₁ : w'.at? n.ref = some t₁)
    (hmerged : Merged (w.fresh n) w' n.ref t true) : t₁.info.key = t.info.key := by
  have hroot := hmerged.self _ view_fresh
  rw [World.view_eq_at?, ht₁] at hroot
  rw [Option.some.inj hroot]
  rfl

/-- An assignment that does not give the node another key. -/
theorem keyed_assign (h : EachNode Keyed w) (ha : (w.view a.ref).isSome)
    (hb : (w.view b.ref).isSome)
    (hkey : a = b ∨ ∀ k, a.path.getLast? = some k → (w.info b.ref).key = k)
    (hassign : Assigns w a b w') : EachNode Keyed w' := by
  by_cases hab : a = b
  · obtain ⟨fuel, hassign⟩ := hassign
    rw [assign, if_pos hab] at hassign
    rw [← Option.some.inj hassign]
    exact h
  obtain ⟨t, ht⟩ := Option.isSome_iff_exists.mp (World.view_isSome.mp hb)
  obtain ⟨w₁, w₂, t₁, ta, hassigns, hmerged₁, ht₁, -, hta, hmerged₂⟩ :=
    assign_merged ha ht hab
  obtain rfl := hassign.unique hassigns
  have hcopy : EachNode Keyed w₁ := keyed_construct h ht hmerged₁
  refine EachNode.fresh ?_ (keyed_root .copy _)
  refine keyed_merged hmerged₂ (view_clear_self hta) (fun z i hz hview => ?_)
    (fun ix _ k hk => ?_) (keyed_source hcopy ht₁)
  · by_cases hin : ∃ p, z = a.ref.below p
    · -- below the node nothing is left
      obtain ⟨p, rfl⟩ := hin
      rw [view_clear_below, hta, Option.bind_some] at hview
      cases p with
      | nil => exact absurd Ref.below_nil hz
      | cons k p => cases hview
    · rw [view_clear_of_not fun p hp => hin ⟨p, hp⟩] at hview
      exact hcopy z i hview
  · have hinfo : w.info b.ref = t.info :=
      World.info_of_view (by rw [World.view_eq_at?, ht]; rfl)
    have hk' := hkey.resolve_left hab k hk
    rw [hinfo, ← construct_key ht₁ hmerged₁] at hk'
    exact hk'

-- ── The condition ────────────────────────────────────────────────────────────

/-- A node may have the key: it is a root, or is held under it. -/
def MayHave (x : Place) (key : Text) : Prop :=
  ∀ k, x.path.getLast? = some k → key = k

/-- What keeps the keys as they should be. -/
def KeepsKeys (w : World) : Operation → Prop
  | .merge x y ow => x = y ∨ (ow = true → MayHave x (w.info y.ref).key)
  | .assign x y => x = y ∨ MayHave x (w.info y.ref).key
  | .clear x => MayHave x []
  | .parseXml x doc => doc = .invalid ∨ MayHave x []
  | .parseHdf x _ => MayHave x []
  | .parseJson x doc => doc = none ∨ MayHave x []
  | _ => True

/-- A cleared node may have the empty key. -/
theorem keyed_clear {x : Place} (h : MayHave x []) (t : Tree) :
    Keyed (x.ref.below []) (clear t).info := by
  rw [Ref.below_nil]
  exact h

/-- **ONE STEP** that keeps the keys. -/
theorem keyed_step {op : Operation} (h : EachNode Keyed w) (hkeeps : KeepsKeys w op)
    (hstep : program.step w op w') : EachNode Keyed w' := by
  obtain ⟨hthere, hdoes⟩ := hstep
  cases op with
  | set x path value =>
      obtain rfl := hdoes
      exact h.modify fun t ht => keyed_set ht
  | get x path =>
      obtain rfl := hdoes
      refine h.modify fun t ht => ?_
      rw [get_snd]
      exact keyed_set ht
  | setValue x value =>
      obtain rfl := hdoes
      exact h.modify fun t ht => ht.setValue (grows_keyed x.ref)
  | clear x =>
      obtain rfl := hdoes
      exact h.modify fun t _ => each_clear (keyed_clear hkeeps t)
  | parseXml x doc =>
      obtain rfl := hdoes
      rcases hkeeps with rfl | hkey
      · exact h.modify fun t ht => ht
      · exact h.modify fun t ht => ht.parseFromXml (grows_keyed x.ref)
          (keyed_clear hkey t) fun children properties _ =>
            ⟨children.good_true, fun _ _ _ => trivial⟩
  | parseHdf x doc =>
      obtain rfl := hdoes
      exact h.modify fun t ht => Each.parseFromHdf (grows_keyed x.ref)
        (keyed_clear hkeeps t) fun nodes _ => nodes.good_true
  | parseJson x doc =>
      obtain rfl := hdoes
      rcases hkeeps with rfl | hkey
      · exact h.modify fun t ht => ht
      · exact h.modify fun t ht => ht.parseFromJson (grows_keyed x.ref)
          (keyed_clear hkey t) fun nodes _ => nodes.good_true
  | assign x y =>
      exact keyed_assign h (hthere x (by simp [Operation.places]))
        (hthere y (by simp [Operation.places])) hkeeps hdoes
  | construct i y =>
      obtain ⟨hi, fuel, hconstruct⟩ := hdoes
      have hy := hthere y (by simp [Operation.places])
      obtain ⟨t, ht⟩ := Option.isSome_iff_exists.mp (World.view_isSome.mp hy)
      have hroot : y.ref.root ≠ .object i := fun heq => hi (Root.object.inj heq)
      obtain ⟨fuel', w₁, hconstruct', hmerged⟩ := construct_merged ht hroot
      obtain rfl : w' = w₁ :=
        Merges.unique ⟨fuel, hconstruct⟩ ⟨fuel', hconstruct'⟩
      exact keyed_construct h ht hmerged
  | merge x y ow =>
      have hy := hthere y (by simp [Operation.places])
      rcases hkeeps with rfl | hkey
      · obtain ⟨fuel, hmerge⟩ := hdoes
        rw [merge, if_pos rfl] at hmerge
        rw [← Option.some.inj hmerge]
        exact h
      · exact keyed_merge h hy hkey hdoes

-- ── Every run ────────────────────────────────────────────────────────────────

/-- Every node that a parent holds has the key that it is held under. -/
def Keys (w : World) : Prop :=
  ∀ (n : Nat) p k i, (w.tree (.object n)).view (p ++ [k]) = some i → i.key = k

/-- **KEYS** match the places, in every state of every run that keeps to the
    condition. -/
theorem keys_kept (h : Reachable (program.restrict KeepsKeys) w) : Keys w := by
  have hkeyed : EachNode Keyed w := by
    refine h.invariant (I := EachNode Keyed) ?_ ?_
    · intro w hinit z i hz
      rw [World.view, hinit z.root] at hz
      obtain ⟨root, path⟩ := z
      cases path with
      | nil => exact keyed_root root i
      | cons k p => cases hz
    · rintro w op w' - hkeyed ⟨hkeeps, hstep⟩
      exact keyed_step hkeyed hkeeps hstep
  exact fun n p k i hview => hkeyed ⟨.object n, p ++ [k]⟩ i hview k (by simp)

/-- A child is set, and the tree parsed anew. -/
theorem keys_kept_one : Keys (oneChild.clear (Root.object 0).ref) := by
  refine keys_kept (.next (l := .clear ⟨0, []⟩)
    (.next (l := .set ⟨0, []⟩ "a".toList "1".toList) (.start fun _ => rfl)
      ⟨trivial, by decide, rfl⟩) ⟨?_, by decide, rfl⟩)
  intro k hk
  cases hk

/-- The child is cleared: it is held under `a`, and has no key. -/
theorem keys_cleared : ¬∀ w, Reachable program w → Keys w := by
  intro h
  have hreach : Reachable program (oneChild.clear ⟨.object 0, ["a".toList]⟩) :=
    .next (l := .clear ⟨0, ["a".toList]⟩)
      (.next (l := .set ⟨0, []⟩ "a".toList "1".toList) (.start fun _ => rfl)
        ⟨by decide, rfl⟩) ⟨by decide, rfl⟩
  have hkey := h _ hreach 0 [] "a".toList ⟨[], [], "a".toList⟩ (by decide)
  exact absurd hkey (by decide)

end FlinterTree
