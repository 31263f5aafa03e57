import Mathlib.Data.Finset.Card
import Flinter.PositionProofs
import Flinter.TreeMergeProofs

/-! # Merging what lies below

    A node may be merged with one below itself.  Then the target's counterpart of
    a source's node is above it, and may belong to the source: what is read there
    later is what was written before.  Which of both comes first is a matter of
    the order of the keys alone.

    On the way every position is still as it was, or was left behind with what it
    is to be, or is being merged: then it has what it had or, if it is new, what
    it was created with.  As the tree does not get any deeper, the merge ends. -/

namespace FlinterTree

open Forests Forest

variable {V C C' : List Text → Option Text} {q p r s : List Text} {j k : Text}
variable {c : Option Text} {ow : Bool} {D E : List Text → Prop}

-- ── What is read ─────────────────────────────────────────────────────────────

/-- The merge has written the node at `q` below a position before it reads what
    is there for the position itself. -/
def Late (q p : List Text) : Prop := Left (q ++ p) p ∨ p <+: q ++ p

instance : Decidable (Late q p) := by
  unfold Late
  infer_instance

/-- What is read for a position: `V` are the values in the beginning, `C` those
    in the end. -/
def seen (V C : List Text → Option Text) (q p : List Text) : Option Text :=
  if Late q p then C (q ++ p) else V (q ++ p)

theorem seen_congr (h : Late q p → C' (q ++ p) = C (q ++ p)) :
    seen V C' q p = seen V C q p := by
  rw [seen, seen]
  split
  · next hlate => exact h hlate
  · rfl

-- ── On the way ───────────────────────────────────────────────────────────────

/-- What is left behind at a node where the iteration stands at `c`. -/
def Done (r : List Text) (c : Option Text) (p : List Text) : Prop :=
  Left p r ∨ ∃ k s, p = r ++ k :: s ∧ ¬Behind c k

/-- What is left behind after a node. -/
def Finished (r p : List Text) : Prop := Left p r ∨ r <+: p

/-- The values on the way, where the positions in `D` are left behind and those in
    `E` are being merged. -/
structure Midway (V C : List Text → Option Text) (q : List Text) (ow : Bool)
    (D E : List Text → Prop) : Prop where
  done : ∀ p, D p → C p = unionAt ow (V p) (seen V C q p)
  opened : ∀ p, E p → (V p).isSome ∧ C p = V p ∨
    V p = none ∧ ¬p <+: q ++ p ∧ C p = seen V C q p
  rest : ∀ p, ¬D p → ¬E p → C p = V p
  kept : ∀ p, (V p).isSome → (C p).isSome

/-- The nodes above a node are there. -/
def Closed (V : List Text → Option Text) : Prop :=
  ∀ p s, (V (p ++ s)).isSome → (V p).isSome

theorem Done.left (h : Done r c p) (hleft : Left s p) : Done r c s := by
  rcases h with h | ⟨k, t, rfl, hk⟩
  · exact .inl (hleft.trans h)
  · rcases left_append_right.mp hleft with h | ⟨u, rfl, hu⟩
    · exact .inl h
    · cases u with
      | nil => cases hu
      | cons j u =>
          refine .inr ⟨j, u, rfl, fun hj => hk fun b hb => (hj b hb).trans_le ?_⟩
          rcases hu with hlt | ⟨rfl, -⟩
          · exact hlt.le
          · exact le_rfl

theorem Done.below (h : Done r c p) (hbelow : p <+: s) : Done r c s := by
  obtain ⟨t, rfl⟩ := hbelow
  rcases h with h | ⟨k, u, rfl, hk⟩
  · exact .inl (by simpa using h.append t [])
  · exact .inr ⟨k, u ++ t, by simp, hk⟩

/-- What was read late has been left behind. -/
theorem Done.late (h : Done r c p) (hlate : Late q p) : Done r c (q ++ p) := by
  rcases hlate with hleft | hbelow
  · exact h.left hleft
  · exact h.below hbelow

theorem not_done_self : ¬Done r c r := by
  rintro (h | ⟨k, s, h, -⟩)
  · have h' : Left (r ++ []) r := by rwa [List.append_nil]
    exact not_left_append h'
  · simp at h

theorem not_done_child (hk : Behind c k) : ¬Done r c (r ++ k :: s) := by
  rintro (h | ⟨j, t, h, hj⟩)
  · exact not_left_append h
  · obtain ⟨rfl, -⟩ := List.cons.inj (List.append_cancel_left h)
    exact hj hk

theorem not_child_prefix : ¬r ++ k :: s <+: r := fun h => by
  have hle := h.length_le
  rw [List.length_append, List.length_cons] at hle
  omega

/-- What is left behind is left of what is behind. -/
theorem Done.left_child (h : Done r c p) (hk : Behind c k) : Left p (r ++ k :: s) := by
  rcases h with h | ⟨j, t, rfl, hj⟩
  · simpa using h.append [] (k :: s)
  · refine left_append.mpr (.inl (lt_of_not_ge fun hle => hj fun b hb => ?_))
    exact (hk b hb).trans_le hle

theorem done_none : Done r none p ↔ Left p r := by
  refine or_iff_left ?_
  rintro ⟨j, t, -, hj⟩
  exact hj fun b hb => by cases hb

theorem length_lt (hq : q ≠ []) : p.length < (q ++ p).length := by
  rw [List.length_append]
  have := List.length_pos_of_ne_nil hq
  omega

/-- What is read for a position from now on is what is there now: if it is not
    read late, nothing has come to it. -/
theorem Midway.seen_eq (h : Midway V C q ow (Done r c) (· <+: r)) (hq : q ≠ [])
    (hlen : r.length ≤ p.length) (hdone : Done r c (q ++ p) → Late q p) :
    seen V C q p = C (q ++ p) := by
  rw [seen]
  split
  · rfl
  · next hlate =>
      refine (h.rest _ (fun hd => hlate (hdone hd)) fun hopen => ?_).symm
      have hle := hopen.length_le
      have hlt := length_lt (p := p) hq
      omega

/-- A child whose counterpart is not there is left behind as it is. -/
theorem Midway.skip (h : Midway V C q ow (Done r c) (· <+: r)) (hC : Closed C)
    (hbehind : Behind c j) (hnone : C (q ++ (r ++ [j])) = none) :
    C (r ++ j :: s) = unionAt ow (V (r ++ j :: s)) (seen V C q (r ++ j :: s)) := by
  have hself : C (r ++ j :: s) = V (r ++ j :: s) :=
    h.rest _ (not_done_child hbehind) not_child_prefix
  have hbelow : C (q ++ (r ++ j :: s)) = none := by
    by_contra hsome
    have habove := hC (q ++ (r ++ [j])) s
    rw [hnone, List.append_assoc, List.append_assoc] at habove
    cases habove (Option.isSome_iff_ne_none.mpr hsome)
  have hseen : seen V C q (r ++ j :: s) = none := by
    rw [seen]
    split
    · exact hbelow
    · by_contra hsome
      have hkept := h.kept _ (Option.isSome_iff_ne_none.mpr hsome)
      rw [hbelow] at hkept
      cases hkept
  rw [hself, hseen, unionAt, if_neg fun h => by cases h.1]

-- ── One position is written ──────────────────────────────────────────────────

section Written

variable {t : List Text}

/-- It is not read for a position that is as long, for it is shorter than what is
    read there. -/
theorem seen_of_length (hC' : ∀ p, p ≠ t → C' p = C p) (hq : q ≠ [])
    (hlen : t.length ≤ p.length) : seen V C' q p = seen V C q p := by
  refine seen_congr fun _ => hC' _ fun heq => ?_
  have hlt := length_lt (p := p) hq
  rw [heq] at hlt
  omega

/-- Nor is it read for what is left behind already. -/
theorem Midway.still_done (h : Midway V C q ow (Done r c) E)
    (hC' : ∀ p, p ≠ t → C' p = C p) (ht : ¬Done r c t) (hp : Done r c p) :
    C' p = unionAt ow (V p) (seen V C' q p) := by
  rw [hC' p fun heq => ht (heq ▸ hp), h.done p hp,
    seen_congr fun hlate => hC' _ fun heq => ht (heq ▸ hp.late hlate)]

/-- Nor for what is above it, if that is new. -/
theorem Midway.still_open (h : Midway V C q ow D E)
    (hC' : ∀ p, p ≠ t → C' p = C p) (hE : E p) (ht : p <+: t) (hne : p ≠ t) :
    (V p).isSome ∧ C' p = V p ∨
      V p = none ∧ ¬p <+: q ++ p ∧ C' p = seen V C' q p := by
  rw [hC' p hne]
  rcases h.opened p hE with hthere | ⟨hnew, hbelow, hvalue⟩
  · exact .inl hthere
  · have hseen : seen V C' q p = seen V C q p :=
      seen_congr fun _ => hC' _ fun heq => hbelow (heq ▸ ht)
    exact .inr ⟨hnew, hbelow, hvalue.trans hseen.symm⟩

/-- What is below a child that was left behind, or has no counterpart. -/
theorem Midway.below_child (h : Midway V C q ow (Done r c) (· <+: r)) (hq : q ≠ [])
    (hC : Closed C) (hC' : ∀ p, p ≠ t → C' p = C p) (hlen : t.length ≤ r.length + 1)
    (hne : r ++ j :: s ≠ t) (hnone : Behind c j → C (q ++ (r ++ [j])) = none) :
    C' (r ++ j :: s) = unionAt ow (V (r ++ j :: s)) (seen V C' q (r ++ j :: s)) := by
  have hlength : t.length ≤ (r ++ j :: s).length := by
    rw [List.length_append, List.length_cons]
    omega
  rw [hC' _ hne, seen_of_length hC' hq hlength]
  by_cases hj : Behind c j
  · exact h.skip hC hj (hnone hj)
  · exact h.done _ (.inr ⟨j, s, rfl, hj⟩)

end Written

/-- A child that is created: nothing has come to its counterpart, unless late. -/
theorem Midway.created (h : Midway V C q ow (Done r c) (· <+: r)) (hq : q ≠ [])
    (hV : Closed V) (hk : (C (q ++ (r ++ [k]))).isSome) (hbehind : Behind c k)
    (hnew : V (r ++ [k]) = none) :
    ¬r ++ [k] <+: q ++ (r ++ [k]) ∧
      C (q ++ (r ++ [k])) = seen V C q (r ++ [k]) := by
  constructor
  · rintro ⟨t, ht⟩
    have hsame : C (q ++ (r ++ [k])) = V (q ++ (r ++ [k])) := by
      refine h.rest _ ?_ ?_
      · rw [← ht, List.append_assoc]
        exact not_done_child hbehind
      · rw [← ht, List.append_assoc]
        exact not_child_prefix
    rw [hsame, ← ht] at hk
    have habove := hV _ _ hk
    rw [hnew] at habove
    cases habove
  · refine (h.seen_eq hq ?_ fun hd => .inl (hd.left_child hbehind)).symm
    rw [List.length_append]
    exact Nat.le_add_right _ _

/-- **A CHILD IS CREATED**, or is there. -/
theorem Midway.open_child (h : Midway V C q ow (Done r c) (· <+: r)) (hq : q ≠ [])
    (hV : Closed V) (hC : Closed C) (hk : (C (q ++ (r ++ [k]))).isSome)
    (hbehind : Behind c k)
    (hleast : ∀ j, (C (q ++ (r ++ [j]))).isSome → Behind c j → k ≤ j)
    (hself : C' (r ++ [k]) = (C (r ++ [k])).or (C (q ++ (r ++ [k]))))
    (hC' : ∀ p, p ≠ r ++ [k] → C' p = C p) :
    Midway V C' q ow (Done (r ++ [k]) none) (· <+: r ++ [k]) := by
  have hnot : ¬Done r c (r ++ [k]) := not_done_child hbehind
  have hlength : (r ++ [k]).length = r.length + 1 := List.length_append
  refine ⟨fun p hp => ?_, fun p hp => ?_, fun p hp hopen => ?_, fun p hp => ?_⟩
  · rcases left_snoc.mp (done_none.mp hp) with hleft | ⟨j, s, rfl, hlt⟩
    · exact h.still_done hC' hnot (.inl hleft)
    · refine h.below_child hq hC hC' hlength.le (fun heq => ?_) fun hj => ?_
      · exact hlt.ne (List.cons.inj (List.append_cancel_left heq)).1
      · by_contra hsome
        exact hlt.not_ge (hleast j (Option.isSome_iff_ne_none.mpr hsome) hj)
  · rcases List.prefix_concat_iff.mp hp with rfl | hp
    · rw [hself, h.rest _ hnot not_child_prefix, seen_of_length hC' hq le_rfl]
      cases hnew : V (r ++ [k]) with
      | some v => exact .inl ⟨rfl, rfl⟩
      | none => exact .inr ⟨rfl, h.created hq hV hk hbehind hnew⟩
    · refine h.still_open hC' hp (hp.trans (List.prefix_append r [k])) fun heq => ?_
      exact not_child_prefix (heq ▸ hp)
  · have hne : p ≠ r ++ [k] := fun heq => hopen (heq ▸ List.prefix_refl _)
    rw [hC' p hne]
    refine h.rest p (fun hd => hp (.inl (hd.left_child hbehind))) fun ho => hopen ?_
    exact ho.trans (List.prefix_append r [k])
  · have hkept := h.kept p hp
    by_cases heq : p = r ++ [k]
    · subst heq
      rw [hself, Option.isSome_or, hkept]
      rfl
    · rw [hC' p heq]
      exact hkept

/-- The end of a node that is merged. -/
theorem Midway.overwritten (h : Midway V C q ow (Done r c) (· <+: r)) (hq : q ≠ [])
    (hr : (C (q ++ r)).isSome) :
    (if ow then C (q ++ r) else C r) = unionAt ow (V r) (seen V C q r) := by
  have hseen : seen V C q r = C (q ++ r) := by
    refine h.seen_eq hq le_rfl fun hd => ?_
    rcases hd with hleft | ⟨j, s, heq, -⟩
    · exact .inl hleft
    · exact .inr ⟨j :: s, heq.symm⟩
  rw [hseen, unionAt]
  cases ow with
  | true => rw [if_pos rfl, if_pos ⟨hr, .inl rfl⟩]
  | false =>
      rw [if_neg Bool.false_ne_true]
      rcases h.opened r (List.prefix_refl r) with ⟨hthere, hvalue⟩ | ⟨hnew, -, hvalue⟩
      · rw [hvalue, if_neg]
        rintro ⟨-, h | h⟩
        · cases h
        · rw [h] at hthere
          cases hthere
      · rw [hvalue, hseen, if_pos ⟨hr, .inr hnew⟩]

/-- **A NODE IS LEFT BEHIND** -/
theorem Midway.finish (h : Midway V C q ow (Done r c) (· <+: r)) (hq : q ≠ [])
    (hC : Closed C) (hr : (C (q ++ r)).isSome)
    (hnone : ∀ j, (C (q ++ (r ++ [j]))).isSome → ¬Behind c j)
    (hself : C' r = if ow then C (q ++ r) else C r)
    (hC' : ∀ p, p ≠ r → C' p = C p) :
    Midway V C' q ow (Finished r) (fun p => p <+: r ∧ p ≠ r) := by
  refine ⟨fun p hp => ?_, fun p hp => ?_, fun p hp hopen => ?_, fun p hp => ?_⟩
  · rcases hp with hleft | ⟨t, rfl⟩
    · exact h.still_done hC' not_done_self (.inl hleft)
    · cases t with
      | nil =>
          rw [List.append_nil, hself, seen_of_length hC' hq le_rfl]
          exact h.overwritten hq hr
      | cons j s =>
          refine h.below_child hq hC hC' (Nat.le_add_right _ 1) (by simp) fun hj => ?_
          by_contra hsome
          exact hnone j (Option.isSome_iff_ne_none.mpr hsome) hj
  · exact h.still_open hC' hp.1 hp.1 hp.2
  · have hne : p ≠ r := fun heq => hp (.inr (heq ▸ List.prefix_refl _))
    rw [hC' p hne]
    refine h.rest p (fun hd => hp ?_) fun ho => hopen ⟨ho, hne⟩
    rcases hd with hleft | ⟨j, s, rfl, -⟩
    · exact .inl hleft
    · exact .inr (List.prefix_append r _)
  · have hkept := h.kept p hp
    by_cases heq : p = r
    · subst heq
      rw [hself]
      split
      · exact hr
      · exact hkept
    · rw [hC' p heq]
      exact hkept

-- ── The loop ─────────────────────────────────────────────────────────────────

variable {w v v' : World} {x y z : Ref} {N : Nat} {K : Finset Text}

/-- The values at a node and below it. -/
def World.values (w : World) (x : Ref) (p : List Text) : Option Text :=
  w.valueAt (x.below p)

/-- Positions are not longer, and have no other keys. -/
def Bounded (C : List Text → Option Text) (N : Nat) (K : Finset Text) : Prop :=
  ∀ p, (C p).isSome → p.length ≤ N ∧ ∀ k ∈ p, k ∈ K

theorem World.values_closed (w : World) (x : Ref) : Closed (w.values x) := by
  intro p s hs
  rw [World.values, World.valueAt_isSome] at hs ⊢
  rw [← Ref.below_below] at hs
  exact World.view_isSome_of_below hs

theorem World.values_bounded (w : World) (x : Ref) :
    ∃ N K, Bounded (w.values x) N K := by
  cases hx : w.at? x with
  | none =>
      refine ⟨0, ∅, fun p hp => ?_⟩
      rw [World.values, World.valueAt_isSome, World.view_below, hx] at hp
      cases hp
  | some t =>
      refine ⟨t.children.depth, t.children.names.toFinset, fun p hp => ?_⟩
      rw [World.values, World.valueAt_isSome, World.view_below, hx] at hp
      obtain ⟨hlength, hmem⟩ := bounded_of_view (i := t.info) hp
      exact ⟨hlength, fun k hk => List.mem_toFinset.mpr (hmem k hk)⟩

theorem child_values (w : World) (x : Ref) (r : List Text) (k : Text) :
    w.valueAt ((x.below r).child k) = w.values x (r ++ [k]) := by
  rw [World.values, Ref.below_child]

theorem values_createChild (hx : (v.view (x.below r)).isSome)
    (hk : (v.view (y.child k)).isSome) :
    (v.createChild (x.below r) y k).values x (r ++ [k]) =
      (v.values x (r ++ [k])).or (v.valueAt (y.child k)) := by
  obtain ⟨ix, hx⟩ := Option.isSome_iff_exists.mp hx
  obtain ⟨iy, hk⟩ := Option.isSome_iff_exists.mp hk
  rw [← child_values, ← child_values, World.valueAt, World.valueAt, World.valueAt,
    view_createChild hx hk, if_pos rfl, hk]
  cases v.view ((x.below r).child k) <;> rfl

theorem values_createChild_of_ne (hp : p ≠ r ++ [k]) :
    (v.createChild (x.below r) y k).values x p = v.values x p := by
  rw [World.values, World.valueAt, view_createChild_of_ne]
  · rfl
  · rw [Ref.below_child]
    exact fun heq => hp (Ref.below_injective heq)

theorem values_overwrite (hx : (v.view (x.below r)).isSome) (hy : (v.view y).isSome) :
    (v.overwrite (x.below r) y ow).values x r =
      if ow then v.valueAt y else v.values x r := by
  obtain ⟨ix, hx⟩ := Option.isSome_iff_exists.mp hx
  obtain ⟨iy, hy⟩ := Option.isSome_iff_exists.mp hy
  rw [World.values, World.values, World.valueAt, World.valueAt, World.valueAt,
    view_overwrite hx hy, if_pos rfl, hx, hy]
  cases ow <;> rfl

theorem values_overwrite_of_ne (hp : p ≠ r) :
    (v.overwrite (x.below r) y ow).values x p = v.values x p := by
  rw [World.values, World.valueAt, view_overwrite_of_ne]
  · rfl
  · exact fun heq => hp (Ref.below_injective heq)

/-- Nothing gets deeper, and there are no new keys. -/
theorem bounded_createChild (h : Bounded (v.values x) N K)
    (hk : (v.values x (q ++ (r ++ [k]))).isSome) :
    Bounded ((v.createChild (x.below r) y k).values x) N K := by
  intro p hp
  by_cases heq : p = r ++ [k]
  · obtain ⟨hlength, hmem⟩ := h _ hk
    subst heq
    rw [List.length_append] at hlength
    exact ⟨by omega, fun j hj => hmem j (List.mem_append_right q hj)⟩
  · rw [values_createChild_of_ne heq] at hp
    exact h p hp

theorem bounded_overwrite (h : Bounded (v.values x) N K)
    (hx : (v.values x r).isSome) :
    Bounded ((v.overwrite (x.below r) y ow).values x) N K := by
  intro p hp
  by_cases heq : p = r
  · rw [heq]
    exact h r hx
  · rw [values_overwrite_of_ne heq] at hp
    exact h p hp

/-- What is left behind after a child is what was left behind before the next. -/
theorem finished_child_iff : Finished (r ++ [k]) p ↔ Done r (some k) p := by
  constructor
  · rintro (hleft | ⟨t, rfl⟩)
    · rcases left_snoc.mp hleft with hleft | ⟨j, s, rfl, hlt⟩
      · exact .inl hleft
      · exact .inr ⟨j, s, rfl, fun hj => (hj k rfl).asymm hlt⟩
    · exact .inr ⟨k, t, by simp, fun hk => lt_irrefl k (hk k rfl)⟩
  · rintro (hleft | ⟨j, s, rfl, hj⟩)
    · exact .inl (left_snoc.mpr (.inl hleft))
    · have hle : j ≤ k := le_of_not_gt fun hlt => hj fun b hb => by
        rw [← Option.some.inj hb]
        exact hlt
      rcases hle.lt_or_eq with hlt | rfl
      · exact .inl (left_snoc.mpr (.inr ⟨j, s, rfl, hlt⟩))
      · exact .inr ⟨s, by simp⟩

theorem Midway.next_child
    (h : Midway V C q ow (Finished (r ++ [k])) fun p => p <+: r ++ [k] ∧ p ≠ r ++ [k]) :
    Midway V C q ow (Done r (some k)) (· <+: r) := by
  have hopened : ∀ p, p <+: r ++ [k] ∧ p ≠ r ++ [k] ↔ p <+: r := by
    intro p
    rw [List.prefix_concat_iff, or_and_right, and_not_self_iff, false_or,
      and_iff_left_iff_imp]
    rintro hp rfl
    exact not_child_prefix hp
  refine ⟨fun p hp => h.done p (finished_child_iff.mpr hp),
    fun p hp => h.opened p ((hopened p).mpr hp), fun p hp hopen => ?_, h.kept⟩
  exact h.rest p (finished_child_iff.not.mpr hp) ((hopened p).not.mpr hopen)

/-- A node and the one below it are not the same. -/
theorem merge_below {fuel : Nat} (hq : q ≠ []) :
    merge fuel w (x.below p) (x.below (q ++ p)) ow =
      mergeLoop fuel w (x.below p) (x.below (q ++ p)) ow none := by
  refine if_neg fun heq => ?_
  have hlt := length_lt (p := p) hq
  rw [← Ref.below_injective heq] at hlt
  exact lt_irrefl _ hlt

/-- Fewer keys are behind the next one. -/
theorem card_behind_lt (hk : k ∈ K) (hbehind : Behind c k) :
    (K.filter fun j => Behind (some k) j).card <
      (K.filter fun j => Behind c j).card := by
  refine Finset.card_lt_card (Finset.ssubset_iff_subset_ne.mpr
    ⟨fun j hj => ?_, fun heq => ?_⟩)
  · obtain ⟨hj, hlt⟩ := Finset.mem_filter.mp hj
    exact Finset.mem_filter.mpr ⟨hj, fun b hb => (hbehind b hb).trans (hlt k rfl)⟩
  · have hmem : k ∈ K.filter fun j => Behind (some k) j := by
      rw [heq]
      exact Finset.mem_filter.mpr ⟨hk, hbehind⟩
    exact lt_irrefl k ((Finset.mem_filter.mp hmem).2 k rfl)

theorem child_values_append (v : World) (x : Ref) (q r : List Text) (k : Text) :
    (v.view ((x.below (q ++ r)).child k)).isSome ↔
      (v.values x (q ++ (r ++ [k]))).isSome := by
  rw [← World.valueAt_isSome, child_values, List.append_assoc]

/-- The step that creates a child. -/
theorem midway_createChild (hq : q ≠ []) (hV : Closed V)
    (hbounded : Bounded (v.values x) N K)
    (h : Midway V (v.values x) q ow (Done r c) (· <+: r))
    (hx : (v.values x r).isSome) (hnext : v.next (x.below (q ++ r)) c = some k)
    (hv' : v' = v.createChild (x.below r) (x.below (q ++ r)) k) :
    Bounded (v'.values x) N K ∧
      Midway V (v'.values x) q ow (Done (r ++ [k]) none) (· <+: r ++ [k]) ∧
      (v'.values x (r ++ [k])).isSome ∧ k ∈ K ∧ Behind c k := by
  obtain ⟨hk, hbehind, hleast⟩ := World.next_eq_some.mp hnext
  have hself := values_createChild (World.valueAt_isSome.mp hx) hk
  rw [child_values, List.append_assoc] at hself
  rw [child_values_append] at hk
  subst hv'
  refine ⟨bounded_createChild hbounded hk, ?_, ?_, (hbounded _ hk).2 k (by simp),
    hbehind⟩
  · refine h.open_child hq hV (v.values_closed x) hk hbehind (fun j hj hj' => ?_) hself
      fun p hp => values_createChild_of_ne hp
    exact hleast j ((child_values_append v x q r j).mpr hj) hj'
  · rw [hself, Option.isSome_or, hk, Bool.or_true]

/-- The step that ends a node. -/
theorem midway_overwrite (hq : q ≠ [])
    (h : Midway V (v.values x) q ow (Done r c) (· <+: r))
    (hx : (v.values x r).isSome) (hy : (v.values x (q ++ r)).isSome)
    (hnext : v.next (x.below (q ++ r)) c = none) :
    Midway V ((v.overwrite (x.below r) (x.below (q ++ r)) ow).values x) q ow
      (Finished r) fun p => p <+: r ∧ p ≠ r := by
  have hnone := World.next_eq_none.mp hnext
  refine h.finish hq (v.values_closed x) hy (fun j hj => ?_) ?_
    fun p hp => values_overwrite_of_ne hp
  · exact hnone j ((child_values_append v x q r j).mpr hj)
  · exact values_overwrite (World.valueAt_isSome.mp hx) (World.valueAt_isSome.mp hy)

/-- **THE LOOP** gets from where it stands to the end of its node.  The measure is
    how deep it can still get, and how many keys are behind. -/
theorem mergeLoop_midway (hq : q ≠ []) (hV : Closed V) {d : Nat}
    (hd : N < (q ++ r).length + d) (hbounded : Bounded (v.values x) N K)
    (h : Midway V (v.values x) q ow (Done r c) (· <+: r))
    (hx : (v.values x r).isSome) (hy : (v.values x (q ++ r)).isSome) :
    ∃ fuel v', mergeLoop fuel v (x.below r) (x.below (q ++ r)) ow c = some v' ∧
      Bounded (v'.values x) N K ∧
      Midway V (v'.values x) q ow (Finished r) fun p => p <+: r ∧ p ≠ r := by
  induction d generalizing v r c with
  | zero =>
      have hlength := (hbounded _ hy).1
      omega
  | succ d ihd =>
      induction hm : (K.filter fun k => Behind c k).card using
        Nat.strong_induction_on generalizing v c with
      | _ m ihm =>
          cases hnext : v.next (x.below (q ++ r)) c with
          | none =>
              exact ⟨1, v.overwrite (x.below r) (x.below (q ++ r)) ow,
                mergeLoop_done hnext, bounded_overwrite hbounded hx,
                midway_overwrite hq h hx hy hnext⟩
          | some k =>
              obtain ⟨w, hw⟩ : ∃ w, w = v.createChild (x.below r) (x.below (q ++ r)) k :=
                ⟨_, rfl⟩
              obtain ⟨hbounded', hopen, hself, hmem, hbehind⟩ :=
                midway_createChild hq hV hbounded h hx hnext hw
              have hkeep : ∀ z, (v.view z).isSome → (w.view z).isSome := fun z hz => by
                rw [hw]
                exact createChild_isSome hz
              have hsource : (w.values x (q ++ (r ++ [k]))).isSome := by
                rw [← child_values_append]
                exact hkeep _ (World.next_eq_some.mp hnext).1
              have hdeep : N < (q ++ (r ++ [k])).length + d := by
                rw [← List.append_assoc, List.length_append, List.length_singleton]
                omega
              obtain ⟨fuel₁, v₁, hloop₁, hbounded₁, hmid₁⟩ :=
                ihd hdeep hbounded' hopen hself hsource
              rw [← merge_below hq] at hloop₁
              have hthere : ∀ p, (v.values x p).isSome → (v₁.values x p).isSome :=
                fun p hp => World.valueAt_isSome.mpr
                  (merge_isSome (World.valueAt_isSome.mp hsource) hloop₁
                    (hkeep _ (World.valueAt_isSome.mp hp)))
              obtain ⟨fuel₂, v₂, hloop₂, hbounded₂, hmid₂⟩ :=
                ihm _ (hm ▸ card_behind_lt hmem hbehind) hbounded₁ hmid₁.next_child
                  (hthere _ hx) (hthere _ hy) rfl
              refine ⟨max fuel₁ fuel₂ + 1, v₂, ?_, hbounded₂, hmid₂⟩
              rw [mergeLoop_next hnext, ← hw, Ref.below_child, Ref.below_child,
                List.append_assoc, merge_mono hloop₁ (le_max_left fuel₁ fuel₂),
                Option.bind_some, mergeLoop_mono hloop₂ (le_max_right fuel₁ fuel₂)]

-- ── When it is the union ─────────────────────────────────────────────────────

/-- What is merged into the source before it is read makes no difference. -/
def Steady (V : List Text → Option Text) (q : List Text) (ow : Bool) : Prop :=
  ∀ s v, Late q s → V (q ++ (q ++ s)) = some v →
    if ow then (V (q ++ s)).or (V s) = some v else (V s).isSome ∨ (V (q ++ s)).isSome

theorem unionAt_unionAt {a b d : Option Text} :
    unionAt ow a (unionAt ow b d) = unionAt ow a b ↔ ∀ v, d = some v →
      if ow then b.or a = some v else a.isSome ∨ b.isSome := by
  cases ow <;> cases a <;> cases b <;> cases d <;> simp [unionAt, eq_comm]

/-- **THE UNION** is what is left exactly if what is read late makes no
    difference. -/
theorem union_iff_steady (hq : q ≠ []) (hV : Bounded V N K) (hC : Bounded C N K)
    (h : ∀ p, C p = unionAt ow (V p) (seen V C q p)) :
    (∀ p, C p = unionAt ow (V p) (V (q ++ p))) ↔ Steady V q ow := by
  constructor
  · intro hunion s v hlate
    refine unionAt_unionAt.mp ?_ v
    rw [← hunion, ← hunion, h s, seen, if_pos hlate]
  · intro hsteady p
    -- from the deepest positions up
    induction hm : N + 1 - p.length using Nat.strong_induction_on generalizing p with
    | _ m ih =>
        rw [h p, seen]
        split
        · next hlate =>
            by_cases hlong : N < p.length
            · have hnone : ∀ {D}, Bounded D N K → D (q ++ p) = none := by
                intro D hD
                by_contra hsome
                have hlength := (hD _ (Option.isSome_iff_ne_none.mpr hsome)).1
                have hlt := length_lt (p := p) hq
                omega
              rw [hnone hC, hnone hV]
            · have hlt := length_lt (p := p) hq
              rw [ih _ (by omega) (q ++ p) rfl]
              exact unionAt_unionAt.mpr fun v => hsteady p v hlate
        · rfl

theorem flatten_replicate_snoc (i : Nat) (q p : List Text) :
    (List.replicate (i + 1) q).flatten ++ p =
      (List.replicate i q).flatten ++ (q ++ p) := by
  rw [List.replicate_succ', List.flatten_append, List.flatten_singleton,
    List.append_assoc]

/-- What there is in the end was there, at some multiple of the way down. -/
theorem exists_of_read (hq : q ≠ []) (hC : Bounded C N K)
    (h : ∀ p, C p = unionAt ow (V p) (seen V C q p)) (hp : (C p).isSome) :
    ∃ i, (V ((List.replicate i q).flatten ++ p)).isSome := by
  induction hm : N + 1 - p.length using Nat.strong_induction_on generalizing p with
  | _ m ih =>
      rw [h p, unionAt_isSome, seen] at hp
      rcases hp with hp | hp
      · exact ⟨0, hp⟩
      split at hp
      · have hlength := (hC _ hp).1
        have hlt := length_lt (p := p) hq
        obtain ⟨i, hi⟩ := ih _ (by omega) hp rfl
        exact ⟨i + 1, by rw [flatten_replicate_snoc]; exact hi⟩
      · exact ⟨1, by rw [flatten_replicate_snoc]; exact hp⟩

/-- **A MERGE WITH WHAT LIES BELOW** ends, and every position has the union of what
    it had and what was read for it; that is the union with what the source was if
    what is read late makes no difference. -/
theorem merge_inside (ow : Bool) (hq : q ≠ []) (hy : (w.view (x.below q)).isSome) :
    ∃ w', Merges w x (x.below q) ow w' ∧
      (∀ p, w'.values x p =
        unionAt ow (w.values x p) (seen (w.values x) (w'.values x) q p)) ∧
      ((∀ p, w'.values x p = unionAt ow (w.values x p) (w.values x (q ++ p))) ↔
        Steady (w.values x) q ow) := by
  obtain ⟨N, K, hbounded⟩ := w.values_bounded x
  have hself : (w.values x []).isSome := by
    rw [World.values, World.valueAt_isSome, Ref.below_nil]
    exact World.view_isSome_of_below hy
  have hstart : Midway (w.values x) (w.values x) q ow (Done [] none) (· <+: []) := by
    refine ⟨fun p hp => ?_, fun p hp => ?_, fun p _ _ => rfl, fun p hp => hp⟩
    · cases p <;> cases done_none.mp hp
    · rw [List.prefix_nil.mp hp]
      exact .inl ⟨hself, rfl⟩
  obtain ⟨fuel, w', hloop, hbounded', hmid⟩ := mergeLoop_midway (d := N + 1) hq
    (w.values_closed x) (by omega) hbounded hstart hself
    (by rw [List.append_nil]; exact World.valueAt_isSome.mpr hy)
  rw [← merge_below hq, List.append_nil, Ref.below_nil] at hloop
  have hread : ∀ p, w'.values x p =
      unionAt ow (w.values x p) (seen (w.values x) (w'.values x) q p) :=
    fun p => hmid.done p (.inr List.nil_prefix)
  exact ⟨w', ⟨fuel, hloop⟩, hread,
    union_iff_steady hq hbounded hbounded' hread⟩

end FlinterTree
