import Mathlib.Data.List.Infix
import Mathlib.Order.Lattice

/-! # Labelled ordered trees

    A node has a label and a map of children, which are kept in the order of
    their names.  A list of names is a position: where a node is found, put or
    changed.  What a tree looks like from outside is its view, which tells for
    each position the label there, if there is a node at all. -/

namespace Forests

universe u v

/-- Named nodes in a row: the first one, its children, and the others. -/
inductive Forest (κ : Type u) (ι : Type v) where
  | nil
  | cons (name : κ) (info : ι) (children rest : Forest κ ι)
deriving DecidableEq, Repr

/-- A node: its label and its children. -/
structure Node (κ : Type u) (ι : Type v) where
  info : ι
  children : Forest κ ι
deriving DecidableEq, Repr

variable {κ : Type u} {ι : Type v} [LinearOrder κ]
variable {F : Forest κ ι} {n m : Node κ ι} {j k : κ} {p q r : List κ}
variable {c : Option κ}

-- ── Operations ───────────────────────────────────────────────────────────────

namespace Forest

/-- The node of a name. -/
def find (k : κ) : Forest κ ι → Option (Node κ ι)
  | nil => none
  | cons name info children rest =>
      if k = name then some ⟨info, children⟩ else rest.find k

/-- A node is put before the first larger name. -/
def place (k : κ) (n : Node κ ι) : Forest κ ι → Forest κ ι
  | nil => cons k n.info n.children nil
  | cons name info children rest =>
      if k < name then cons k n.info n.children (cons name info children rest)
      else cons name info children (rest.place k n)

/-- A node is put in, unless there is one of that name. -/
def insert (k : κ) (n : Node κ ι) (F : Forest κ ι) : Forest κ ι :=
  if (F.find k).isSome then F else F.place k n

/-- The node of a name is changed. -/
def alter (k : κ) (f : Node κ ι → Node κ ι) : Forest κ ι → Forest κ ι
  | nil => nil
  | cons name info children rest =>
      if k = name then
        cons name (f ⟨info, children⟩).info (f ⟨info, children⟩).children rest
      else cons name info children (rest.alter k f)

/-- The name is behind where an iteration stands. -/
def Behind (c : Option κ) (k : κ) : Prop := ∀ b ∈ c, b < k

instance : Decidable (Behind c k) := by
  unfold Behind
  infer_instance

/-- The first name behind. -/
def next (c : Option κ) : Forest κ ι → Option κ
  | nil => none
  | cons name _ _ rest => if Behind c name then some name else rest.next c

/-- All names are behind. -/
def AllBehind (c : Option κ) : Forest κ ι → Prop
  | nil => True
  | cons name _ _ rest => Behind c name ∧ rest.AllBehind c

/-- The names go up, at every level. -/
def Ascending : Forest κ ι → Prop
  | nil => True
  | cons name _ children rest =>
      rest.AllBehind (some name) ∧ children.Ascending ∧ rest.Ascending

end Forest

namespace Node

/-- The node at a position. -/
def at? : List κ → Node κ ι → Option (Node κ ι)
  | [], n => some n
  | k :: p, n => (n.children.find k).bind (at? p)

/-- The node at a position is changed. -/
def modify (f : Node κ ι → Node κ ι) : List κ → Node κ ι → Node κ ι
  | [], n => f n
  | k :: p, n => { n with children := n.children.alter k (modify f p) }

/-- A child without children is put in, unless there is one of that name. -/
def add (k : κ) (i : ι) (n : Node κ ι) : Node κ ι :=
  { n with children := n.children.insert k ⟨i, .nil⟩ }

/-- The label is changed. -/
def relabel (g : ι → ι) (n : Node κ ι) : Node κ ι := { n with info := g n.info }

/-- The label at a position. -/
def view (n : Node κ ι) (p : List κ) : Option ι := (n.at? p).map info

/-- The names go up. -/
def Ascending (n : Node κ ι) : Prop := n.children.Ascending

end Node

-- ── Finding ──────────────────────────────────────────────────────────────────

namespace Forest

variable {f : Node κ ι → Node κ ι}

theorem find_place_self (h : F.find k = none) : (F.place k n).find k = some n := by
  induction F with
  | nil => exact if_pos rfl
  | cons name info children rest _ ih =>
      rw [find] at h
      have hname : k ≠ name := fun heq => by simp [heq] at h
      rw [if_neg hname] at h
      rw [place]
      split
      · exact if_pos rfl
      · rw [find, if_neg hname]
        exact ih h

theorem find_place_of_ne (h : j ≠ k) : (F.place k n).find j = F.find j := by
  induction F with
  | nil => exact if_neg h
  | cons name info children rest _ ih =>
      rw [place]
      split
      · exact if_neg h
      · rw [find, find, ih]

/-- What is found after a node was put in. -/
theorem find_insert :
    (F.insert k n).find j =
      if j = k then some ((F.find k).getD n) else F.find j := by
  rw [insert]
  cases h : F.find k with
  | none =>
      rw [if_neg (by simp)]
      split
      · next heq =>
          subst heq
          exact find_place_self h
      · next hne => exact find_place_of_ne hne
  | some m =>
      rw [if_pos (by rfl)]
      split
      · next heq =>
          subst heq
          exact h
      · rfl

theorem insert_of_some (h : (F.find k).isSome) : F.insert k n = F := if_pos h

theorem find_alter :
    (F.alter k f).find j = if j = k then (F.find j).map f else F.find j := by
  induction F with
  | nil => simp [alter, find]
  | cons name info children rest _ ih =>
      rw [alter]
      by_cases hname : k = name
      · subst hname
        rw [if_pos rfl, find, find]
        by_cases hj : j = k
        · rw [if_pos hj, if_pos hj, if_pos hj]
          rfl
        · rw [if_neg hj, if_neg hj, if_neg hj]
      · rw [if_neg hname, find, find, ih]
        by_cases hj : j = name
        · subst hj
          rw [if_pos rfl, if_neg (Ne.symm hname), if_pos rfl]
        · rw [if_neg hj, if_neg hj]

theorem alter_congr {g : Node κ ι → Node κ ι}
    (h : ∀ n, F.find k = some n → f n = g n) : F.alter k f = F.alter k g := by
  induction F with
  | nil => rfl
  | cons name info children rest _ ih =>
      rw [alter, alter]
      split
      · next heq => rw [h ⟨info, children⟩ (if_pos heq)]
      · next hne => rw [ih fun n hn => h n ((if_neg hne).trans hn)]

/-- A change that changes nothing. -/
theorem alter_self (h : ∀ n, F.find k = some n → f n = n) : F.alter k f = F := by
  induction F with
  | nil => rfl
  | cons name info children rest _ ih =>
      rw [alter]
      split
      · next heq => rw [h ⟨info, children⟩ (if_pos heq)]
      · next hne => rw [ih fun n hn => h n ((if_neg hne).trans hn)]

-- ── The order of the names ───────────────────────────────────────────────────

theorem AllBehind.find (h : F.AllBehind c) (hk : (F.find k).isSome) : Behind c k := by
  induction F with
  | nil => cases hk
  | cons name info children rest _ ih =>
      rw [Forest.find] at hk
      split at hk
      · next heq =>
          rw [heq]
          exact h.1
      · exact ih h.2 hk

/-- At the start of an iteration. -/
theorem allBehind_none : F.AllBehind none := by
  induction F with
  | nil => trivial
  | cons name info children rest _ ih => exact ⟨fun b hb => (by cases hb), ih⟩

theorem AllBehind.of_le {b : κ} (h : F.AllBehind (some b)) (hc : Behind c b) :
    F.AllBehind c := by
  induction F with
  | nil => trivial
  | cons name info children rest _ ih =>
      exact ⟨fun a ha => (hc a ha).trans (h.1 b rfl), ih h.2⟩

theorem AllBehind.place (h : F.AllBehind c) (hk : Behind c k) :
    (F.place k n).AllBehind c := by
  induction F with
  | nil => exact ⟨hk, trivial⟩
  | cons name info children rest _ ih =>
      rw [Forest.place]
      split
      · exact ⟨hk, h⟩
      · exact ⟨h.1, ih h.2⟩

theorem AllBehind.alter (h : F.AllBehind c) : (F.alter k f).AllBehind c := by
  induction F with
  | nil => trivial
  | cons name info children rest _ ih =>
      rw [Forest.alter]
      split
      · exact h
      · exact ⟨h.1, ih h.2⟩

theorem Ascending.find (h : F.Ascending) (hn : F.find k = some n) : n.Ascending := by
  induction F with
  | nil => cases hn
  | cons name info children rest _ ih =>
      rw [Forest.find] at hn
      split at hn
      · obtain rfl := Option.some.inj hn
        exact h.2.1
      · exact ih h.2.2 hn

theorem Ascending.place (h : F.Ascending) (hn : n.Ascending)
    (hk : F.find k = none) : (F.place k n).Ascending := by
  induction F with
  | nil => exact ⟨trivial, hn, trivial⟩
  | cons name info children rest _ ih =>
      rw [Forest.find] at hk
      have hname : k ≠ name := fun heq => by simp [heq] at hk
      rw [if_neg hname] at hk
      rw [Forest.place]
      split
      · next hlt =>
          have hbehind : Behind (some k) name := fun b hb => by
            rwa [← Option.some.inj hb]
          exact ⟨⟨hbehind, h.1.of_le hbehind⟩, hn, h⟩
      · next hge =>
          have hbehind : Behind (some name) k := fun b hb => by
            rw [← Option.some.inj hb]
            exact lt_of_le_of_ne (not_lt.mp hge) (Ne.symm hname)
          exact ⟨h.1.place hbehind, h.2.1, ih h.2.2 hk⟩

theorem Ascending.insert (h : F.Ascending) (hn : n.Ascending) :
    (F.insert k n).Ascending := by
  rw [Forest.insert]
  split
  · exact h
  · next hk => exact h.place hn (Option.not_isSome_iff_eq_none.mp hk)

theorem Ascending.alter (h : F.Ascending) (hf : ∀ n, n.Ascending → (f n).Ascending) :
    (F.alter k f).Ascending := by
  induction F with
  | nil => trivial
  | cons name info children rest _ ih =>
      rw [Forest.alter]
      split
      · exact ⟨h.1, hf ⟨info, children⟩ h.2.1, h.2.2⟩
      · exact ⟨h.1.alter, h.2.1, ih h.2.2⟩

-- ── Iterating ────────────────────────────────────────────────────────────────

theorem next_eq_none : F.next c = none ↔
    ∀ k, (F.find k).isSome → ¬Behind c k := by
  induction F with
  | nil => simp [next, Forest.find]
  | cons name info children rest _ ih =>
      rw [next]
      split
      · next hbehind =>
          refine iff_of_false (by simp) fun h => h name ?_ hbehind
          rw [Forest.find, if_pos rfl]
          rfl
      · next hnot =>
          rw [ih]
          constructor
          · intro h k hk
            rw [Forest.find] at hk
            split at hk
            · next heq => rwa [heq]
            · exact h k hk
          · intro h k hk hbehind
            refine h k ?_ hbehind
            rw [Forest.find]
            split
            · rfl
            · exact hk

/-- **THE NEXT NAME** is the smallest one behind. -/
theorem next_eq_some (hF : F.Ascending) : F.next c = some k ↔
    (F.find k).isSome ∧ Behind c k ∧
      ∀ j, (F.find j).isSome → Behind c j → k ≤ j := by
  induction F with
  | nil => simp [next, Forest.find]
  | cons name info children rest _ ih =>
      obtain ⟨hrest, -, hF⟩ := hF
      have hself : ((cons name info children rest).find name).isSome := by
        rw [Forest.find, if_pos rfl]
        rfl
      rw [next]
      split
      · next hbehind =>
          constructor
          · intro h
            obtain rfl := Option.some.inj h
            refine ⟨hself, hbehind, fun j hj _ => ?_⟩
            rw [Forest.find] at hj
            split at hj
            · next heq => exact heq.ge
            · exact (hrest.find hj name rfl).le
          · rintro ⟨hk, -, hleast⟩
            rw [Forest.find] at hk
            split at hk
            · next heq => rw [heq]
            · have hlt := hrest.find hk name rfl
              exact absurd (hleast name hself hbehind) (not_le.mpr hlt)
      · next hnot =>
          have hfind : ∀ {j}, Behind c j →
              (((cons name info children rest).find j).isSome ↔
                (rest.find j).isSome) := by
            intro j hj
            have hne : j ≠ name := fun heq => hnot (heq ▸ hj)
            rw [Forest.find, if_neg hne]
          rw [ih hF]
          constructor
          · rintro ⟨hk, hbehind, hleast⟩
            exact ⟨(hfind hbehind).mpr hk, hbehind,
              fun j hj hc => hleast j ((hfind hc).mp hj) hc⟩
          · rintro ⟨hk, hbehind, hleast⟩
            exact ⟨(hfind hbehind).mp hk, hbehind,
              fun j hj hc => hleast j ((hfind hc).mpr hj) hc⟩

end Forest

-- ── Positions ────────────────────────────────────────────────────────────────

namespace Node

variable {f : Node κ ι → Node κ ι}

@[simp] theorem at?_nil : n.at? [] = some n := rfl

theorem at?_cons : n.at? (k :: p) = (n.children.find k).bind (at? p) := rfl

theorem at?_append : n.at? (p ++ q) = (n.at? p).bind (at? q) := by
  induction p generalizing n with
  | nil => rfl
  | cons k p ih =>
      rw [List.cons_append, at?_cons, at?_cons, Option.bind_assoc]
      exact Option.bind_congr fun m _ => ih

@[simp] theorem view_nil : n.view [] = some n.info := rfl

theorem view_cons : n.view (k :: p) = (n.children.find k).bind (fun m => m.view p) := by
  rw [view, at?_cons, Option.map_bind]
  rfl

theorem view_append : n.view (p ++ q) = (n.at? p).bind (fun m => m.view q) := by
  rw [view, at?_append, Option.map_bind]
  rfl

theorem view_isSome : (n.view p).isSome ↔ (n.at? p).isSome := by
  rw [view, Option.isSome_map]

/-- There are nodes on the way to a node. -/
theorem view_isSome_of_append (h : (n.view (p ++ q)).isSome) : (n.view p).isSome := by
  rw [view_append] at h
  obtain ⟨m, hm, -⟩ := Option.bind_eq_some_iff.mp (Option.eq_some_of_isSome h)
  rw [view_isSome, hm]
  rfl

theorem at?_ascending (h : n.Ascending) (hm : n.at? p = some m) : m.Ascending := by
  induction p generalizing n with
  | nil =>
      obtain rfl := Option.some.inj hm
      exact h
  | cons k p ih =>
      obtain ⟨m', hfind, hm⟩ := Option.bind_eq_some_iff.mp hm
      exact ih (Forest.Ascending.find h hfind) hm

theorem modify_ascending (h : n.Ascending)
    (hf : ∀ n, n.Ascending → (f n).Ascending) : (n.modify f p).Ascending := by
  induction p generalizing n with
  | nil => exact hf n h
  | cons k p ih => exact Forest.Ascending.alter h fun m hm => ih hm

theorem at?_modify_append :
    (n.modify f p).at? (p ++ q) = (n.at? p).bind (fun m => (f m).at? q) := by
  induction p generalizing n with
  | nil => rfl
  | cons k p ih =>
      rw [List.cons_append, at?_cons, at?_cons, modify]
      dsimp only
      rw [Forest.find_alter, if_pos rfl, Option.bind_map, Option.bind_assoc]
      exact Option.bind_congr fun m _ => ih

/-- At and below the position, the view is that of the changed node. -/
theorem view_modify_append :
    (n.modify f p).view (p ++ q) = (n.at? p).bind (fun m => (f m).view q) := by
  rw [view, at?_modify_append, Option.map_bind]
  rfl

/-- Elsewhere it stays the same. -/
theorem view_modify_of_not (h : ¬p <+: r) : (n.modify f p).view r = n.view r := by
  induction p generalizing n r with
  | nil => exact absurd List.nil_prefix h
  | cons k p ih =>
      cases r with
      | nil => rfl
      | cons j r =>
          rw [view_cons, view_cons, modify]
          dsimp only
          rw [Forest.find_alter]
          split
          · next heq =>
              subst heq
              rw [Option.bind_map]
              refine Option.bind_congr fun m _ => ih fun hp => h ?_
              exact List.cons_prefix_cons.mpr ⟨rfl, hp⟩
          · rfl

theorem add_ascending {i : ι} (h : n.Ascending) : (n.add k i).Ascending :=
  Forest.Ascending.insert h trivial

theorem view_add_self {i : ι} :
    (n.add k i).view [k] = some ((n.view [k]).getD i) := by
  rw [view_cons, view_cons, add]
  dsimp only
  rw [Forest.find_insert, if_pos rfl]
  cases n.children.find k with
  | none => rfl
  | some m => rfl

theorem view_add_of_ne {i : ι} (h : r ≠ [k]) : (n.add k i).view r = n.view r := by
  cases r with
  | nil => rfl
  | cons j r =>
      rw [view_cons, view_cons, add]
      dsimp only
      rw [Forest.find_insert]
      split
      · next hj =>
          subst hj
          have hr : r ≠ [] := fun hr => h (by rw [hr])
          obtain ⟨l, s, rfl⟩ := List.exists_cons_of_ne_nil hr
          cases n.children.find j with
          | none => rfl
          | some m => rfl
      · rfl

theorem relabel_ascending {g : ι → ι} (h : n.Ascending) :
    (n.relabel g).Ascending := h

theorem view_relabel_of_ne {g : ι → ι} (h : r ≠ []) :
    (n.relabel g).view r = n.view r := by
  obtain ⟨j, s, rfl⟩ := List.exists_cons_of_ne_nil h
  rfl

end Node

end Forests
