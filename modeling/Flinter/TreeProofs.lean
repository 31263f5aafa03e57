import Mathlib.Data.Char
import Mathlib.Data.List.Lex
import Mathlib.Data.List.TakeWhile
import Flinter.ForestProofs

/-! # Trees and their paths

    A tree has a key, a value and a full path, and its children in a map by
    their keys.  A path names a node by the keys on the way, with dots between
    them; it is read as a C string.  `Set`, `Get` and `operator []` all create
    what is missing on the way, and only `Find` creates nothing.

    Whether a path is valid is found out one key at a time, after the nodes for
    the keys before were created.  And a node that exists is never given the
    value that `Set` was called with. -/

namespace FlinterTree

open Forests

abbrev Text := List Char

/-- `Tree`: `_key`, `_value` and `_full_path`. -/
structure Info where
  key : Text
  value : Text
  fullPath : Text
deriving DecidableEq, Repr

/-- `Tree`: with `_children`. -/
abbrev Tree := Node Text Info

-- ── The code ─────────────────────────────────────────────────────────────────

/-- `Tree(full_path, key, value)`. -/
def newTree (fullPath key value : Text) : Tree := ⟨⟨key, value, fullPath⟩, .nil⟩

/-- `Tree()`, and `kDummyConstTree`. -/
def emptyTree : Tree := newTree [] [] []

/-- What `GetFullPath` makes of a full path. -/
def fullPathUnder (fullPath child : Text) : Text :=
  if fullPath = [] then child else fullPath ++ '.' :: child

/-- `GetFullPath`. -/
def getFullPath (t : Tree) (child : Text) : Text :=
  fullPathUnder t.info.fullPath child

/-- What a C string ends at. -/
def cString (s : Text) : Text := s.takeWhile (· ≠ '\x00')

/-- What `strchr` finds between the dots, one after the other. -/
def components (path : Text) : List Text := (cString path).splitOn '.'

/-- `CreateOrSet`: the loop, where `cp` is the first component.  What it
    returns is a position, or nothing for `NULL`. -/
def createOrSetLoop (value : Text) : List Text → Tree → Option (List Text) × Tree
  | [], t => (none, t)
  | cp :: cs, t =>
      if cp = [] ∧ cs ≠ [] then (none, t) -- `cr == cp`
      else
        let node := newTree (getFullPath t cp) cp (if cs = [] then value else [])
        let t := { t with children := t.children.insert cp node }
        if cs = [] then (some [cp], t)
        else if cs = [[]] then (none, t) -- `!*cp`
        else
          match t.children.find cp with
          | none => (none, t)
          | some child =>
              let (found, child) := createOrSetLoop value cs child
              (found.map (cp :: ·),
                { t with children := t.children.alter cp fun _ => child })

/-- `CreateOrSet`. -/
def createOrSet (t : Tree) (path value : Text) : Option (List Text) × Tree :=
  if path = [] then (none, t)
  else createOrSetLoop value (components path) t

/-- `Find`: the loop. -/
def findLoop : List Text → Tree → Option Tree
  | [], _ => none
  | cp :: cs, t =>
      if cp = [] ∧ cs ≠ [] then none
      else
        match t.children.find cp with
        | none => none
        | some child =>
            if cs = [] then some child
            else if cs = [[]] then none
            else findLoop cs child

/-- `Find`. -/
def find (t : Tree) (path : Text) : Option Tree :=
  if path = [] then none else findLoop (components path) t

/-- `Set`. -/
def set (t : Tree) (path value : Text) : Tree := (createOrSet t path value).2

/-- `Get` and `operator []`: the position of the node, or what is thrown. -/
def get (t : Tree) (path : Text) : Except String (List Text) × Tree :=
  match createOrSet t path [] with
  | (none, t) => (.error "invalid path when creating subtree node.", t)
  | (some found, t) => (.ok found, t)

/-- `Clear`. -/
def clear (t : Tree) : Tree :=
  ⟨{ t.info with key := [], value := [] }, .nil⟩

-- ── What they do ─────────────────────────────────────────────────────────────

/-- The nodes on the way are created where there are none. -/
def ensure (value : Text) : List Text → Tree → Tree
  | [], t => t
  | k :: ks, t =>
      let node := newTree (getFullPath t k) k (if ks = [] then value else [])
      { t with children := (t.children.insert k node).alter k (ensure value ks) }

/-- A path can be followed: there are no empty components, or there is one
    alone. -/
def Followed (cs : List Text) : Prop := [] ∉ cs ∨ cs = [[]]

variable {t : Tree} {value : Text} {cs ks p q r : List Text} {k : Text}

theorem followed_cons (h : Followed (k :: cs)) (hcs : cs ≠ []) :
    k ≠ [] ∧ cs ≠ [[]] ∧ Followed cs := by
  rcases h with h | h
  · obtain ⟨hk, hrest⟩ := not_or.mp (List.mem_cons.not.mp h)
    refine ⟨Ne.symm hk, fun heq => hrest (heq ▸ List.mem_singleton_self _), .inl hrest⟩
  · exact absurd (List.cons.inj h).2 hcs

theorem followed_of_cons (hk : k ≠ []) (hcs : cs ≠ [[]]) (h : Followed cs) :
    Followed (k :: cs) :=
  .inl (List.not_mem_cons_of_ne_of_not_mem (Ne.symm hk) (h.resolve_right hcs))

theorem followed_singleton (k : Text) : Followed [k] := by
  by_cases hk : k = []
  · exact .inr (by rw [hk])
  · exact .inl (by simpa using Ne.symm hk)

theorem findLoop_followed (h : Followed cs) (hne : cs ≠ []) :
    findLoop cs t = t.at? cs := by
  induction cs generalizing t with
  | nil => exact absurd rfl hne
  | cons k cs ih =>
      rw [findLoop, Node.at?_cons]
      by_cases hcs : cs = []
      · subst hcs
        rw [if_neg (by simp)]
        cases t.children.find k with
        | none => rfl
        | some child => rfl
      · obtain ⟨hk, hlast, hrest⟩ := followed_cons h hcs
        rw [if_neg fun h => hk h.1]
        cases t.children.find k with
        | none => rfl
        | some child =>
            dsimp only
            rw [if_neg hcs, if_neg hlast]
            exact ih hrest hcs

theorem findLoop_not (h : ¬Followed cs) : findLoop cs t = none := by
  induction cs generalizing t with
  | nil => rfl
  | cons k cs ih =>
      have hcs : cs ≠ [] := fun heq => h (heq ▸ followed_singleton k)
      rw [findLoop]
      by_cases hk : k = []
      · exact if_pos ⟨hk, hcs⟩
      · rw [if_neg fun h => hk h.1]
        cases t.children.find k with
        | none => rfl
        | some child =>
            dsimp only
            rw [if_neg hcs]
            by_cases hlast : cs = [[]]
            · exact if_pos hlast
            · rw [if_neg hlast]
              exact ih fun hrest => h (followed_of_cons hk hlast hrest)

theorem ensure_cons :
    ensure value (k :: ks) t = { t with
      children := (t.children.insert k (newTree (getFullPath t k) k
        (if ks = [] then value else []))).alter k (ensure value ks) } := rfl

/-- The loop, on a path that can be followed. -/
theorem createOrSetLoop_followed (h : Followed cs) (hne : cs ≠ []) :
    createOrSetLoop value cs t = (some cs, ensure value cs t) := by
  induction cs generalizing t with
  | nil => exact absurd rfl hne
  | cons k cs ih =>
      rw [createOrSetLoop, ensure_cons]
      by_cases hcs : cs = []
      · subst hcs
        rw [if_neg (by simp),
          Forest.alter_self (f := ensure value []) (fun _ _ => rfl)]
        rfl
      · obtain ⟨hk, hlast, hrest⟩ := followed_cons h hcs
        rw [if_neg fun h => hk h.1]
        dsimp only
        rw [if_neg hcs, if_neg hlast, if_neg hcs, Forest.find_insert, if_pos rfl]
        dsimp only
        rw [ih hrest hcs]
        dsimp only [Option.map_some]
        congr 2
        refine Forest.alter_congr fun n hn => ?_
        rw [Forest.find_insert, if_pos rfl] at hn
        rw [Option.some.inj hn]

/-- The loop, on a path that cannot be. -/
theorem createOrSetLoop_not (h : ¬Followed cs) :
    createOrSetLoop value cs t =
      (none, ensure [] (cs.takeWhile (· ≠ [])) t) := by
  induction cs generalizing t with
  | nil => rfl
  | cons k cs ih =>
      have hcs : cs ≠ [] := fun heq => h (heq ▸ followed_singleton k)
      rw [createOrSetLoop]
      by_cases hk : k = []
      · rw [if_pos ⟨hk, hcs⟩, List.takeWhile_cons_of_neg (by simpa using hk)]
        rfl
      · rw [if_neg fun h => hk h.1, List.takeWhile_cons_of_pos (by simpa using hk),
          ensure_cons]
        dsimp only
        rw [if_neg hcs, if_neg hcs, ite_self]
        by_cases hlast : cs = [[]]
        · rw [if_pos hlast, hlast, List.takeWhile_cons_of_neg (by simp),
            Forest.alter_self (f := ensure [] []) (fun _ _ => rfl)]
        · rw [if_neg hlast, Forest.find_insert, if_pos rfl]
          dsimp only
          rw [ih fun hrest => h (followed_of_cons hk hlast hrest)]
          dsimp only [Option.map_none]
          congr 2
          refine Forest.alter_congr fun n hn => ?_
          rw [Forest.find_insert, if_pos rfl] at hn
          rw [Option.some.inj hn]

-- ── Nodes on the way ─────────────────────────────────────────────────────────

/-- Nothing is created where there is a node already. -/
theorem ensure_self (h : (t.view cs).isSome) : ensure value cs t = t := by
  induction cs generalizing t with
  | nil => rfl
  | cons k cs ih =>
      rw [Node.view_cons] at h
      obtain ⟨m, hfind, hview⟩ :=
        Option.bind_eq_some_iff.mp (Option.eq_some_of_isSome h)
      rw [ensure_cons, Forest.insert_of_some (by rw [hfind]; rfl),
        Forest.alter_self]
      intro n hn
      refine ih ?_
      rw [hn] at hfind
      rw [Option.some.inj hfind, hview]
      rfl

theorem ensure_ascending (h : t.Ascending) : (ensure value cs t).Ascending := by
  induction cs generalizing t with
  | nil => exact h
  | cons k cs ih =>
      rw [ensure_cons]
      exact Forest.Ascending.alter (Forest.Ascending.insert h trivial) fun n hn => ih hn

theorem ensure_info : (ensure value cs t).info = t.info := by
  cases cs with
  | nil => rfl
  | cons k cs => rfl

theorem ensure_find {j : Text} : (ensure value (k :: ks) t).children.find j =
    if j = k then
      some (ensure value ks ((t.children.find k).getD (newTree (getFullPath t k) k
        (if ks = [] then value else []))))
    else t.children.find j := by
  rw [ensure_cons]
  dsimp only
  rw [Forest.find_alter, Forest.find_insert]
  split
  · rfl
  · rfl

/-- What was there stays as it was. -/
theorem ensure_view_some {i : Info} (h : t.view r = some i) :
    (ensure value cs t).view r = some i := by
  induction cs generalizing t r with
  | nil => exact h
  | cons k cs ih =>
      cases r with
      | nil =>
          rw [Node.view_nil, ensure_info]
          exact h
      | cons j r =>
          rw [Node.view_cons] at h ⊢
          rw [ensure_find]
          split
          · next heq =>
              subst heq
              obtain ⟨m, hm, hview⟩ := Option.bind_eq_some_iff.mp h
              rw [hm]
              exact ih hview
          · exact h

/-- What was not there is created, if it is on the way. -/
theorem ensure_view_none (h : t.view r = none) :
    ((ensure value cs t).view r).map Info.value =
      if r <+: cs then some (if r = cs then value else []) else none := by
  induction cs generalizing t r with
  | nil =>
      have hr : ¬r <+: [] := by
        rw [List.prefix_nil]
        rintro rfl
        cases h
      rw [if_neg hr, ensure, h]
      rfl
  | cons k cs ih =>
      cases r with
      | nil => cases h
      | cons j r =>
          rw [Node.view_cons] at h ⊢
          rw [ensure_find]
          by_cases hj : j = k
          · subst hj
            have hhead : (j :: r <+: j :: cs) = (r <+: cs) := by
              rw [List.cons_prefix_cons, eq_self, true_and]
            have heq : (j :: r = j :: cs) = (r = cs) := by
              rw [List.cons.injEq, eq_self, true_and]
            rw [if_pos rfl, Option.bind_some]
            simp only [hhead, heq]
            cases hfind : t.children.find j with
            | some m =>
                rw [hfind, Option.bind_some] at h
                exact ih h
            | none =>
                rw [Option.getD_none]
                cases r with
                | nil =>
                    rw [Node.view_nil, ensure_info, if_pos List.nil_prefix]
                    simp only [eq_comm]
                    rfl
                | cons l r => exact ih rfl
          · rw [if_neg hj, h, if_neg fun hp => hj (List.cons_prefix_cons.mp hp).1]
            rfl

-- ── Paths ────────────────────────────────────────────────────────────────────

variable {path v : Text}

/-- What the dots separate. -/
def parts (path : Text) : List Text := path.splitOn '.'

/-- Non-empty components, separated by dots. -/
def Valid (path : Text) : Prop := [] ∉ parts path

instance (path : Text) : Decidable (Valid path) :=
  decidable_of_iff (∀ k ∈ parts path, k ≠ []) List.forall_mem_ne'

/-- Keys with dots between them. -/
def joined (p : List Text) : Text := ['.'].intercalate p

theorem joined_append (hp : p ≠ []) (hq : q ≠ []) :
    joined (p ++ q) = joined p ++ '.' :: joined q := by
  induction p with
  | nil => exact absurd rfl hp
  | cons k p ih =>
      by_cases hnil : p = []
      · rw [hnil, joined, List.singleton_append, List.intercalate_cons_of_ne_nil hq,
          joined, List.intercalate_singleton, List.append_assoc]
        rfl
      · have happend : p ++ q ≠ [] := by simp [hnil]
        rw [joined, List.cons_append, List.intercalate_cons_of_ne_nil happend,
          joined, List.intercalate_cons_of_ne_nil hnil]
        have hjoin := ih hnil
        rw [joined, joined] at hjoin
        rw [hjoin, List.append_assoc, List.append_assoc, List.append_assoc]

theorem joined_parts (path : Text) : joined (parts path) = path :=
  List.intercalate_splitOn '.'

theorem joined_components (path : Text) :
    joined (components path) = cString path := List.intercalate_splitOn '.'

theorem components_ne_nil (path : Text) : components path ≠ [] :=
  List.splitOn_ne_nil _ _

theorem cString_eq_self : cString path = path ↔ '\x00' ∉ path := by
  rw [cString, List.takeWhile_eq_self_iff]
  constructor
  · exact fun h hnull => absurd (h _ hnull) (by decide)
  · intro h c hc
    refine decide_eq_true ?_
    rintro rfl
    exact h hc

/-- Without a null character a path is what it looks like. -/
theorem components_eq (h : '\x00' ∉ path) : components path = parts path := by
  rw [components, cString_eq_self.mpr h, parts]

/-- With one, what is read is not part of what was written. -/
theorem not_prefix (h : '\x00' ∈ path) : ¬components path <+: parts path := by
  rintro ⟨es, heq⟩
  have hrest : ∃ rest, path = cString path ++ '\x00' :: rest := by
    have hsplit : cString path ++ path.dropWhile (· ≠ '\x00') = path :=
      List.takeWhile_append_dropWhile
    cases hdrop : path.dropWhile (· ≠ '\x00') with
    | nil =>
        have hall := List.dropWhile_eq_nil_iff.mp hdrop _ h
        exact absurd hall (by simp)
    | cons c rest =>
        have hhead := List.head?_dropWhile_not (· ≠ '\x00') path
        rw [hdrop, List.head?_cons] at hhead
        rw [hdrop] at hsplit
        simp only [decide_not, Bool.not_eq_eq_eq_not, Bool.not_false,
          decide_eq_true_eq] at hhead
        exact ⟨rest, by rw [← hhead, hsplit]⟩
  obtain ⟨rest, hpath⟩ := hrest
  have hjoin := joined_parts path
  rw [← heq] at hjoin
  by_cases hes : es = []
  · rw [hes, List.append_nil, joined_components] at hjoin
    have hlength := congrArg List.length (hjoin.trans hpath)
    simp at hlength
  · rw [joined_append (components_ne_nil path) hes, joined_components] at hjoin
    have htail := List.append_cancel_left (hjoin.trans hpath)
    exact absurd (List.cons.inj htail).1 (by decide)

theorem ne_nil_of_valid (h : Valid path) : path ≠ [] := by
  rintro rfl
  exact h (List.mem_singleton_self _)

theorem components_singleton : components path = [[]] ↔ cString path = [] := by
  constructor
  · intro h
    rw [← joined_components, h]
    rfl
  · intro h
    rw [components, h]
    rfl

theorem followed_iff :
    Followed (components path) ↔ Valid (cString path) ∨ cString path = [] :=
  or_congr Iff.rfl components_singleton

/-- The keys before the first empty one. -/
def reach (path : Text) : List Text := (components path).takeWhile (· ≠ [])

theorem find_followed (hp : path ≠ []) (h : Followed (components path)) :
    find t path = t.at? (components path) := by
  rw [find, if_neg hp, findLoop_followed h (components_ne_nil path)]

theorem find_not (h : ¬Followed (components path)) : find t path = none := by
  rw [find, findLoop_not h, ite_self]

theorem followed_of_find {n : Tree} (h : find t path = some n) :
    Followed (components path) := by
  by_contra hnot
  rw [find_not hnot] at h
  cases h

theorem set_followed (hp : path ≠ []) (h : Followed (components path)) :
    set t path v = ensure v (components path) t := by
  rw [set, createOrSet, if_neg hp,
    createOrSetLoop_followed h (components_ne_nil path)]

theorem set_not (hp : path ≠ []) (h : ¬Followed (components path)) :
    set t path v = ensure [] (reach path) t := by
  rw [set, createOrSet, if_neg hp, createOrSetLoop_not h, reach]

/-- `Set` keeps the order of the keys. -/
theorem set_ascending (h : t.Ascending) : (set t path v).Ascending := by
  by_cases hp : path = []
  · rw [set, createOrSet, if_pos hp]
    exact h
  · by_cases hfollowed : Followed (components path)
    · rw [set_followed hp hfollowed]
      exact ensure_ascending h
    · rw [set_not hp hfollowed]
      exact ensure_ascending h

theorem get_snd (t : Tree) (path : Text) : (get t path).2 = set t path [] := by
  rw [get, set]
  cases createOrSet t path [] with
  | mk found t' =>
      cases found with
      | none => rfl
      | some found => rfl

-- ── Setting and getting ──────────────────────────────────────────────────────

/-- The value at a position, if there is a node. -/
def valueAt (t : Tree) (p : List Text) : Option Text := (t.view p).map Info.value

/-- What `Set` does to the values: the one of the path is got back, the nodes
    that were missing on the way are empty, and nothing else has changed. -/
structure SetLaw (t : Tree) (path v : Text) : Prop where
  got : (find (set t path v) path).map (fun n => n.info.value) = some v
  created : ∀ q, q <+: parts path → q ≠ parts path → valueAt t q = none →
    valueAt (set t path v) q = some []
  kept : ∀ q, q ≠ parts path → (q <+: parts path → valueAt t q ≠ none) →
    valueAt (set t path v) q = valueAt t q

theorem valueAt_at? : valueAt t p = (t.at? p).map (fun n => n.info.value) := by
  rw [valueAt, Node.view, Option.map_map]
  rfl

theorem valueAt_eq_none : valueAt t p = none ↔ t.view p = none := by
  rw [valueAt, Option.map_eq_none_iff]

/-- A node that is found is left alone. -/
theorem set_of_find {n : Tree} (hp : path ≠ []) (h : find t path = some n) :
    set t path v = t := by
  have hfollowed := followed_of_find h
  rw [find_followed hp hfollowed] at h
  rw [set_followed hp hfollowed, ensure_self]
  rw [Node.view_isSome, h]
  rfl

/-- Where the node is there already, the law is about the tree as it was. -/
theorem set_law_of_find {n : Tree} (hp : path ≠ []) (h : find t path = some n) :
    SetLaw t path v ↔ n.info.value = v ∧
      ∀ q, q <+: parts path → q ≠ parts path → (t.view q).isSome := by
  have hset := set_of_find (v := v) hp h
  constructor
  · intro law
    have hgot := law.got
    rw [hset, h] at hgot
    refine ⟨Option.some.inj hgot, fun q hq hne => ?_⟩
    by_contra hmissing
    have hnone := valueAt_eq_none.mpr (Option.not_isSome_iff_eq_none.mp hmissing)
    have hcreated := law.created q hq hne hnone
    rw [hset, hnone] at hcreated
    cases hcreated
  · rintro ⟨hvalue, hthere⟩
    refine ⟨?_, fun q hq hne hnone => ?_, fun q _ _ => by rw [hset]⟩
    · rw [hset, h, Option.map_some, hvalue]
    · have hsome := hthere q hq hne
      rw [valueAt_eq_none.mp hnone] at hsome
      cases hsome

/-- What is found is found by way of the others. -/
theorem view_of_find {n : Tree} (hp : path ≠ []) (hnull : '\x00' ∉ path)
    (h : find t path = some n) (hq : p <+: parts path) : (t.view p).isSome := by
  obtain ⟨s, hs⟩ := hq
  rw [find_followed hp (followed_of_find h), components_eq hnull, ← hs] at h
  refine Node.view_isSome_of_append (q := s) ?_
  rw [Node.view_isSome, h]
  rfl

/-- A node is created that is not one of the path as it is written. -/
theorem not_set_law_of_null (hp : path ≠ []) (hnull : '\x00' ∈ path)
    (hfind : find t path = none) : ¬SetLaw t path v := by
  intro law
  by_cases hfollowed : Followed (components path)
  · rw [find_followed hp hfollowed] at hfind
    have hview : t.view (components path) = none := by
      rw [Node.view, hfind]
      rfl
    have hnot := not_prefix hnull
    have hkept := law.kept (components path)
      (fun heq => hnot (heq ▸ List.prefix_refl _)) fun h => absurd h hnot
    rw [set_followed hp hfollowed, valueAt, ensure_view_none hview,
      if_pos (List.prefix_refl _), valueAt, hview] at hkept
    cases hkept
  · have hgot := law.got
    rw [find_not hfollowed] at hgot
    cases hgot

/-- **A NEW PATH** is set as it should be. -/
theorem set_law_of_new (hvalid : Valid path) (hnull : '\x00' ∉ path)
    (hfind : find t path = none) : SetLaw t path v := by
  have hp := ne_nil_of_valid hvalid
  have hparts := components_eq hnull
  have hfollowed : Followed (components path) := .inl (by rw [hparts]; exact hvalid)
  rw [find_followed hp hfollowed, hparts] at hfind
  have hset := set_followed (t := t) (v := v) hp hfollowed
  rw [hparts] at hset
  have hview : t.view (parts path) = none := by
    rw [Node.view, hfind]
    rfl
  refine ⟨?_, fun q hq hne hnone => ?_, fun q hne hthere => ?_⟩
  · rw [find_followed hp hfollowed, hparts, ← valueAt_at?, hset, valueAt,
      ensure_view_none hview, if_pos (List.prefix_refl _), if_pos rfl]
  · rw [hset, valueAt, ensure_view_none (valueAt_eq_none.mp hnone), if_pos hq,
      if_neg hne]
  · rw [hset]
    cases hold : t.view q with
    | some i => rw [valueAt, valueAt, ensure_view_some hold, hold]
    | none =>
        have hnone := valueAt_eq_none.mpr hold
        have hoff : ¬q <+: parts path := fun hq => hthere hq hnone
        rw [hnone, valueAt, ensure_view_none hold, if_neg hoff]

/-- **SET AND GET**: a path that is not in the tree yet is set as it should be.
    One that is has to have the value already; and one with a null character in
    it, which is not read to its end, has to be in the tree as it is written and
    as it is read. -/
theorem set_law_iff (hvalid : Valid path) :
    SetLaw t path v ↔ (∀ n, find t path = some n → n.info.value = v) ∧
      ('\x00' ∈ path → (find t path).isSome ∧
        ∀ q, q <+: parts path → q ≠ parts path → (t.view q).isSome) := by
  have hp := ne_nil_of_valid hvalid
  cases hfind : find t path with
  | some n =>
      rw [set_law_of_find hp hfind]
      constructor
      · rintro ⟨hvalue, hthere⟩
        refine ⟨fun m hm => ?_, fun _ => ⟨rfl, hthere⟩⟩
        rw [← Option.some.inj hm, hvalue]
      · rintro ⟨hvalue, hnull⟩
        refine ⟨hvalue n rfl, fun q hq hne => ?_⟩
        by_cases hmem : '\x00' ∈ path
        · exact (hnull hmem).2 q hq hne
        · exact view_of_find hp hmem hfind hq
  | none =>
      by_cases hmem : '\x00' ∈ path
      · refine iff_of_false (not_set_law_of_null hp hmem hfind) fun h => ?_
        cases (h.2 hmem).1
      · refine iff_of_true (set_law_of_new hvalid hmem hfind) ⟨fun n hn => ?_, ?_⟩
        · cases hn
        · exact fun h => absurd h hmem

/-- A path that is new. -/
theorem set_law_new : SetLaw emptyTree "a.b".toList "1".toList := by
  refine (set_law_iff (by decide)).mpr ⟨fun n hn => ?_, fun h => ?_⟩
  · cases hn
  · exact absurd h (by decide)

/-- A path that is set again keeps its first value. -/
theorem set_again :
    ¬∀ (t : Tree) (path v : Text), Valid path → SetLaw t path v := by
  intro h
  have hgot := (h (set emptyTree "a".toList "1".toList) "a".toList "2".toList
    (by decide)).got
  revert hgot
  decide

-- ── Invalid paths ────────────────────────────────────────────────────────────

/-- What an invalid path should do. -/
structure NoEffect (t : Tree) (path : Text) : Prop where
  set : ∀ v, FlinterTree.set t path v = t
  get : (FlinterTree.get t path).2 = t
  missing : find t path = none

/-- **INVALID PATHS** have no effect if they are empty; or if they are invalid as
    they are read, and the keys before the first empty one are in the tree. -/
theorem no_effect_iff (hinvalid : ¬Valid path) :
    NoEffect t path ↔ path = [] ∨
      cString path ≠ [] ∧ ¬Valid (cString path) ∧ (t.view (reach path)).isSome := by
  by_cases hp : path = []
  · subst hp
    exact iff_of_true ⟨fun _ => rfl, rfl, rfl⟩ (.inl rfl)
  rw [or_iff_right hp]
  constructor
  · intro h
    have hset := h.set []
    have hfollowed : ¬Followed (components path) := by
      intro hfollowed
      have hmissing := h.missing
      rw [find_followed hp hfollowed] at hmissing
      have hview : t.view (components path) = none := by
        rw [Node.view, hmissing]
        rfl
      have hcreated : ((ensure [] (components path) t).view _).map Info.value = _ :=
        ensure_view_none hview
      rw [← set_followed hp hfollowed, hset, hview, if_pos (List.prefix_refl _)]
        at hcreated
      cases hcreated
    obtain ⟨hread, hnil⟩ := not_or.mp (followed_iff.not.mp hfollowed)
    refine ⟨hnil, hread, ?_⟩
    by_contra hmissing
    have hview := Option.not_isSome_iff_eq_none.mp hmissing
    have hcreated : ((ensure [] (reach path) t).view _).map Info.value = _ :=
      ensure_view_none hview
    rw [← set_not hp hfollowed (v := []), hset, hview, if_pos (List.prefix_refl _)]
      at hcreated
    cases hcreated
  · rintro ⟨hnil, hread, hthere⟩
    have hfollowed : ¬Followed (components path) :=
      followed_iff.not.mpr (not_or.mpr ⟨hread, hnil⟩)
    have hset : ∀ v, FlinterTree.set t path v = t := fun v => by
      rw [set_not hp hfollowed, ensure_self hthere]
    exact ⟨hset, by rw [get_snd, hset], find_not hfollowed⟩

/-- A second dot, behind a key that is there. -/
theorem no_effect_there :
    NoEffect (set emptyTree "a".toList "1".toList) "a..b".toList :=
  (no_effect_iff (by decide)).mpr (.inr (by decide))

/-- A second dot, behind a key that is not there yet. -/
theorem invalid_creates :
    ¬∀ (t : Tree) (path : Text), ¬Valid path → NoEffect t path := by
  intro h
  have hset := (h emptyTree "a..b".toList (by decide)).set []
  revert hset
  decide

end FlinterTree
