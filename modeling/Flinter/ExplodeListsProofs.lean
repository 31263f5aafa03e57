import Mathlib.Data.List.Sort
import Flinter.ExplodeListProofs

/-! # Whole strings of numbers

    What the scanner has put into a list is sorted, and one of a number is left.
    `explode_list` makes one such list of what is before the first semicolon, and
    `explode_lists` one of each part between semicolons, unless a range up to the
    greatest `int` is reached in it. -/

namespace FlinterExplode

variable {max : Nat} {part s t : Text} {o : List Int} {x : Int} {items : List Item}

-- ── Sorting ──────────────────────────────────────────────────────────────────

theorem mem_unique {l : List Int} : x ∈ unique l ↔ x ∈ l := by
  fun_induction unique l with
  | case1 => rfl
  | case2 => rfl
  | case3 a rest ih => rw [ih, List.mem_cons, List.mem_cons, List.mem_cons]; tauto
  | case4 a b rest hne ih => rw [List.mem_cons, ih, List.mem_cons (l := b :: rest)]

theorem unique_pairwise {l : List Int} (h : l.Pairwise (· ≤ ·)) :
    (unique l).Pairwise (· < ·) := by
  fun_induction unique l with
  | case1 => exact List.Pairwise.nil
  | case2 a => exact List.pairwise_singleton _ a
  | case3 a rest ih => exact ih h.of_cons
  | case4 a b rest hne ih =>
      refine List.Pairwise.cons (fun x hx => ?_) (ih h.of_cons)
      have hab := List.rel_of_pairwise_cons h List.mem_cons_self
      rcases List.mem_cons.mp (mem_unique.mp hx) with rfl | hx
      · omega
      · have hbx := List.rel_of_pairwise_cons h.of_cons hx
        omega

/-- **IN ORDER**, and without duplicates. -/
theorem Holds.sorted (h : Holds items o) :
    SortedUnion items (unique (o.mergeSort (· ≤ ·))) := by
  refine ⟨unique_pairwise (List.pairwise_mergeSort' (· ≤ ·) o), fun x => ?_⟩
  rw [mem_unique, List.mem_mergeSort, h x]

-- ── Whole strings ────────────────────────────────────────────────────────────

/-- **ONE LIST**, up to a semicolon or the end. -/
theorem explodeListInternal_cases (hmax : max ≤ intMax) (hsemicolon : ';' ∉ part)
    (hnull : '\x00' ∉ part) (ht : ∀ ch ∈ t.head?, ch = ';') :
    (Reaches max part ∧ explodeListInternal (part ++ t) max = .overflow) ∨
      ¬Reaches max part ∧
        (((¬∃ items, IsList max part items) ∧
            explodeListInternal (part ++ t) max = .fail) ∨
          ∃ items o, IsList max part items ∧ SortedUnion items o ∧
            explodeListInternal (part ++ t) max = .done (t.tail?, o)) := by
  obtain ⟨hreaches, hdone, hfail⟩ := run_start hmax part
  rw [explodeListInternal, explodeListLoop_tokens hmax hsemicolon hnull ht]
  cases hrun : run max .start (tokens part) with
  | overflow => exact .inl ⟨hreaches.mp hrun, rfl⟩
  | fail =>
      rw [hrun] at hreaches
      refine .inr ⟨fun h => (by cases hreaches.mpr h), .inl ⟨?_, rfl⟩⟩
      rintro ⟨items, hlist⟩
      exact hfail items hlist hrun
  | done o =>
      rw [hrun] at hreaches
      obtain ⟨items, hlist, ho⟩ := hdone o hrun
      exact .inr ⟨fun h => (by cases hreaches.mpr h),
        .inr ⟨items, _, hlist, ho.sorted, rfl⟩⟩

/-- Some string reaches the greatest `int`, and all before it are lists. -/
def SomeReaches (max : Nat) (parts : List Text) : Prop :=
  ∃ pre part post, parts = pre ++ part :: post ∧
    (∀ p ∈ pre, ∃ items, IsList max p items) ∧ Reaches max part

theorem someReaches_cons {parts : List Text} : SomeReaches max (part :: parts) ↔
    Reaches max part ∨ (∃ items, IsList max part items) ∧ SomeReaches max parts := by
  constructor
  · rintro ⟨pre, p, post, heq, hpre, hp⟩
    cases pre with
    | nil =>
        cases heq
        exact .inl hp
    | cons q pre =>
        cases heq
        obtain ⟨hq, hpre⟩ := List.forall_mem_cons.mp hpre
        exact .inr ⟨hq, pre, p, post, rfl, hpre, hp⟩
  · rintro (h | ⟨hpart, pre, p, post, rfl, hpre, hp⟩)
    · exact ⟨[], part, parts, rfl, List.forall_mem_nil _, h⟩
    · exact ⟨part :: pre, p, post, rfl, List.forall_mem_cons.mpr ⟨hpart, hpre⟩, hp⟩

theorem not_someReaches_nil : ¬SomeReaches max [] := by
  rintro ⟨pre, p, post, heq, -, -⟩
  exact List.append_ne_nil_of_right_ne_nil pre (List.cons_ne_nil p post) heq.symm

/-- What comes of strings, after others have been read. -/
inductive Answers (max : Nat) (parts : List Text) (output : List (List Int)) :
    Scan (List (List Int)) → Prop where
  | overflow : SomeReaches max parts → Answers max parts output .overflow
  | fail : ¬SomeReaches max parts → (∃ p ∈ parts, ¬∃ items, IsList max p items) →
      Answers max parts output .fail
  | done {os : List (List Int)} : ¬SomeReaches max parts →
      List.Forall₂ (ReadAs max) parts os → Answers max parts output (.done (output ++ os))

/-- One more string before them. -/
theorem Answers.cons {parts : List Text} {output : List (List Int)}
    {answer : Scan (List (List Int))} (hreaches : ¬Reaches max part)
    (hread : ReadAs max part o) (h : Answers max parts (output ++ [o]) answer) :
    Answers max (part :: parts) output answer := by
  have hlist : ∃ items, IsList max part items := hread.imp fun _ => And.left
  have hiff : SomeReaches max (part :: parts) ↔ SomeReaches max parts := by
    rw [someReaches_cons, or_iff_right hreaches, and_iff_right hlist]
  cases h with
  | overflow h => exact .overflow (hiff.mpr h)
  | fail h hp =>
      obtain ⟨p, hp, hnot⟩ := hp
      exact .fail (mt hiff.mp h) ⟨p, List.mem_cons_of_mem _ hp, hnot⟩
  | done h hos =>
      rw [List.append_assoc]
      exact .done (mt hiff.mp h) (.cons hread hos)

theorem explodeListsLoop_eq {output : List (List Int)} :
    explodeListsLoop max output s = (explodeListInternal s max).bind fun r =>
      match r.1 with
      | none => .done (output ++ [r.2])
      | some rest => explodeListsLoop max (output ++ [r.2]) rest := by
  rw [explodeListsLoop]
  split
  · next h => rw [h]; rfl
  · next h => rw [h]; rfl
  · next h => rw [h]; rfl
  · next h => rw [h]; rfl

/-- **A STRING AND THOSE AFTER IT**, where `t` is what is left of them. -/
theorem explodeListsLoop_cons {parts : List Text} {output : List (List Int)}
    (hmax : max ≤ intMax) (hsemicolon : ';' ∉ part) (hnull : '\x00' ∉ part)
    (ht : ∀ ch ∈ t.head?, ch = ';')
    (hnone : t = [] → parts = [])
    (hnext : ∀ rest output, t.tail? = some rest →
      Answers max parts output (explodeListsLoop max output rest)) :
    Answers max (part :: parts) output (explodeListsLoop max output (part ++ t)) := by
  rw [explodeListsLoop_eq]
  rcases explodeListInternal_cases hmax hsemicolon hnull ht with
    ⟨hreaches, h⟩ | ⟨hreaches, ⟨hlist, h⟩ | ⟨items, o, hlist, ho, h⟩⟩
  · rw [h]
    exact .overflow (someReaches_cons.mpr (.inl hreaches))
  · rw [h]
    refine .fail (fun hsome => ?_) ⟨part, List.mem_cons_self, hlist⟩
    exact (someReaches_cons.mp hsome).elim hreaches fun hsome => hlist hsome.1
  · rw [h, Scan.bind]
    cases t with
    | nil =>
        rw [hnone rfl, List.tail?_nil]
        have hlast : Answers max [] (output ++ [o]) (.done (output ++ [o] ++ [])) :=
          .done not_someReaches_nil .nil
        rw [List.append_nil] at hlast
        exact .cons hreaches ⟨items, hlist, ho⟩ hlast
    | cons ch rest =>
        exact .cons hreaches ⟨items, hlist, ho⟩ (hnext rest (output ++ [o]) rfl)

/-- **SEMICOLON SEPARATED LISTS**. -/
theorem explodeListsLoop_parts {parts : List Text} (hmax : max ≤ intMax)
    (hparts : ∀ p ∈ part :: parts, ';' ∉ p ∧ '\x00' ∉ p) (output : List (List Int)) :
    Answers max (part :: parts) output
      (explodeListsLoop max output ([';'].intercalate (part :: parts))) := by
  induction parts generalizing part output with
  | nil =>
      obtain ⟨hsemicolon, hnull⟩ := hparts part List.mem_cons_self
      rw [List.intercalate_singleton, ← List.append_nil part]
      conv => enter [2, 1]; rw [List.append_nil]
      exact explodeListsLoop_cons hmax hsemicolon hnull (fun ch h => nomatch h)
        (fun _ => rfl) fun rest output h => nomatch h
  | cons next parts ih =>
      obtain ⟨⟨hsemicolon, hnull⟩, hparts⟩ := List.forall_mem_cons.mp hparts
      rw [List.intercalate_cons_cons, List.append_assoc]
      refine explodeListsLoop_cons hmax hsemicolon hnull ?_ (fun h => nomatch h) ?_
      · intro ch hch
        exact (Option.some.inj hch).symm
      · intro rest output h
        obtain rfl := Option.some.inj h
        exact ih hparts output

theorem explodeList_nat :
    explodeList s max = (explodeListInternal s max).bind fun r => .done r.2 := by
  rw [explodeList, if_neg (by omega), Int.toNat_natCast]

theorem explodeLists_nat : explodeLists s max = explodeListsLoop max [] s := by
  rw [explodeLists, if_neg (by omega), Int.toNat_natCast]

/-- What comes before the first semicolon. -/
def firstPart (s : Text) : Text := s.takeWhile (· ≠ ';')

theorem firstPart_eq (h : ';' ∉ s) : firstPart s = s :=
  List.takeWhile_eq_self_iff.mpr fun _ hch =>
    decide_eq_true fun heq => h (heq ▸ hch)

theorem explode_list_read_iff (hmax : max ≤ intMax) (hnull : '\x00' ∉ s) :
    ListRead max s (explodeList s max) ↔ ¬Reaches max (firstPart s) ∧
      (';' ∈ s → ¬∃ items, IsList max (firstPart s) items) := by
  have hsemicolon : ';' ∉ firstPart s := fun h => by
    have hne := List.mem_takeWhile_imp h
    revert hne
    decide
  have hfirst : '\x00' ∉ firstPart s := fun h =>
    hnull ((List.takeWhile_prefix _).subset h)
  have ht : ∀ ch ∈ (s.dropWhile (· ≠ ';')).head?, ch = ';' := by
    intro ch hch
    have hnot := List.head?_dropWhile_not (fun c => decide (c ≠ ';')) s
    rw [Option.mem_def.mp hch] at hnot
    simpa using hnot
  have hcases := explodeListInternal_cases hmax hsemicolon hfirst ht
  rw [firstPart, List.takeWhile_append_dropWhile, ← firstPart] at hcases
  rw [explodeList_nat]
  rcases hcases with ⟨hreaches, h⟩ | ⟨hreaches, ⟨hlist, h⟩ | ⟨items, o, hlist, ho, h⟩⟩
  · rw [h]
    exact ⟨fun hread => absurd rfl hread.safe, fun hcond => absurd hreaches hcond.1⟩
  · rw [h]
    refine ⟨fun _ => ⟨hreaches, fun _ => hlist⟩, fun _ => ⟨?_, ?_, ?_⟩⟩
    · exact Scan.fail_ne_overflow
    · refine ⟨fun ⟨o, ho⟩ => (by cases ho), fun hwhole => ?_⟩
      obtain ⟨items, hwhole⟩ := hwhole
      have hone : ';' ∉ s := fun h => not_isList h hwhole
      exact absurd ⟨items, (firstPart_eq hone).symm ▸ hwhole⟩ hlist
    · exact fun o ho => nomatch ho
  · rw [h]
    constructor
    · intro hread
      refine ⟨hreaches, fun hmem _ => ?_⟩
      obtain ⟨items, hwhole⟩ := hread.accepts.mp ⟨o, rfl⟩
      exact not_isList hmem hwhole
    · rintro ⟨-, hone⟩
      have hone : ';' ∉ s := fun h => hone h ⟨items, hlist⟩
      rw [firstPart_eq hone] at hlist
      refine ⟨Scan.done_ne_overflow, ⟨fun _ => ⟨items, hlist⟩, fun _ => ⟨o, rfl⟩⟩, ?_⟩
      intro o' ho'
      obtain rfl := Scan.done.inj ho'
      exact ⟨items, hlist, ho⟩

theorem explode_lists_read_iff (hmax : max ≤ intMax) (hnull : '\x00' ∉ s) :
    ListsRead max s (explodeLists s max) ↔ ¬SomeReaches max (s.splitOn ';') := by
  have hparts : ∀ p ∈ s.splitOn ';', ';' ∉ p ∧ '\x00' ∉ p := by
    intro p hp
    rw [List.splitOn_eq_splitOnP] at hp
    refine ⟨fun h => ?_, fun h => hnull (Splitting.not_sep_of_mem hp h).1⟩
    exact ne_of_beq_false (Splitting.not_sep_of_mem hp h).2 rfl
  obtain ⟨part, parts, hsplit⟩ :=
    List.exists_cons_of_ne_nil (List.splitOn_ne_nil ';' s)
  have hanswers := explodeListsLoop_parts hmax (hsplit ▸ hparts) []
  rw [← hsplit, List.intercalate_splitOn, ← explodeLists_nat] at hanswers
  cases h : explodeLists s max with
  | overflow =>
      rw [h] at hanswers
      cases hanswers with
      | overflow hsome =>
          exact ⟨fun hread => absurd rfl hread.safe, fun hnot => absurd hsome hnot⟩
  | fail =>
      rw [h] at hanswers
      cases hanswers with
      | fail hnone hp =>
          obtain ⟨p, hp, hnot⟩ := hp
          refine ⟨fun _ => hnone, fun _ => ⟨Scan.fail_ne_overflow, ?_, ?_⟩⟩
          · exact ⟨fun ⟨os, hos⟩ => (by cases hos), fun hall => absurd (hall p hp) hnot⟩
          · exact fun os hos => nomatch hos
  | done os =>
      rw [h] at hanswers
      generalize hanswer : Scan.done os = answer at hanswers
      cases hanswers with
      | overflow hsome => cases hanswer
      | fail hnone hp => cases hanswer
      | @done os' hnone hall =>
          obtain rfl : os = os' := Scan.done.inj hanswer
          refine ⟨fun _ => hnone, fun _ => ⟨Scan.done_ne_overflow, ?_, ?_⟩⟩
          · refine ⟨fun _ => ?_, fun _ => ⟨os, rfl⟩⟩
            have hlists := hall.imp fun p o h => And.intro (h.imp fun _ => And.left) h
            exact ((List.forall₂_and_left _ _).mp hlists).1
          · intro os' hos'
            obtain rfl := Scan.done.inj hos'
            refine ⟨?_, hall⟩
            rw [List.nil_append, ← hall.length_eq, List.splitOn_eq_splitOnP,
              Splitting.length_splitOnP]
            rfl

/-- Nothing overflows if `max` is less than the greatest `int`. -/
theorem not_reaches (h : max < intMax) : ¬Reaches max s := by
  rintro ⟨items, a, hvalid, -⟩
  have hlast := (hvalid _ List.mem_concat_self).2
  omega

/-- **EXPLODING LISTS** goes as it should exactly where no range that ends in the
    greatest `int` is reached, and, for a single list, where a semicolon does not come
    after a list. -/
theorem explode_list_iff (s : Text) (max : Nat) (hmax : max ≤ intMax)
    (hnull : '\x00' ∉ s) :
    (ListRead max s (explodeList s max) ↔ ¬Reaches max (firstPart s) ∧
      (';' ∈ s → ¬∃ items, IsList max (firstPart s) items)) ∧
    (ListsRead max s (explodeLists s max) ↔ ¬SomeReaches max (s.splitOn ';')) :=
  ⟨explode_list_read_iff hmax hnull, explode_lists_read_iff hmax hnull⟩

theorem explode_list_two : ListRead 9 "1,3-6".toList (explodeList "1,3-6".toList 9) ∧
    ListsRead 9 "1;2".toList (explodeLists "1;2".toList 9) := by
  refine ⟨(explode_list_iff _ 9 (by decide) (by decide)).1.mpr ⟨?_, ?_⟩,
    (explode_list_iff _ 9 (by decide) (by decide)).2.mpr ?_⟩
  · exact not_reaches (by decide)
  · exact fun h => absurd h (by decide)
  · rintro ⟨pre, part, post, -, -, h⟩
    exact not_reaches (by decide) h

/-- `1;x` is taken for a list. -/
theorem rest_accepted : ¬∀ (s : Text) (max : Nat), max ≤ intMax → '\x00' ∉ s →
    ListRead max s (explodeList s max) ∧ ListsRead max s (explodeLists s max) := by
  intro h
  have hread := (h "1;x".toList 9 (by decide) (by decide)).1
  have hone := (explode_list_read_iff (by decide) (by decide)).mp hread
  refine hone.2 (by decide) ⟨[.number 1], ?_, by decide⟩
  have hfirst : firstPart "1;x".toList = ['1'] := by decide
  rw [hfirst, tokens, dif_pos (by decide), List.takeWhile_cons_of_pos (by decide),
    List.dropWhile_cons_of_pos (by decide), List.dropWhile_nil, tokens]
  decide

end FlinterExplode
