import Flinter.RunProofs
import Mathlib.Order.Interval.Finset.Nat
import Mathlib.Data.Finset.Card
import Mathlib.Data.Finset.Max
import Mathlib.Data.Set.Insert

/-! # Tickets and seats

    Tickets of a linear order are drawn and given back; a new ticket is above
    every seated one.  The holder of a ticket may sit down when at most `N` of
    the tickets out are not above its own, and nobody is asked to stand up when
    tickets come and go.  Then at most `N` of the tickets out are seated.

    The other half is about those who wait: whoever waits for `N` tickets below
    its own, while fewer than `N` are out, waits for one that is gone. -/

namespace Tickets

universe u

variable {α : Type u} [LinearOrder α]
variable {live live' : Finset α} {a b : α} {N : Nat}

/-- The tickets out that are not above `a`. -/
def rank (live : Finset α) (a : α) : Nat := (live.filter (· ≤ a)).card

/-- A stale list of the tickets only overestimates a rank. -/
theorem rank_mono (h : ∀ b ∈ live, b ≤ a → b ∈ live') :
    rank live a ≤ rank live' a := by
  refine Finset.card_le_card fun b hb => ?_
  obtain ⟨hmem, hle⟩ := Finset.mem_filter.mp hb
  exact Finset.mem_filter.mpr ⟨h b hmem hle, hle⟩

/-- Later tickets do not count. -/
theorem rank_insert_of_lt (h : a < b) : rank (insert b live) a ≤ rank live a := by
  refine rank_mono fun c hc hle => ?_
  rcases Finset.mem_insert.mp hc with rfl | hc
  · exact absurd hle (not_le_of_gt h)
  · exact hc

/-- Tickets of rank at most `N` are at most `N`: the highest of them counts
    them all. -/
theorem card_le_of_rank_le {t : Finset α} (hlive : t ⊆ live)
    (hrank : ∀ a ∈ t, rank live a ≤ N) : t.card ≤ N := by
  rcases t.eq_empty_or_nonempty with rfl | hne
  · exact Nat.zero_le N
  · have hmax := t.max'_mem hne
    refine Nat.le_trans (Finset.card_le_card fun b hb => ?_)
      (hrank (t.max' hne) hmax)
    exact Finset.mem_filter.mpr ⟨hlive hb, t.le_max' b hb⟩

/-- **NO WAITING FOR THOSE THAT STAY**: among more tickets below `a` than are
    out, one is gone. -/
theorem exists_gone {t : Finset α} (hbelow : ∀ b ∈ t, b < a)
    (hfew : (live.filter (· < a)).card < t.card) : ∃ b ∈ t, b ∉ live := by
  by_contra hall
  refine absurd (Finset.card_le_card fun b hb => ?_) (Nat.not_le_of_lt hfew)
  refine Finset.mem_filter.mpr ⟨?_, hbelow b hb⟩
  by_contra hgone
  exact hall ⟨b, hb, hgone⟩

/-- Ranks tell the tickets out apart. -/
theorem rank_lt_rank (hb : b ∈ live) (h : a < b) : rank live a < rank live b := by
  refine Finset.card_lt_card ⟨fun c hc => ?_, fun hall => ?_⟩
  · obtain ⟨hmem, hle⟩ := Finset.mem_filter.mp hc
    exact Finset.mem_filter.mpr ⟨hmem, hle.trans h.le⟩
  · exact absurd (Finset.mem_filter.mp (hall (Finset.mem_filter.mpr ⟨hb, le_refl b⟩))).2
      (not_le_of_gt h)

theorem rank_injOn : Set.InjOn (rank live) live := by
  intro a ha b hb heq
  rcases lt_trichotomy a b with hlt | hsame | hlt
  · exact absurd heq (rank_lt_rank hb hlt).ne
  · exact hsame
  · exact absurd heq (rank_lt_rank ha hlt).ne'

/-- The ranks of the tickets out are the numbers from one on. -/
theorem image_rank : live.image (rank live) = Finset.Icc 1 live.card := by
  refine Finset.eq_of_subset_of_card_le (fun n hn => ?_) ?_
  · obtain ⟨a, ha, rfl⟩ := Finset.mem_image.mp hn
    refine Finset.mem_Icc.mpr ⟨?_, Finset.card_le_card (Finset.filter_subset _ _)⟩
    exact Finset.card_pos.mpr ⟨a, Finset.mem_filter.mpr ⟨ha, le_refl a⟩⟩
  · rw [Finset.card_image_of_injOn rank_injOn, Nat.card_Icc, Nat.add_sub_cancel]

/-- **THE FIRST `N` TICKETS** are `N` of those that are out, or all of them. -/
theorem card_rank_le (live : Finset α) (N : Nat) :
    (live.filter (rank live · ≤ N)).card = min N live.card := by
  have hinj : Set.InjOn (rank live) (live.filter (rank live · ≤ N)) :=
    rank_injOn.mono (Finset.filter_subset _ _)
  have himage : (live.filter (rank live · ≤ N)).image (rank live)
      = Finset.Icc 1 (min N live.card) := by
    have hfilter : (live.filter (rank live · ≤ N)).image (rank live)
        = (live.image (rank live)).filter (· ≤ N) := by rw [Finset.filter_image]
    rw [hfilter, image_rank]
    ext n
    simp only [Finset.mem_filter, Finset.mem_Icc]
    omega
  rw [← Finset.card_image_of_injOn hinj, himage, Nat.card_Icc, Nat.add_sub_cancel]

-- ── The system ───────────────────────────────────────────────────────────────

/-- The tickets out, and the tickets that are seated. -/
structure State (α : Type u) where
  live : Finset α
  seated : Set α

inductive Act (α : Type u) where
  | draw (a : α)
  | leave (a : α)
  | sit (a : α)
  | stand (a : α)

/-- A ticket may be gone before its holder stands up, and a ticket may be gone
    that nobody holds. -/
inductive Step (N : Nat) : State α → Act α → State α → Prop where
  | draw {s : State α} {a : α} : (∀ b ∈ s.seated, b < a) →
      Step N s (.draw a) { s with live := insert a s.live }
  | leave {s : State α} {a : α} :
      Step N s (.leave a) { s with live := s.live.erase a }
  | sit {s : State α} {a : α} : rank s.live a ≤ N →
      Step N s (.sit a) { s with seated := insert a s.seated }
  | stand {s : State α} {a : α} :
      Step N s (.stand a) { s with seated := s.seated \ {a} }

/-- `N` seats. -/
def seats (α : Type u) [LinearOrder α] (N : Nat) :
    Runs.System (State α) (Act α) where
  init := fun s => s.live = ∅ ∧ s.seated = ∅
  step := Step N

variable {s s' : State α}

/-- Every seated ticket has rank at most `N`. -/
def Ranked (N : Nat) (s : State α) : Prop := ∀ a ∈ s.seated, rank s.live a ≤ N

/-- One step. -/
theorem Ranked.step {act : Act α} (h : Ranked N s) (hs : Step N s act s') :
    Ranked N s' := by
  cases hs with
  | draw hnew =>
      intro b hb
      exact Nat.le_trans (rank_insert_of_lt (hnew b hb)) (h b hb)
  | leave =>
      intro b hb
      refine Nat.le_trans (rank_mono fun c hc _ => ?_) (h b hb)
      exact Finset.mem_of_mem_erase hc
  | sit hrank =>
      rintro b (rfl | hb)
      · exact hrank
      · exact h b hb
  | stand =>
      rintro b ⟨hb, -⟩
      exact h b hb

/-- Every run. -/
theorem Ranked.reachable (h : Runs.Reachable (seats α N) s) : Ranked N s := by
  refine h.invariant ?_ ?_
  · rintro s ⟨-, hseated⟩ a ha
    rw [hseated] at ha
    exact absurd ha (Set.notMem_empty a)
  · intro s act s' _ hranked hs
    exact hranked.step hs

/-- **AT MOST `N` SEATED**: in every reachable state, of the tickets out at most
    `N` are seated. -/
theorem seated_card_le (h : Runs.Reachable (seats α N) s) {t : Finset α}
    (hlive : t ⊆ s.live) (hseated : ∀ a ∈ t, a ∈ s.seated) : t.card ≤ N :=
  card_le_of_rank_le hlive fun a ha => Ranked.reachable h a (hseated a ha)

end Tickets
