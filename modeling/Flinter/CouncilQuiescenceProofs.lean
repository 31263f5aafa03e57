import Flinter.CouncilTrackProofs

/-! # Council: who is elected when nothing is left to do

    When no instance is in the middle of a step and every tracker has reported
    what it has to report, the elected instances are those of the first
    candidates, as many as there are seats: nobody else is elected, by the ranks
    of `Tickets.seats`, and nobody of them waits, by what an instance tracks. -/

namespace FlinterCouncil

open OrderedMaps

variable {electionPath size : Text}
variable {ι : Type} [DecidableEq ι] {s : Election ι} {i : ι}

/-- Nothing is left to do: no step has begun, every tracked candidate that is gone
    has been reported, and whoever has a node knows how many seats there are,
    which an instance does not behind a `GetChildren` that failed: it keeps its
    node, has forgotten `_size` and tracks nobody. -/
structure Election.Quiet (electionPath : Text) (s : Election ι) : Prop where
  idle : ∀ i, (s.council i).stage = .idle
  sized : ∀ i, 0 ≤ (s.council i).actualId → 0 < (s.council i).size
  told : ∀ i, ∀ child, childPath electionPath child ∈ (s.council i).tracks →
    child ∉ s.zk.children → childPath electionPath child ∈ s.reported i

omit [DecidableEq ι] in
/-- An instance with a node is attached, and its node is there. -/
theorem Election.Ok.standing (inv : s.Ok electionPath size)
    (hidle : (s.council i).stage = .idle) (h0 : 0 ≤ (s.council i).actualId) :
    (s.council i).Known electionPath size s.zk ∧ (s.council i).child ∈ s.zk.children := by
  cases inv.council i with
  | away _ hneg => exact absurd h0 (not_le.mpr hneg)
  | held hk hn => exact ⟨hk, hn h0⟩
  | gone _ _ hs =>
      rw [hidle] at hs
      cases hs

omit [DecidableEq ι] in
/-- An elected instance is a candidate. -/
theorem Election.Ok.elected_mem (inv : s.Ok electionPath size)
    (hidle : (s.council i).stage = .idle) (hid : 0 ≤ (s.council i).id) :
    (s.council i).id = (s.council i).actualId ∧
      (s.council i).actualId ∈ (getCandidates s.zk.children).keys := by
  obtain ⟨hactual, hne⟩ := (inv.council i).elected hid
  have h0 : 0 ≤ (s.council i).actualId := hactual ▸ hid
  have hvalid := validId_of_lt inv.zk.bound h0 (inv.council i).minted
  exact ⟨hactual, mem_keys_getCandidates.mpr
    ⟨_, (inv.standing hidle h0).2, _, getCandidate_childName hvalid hne⟩⟩

omit [DecidableEq ι] in
/-- Whoever waits while fewer candidates than its size are before it tracks one
    that is gone, and has not been told. -/
theorem Election.Watched.waits_for_gone (inv : s.Watched electionPath)
    (hidle : (s.council i).stage = .idle) (h0 : 0 ≤ (s.council i).actualId)
    (hid : (s.council i).id < 0)
    (hfew : (((getCandidates s.zk.children).below
      (s.council i).actualId).length : Int) < (s.council i).size) :
    ∃ child, childPath electionPath child ∈ (s.council i).tracks ∧
      child ∉ s.zk.children ∧ childPath electionPath child ∉ s.reported i := by
  have hwatches := inv.watches i
  rw [Council.Watches, hidle] at hwatches
  obtain ⟨t, hcard, ht⟩ := hwatches h0 hid (by omega)
  rw [OrderedMap.length_below] at hfew
  obtain ⟨k, hk, hgone⟩ := Tickets.exists_gone (fun k hk => (ht k hk).2.1)
    (Int.ofNat_lt.mp (lt_of_lt_of_le hfew hcard))
  obtain ⟨hvalid, -, nodeName, hne, hmem, hnew⟩ := ht k hk
  refine ⟨_, hmem, fun hc => hgone ?_, hnew⟩
  exact mem_keys_getCandidates.mpr ⟨_, hc, nodeName, getCandidate_childName hvalid hne⟩

/-- A candidate's rank counts it and those before it. -/
theorem rank_eq_below {zk : ZooKeeper} {k : Int}
    (hk : k ∈ (getCandidates zk.children).keys) :
    Tickets.rank (getCandidates zk.children).keys k
      = ((getCandidates zk.children).below k).length + 1 := by
  rw [← OrderedMap.length_upTo_of_mem hk, OrderedMap.length_upTo]
  rfl

/-- In a quiet election an instance with a node is elected if and only if a
    seat is left by those before it. -/
theorem elected_iff (h : Runs.Reachable (election ι electionPath size) s)
    (hquiet : s.Quiet electionPath) (h0 : 0 ≤ (s.council i).actualId) :
    0 ≤ (s.council i).id ↔
      ((getCandidates s.zk.children).below (s.council i).actualId).length
        < (atoi32 size).toNat := by
  have hok := Election.Ok.reachable h
  have hidle := hquiet.idle i
  constructor
  · intro hid
    obtain ⟨hactual, hmem⟩ := hok.elected_mem hidle hid
    have hrank := Tickets.Ranked.reachable (tickets_reachable h) (s.council i).id
      ⟨hid, i, rfl⟩
    rw [hactual] at hrank
    have heq := rank_eq_below hmem
    have hrank' : Tickets.rank (getCandidates s.zk.children).keys (s.council i).actualId
        ≤ (atoi32 size).toNat := hrank
    omega
  · intro hfew
    by_contra hid
    obtain ⟨hknown, -⟩ := hok.standing hidle h0
    have hsize := hquiet.sized i h0
    rcases hknown.size with hneg | ⟨heq, -⟩
    · exact absurd hsize (not_lt.mpr hneg.le)
    obtain ⟨child, htracked, hgone, hnew⟩ := (Election.Watched.reachable h).waits_for_gone
      hidle h0 (not_le.mp hid) (by omega)
    exact hnew (hquiet.told i child htracked hgone)

/-- **THE FIRST CANDIDATES ARE ELECTED**: in every reachable state in which
    nothing is left to do and nobody with a node has forgotten `_size`, an instance
    with a node is elected exactly when fewer candidates than there are seats are
    before it.  If every candidate is an instance's, as many are elected as there
    are seats, or all of them. -/
theorem first_elected (h : Runs.Reachable (election ι electionPath size) s)
    (hquiet : s.Quiet electionPath) :
    (∀ i, 0 ≤ (s.council i).actualId → (0 ≤ (s.council i).id ↔
      ((getCandidates s.zk.children).below (s.council i).actualId).length
        < (atoi32 size).toNat)) ∧
    ∀ elected : Finset ι, (∀ i, i ∈ elected ↔ 0 ≤ (s.council i).id) →
      (∀ k ∈ (getCandidates s.zk.children).keys, ∃ i, (s.council i).actualId = k) →
      elected.card = min (atoi32 size).toNat (getCandidates s.zk.children).keys.card := by
  refine ⟨fun i => elected_iff h hquiet, fun elected helected howned => ?_⟩
  have hok := Election.Ok.reachable h
  have hmem : ∀ i, i ∈ elected → (s.council i).id = (s.council i).actualId ∧
      (s.council i).actualId ∈ (getCandidates s.zk.children).keys :=
    fun i hi => hok.elected_mem (hquiet.idle i) ((helected i).mp hi)
  have hinj : Set.InjOn (fun i => (s.council i).actualId) elected := by
    intro i hi j _ heq
    have h0 := (hmem i hi).1 ▸ (helected i).mp hi
    exact hok.unique i j h0 heq
  -- the ids of the elected are the candidates of the first ranks
  have himage : elected.image (fun i => (s.council i).actualId)
      = (getCandidates s.zk.children).keys.filter fun k =>
          Tickets.rank (getCandidates s.zk.children).keys k ≤ (atoi32 size).toNat := by
    ext k
    rw [Finset.mem_image, Finset.mem_filter]
    constructor
    · rintro ⟨i, hi, rfl⟩
      have hk := (hmem i hi).2
      have h0 := (hmem i hi).1 ▸ (helected i).mp hi
      have hseat := (elected_iff h hquiet h0).mp ((helected i).mp hi)
      rw [rank_eq_below hk]
      exact ⟨hk, hseat⟩
    · rintro ⟨hk, hrank⟩
      obtain ⟨i, rfl⟩ := howned k hk
      rw [rank_eq_below hk] at hrank
      obtain ⟨child, hchild, name, hc⟩ := mem_keys_getCandidates.mp hk
      have h0 : 0 ≤ (s.council i).actualId := (hok.zk.candidate hchild hc).2.1.1
      exact ⟨i, (helected i).mpr ((elected_iff h hquiet h0).mpr hrank), rfl⟩
  rw [← Finset.card_image_of_injOn hinj, himage, Tickets.card_rank_le]

/-- Two instances and one seat, and the second waits for the first. -/
theorem first_elected_waiting : ({false} : Finset Bool).card
    = min (atoi32 Sample.one).toNat (getCandidates Sample.zk₂.children).keys.card := by
  have hquiet : (duo Sample.zk₂ Sample.a₅ Sample.b₆ [] []).Quiet Sample.path := by
    refine ⟨fun i => ?_, fun i _ => ?_, fun i child htracked hgone => ?_⟩
    · cases i <;> rfl
    · cases i
      · show 0 < Sample.a₅.size
        decide
      · show 0 < Sample.b₆.size
        decide
    · -- the first candidate is tracked, and it is there
      have hmem : childPath Sample.path child ∈ [Sample.first, Sample.path] := by
        cases i
        · exact List.mem_cons_of_mem _ htracked
        · exact htracked
      rcases List.mem_cons.mp hmem with hfirst | hpath
      · obtain rfl := childPath_inj.mp hfirst
        exact absurd (by decide) hgone
      · exact absurd (List.mem_singleton.mp hpath).symm ne_childPath
  refine (first_elected Sample.reachable_waiting hquiet).2 {false} (fun i => ?_) ?_
  · cases i
    · exact ⟨fun _ => (by decide : 0 ≤ Sample.a₅.id), fun _ => Finset.mem_singleton_self _⟩
    · exact ⟨fun hm => absurd (Finset.mem_singleton.mp hm) (by decide),
        fun h0 => absurd (show 0 ≤ Sample.b₆.id from h0) (by decide)⟩
  · intro k hk
    obtain ⟨child, hchild, name, hc⟩ := mem_keys_getCandidates.mp hk
    rcases List.mem_cons.mp hchild with rfl | hlast
    · exact ⟨true, (congrArg Prod.fst (Option.some.inj
        (show some ((1 : Int), ['b']) = some (k, name) from hc)))⟩
    · obtain rfl := List.mem_singleton.mp hlast
      exact ⟨false, (congrArg Prod.fst (Option.some.inj
        (show some ((0 : Int), ['a']) = some (k, name) from hc)))⟩

end FlinterCouncil
