import Flinter.EasyServerHistoryProofs

/-! # EasyServer: channels are told apart, within a cycle

    Every run numbers its channels by context and direction.  As long as no
    counter has reached the outgoing bit, the channels of one cycle are
    different.  `Initialize` starts the counters again, though: over two cycles
    the same channel comes back as soon as a context allocates in the same
    direction in the same place. -/

namespace FlinterEasyServer

open Runs

variable {s s' : EasyServer} {cycles rest : List Cycle} {cycle : Cycle}
variable {slots t v w : Nat} {as : List Allocation} {a b : Allocation}
variable {thread : IoThread} {act : Action} {d e : Bool}

-- ── The record ───────────────────────────────────────────────────────────────

theorem note_quiet (h : allocation s act = none)
    (hact : ∀ n, act ≠ .initializeSlots n) : note s act cycles = cycles := by
  cases act with
  | initializeSlots n => exact absurd rfl (hact n)
  | reject t => exact absurd h (Option.some_ne_none _)
  | create t => exact absurd h (Option.some_ne_none _)
  | connect t => exact absurd h (Option.some_ne_none _)
  | _ => cases cycles <;> rfl

theorem note_allocation (h : allocation s act = some a) :
    note s act (cycle :: rest) =
      { cycle with allocations := a :: cycle.allocations } :: rest := by
  cases act with
  | reject t => obtain rfl := Option.some.inj h; rfl
  | create t => obtain rfl := Option.some.inj h; rfl
  | connect t => obtain rfl := Option.some.inj h; rfl
  | _ => exact absurd h.symm (Option.some_ne_none _)

/-- A recorded run that goes on. -/
theorem recorded_next {C : EasyServer × List Cycle → Action → Prop}
    (h : Reachable (recorded.restrict C) (s, cycles)) (act : Action)
    (hact : C (s, cycles) act) (hs : next s act = some s') :
    Reachable (recorded.restrict C) (s', note s act cycles) :=
  .next h ⟨hact, hs, rfl⟩

/-- **THE NUMBERS**: the record numbers the channels of every cycle, and the
    counters of the current one stand where it says. -/
structure Numbered (s : EasyServer) (cycles : List Cycle) : Prop where
  counting : ∀ t n, (s.thread t).task = .counted n → t < s.slots
  slots : 0 < s.slots → (current cycles).slots = s.slots
  channel : ∀ t < s.slots, (s.thread t).context.channel =
    (t + s.slots * madeBy (current cycles).allocations t) % 2 ^ 64
  strided : ∀ c ∈ cycles, Strided c.slots c.allocations

/-- A step of one thread that allocates nothing. -/
theorem Numbered.quiet (inv : Numbered s cycles) {t : Nat} (thread : IoThread)
    (hslots : s'.slots = s.slots)
    (hthread : s'.thread = Function.update s.thread t thread)
    (hch : thread.context.channel = (s.thread t).context.channel)
    (htask : ∀ n, thread.task = .counted n → t < s.slots) :
    Numbered s' cycles where
  counting := by
    rw [hthread, hslots]
    exact (Function.forall_update_iff s.thread fun i th =>
      ∀ n, th.task = .counted n → i < s.slots).mpr
      ⟨htask, fun i _ => inv.counting i⟩
  slots := by
    rw [hslots]
    exact inv.slots
  channel := by
    rw [hthread, hslots]
    refine (Function.forall_update_iff s.thread fun i th =>
      i < s.slots → th.context.channel = _).mpr ⟨?_, fun i _ => inv.channel i⟩
    rw [hch]
    exact inv.channel t
  strided := inv.strided

/-- A step of one thread that allocates. -/
theorem Numbered.allocate (inv : Numbered s (cycle :: rest)) (ht : t < s.slots)
    (thread : IoThread) (a : Allocation) (hat : a.thread = t)
    (hach : a.channel =
      ((s.thread t).context.allocateChannel s.slots !a.outgoing).1)
    (hslots : s'.slots = s.slots)
    (hthread : s'.thread = Function.update s.thread t thread)
    (hch : thread.context.channel =
      ((s.thread t).context.channel + s.slots) % 2 ^ 64)
    (htask : ∀ n, thread.task = .counted n → t < s.slots) :
    Numbered s'
      ({ cycle with allocations := a :: cycle.allocations } :: rest) := by
  have hs : cycle.slots = s.slots := inv.slots (Nat.zero_lt_of_lt ht)
  have hnext : ((s.thread t).context.channel + s.slots) % 2 ^ 64 =
      value s.slots t (madeBy cycle.allocations t) % 2 ^ 64 := by
    rw [inv.channel t ht, Nat.mod_add_mod, value, Nat.mul_succ, ← Nat.add_assoc]
    rfl
  refine ⟨?_, fun _ => hs.trans hslots.symm, ?_, ?_⟩
  · rw [hthread, hslots]
    exact (Function.forall_update_iff s.thread fun i th =>
      ∀ n, th.task = .counted n → i < s.slots).mpr
      ⟨htask, fun i _ => inv.counting i⟩
  · rw [hthread, hslots]
    subst hat
    refine (Function.forall_update_iff s.thread fun i th =>
      i < s.slots → th.context.channel = _).mpr ⟨fun _ => ?_, fun i hi hlt => ?_⟩
    · rw [hch, hnext, value]
      show _ = (a.thread + s.slots * madeBy (a :: cycle.allocations) a.thread) %
        2 ^ 64
      rw [madeBy_cons_self]
    · show _ = (i + s.slots * madeBy (a :: cycle.allocations) i) % 2 ^ 64
      rw [madeBy_cons_of_ne (Ne.symm hi)]
      exact inv.channel i hlt
  · intro c hc
    rcases List.mem_cons.mp hc with rfl | hc
    · refine ⟨⟨?_, ?_⟩, inv.strided cycle List.mem_cons_self⟩
      · rw [hat, hs]
        exact ht
      · rw [hach, hat, hs, ← hnext, code, IoContext.allocateChannel]
        cases a.outgoing <;> rfl
    · exact inv.strided c (List.mem_cons_of_mem _ hc)

-- ── The steps ────────────────────────────────────────────────────────────────

theorem Numbered.initializeSlots (inv : Numbered s cycles) {n : Nat}
    (h : s.initializeSlots n = some s') : Numbered s' (⟨n, []⟩ :: cycles) := by
  obtain ⟨h0, hpos, hmax, rfl⟩ := initializeSlots_eq_some h
  refine ⟨fun t m ht => ?_, fun _ => rfl, fun t ht => ?_, fun c hc => ?_⟩
  · have hlt := inv.counting t m ht
    rw [h0] at hlt
    exact absurd hlt (Nat.not_lt_zero t)
  · have hlt : t < 128 := Nat.lt_of_lt_of_le ht hmax
    show t = (t + n * 0) % 2 ^ 64
    rw [Nat.mul_zero, Nat.add_zero,
      Nat.mod_eq_of_lt (Nat.lt_trans hlt (by decide))]
  · rcases List.mem_cons.mp hc with rfl | hc
    · trivial
    · exact inv.strided c hc

theorem Numbered.shutdown (inv : Numbered s cycles) (h : s.shutdown = some s') :
    Numbered s' cycles := by
  rw [EasyServer.shutdown, Option.ite_none_right_eq_some] at h
  obtain ⟨hidle, h⟩ := h
  obtain rfl := Option.some.inj h
  refine ⟨fun t n ht => ?_, fun hpos => absurd hpos (Nat.lt_irrefl 0),
    fun t ht => absurd ht (Nat.not_lt_zero t), inv.strided⟩
  have htask := (hidle t (inv.counting t n ht)).1
  exact absurd (htask.symm.trans ht) (by simp)

theorem Numbered.count (inv : Numbered s cycles) (h : s.count t = some s') :
    Numbered s' cycles := by
  obtain ⟨ht, -, rfl⟩ := count_eq_some h
  exact inv.quiet { s.thread t with task := .counted _ } rfl rfl rfl
    fun _ _ => ht

theorem Numbered.refuse (inv : Numbered s cycles) (h : s.refuse t = some s') :
    Numbered s' cycles := by
  obtain ⟨inconn, -, rfl⟩ := refuse_eq_some h
  exact inv.quiet { s.thread t with task := .idle } rfl rfl rfl
    fun _ hc => absurd hc (by simp)

theorem Numbered.reject (inv : Numbered s (cycle :: rest))
    (h : s.reject t = some s') :
    Numbered s' (note s (.reject t) (cycle :: rest)) := by
  obtain ⟨inconn, htask, heq⟩ := reject_eq_some h
  obtain rfl := heq _ rfl
  exact inv.allocate (inv.counting t inconn htask)
    { s.thread t with context := _, task := .idle } ⟨t, _, none⟩ rfl rfl rfl
    rfl rfl fun _ hc => absurd hc (by simp)

theorem Numbered.create (inv : Numbered s (cycle :: rest))
    (h : s.create t = some s') :
    Numbered s' (note s (.create t) (cycle :: rest)) := by
  obtain ⟨inconn, htask, heq⟩ := create_eq_some h
  obtain rfl := heq _ rfl
  exact inv.allocate (inv.counting t inconn htask)
    { s.thread t with context := _, task := .created _ } ⟨t, _, none⟩ rfl rfl
    rfl rfl rfl fun _ hc => absurd hc (by simp)

theorem Numbered.connect (inv : Numbered s (cycle :: rest))
    (h : s.connect t = some s') :
    Numbered s' (note s (.connect t) (cycle :: rest)) := by
  obtain ⟨ht, heq⟩ := connect_eq_some h
  obtain rfl := heq _ rfl
  exact inv.allocate ht { s.thread t with context := _ } ⟨t, _, some s.made⟩ rfl
    rfl rfl rfl rfl (inv.counting t)

theorem Numbered.attach (inv : Numbered s cycles) {attached : Bool}
    (h : s.attach t attached = some s') : Numbered s' cycles := by
  obtain ⟨linkage, -, rfl⟩ := attach_eq_some h
  cases attached with
  | true =>
      exact inv.quiet { s.thread t with events := _, task := .idle } rfl rfl rfl
        fun _ hc => absurd hc (by simp)
  | false =>
      exact inv.quiet { s.thread t with task := .idle } rfl rfl rfl
        fun _ hc => absurd hc (by simp)

theorem Numbered.reconnect (inv : Numbered s cycles) {c : Channel}
    {connected : Bool} (h : s.reconnect c connected = some s') :
    Numbered s' cycles := by
  rw [EasyServer.reconnect, Option.ite_none_right_eq_some] at h
  obtain ⟨-, h⟩ := h
  split at h
  case h_1 => exact absurd h (by simp)
  case h_2 info hinfo =>
      split at h
      case isTrue =>
          obtain rfl := Option.some.inj h
          exact inv
      case isFalse =>
          obtain rfl := Option.some.inj h
          -- The context is set, then the events of the thread.
          let thread := s.thread (getThreadId s.slots c)
          let ioc : IoContext := { thread.context with
            channelLinkages :=
              thread.context.channelLinkages.insertNew c ⟨s.made, c⟩ }
          have hset : Numbered (s.setContext (getThreadId s.slots c) ioc) cycles :=
            inv.quiet { thread with context := ioc } rfl rfl rfl (inv.counting _)
          exact hset.quiet { (s.setContext _ ioc).thread info.threadId with
            events := _ } rfl rfl rfl (hset.counting _)

theorem Numbered.forget (inv : Numbered s cycles) (c : Channel) :
    Numbered (s.forget c) cycles := by
  by_cases hvalid : c = kInvalidChannel
  · rw [EasyServer.forget, if_pos hvalid]
    exact inv
  · obtain ⟨ioc, hthread, -, -, hch, hslots, -⟩ := forget_spec (s := s) hvalid
    exact inv.quiet _ hslots hthread hch (inv.counting _)

theorem Numbered.release (inv : Numbered s cycles) {linkage : ProxyLinkage}
    (h : s.release t linkage = some s') : Numbered s' cycles := by
  obtain ⟨-, -, rfl⟩ := release_eq_some h
  exact inv.quiet { s.thread t with events := _, task := .releasing linkage } rfl
    rfl rfl fun _ hc => absurd hc (by simp)

theorem Numbered.releaseChannel (inv : Numbered s cycles) (c : Channel) :
    Numbered (s.releaseChannel c) cycles := by
  by_cases hvalid : c = kInvalidChannel
  · rw [EasyServer.releaseChannel, if_pos hvalid]
    exact inv
  · obtain ⟨ioc, hthread, -, -, hch, hslots, -⟩ :=
      releaseChannel_spec (s := s) hvalid
    exact inv.quiet _ hslots hthread hch (inv.counting _)

theorem Numbered.releasing (inv : Numbered s cycles)
    (h : s.releasing t = some s') : Numbered s' cycles := by
  obtain ⟨linkage, -, rfl⟩ := releasing_eq_some h
  exact (inv.releaseChannel linkage.channel).quiet _ rfl rfl rfl
    fun _ hc => absurd hc (by simp)

theorem Numbered.delete (inv : Numbered s cycles) (h : s.delete t = some s') :
    Numbered s' cycles := by
  obtain ⟨linkage, -, rfl⟩ := delete_eq_some h
  exact inv.quiet { s.thread t with task := .idle } rfl rfl rfl
    fun _ hc => absurd hc (by simp)

/-- Where a thread is, there is a cycle. -/
theorem Numbered.cycle_of_lt (inv : Numbered s cycles) (ht : t < s.slots) :
    ∃ cycle rest, cycles = cycle :: rest := by
  cases cycles with
  | nil =>
      have hs : 0 = s.slots := inv.slots (Nat.zero_lt_of_lt ht)
      exact absurd (hs ▸ ht) (Nat.not_lt_zero t)
  | cons cycle rest => exact ⟨cycle, rest, rfl⟩

/-- One step. -/
theorem Numbered.next (inv : Numbered s cycles) (h : next s act = some s') :
    Numbered s' (note s act cycles) := by
  cases act with
  | initializeSlots n =>
      have hnote : note s (.initializeSlots n) cycles = ⟨n, []⟩ :: cycles := by
        cases cycles <;> rfl
      rw [hnote]
      exact inv.initializeSlots h
  | reject t =>
      obtain ⟨inconn, htask, -⟩ := reject_eq_some h
      obtain ⟨cycle, rest, rfl⟩ := inv.cycle_of_lt (inv.counting t inconn htask)
      exact inv.reject h
  | create t =>
      obtain ⟨inconn, htask, -⟩ := create_eq_some h
      obtain ⟨cycle, rest, rfl⟩ := inv.cycle_of_lt (inv.counting t inconn htask)
      exact inv.create h
  | connect t =>
      have ht : t < s.slots := (Option.ite_none_right_eq_some.mp h).1
      obtain ⟨cycle, rest, rfl⟩ := inv.cycle_of_lt ht
      exact inv.connect h
  | shutdown =>
      rw [note_quiet rfl (by simp)]
      exact inv.shutdown h
  | count t =>
      rw [note_quiet rfl (by simp)]
      exact inv.count h
  | refuse t =>
      rw [note_quiet rfl (by simp)]
      exact inv.refuse h
  | attach t attached =>
      rw [note_quiet rfl (by simp)]
      exact inv.attach h
  | reconnect c connected =>
      rw [note_quiet rfl (by simp)]
      exact inv.reconnect h
  | forget c =>
      rw [note_quiet rfl (by simp)]
      obtain ⟨-, heq⟩ := Option.ite_none_right_eq_some.mp h
      obtain rfl := Option.some.inj heq
      exact inv.forget c
  | disconnect c =>
      rw [note_quiet rfl (by simp)]
      obtain rfl := Option.some.inj h
      exact inv
  | release t linkage =>
      rw [note_quiet rfl (by simp)]
      exact inv.release h
  | releaseChannel t =>
      rw [note_quiet rfl (by simp)]
      exact inv.releasing h
  | delete t =>
      rw [note_quiet rfl (by simp)]
      exact inv.delete h

theorem Numbered.fresh (n : Nat) : Numbered (EasyServer.fresh n) [] where
  counting := fun _ _ h => absurd h (by simp [EasyServer.fresh])
  slots := fun h => absurd h (Nat.lt_irrefl 0)
  channel := fun t h => absurd h (Nat.not_lt_zero t)
  strided := fun _ h => absurd h List.not_mem_nil

/-- Every run numbers its channels. -/
theorem Numbered.reachable (h : Reachable recorded (s, cycles)) :
    Numbered s cycles := by
  refine h.invariant (I := fun p => Numbered p.1 p.2) ?_ ?_
  · rintro ⟨_, _⟩ ⟨⟨n, rfl⟩, rfl⟩
    exact .fresh n
  · rintro ⟨s, cycles⟩ act ⟨s', _⟩ - inv ⟨hs, rfl⟩
    exact inv.next hs

-- ── One cycle ────────────────────────────────────────────────────────────────

/-- The counter that a step advances stays below the outgoing bit. -/
def BelowOutgoingBit (s : EasyServer) : Action → Prop
  | .reject t => (s.thread t).context.channel + s.slots < 2 ^ 63
  | .create t => (s.thread t).context.channel + s.slots < 2 ^ 63
  | .connect t => (s.thread t).context.channel + s.slots < 2 ^ 63
  | _ => True

/-- Where the counter of a context goes next. -/
theorem Numbered.next_value (inv : Numbered s (cycle :: rest))
    (hbelow : Below cycle.slots cycle.allocations) (ht : t < s.slots) :
    (s.thread t).context.channel + s.slots =
      value s.slots t (madeBy cycle.allocations t) := by
  have hs : cycle.slots = s.slots := inv.slots (Nat.zero_lt_of_lt ht)
  rw [hs] at hbelow
  have hch : (s.thread t).context.channel =
      (t + s.slots * madeBy cycle.allocations t) % 2 ^ 64 := inv.channel t ht
  rw [hch, mod_of_below (hbelow t ht), value, Nat.mul_succ, ← Nat.add_assoc]

theorem Below.cons (h : Below slots as)
    (hv : value slots a.thread (madeBy as a.thread) < 2 ^ 63) :
    Below slots (a :: as) := by
  intro t ht
  by_cases hat : a.thread = t
  · rw [← hat, madeBy_cons_self]
    exact hv
  · rw [madeBy_cons_of_ne hat]
    exact h t ht

/-- The cycles after an allocation below the outgoing bit. -/
theorem Numbered.below_cons (inv : Numbered s cycles)
    (hbelow : ∀ c ∈ cycles, Below c.slots c.allocations)
    (ha : allocation s act = some a) (ht : a.thread < s.slots)
    (hroom : (s.thread a.thread).context.channel + s.slots < 2 ^ 63) :
    ∀ c ∈ note s act cycles, Below c.slots c.allocations := by
  obtain ⟨cycle, rest, rfl⟩ := inv.cycle_of_lt ht
  have hcycle := hbelow cycle List.mem_cons_self
  have hs : cycle.slots = s.slots := inv.slots (Nat.zero_lt_of_lt ht)
  rw [inv.next_value hcycle ht, ← hs] at hroom
  rw [note_allocation ha]
  intro c hc
  rcases List.mem_cons.mp hc with rfl | hc
  · exact hcycle.cons hroom
  · exact hbelow c (List.mem_cons_of_mem _ hc)

theorem Numbered.below_next (inv : Numbered s cycles)
    (hbelow : ∀ c ∈ cycles, Below c.slots c.allocations)
    (hact : BelowOutgoingBit s act) (h : FlinterEasyServer.next s act = some s') :
    ∀ c ∈ note s act cycles, Below c.slots c.allocations := by
  cases act with
  | initializeSlots n =>
      obtain ⟨-, -, hmax, -⟩ := initializeSlots_eq_some h
      intro c hc
      have hnote : note s (.initializeSlots n) cycles = ⟨n, []⟩ :: cycles := by
        cases cycles <;> rfl
      rw [hnote] at hc
      rcases List.mem_cons.mp hc with rfl | hc
      · intro t ht
        show t + n * 0 < 2 ^ 63
        rw [Nat.mul_zero, Nat.add_zero]
        exact Nat.lt_of_lt_of_le ht (Nat.le_trans hmax (by decide))
      · exact hbelow c hc
  | reject t =>
      obtain ⟨inconn, htask, -⟩ := reject_eq_some h
      exact inv.below_cons hbelow rfl (inv.counting t inconn htask) hact
  | create t =>
      obtain ⟨inconn, htask, -⟩ := create_eq_some h
      exact inv.below_cons hbelow rfl (inv.counting t inconn htask) hact
  | connect t => exact inv.below_cons hbelow rfl (connect_eq_some h).1 hact
  | _ =>
      rw [note_quiet rfl (by simp)]
      exact hbelow

/-- A run whose counters stay below the outgoing bit. -/
theorem below_reachable
    (h : Reachable (recorded.restrict fun p => BelowOutgoingBit p.1) (s, cycles)) :
    Numbered s cycles ∧ ∀ c ∈ cycles, Below c.slots c.allocations := by
  refine h.invariant (I := fun p => Numbered p.1 p.2 ∧
    ∀ c ∈ p.2, Below c.slots c.allocations) ?_ ?_
  · rintro ⟨_, _⟩ ⟨⟨n, rfl⟩, rfl⟩
    exact ⟨.fresh n, fun _ hc => absurd hc List.not_mem_nil⟩
  · rintro ⟨s, cycles⟩ act ⟨s', _⟩ - ⟨inv, hbelow⟩ ⟨hact, hs, rfl⟩
    exact ⟨inv.next hs, inv.below_next hbelow hact hs⟩

/-- **TOLD APART WITHIN A CYCLE**: in every run whose counters stay below the
    outgoing bit, the channels of a cycle are different and none is invalid;
    each leads back to the context that allocated it, and is outgoing if it was
    allocated so.  The cycle that is going on has the `_slots` of the server. -/
theorem told_apart_within_cycle
    (h : Reachable (recorded.restrict fun p => BelowOutgoingBit p.1) (s, cycles)) :
    (0 < s.slots → (current cycles).slots = s.slots) ∧
    ∀ c ∈ cycles,
      (c.allocations.Pairwise fun a b => a.channel ≠ b.channel) ∧
      ∀ a ∈ c.allocations, a.channel ≠ kInvalidChannel ∧
        getThreadId c.slots a.channel = a.thread ∧
        isOutgoingChannel a.channel = a.outgoing := by
  obtain ⟨inv, hbelow⟩ := below_reachable h
  refine ⟨inv.slots, fun c hc => ?_⟩
  have hstrided := inv.strided c hc
  exact ⟨hstrided.distinct (hbelow c hc),
    fun a ha => hstrided.channel (hbelow c hc) ha⟩

/-- Two contexts, the second with an outgoing channel behind an incoming one. -/
theorem told_apart_within_cycle_two :
    ∃ (s : EasyServer) (rest : List Cycle),
      Reachable (recorded.restrict fun p => BelowOutgoingBit p.1) (s,
        ⟨2, [⟨1, 0x8000000000000005, some 1⟩, ⟨0, 0x8000000000000002, some 0⟩,
          ⟨1, 3, none⟩]⟩ :: rest) ∧
      ([⟨1, 0x8000000000000005, some 1⟩, ⟨0, 0x8000000000000002, some 0⟩,
        ⟨1, 3, none⟩] : List Allocation).Pairwise
          fun a b => a.channel ≠ b.channel := by
  have hreach : Reachable (recorded.restrict fun p => BelowOutgoingBit p.1)
      (_, _) :=
    recorded_next (recorded_next (recorded_next (recorded_next (recorded_next
      (.start ⟨⟨50000, rfl⟩, rfl⟩) (.initializeSlots 2) trivial rfl)
      (.count 1) trivial rfl) (.reject 1) (by decide : 1 + 2 < 2 ^ 63) rfl)
      (.connect 0) (by decide : 0 + 2 < 2 ^ 63) rfl)
      (.connect 1) (by decide : 3 + 2 < 2 ^ 63) rfl
  exact ⟨_, _, hreach,
    ((told_apart_within_cycle hreach).2 _ List.mem_cons_self).1⟩

-- ── Two cycles ───────────────────────────────────────────────────────────────

/-- No channel of a cycle is one of an earlier cycle. -/
def NeverReissued (cycles : List Cycle) : Prop :=
  cycles.Pairwise fun later earlier =>
    ∀ a ∈ later.allocations, ∀ b ∈ earlier.allocations, a.channel ≠ b.channel

/-- Where the counters of the two cycles agree, the directions do not. -/
def Apart (later earlier : Cycle) : Prop :=
  ∀ t i d, (directions later.allocations t)[i]? = some d →
    ∀ u j e, (directions earlier.allocations u)[j]? = some e →
      value later.slots t i % 2 ^ 63 = value earlier.slots u j % 2 ^ 63 →
      shows d (value later.slots t i) ≠ shows e (value earlier.slots u j)

theorem apart_iff {later earlier : Cycle}
    (hl : Strided later.slots later.allocations)
    (he : Strided earlier.slots earlier.allocations) :
    (∀ a ∈ later.allocations, ∀ b ∈ earlier.allocations,
      a.channel ≠ b.channel) ↔ Apart later earlier := by
  constructor
  · intro h t i d hi u j e hj hvalue hshows
    obtain ⟨a, ha, -, -, hach⟩ := hl.allocated hi
    obtain ⟨b, hb, -, -, hbch⟩ := he.allocated hj
    refine h a ha b hb ?_
    rw [hach, hbch]
    exact code_inj.mpr ⟨hvalue, hshows⟩
  · intro h a ha b hb heq
    obtain ⟨-, i, hi, hach⟩ := hl.place ha
    obtain ⟨-, j, hj, hbch⟩ := he.place hb
    rw [hach, hbch] at heq
    obtain ⟨hvalue, hshows⟩ := code_inj.mp heq
    exact h _ _ _ hi _ _ _ hj hvalue hshows

/-- **NEVER REISSUED, IF THE COUNTERS KEEP APART**: in every run, no channel
    comes back in a later cycle exactly if any two places, of one cycle and of
    another, at which the counters agree are of different directions. -/
theorem never_reissued_iff (h : Reachable recorded (s, cycles)) :
    NeverReissued cycles ↔ cycles.Pairwise Apart := by
  have inv := Numbered.reachable h
  exact List.Pairwise.iff_of_mem fun hl he =>
    apart_iff (inv.strided _ hl) (inv.strided _ he)

/-- One outgoing channel, a shutdown, one more: it is the same channel. -/
theorem reissues_channel :
    ∃ s cycles, Reachable recorded (s, cycles) ∧ ¬NeverReissued cycles := by
  have hreach : Reachable (recorded.restrict fun _ _ => True) (_, _) :=
    recorded_next (recorded_next (recorded_next (recorded_next (recorded_next
      (.start ⟨⟨50000, rfl⟩, rfl⟩) (.initializeSlots 1) trivial rfl)
      (.connect 0) trivial rfl) .shutdown trivial rfl)
      (.initializeSlots 1) trivial rfl) (.connect 0) trivial rfl
  refine ⟨_, _, hreach.of_restrict, fun hnever => ?_⟩
  obtain ⟨hfirst, -⟩ := List.pairwise_cons.mp hnever
  exact hfirst _ List.mem_cons_self _ List.mem_cons_self _ List.mem_cons_self rfl

/-- What the only context of a cycle with one channel allocated. -/
theorem directions_singleton {i : Nat}
    (h : (directions [a] t)[i]? = some d) :
    t = a.thread ∧ i = 0 ∧ d = a.outgoing := by
  by_cases ht : a.thread = t
  · rw [directions, if_pos ht, directions, List.nil_append,
      List.getElem?_singleton, Option.ite_none_right_eq_some] at h
    exact ⟨ht.symm, h.1, (Option.some.inj h.2).symm⟩
  · rw [directions, if_neg ht, directions] at h
    exact absurd h (by simp)

/-- The same, with the second channel of the other direction. -/
theorem never_reissued_iff_directions :
    ∃ s, Reachable recorded (s,
      [⟨1, [⟨0, 1, none⟩]⟩, ⟨1, [⟨0, 0x8000000000000001, some 0⟩]⟩]) ∧
      NeverReissued
        [⟨1, [⟨0, 1, none⟩]⟩, ⟨1, [⟨0, 0x8000000000000001, some 0⟩]⟩] := by
  have hreach : Reachable (recorded.restrict fun _ _ => True) (_,
      [⟨1, [⟨0, 1, none⟩]⟩, ⟨1, [⟨0, 0x8000000000000001, some 0⟩]⟩]) :=
    recorded_next (recorded_next (recorded_next (recorded_next (recorded_next
      (recorded_next (.start ⟨⟨50000, rfl⟩, rfl⟩) (.initializeSlots 1) trivial rfl)
      (.connect 0) trivial rfl) .shutdown trivial rfl)
      (.initializeSlots 1) trivial rfl) (.count 0) trivial rfl)
      (.reject 0) trivial rfl
  refine ⟨_, hreach.of_restrict, (never_reissued_iff hreach.of_restrict).mpr
    (List.pairwise_pair.mpr fun t i d hi u j e hj _ => ?_)⟩
  obtain ⟨rfl, rfl, rfl⟩ := directions_singleton hi
  obtain ⟨rfl, rfl, rfl⟩ := directions_singleton hj
  decide

end FlinterEasyServer
