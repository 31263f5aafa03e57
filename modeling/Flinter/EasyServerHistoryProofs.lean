import Flinter.EasyServerCountProofs

/-! # EasyServer: the channels that were given out

    The record of a server's runs: a cycle for each `Initialize`, with the
    channels its contexts allocated.  A context strides a counter by the number
    of contexts, from its own index on, and says the direction in the top bit;
    so a channel is told by its context, the number of its allocation there and
    its direction. -/

namespace FlinterEasyServer

open Runs

/-- A channel that was allocated: by which context, and for an outgoing one the
    `ProxyHandler` made for it. -/
structure Allocation where
  thread : Nat
  channel : Channel
  proxyHandler : Option Nat
deriving DecidableEq, Repr

def Allocation.outgoing (a : Allocation) : Bool := a.proxyHandler.isSome

/-- From an `Initialize` on: `_slots`, and the channels, the last one first. -/
structure Cycle where
  slots : Nat
  allocations : List Allocation
deriving DecidableEq, Repr

/-- What a step allocates. -/
def allocation (s : EasyServer) : Action → Option Allocation
  | .reject t =>
    some ⟨t, ((s.thread t).context.allocateChannel s.slots true).1, none⟩
  | .create t =>
    some ⟨t, ((s.thread t).context.allocateChannel s.slots true).1, none⟩
  | .connect t =>
    some ⟨t, ((s.thread t).context.allocateChannel s.slots false).1, some s.made⟩
  | _ => none

/-- The cycles after a step, the current one first. -/
def note (s : EasyServer) (a : Action) (cycles : List Cycle) : List Cycle :=
  match a, cycles with
  | .initializeSlots slots, _ => ⟨slots, []⟩ :: cycles
  | _, [] => []
  | _, c :: rest =>
    { c with allocations := (allocation s a).toList ++ c.allocations } :: rest

/-- The server with the record of its cycles. -/
def recorded : System (EasyServer × List Cycle) Action := server.record [] note

/-- The cycle that is going on, or the last one. -/
def current : List Cycle → Cycle
  | [] => ⟨0, []⟩
  | c :: _ => c

variable {s s' : EasyServer} {cycles rest : List Cycle} {cycle : Cycle}
variable {slots t v w : Nat} {as : List Allocation} {a b : Allocation}
variable {thread : IoThread} {act : Action} {d e : Bool} {c : Channel}

-- ── The directions of a context ──────────────────────────────────────────────

/-- A channel by its direction and the counter. -/
def code (outgoing : Bool) (v : Nat) : Nat :=
  if outgoing then v ||| 0x8000000000000000 else v

/-- The counter of context `t` with its allocation `i`, from zero on. -/
def value (slots t i : Nat) : Nat := t + slots * (i + 1)

/-- The directions in which context `t` allocated, the first one first. -/
def directions : List Allocation → Nat → List Bool
  | [], _ => []
  | a :: as, t =>
    if a.thread = t then directions as t ++ [a.outgoing] else directions as t

/-- How often context `t` has allocated. -/
def madeBy (as : List Allocation) (t : Nat) : Nat := (directions as t).length

/-- Every channel is the next one of its context. -/
def Strided (slots : Nat) : List Allocation → Prop
  | [] => True
  | a :: as =>
    (a.thread < slots ∧ a.channel =
      code a.outgoing (value slots a.thread (madeBy as a.thread) % 2 ^ 64)) ∧
    Strided slots as

theorem directions_cons_self :
    directions (a :: as) a.thread = directions as a.thread ++ [a.outgoing] :=
  if_pos rfl

theorem directions_cons_of_ne (h : a.thread ≠ t) :
    directions (a :: as) t = directions as t :=
  if_neg h

theorem madeBy_cons_self : madeBy (a :: as) a.thread = madeBy as a.thread + 1 := by
  rw [madeBy, directions_cons_self, List.length_append]
  rfl

theorem madeBy_cons_of_ne (h : a.thread ≠ t) :
    madeBy (a :: as) t = madeBy as t := by
  rw [madeBy, directions_cons_of_ne h, madeBy]

theorem madeBy_le_cons (a : Allocation) (as : List Allocation) (t : Nat) :
    madeBy as t ≤ madeBy (a :: as) t := by
  by_cases h : a.thread = t
  · rw [← h, madeBy_cons_self]
    exact Nat.le_succ _
  · rw [madeBy_cons_of_ne h]

/-- An earlier allocation keeps its place. -/
theorem directions_cons {i : Nat} (h : (directions as t)[i]? = some d) :
    (directions (a :: as) t)[i]? = some d := by
  by_cases ht : a.thread = t
  · obtain ⟨hi, -⟩ := List.getElem?_eq_some_iff.mp h
    rw [← ht] at h hi ⊢
    rw [directions_cons_self, List.getElem?_append_left hi]
    exact h
  · rw [directions_cons_of_ne ht]
    exact h

/-- An allocation has a place among those of its context. -/
theorem Strided.place (h : Strided slots as) (ha : a ∈ as) :
    a.thread < slots ∧ ∃ i, (directions as a.thread)[i]? = some a.outgoing ∧
      a.channel = code a.outgoing (value slots a.thread i % 2 ^ 64) := by
  induction as with
  | nil => exact absurd ha List.not_mem_nil
  | cons b as ih =>
      obtain ⟨⟨hslots, hch⟩, hrest⟩ := h
      rcases List.mem_cons.mp ha with rfl | ha
      · refine ⟨hslots, madeBy as a.thread, ?_, hch⟩
        rw [directions_cons_self, madeBy, List.getElem?_concat_length]
      · obtain ⟨hlt, i, hi, hcode⟩ := ih hrest ha
        exact ⟨hlt, i, directions_cons hi, hcode⟩

/-- Every place has its allocation. -/
theorem Strided.allocated (h : Strided slots as) {i : Nat}
    (hi : (directions as t)[i]? = some d) :
    ∃ a ∈ as, a.thread = t ∧ a.outgoing = d ∧
      a.channel = code d (value slots t i % 2 ^ 64) := by
  induction as with
  | nil => exact absurd hi (by simp [directions])
  | cons b as ih =>
      obtain ⟨⟨-, hch⟩, hrest⟩ := h
      by_cases hb : (directions as t)[i]? = some d
      · obtain ⟨a, ha, hspec⟩ := ih hrest hb
        exact ⟨a, List.mem_cons_of_mem _ ha, hspec⟩
      · -- It is the place that `b` has added.
        by_cases ht : b.thread = t
        · subst ht
          rw [directions_cons_self] at hi
          rcases Nat.lt_or_ge i (directions as b.thread).length with hlt | hge
          · rw [List.getElem?_append_left hlt] at hi
            exact absurd hi hb
          · rw [List.getElem?_append_right hge, List.getElem?_singleton,
              Option.ite_none_right_eq_some] at hi
            obtain ⟨hzero, heq⟩ := hi
            obtain rfl := Option.some.inj heq
            obtain rfl : i = madeBy as b.thread := by
              rw [madeBy]
              omega
            exact ⟨b, List.mem_cons_self, rfl, rfl, hch⟩
        · rw [directions_cons_of_ne ht] at hi
          exact absurd hi hb

-- ── Channels and counters ────────────────────────────────────────────────────

theorem code_outgoing (hv : v < 2 ^ 64) : code true v = v % 2 ^ 63 + 2 ^ 63 := by
  have hor := Nat.two_pow_add_eq_or_of_lt
    (Nat.mod_lt v (show 0 < 2 ^ 63 by decide)) 1
  have hbits : v ||| 2 ^ 63 = 2 ^ 63 * 1 ||| v % 2 ^ 63 := by
    refine Nat.eq_of_testBit_eq fun i => ?_
    rw [Nat.testBit_or, Nat.testBit_or, Nat.mul_one, Nat.testBit_two_pow,
      Nat.testBit_mod_two_pow]
    by_cases hi : i < 63
    · simp [hi, Nat.ne_of_gt hi]
    · rcases Nat.lt_or_ge i 64 with hlt | hge
      · simp [show 63 = i by omega]
      · rw [Nat.testBit_lt_two_pow (Nat.lt_of_lt_of_le hv
          (Nat.pow_le_pow_right (by decide) hge))]
        simp [hi]
  have hcode : code true v = v ||| 2 ^ 63 := rfl
  rw [hcode, hbits, ← hor, Nat.mul_one, Nat.add_comm]

/-- The direction a channel shows: the counter may have reached its bit. -/
def shows (outgoing : Bool) (v : Nat) : Bool :=
  outgoing || decide (2 ^ 63 ≤ v % 2 ^ 64)

/-- Two channels are one if their counters agree below the top bit, and the
    directions they show agree too. -/
theorem code_inj : code d (v % 2 ^ 64) = code e (w % 2 ^ 64) ↔
    v % 2 ^ 63 = w % 2 ^ 63 ∧ shows d v = shows e w := by
  have hv := Nat.mod_lt v (show 0 < 2 ^ 64 by decide)
  have hw := Nat.mod_lt w (show 0 < 2 ^ 64 by decide)
  have hdvd : 2 ^ 63 ∣ 2 ^ 64 := Nat.pow_dvd_pow 2 (by decide)
  have hfalse : ∀ x, code false x = x := fun _ => rfl
  rw [← Nat.mod_mod_of_dvd v hdvd, ← Nat.mod_mod_of_dvd w hdvd, shows, shows]
  -- From here on only the two words matter.
  generalize v % 2 ^ 64 = x at *
  generalize w % 2 ^ 64 = y at *
  by_cases hx : 2 ^ 63 ≤ x <;> by_cases hy : 2 ^ 63 ≤ y <;>
    cases d <;> cases e <;>
    simp [code_outgoing hv, code_outgoing hw, hfalse] <;>
    omega

theorem serial_code (hv : v < 2 ^ 63) (outgoing : Bool) :
    serial (code outgoing v) = v := by
  cases outgoing with
  | false => exact serial_of_lt hv
  | true => exact serial_outgoing hv

theorem isOutgoingChannel_or (v : Nat) :
    isOutgoingChannel (v ||| 0x8000000000000000) = true := by
  have hb := Nat.and_two_pow (v ||| 2 ^ 63) 63
  rw [Nat.testBit_or, Nat.testBit_two_pow_self, Bool.or_true] at hb
  exact bne_iff_ne.mpr (ne_of_eq_of_ne hb (by decide))

theorem isOutgoingChannel_code (hv : v < 2 ^ 63) (outgoing : Bool) :
    isOutgoingChannel (code outgoing v) = outgoing := by
  cases outgoing with
  | false => exact isOutgoingChannel_of_lt hv
  | true => exact isOutgoingChannel_or v

/-- The counter tells the context and the place. -/
theorem value_inj {t' i i' : Nat} (ht : t < slots) (ht' : t' < slots)
    (h : value slots t i = value slots t' i') : t = t' ∧ i = i' := by
  have hmod := congrArg (· % slots) h
  simp only [value, Nat.add_mul_mod_self_left] at hmod
  rw [Nat.mod_eq_of_lt ht, Nat.mod_eq_of_lt ht'] at hmod
  subst hmod
  have hmul := Nat.add_left_cancel h
  exact ⟨rfl, Nat.succ.inj
    (Nat.eq_of_mul_eq_mul_left (Nat.zero_lt_of_lt ht) hmul)⟩

-- ── Cycles whose counters stay below the outgoing bit ────────────────────────

/-- No counter has reached the outgoing bit. -/
def Below (slots : Nat) (as : List Allocation) : Prop :=
  ∀ t < slots, t + slots * madeBy as t < 2 ^ 63

theorem Below.tail (h : Below slots (a :: as)) : Below slots as := by
  intro t ht
  refine Nat.lt_of_le_of_lt (Nat.add_le_add_left ?_ t) (h t ht)
  exact Nat.mul_le_mul_left slots (madeBy_le_cons a as t)

/-- The counter of an allocation that was made. -/
theorem Below.value_lt (h : Below slots as) (ht : t < slots) {i : Nat}
    (hi : (directions as t)[i]? = some d) : value slots t i < 2 ^ 63 := by
  obtain ⟨hlt, -⟩ := List.getElem?_eq_some_iff.mp hi
  refine Nat.lt_of_le_of_lt (Nat.add_le_add_left ?_ t) (h t ht)
  exact Nat.mul_le_mul_left slots hlt

theorem mod_of_below (h : v < 2 ^ 63) : v % 2 ^ 64 = v :=
  Nat.mod_eq_of_lt (Nat.lt_trans h (by decide))

/-- **WHAT A CHANNEL SAYS**: it is valid, leads back to its context and tells its
    direction. -/
theorem Strided.channel (h : Strided slots as) (hbelow : Below slots as)
    (ha : a ∈ as) :
    a.channel ≠ kInvalidChannel ∧ getThreadId slots a.channel = a.thread ∧
      isOutgoingChannel a.channel = a.outgoing := by
  obtain ⟨hslots, i, hi, hch⟩ := h.place ha
  have hlt := hbelow.value_lt hslots hi
  rw [mod_of_below hlt] at hch
  have hserial := serial_code hlt a.outgoing
  rw [← hch] at hserial
  refine ⟨fun hinvalid => ?_, ?_, ?_⟩
  · rw [hinvalid, value] at hserial
    have hpos : 0 < slots * (i + 1) :=
      Nat.mul_pos (Nat.zero_lt_of_lt hslots) (Nat.succ_pos i)
    have hzero : serial kInvalidChannel = 0 := rfl
    omega
  · rw [getThreadId_eq, hserial, value, Nat.add_mul_mod_self_left,
      Nat.mod_eq_of_lt hslots]
  · rw [hch]
    exact isOutgoingChannel_code hlt _

/-- **NO CHANNEL TWICE**: the channels of a cycle are all different. -/
theorem Strided.distinct (h : Strided slots as) (hbelow : Below slots as) :
    as.Pairwise fun a b => a.channel ≠ b.channel := by
  induction as with
  | nil => exact .nil
  | cons a as ih =>
      obtain ⟨⟨hslots, hch⟩, hrest⟩ := h
      refine List.pairwise_cons.mpr
        ⟨fun b hb heq => ?_, ih hrest hbelow.tail⟩
      obtain ⟨hbslots, i, hi, hbch⟩ := hrest.place hb
      have hblt := hbelow.tail.value_lt hbslots hi
      have hlt : value slots a.thread (madeBy as a.thread) < 2 ^ 63 := by
        rw [value, ← madeBy_cons_self]
        exact hbelow a.thread hslots
      rw [mod_of_below hblt] at hbch
      rw [mod_of_below hlt] at hch
      have hserial := congrArg serial (hch.symm.trans (heq.trans hbch))
      rw [serial_code hlt, serial_code hblt] at hserial
      obtain ⟨hthread, hplace⟩ := value_inj hslots hbslots hserial
      -- The place of the new channel is behind all that were there.
      obtain ⟨hlen, -⟩ := List.getElem?_eq_some_iff.mp hi
      rw [← hthread, ← hplace] at hlen
      exact Nat.lt_irrefl _ hlen

end FlinterEasyServer
