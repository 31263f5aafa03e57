import Flinter.EasyServerChannelProofs
import Mathlib.Algebra.Order.BigOperators.Group.Finset
import Mathlib.Data.List.Pairwise

/-! # EasyServer: the proxy handlers of outgoing channels

    The handler made by `Connect` is shared by the information that the channel
    may connect again and by the linkage that is connected.  Whichever goes
    last deletes it.  The handlers made are, at any time, those deleted and
    those in the tables; a table holds those still needed. -/

namespace FlinterEasyServer

open Finset Runs

variable {s s' : EasyServer} {cycles rest : List Cycle} {cycle : Cycle}
variable {slots t : Nat} {as : List Allocation} {a b : Allocation}
variable {thread thread' : IoThread} {act : Action} {c : Channel} {β : Type}

-- ── Tables ───────────────────────────────────────────────────────────────────

theorem Table.mem_iff {m : Table β} : c ∈ m ↔ ∃ b, ⟨c, b⟩ ∈ m.entries := by
  constructor
  · intro h
    exact List.exists_of_mem_keys h
  · rintro ⟨b, hb⟩
    exact List.mem_keys_of_mem hb

theorem Table.mem_erase_entries {m : Table β} {e : (_ : Channel) × β} :
    e ∈ (m.erase c).entries ↔ e.1 ≠ c ∧ e ∈ m.entries := by
  obtain ⟨k, b⟩ := e
  rw [← AList.mem_lookup_iff, ← AList.mem_lookup_iff]
  by_cases hk : k = c
  · subst hk
    simp [AList.lookup_erase]
  · simp [AList.lookup_erase_ne hk, hk]

theorem Table.mem_insertNew_iff {m : Table β} {k : Channel} {b : β} :
    k ∈ m.insertNew c b ↔ k = c ∨ k ∈ m := by
  by_cases h : c ∈ m
  · rw [Table.insertNew, if_pos h]
    constructor
    · exact .inr
    · rintro (rfl | hk)
      · exact h
      · exact hk
  · rw [Table.insertNew, if_neg h, AList.mem_insert]

-- ── What a thread owns ───────────────────────────────────────────────────────

/-- The handlers a context owns. -/
def IoContext.handlers (ioc : IoContext) : List Nat :=
  ioc.connectProxyHandlers.entries.map (·.2)

def ProxyLinkage.outgoing (linkage : ProxyLinkage) : Bool :=
  isOutgoingChannel linkage.channel

/-- What thread `t` owns: a handler for each outgoing channel that may connect
    again or is connected, the one that was recorded with the channel.  The
    outgoing entries of the linkage table are the outgoing linkages. -/
structure IoThread.Owns (slots t : Nat) (as : List Allocation)
    (thread : IoThread) : Prop where
  info : ∀ e ∈ thread.context.outgoingInformations.entries, e.2.threadId = t ∧
    ⟨e.1, e.2.proxyHandler⟩ ∈ thread.context.connectProxyHandlers.entries
  handler : ∀ e ∈ thread.context.connectProxyHandlers.entries,
    ⟨t, e.1, some e.2⟩ ∈ as ∧ (e.1 ∈ thread.context.outgoingInformations ∨
      e.1 ∈ thread.context.channelLinkages)
  entry : ∀ e ∈ thread.context.channelLinkages.entries, e.2.channel = e.1 ∧
    (isOutgoingChannel e.1 = true → e.1 ∈ thread.context.connectProxyHandlers)
  attended : ∀ l ∈ thread.attended,
    l.channel ≠ kInvalidChannel ∧ getThreadId slots l.channel = t
  live : ((thread.context.channelLinkages.entries.map (·.2)).filter
    ProxyLinkage.outgoing).Perm (thread.attended.filter ProxyLinkage.outgoing)
  created : ∀ l, thread.task = .created l → l.outgoing = false
  absent : slots ≤ t → thread.task = .idle ∧ thread.events = [] ∧
    thread.context.connectProxyHandlers.entries = []

/-- The outgoing entries are those of the linkages attended to. -/
theorem IoThread.Owns.linked (h : thread.Owns slots t as)
    (hc : isOutgoingChannel c = true) :
    c ∈ thread.context.channelLinkages ↔ ∃ l ∈ thread.attended, l.channel = c := by
  rw [Table.mem_iff]
  constructor
  · rintro ⟨l, hl⟩
    have hkey : l.channel = c := (h.entry _ hl).1
    have hout : l.outgoing = true := by rw [ProxyLinkage.outgoing, hkey, hc]
    have hmem := h.live.mem_iff.mp
      (List.mem_filter.mpr ⟨List.mem_map_of_mem hl, hout⟩)
    exact ⟨l, (List.mem_filter.mp hmem).1, hkey⟩
  · rintro ⟨l, hl, rfl⟩
    obtain ⟨hmem, -⟩ := List.mem_filter.mp
      (h.live.mem_iff.mpr (List.mem_filter.mpr ⟨hl, hc⟩))
    obtain ⟨e, he, rfl⟩ := List.mem_map.mp hmem
    refine ⟨e.2, ?_⟩
    rw [(h.entry e he).1]
    exact he

theorem IoThread.Owns.lt (h : thread.Owns slots t as)
    (htask : thread.task ≠ .idle) : t < slots := by
  by_contra hge
  exact htask (h.absent (Nat.le_of_not_lt hge)).1

/-- The allocations of other threads do not matter. -/
theorem IoThread.Owns.mono (h : thread.Owns slots t as) (a : Allocation) :
    thread.Owns slots t (a :: as) where
  info := h.info
  handler := fun e he => by
    obtain ⟨hmem, hneeded⟩ := h.handler e he
    exact ⟨List.mem_cons_of_mem a hmem, hneeded⟩
  entry := h.entry
  attended := h.attended
  live := h.live
  created := h.created
  absent := h.absent

/-- The tables are untouched, and so are the outgoing linkages. -/
theorem IoThread.Owns.work (h : thread.Owns slots t as) (ht : t < slots)
    (thread' : IoThread)
    (hinfo : thread'.context.outgoingInformations =
      thread.context.outgoingInformations)
    (hhandler : thread'.context.connectProxyHandlers =
      thread.context.connectProxyHandlers)
    (hlink : thread'.context.channelLinkages = thread.context.channelLinkages)
    (hsub : ∀ l ∈ thread'.attended, l ∈ thread.attended)
    (hlive : (thread.attended.filter ProxyLinkage.outgoing).Perm
      (thread'.attended.filter ProxyLinkage.outgoing))
    (hcreated : ∀ l, thread'.task ≠ .created l) : thread'.Owns slots t as where
  info := by rw [hinfo, hhandler]; exact h.info
  handler := by rw [hinfo, hhandler, hlink]; exact h.handler
  entry := by rw [hhandler, hlink]; exact h.entry
  attended := fun l hl => h.attended l (hsub l hl)
  live := by rw [hlink]; exact h.live.trans hlive
  created := fun l hl => absurd hl (hcreated l)
  absent := fun hge => absurd ht (Nat.not_lt_of_le hge)

/-- A linkage is entered, an outgoing one where there is none. -/
theorem IoThread.Owns.enter (h : thread.Owns slots t as) (ht : t < slots)
    (thread' : IoThread) (linkage : ProxyLinkage)
    (hinfo : thread'.context.outgoingInformations =
      thread.context.outgoingInformations)
    (hhandler : thread'.context.connectProxyHandlers =
      thread.context.connectProxyHandlers)
    (hlink : thread'.context.channelLinkages =
      thread.context.channelLinkages.insertNew linkage.channel linkage)
    (hp : (linkage :: thread.attended).Perm thread'.attended)
    (hvalid : linkage.channel ≠ kInvalidChannel)
    (hthread : getThreadId slots linkage.channel = t)
    (hneeded : linkage.outgoing = true →
      linkage.channel ∈ thread.context.connectProxyHandlers ∧
        linkage.channel ∉ thread.context.channelLinkages)
    (hcreated : ∀ l, thread'.task = .created l → l.outgoing = false) :
    thread'.Owns slots t as where
  info := by rw [hinfo, hhandler]; exact h.info
  handler := fun e he => by
    rw [hhandler] at he
    rw [hinfo, hlink, Table.mem_insertNew_iff]
    obtain ⟨hmem, hneed⟩ := h.handler e he
    exact ⟨hmem, hneed.imp_right .inr⟩
  entry := fun e he => by
    rw [hlink] at he
    rw [hhandler]
    rcases Table.mem_insertNew he with rfl | he
    · exact ⟨rfl, fun hout => (hneeded hout).1⟩
    · exact h.entry e he
  attended := fun l hl => by
    rcases List.mem_cons.mp (hp.mem_iff.mpr hl) with rfl | hl
    · exact ⟨hvalid, hthread⟩
    · exact h.attended l hl
  live := by
    refine .trans ?_ (hp.filter ProxyLinkage.outgoing)
    rw [hlink]
    by_cases hin : linkage.channel ∈ thread.context.channelLinkages
    · -- It is an incoming one then.
      have hout : ¬linkage.outgoing = true := fun hout => (hneeded hout).2 hin
      rw [Table.insertNew, if_pos hin, List.filter_cons_of_neg hout]
      exact h.live
    · rw [Table.entries_insertNew hin, List.map_cons]
      by_cases hout : linkage.outgoing = true
      · rw [List.filter_cons_of_pos hout, List.filter_cons_of_pos hout]
        exact h.live.cons linkage
      · rw [List.filter_cons_of_neg hout, List.filter_cons_of_neg hout]
        exact h.live
  created := hcreated
  absent := fun hge => absurd ht (Nat.not_lt_of_le hge)

/-- A channel with its handler and its information. -/
theorem IoThread.Owns.connect (h : thread.Owns slots t as) (ht : t < slots)
    (thread' : IoThread) {p : Nat} (hfresh : ∀ a ∈ as, a.channel ≠ c)
    (hinfo : thread'.context.outgoingInformations =
      thread.context.outgoingInformations.insertNew c ⟨p, t⟩)
    (hhandler : thread'.context.connectProxyHandlers =
      thread.context.connectProxyHandlers.insertNew c p)
    (hlink : thread'.context.channelLinkages = thread.context.channelLinkages)
    (hattended : thread'.attended = thread.attended)
    (htask : thread'.task = thread.task) :
    thread'.Owns slots t (⟨t, c, some p⟩ :: as) ∧
      thread'.context.handlers = p :: thread.context.handlers := by
  have hnew : c ∉ thread.context.connectProxyHandlers := by
    intro hmem
    obtain ⟨p', hp'⟩ := Table.mem_iff.mp hmem
    exact hfresh _ (h.handler _ hp').1 rfl
  have hentries := Table.entries_insertNew hnew p
  refine ⟨⟨fun e he => ?_, fun e he => ?_, fun e he => ?_, ?_, ?_, ?_, ?_⟩, ?_⟩
  · rw [hinfo] at he
    rw [hhandler, hentries]
    rcases Table.mem_insertNew he with rfl | he
    · exact ⟨rfl, List.mem_cons_self⟩
    · obtain ⟨hid, hmem⟩ := h.info e he
      exact ⟨hid, List.mem_cons_of_mem _ hmem⟩
  · rw [hhandler, hentries] at he
    rw [hinfo, hlink, Table.mem_insertNew_iff]
    rcases List.mem_cons.mp he with rfl | he
    · exact ⟨List.mem_cons_self, .inl (.inl rfl)⟩
    · obtain ⟨hmem, hneed⟩ := h.handler e he
      exact ⟨List.mem_cons_of_mem _ hmem, hneed.imp_left .inr⟩
  · rw [hlink] at he
    rw [hhandler, Table.mem_insertNew_iff]
    obtain ⟨hkey, hout⟩ := h.entry e he
    exact ⟨hkey, fun ho => .inr (hout ho)⟩
  · rw [hattended]
    exact h.attended
  · rw [hattended, hlink]
    exact h.live
  · rw [htask]
    exact h.created
  · exact fun hge => absurd ht (Nat.not_lt_of_le hge)
  · rw [IoContext.handlers, hhandler, hentries]
    rfl

/-- Entries are lost, and of the handlers those that nothing needs any more. -/
theorem IoThread.Owns.drop (h : thread.Owns slots t as) (ht : t < slots)
    (thread' : IoThread)
    (hinfo : ∀ e ∈ thread'.context.outgoingInformations.entries,
      e ∈ thread.context.outgoingInformations.entries)
    (hlink : ∀ e ∈ thread'.context.channelLinkages.entries,
      e ∈ thread.context.channelLinkages.entries)
    (hhandler : ∀ e, e ∈ thread'.context.connectProxyHandlers.entries ↔
      e ∈ thread.context.connectProxyHandlers.entries ∧
        (e.1 ∈ thread'.context.outgoingInformations ∨
          e.1 ∈ thread'.context.channelLinkages))
    (hattended : ∀ l ∈ thread'.attended, l ∈ thread.attended)
    (hlive : ((thread'.context.channelLinkages.entries.map (·.2)).filter
      ProxyLinkage.outgoing).Perm
        (thread'.attended.filter ProxyLinkage.outgoing))
    (hcreated : ∀ l, thread'.task = .created l → l.outgoing = false) :
    thread'.Owns slots t as where
  info := fun e he => by
    obtain ⟨hid, hmem⟩ := h.info e (hinfo e he)
    exact ⟨hid, (hhandler _).mpr ⟨hmem, .inl (Table.mem_iff.mpr ⟨e.2, he⟩)⟩⟩
  handler := fun e he => by
    obtain ⟨hmem, hneed⟩ := (hhandler e).mp he
    exact ⟨(h.handler e hmem).1, hneed⟩
  entry := fun e he => by
    obtain ⟨hkey, hout⟩ := h.entry e (hlink e he)
    refine ⟨hkey, fun ho => ?_⟩
    obtain ⟨p, hp⟩ := Table.mem_iff.mp (hout ho)
    exact Table.mem_iff.mpr
      ⟨p, (hhandler _).mpr ⟨hp, .inr (Table.mem_iff.mpr ⟨e.2, he⟩)⟩⟩
  attended := fun l hl => h.attended l (hattended l hl)
  live := hlive
  created := hcreated
  absent := fun hge => absurd ht (Nat.not_lt_of_le hge)

/-- Only channel `c` lost something: its handler goes if nothing needs it. -/
theorem IoThread.Owns.handler_iff (h : thread.Owns slots t as)
    (hinfo : ∀ k ≠ c, k ∈ thread.context.outgoingInformations →
      k ∈ thread'.context.outgoingInformations)
    (hlink : ∀ k ≠ c, k ∈ thread.context.channelLinkages →
      k ∈ thread'.context.channelLinkages)
    (hcases : ((c ∈ thread'.context.outgoingInformations ∨
          c ∈ thread'.context.channelLinkages ∨
          c ∉ thread.context.connectProxyHandlers) ∧
        thread'.context.connectProxyHandlers =
          thread.context.connectProxyHandlers) ∨
      (c ∉ thread'.context.outgoingInformations ∧
        c ∉ thread'.context.channelLinkages ∧
        thread'.context.connectProxyHandlers =
          thread.context.connectProxyHandlers.erase c))
    (e : (_ : Channel) × Nat) :
    e ∈ thread'.context.connectProxyHandlers.entries ↔
      e ∈ thread.context.connectProxyHandlers.entries ∧
        (e.1 ∈ thread'.context.outgoingInformations ∨
          e.1 ∈ thread'.context.channelLinkages) := by
  have hother : e.1 ≠ c → e ∈ thread.context.connectProxyHandlers.entries →
      e.1 ∈ thread'.context.outgoingInformations ∨
        e.1 ∈ thread'.context.channelLinkages := fun hne he =>
    (h.handler e he).2.imp (hinfo _ hne) (hlink _ hne)
  rcases hcases with ⟨hkept, heq⟩ | ⟨hi, hl, heq⟩
  · rw [heq]
    refine ⟨fun he => ⟨he, ?_⟩, fun he => he.1⟩
    by_cases hc : e.1 = c
    · rw [hc]
      rcases hkept with hk | hk | hk
      · exact .inl hk
      · exact .inr hk
      · exact absurd (Table.mem_iff.mpr ⟨e.2, hc ▸ he⟩) hk
    · exact hother hc he
  · rw [heq, Table.mem_erase_entries]
    constructor
    · rintro ⟨hne, he⟩
      exact ⟨he, hother hne he⟩
    · rintro ⟨he, hneed⟩
      refine ⟨fun hc => ?_, he⟩
      rw [hc] at hneed
      exact hneed.elim hi hl

/-- The entry of a linkage goes with it. -/
theorem IoThread.Owns.live_leave (h : thread.Owns slots t as)
    (linkage : ProxyLinkage)
    (hp : thread.attended.Perm (linkage :: thread'.attended)) :
    (((thread.context.channelLinkages.erase linkage.channel).entries.map
      (·.2)).filter ProxyLinkage.outgoing).Perm
        (thread'.attended.filter ProxyLinkage.outgoing) := by
  have hlive := h.live.trans (hp.filter ProxyLinkage.outgoing)
  by_cases hin : linkage.channel ∈ thread.context.channelLinkages
  · obtain ⟨l, hl⟩ := Table.mem_iff.mp hin
    have hperm := ((Table.perm_erase hl).map (·.2)).filter ProxyLinkage.outgoing
    have hkey : l.channel = linkage.channel := (h.entry _ hl).1
    by_cases hout : linkage.outgoing = true
    · -- The outgoing linkage of this channel is this one.
      have hmem := hp.mem_iff.mpr List.mem_cons_self
      obtain ⟨hmap, -⟩ := List.mem_filter.mp
        (h.live.mem_iff.mpr (List.mem_filter.mpr ⟨hmem, hout⟩))
      obtain ⟨e, he, rfl⟩ := List.mem_map.mp hmap
      obtain rfl : e.2 = l := by
        refine thread.context.channelLinkages.nodupKeys.eq_of_mk_mem ?_ hl
        rw [(h.entry e he).1]
        exact he
      rw [List.map_cons, List.filter_cons_of_pos hout] at hperm
      rw [List.filter_cons_of_pos hout] at hlive
      exact (hperm.symm.trans hlive).cons_inv
    · have hl' : ¬l.outgoing = true := by
        rw [ProxyLinkage.outgoing, hkey]
        exact hout
      rw [List.map_cons, List.filter_cons_of_neg hl'] at hperm
      rw [List.filter_cons_of_neg hout] at hlive
      exact hperm.symm.trans hlive
  · have hout : ¬linkage.outgoing = true := fun hout =>
      hin ((h.linked hout).mpr
        ⟨linkage, hp.mem_iff.mpr List.mem_cons_self, rfl⟩)
    rw [List.filter_cons_of_neg hout] at hlive
    have hsame : (thread.context.channelLinkages.erase linkage.channel).entries =
        thread.context.channelLinkages.entries :=
      List.kerase_of_notMem_keys hin
    rw [hsame]
    exact hlive

-- ── All threads ──────────────────────────────────────────────────────────────

/-- The handlers made for the channels of a cycle. -/
def Cycle.handlers (c : Cycle) : List Nat :=
  c.allocations.filterMap (·.proxyHandler)

/-- The handlers made so far. -/
def handlersMade (cycles : List Cycle) : List Nat :=
  cycles.flatMap Cycle.handlers

/-- **THE BOOKS**: the handlers made are those deleted and those in the tables of
    the threads, each made once. -/
structure Bookkept (s : EasyServer) (cycles : List Cycle) : Prop where
  slots : s.slots ≤ kMaximumSlots
  thread : ∀ t, (s.thread t).Owns s.slots t (current cycles).allocations
  handlers : (handlersMade cycles : Multiset Nat) = s.deletedHandlers +
    ∑ t ∈ range kMaximumSlots, ((s.thread t).context.handlers : Multiset Nat)
  nodup : (handlersMade cycles).Nodup
  made : ∀ p ∈ handlersMade cycles, p < s.made
  assertion : s.violated = false

/-- One thread changes, and the handlers it loses are deleted. -/
theorem Bookkept.move (inv : Bookkept s cycles) (ht : t < s.slots)
    (thread : IoThread) (hslots : s'.slots = s.slots)
    (hthread : s'.thread = Function.update s.thread t thread)
    (howns : thread.Owns s.slots t (current cycles).allocations)
    (hhandlers : (s'.deletedHandlers : Multiset Nat) + thread.context.handlers =
      s.deletedHandlers + (s.thread t).context.handlers)
    (hmade : s.made ≤ s'.made) (hviolated : s'.violated = s.violated) :
    Bookkept s' cycles where
  slots := hslots ▸ inv.slots
  thread := by
    rw [hslots, hthread]
    exact (Function.forall_update_iff s.thread fun i th =>
      th.Owns s.slots i (current cycles).allocations).mpr
      ⟨howns, fun i _ => inv.thread i⟩
  handlers := by
    have htm : t < kMaximumSlots := Nat.lt_of_lt_of_le ht inv.slots
    have hsum := sum_update (fun th => (th.context.handlers : Multiset Nat))
      s.thread thread htm
    refine add_right_cancel (b := ((s.thread t).context.handlers : Multiset Nat)) ?_
    rw [inv.handlers, hthread, add_right_comm, ← hhandlers, add_right_comm,
      add_assoc, ← hsum, add_assoc]
  nodup := inv.nodup
  made := fun p hp => Nat.lt_of_lt_of_le (inv.made p hp) hmade
  assertion := hviolated.trans inv.assertion

theorem handlersMade_cons (a : Allocation) :
    handlersMade ({ cycle with allocations := a :: cycle.allocations } :: rest) =
      a.proxyHandler.toList ++ handlersMade (cycle :: rest) := by
  cases ha : a.proxyHandler <;>
    simp [handlersMade, Cycle.handlers, ha]

/-- One thread allocates a channel, an outgoing one with a handler. -/
theorem Bookkept.allocate (inv : Bookkept s (cycle :: rest)) (ht : t < s.slots)
    (thread : IoThread) (a : Allocation) (hslots : s'.slots = s.slots)
    (hthread : s'.thread = Function.update s.thread t thread)
    (howns : thread.Owns s.slots t (a :: cycle.allocations))
    (hhandlers : thread.context.handlers =
      a.proxyHandler.toList ++ (s.thread t).context.handlers)
    (hdeleted : s'.deletedHandlers = s.deletedHandlers)
    (hfresh : ∀ p ∈ a.proxyHandler.toList, s.made ≤ p ∧ p < s'.made)
    (hmade : s.made ≤ s'.made) (hviolated : s'.violated = s.violated) :
    Bookkept s'
      ({ cycle with allocations := a :: cycle.allocations } :: rest) where
  slots := hslots ▸ inv.slots
  thread := by
    rw [hslots, hthread]
    exact (Function.forall_update_iff s.thread fun i th =>
      th.Owns s.slots i (a :: cycle.allocations)).mpr
      ⟨howns, fun i _ => (inv.thread i).mono a⟩
  handlers := by
    have htm : t < kMaximumSlots := Nat.lt_of_lt_of_le ht inv.slots
    have hsum := sum_update (fun th => (th.context.handlers : Multiset Nat))
      s.thread thread htm
    refine add_right_cancel (b := ((s.thread t).context.handlers : Multiset Nat)) ?_
    rw [handlersMade_cons, ← Multiset.coe_add, inv.handlers, hthread, hdeleted,
      add_assoc (s.deletedHandlers : Multiset Nat), hsum, hhandlers,
      ← Multiset.coe_add]
    generalize ∑ t ∈ range kMaximumSlots,
      ((s.thread t).context.handlers : Multiset Nat) = held
    ac_rfl
  nodup := by
    rw [handlersMade_cons]
    refine List.nodup_append.mpr ⟨?_, inv.nodup, fun p hp q hq heq => ?_⟩
    · cases a.proxyHandler <;> simp
    · have hlt := inv.made q hq
      rw [← heq] at hlt
      exact absurd (hfresh p hp).1 (Nat.not_le_of_lt hlt)
  made := fun p hp => by
    rw [handlersMade_cons] at hp
    rcases List.mem_append.mp hp with hp | hp
    · exact (hfresh p hp).2
    · exact Nat.lt_of_lt_of_le (inv.made p hp) hmade
  assertion := hviolated.trans inv.assertion

-- ── The steps ────────────────────────────────────────────────────────────────

/-- What a run below the outgoing bit tells of a channel that it allocates. -/
theorem fresh_channel (hnum : Numbered s cycles)
    (hnum' : Numbered s' (note s act cycles))
    (hbelow : ∀ c ∈ note s act cycles, Below c.slots c.allocations)
    (ha : allocation s act = some a) (ht : a.thread < s.slots) :
    ∃ cycle rest, cycles = cycle :: rest ∧
      (a.channel ≠ kInvalidChannel ∧ getThreadId s.slots a.channel = a.thread ∧
        isOutgoingChannel a.channel = a.outgoing) ∧
      ∀ b ∈ cycle.allocations, b.channel ≠ a.channel := by
  obtain ⟨cycle, rest, rfl⟩ := hnum.cycle_of_lt ht
  have hs : cycle.slots = s.slots := hnum.slots (Nat.zero_lt_of_lt ht)
  rw [note_allocation ha] at hnum' hbelow
  have hstrided := hnum'.strided _ List.mem_cons_self
  have hlow := hbelow _ List.mem_cons_self
  have hspec := hstrided.channel hlow List.mem_cons_self
  obtain ⟨hdistinct, -⟩ := List.pairwise_cons.mp (hstrided.distinct hlow)
  refine ⟨cycle, rest, rfl, ?_, fun b hb => Ne.symm (hdistinct b hb)⟩
  rw [← hs]
  exact hspec

theorem IoThread.Owns.fresh (htask : thread.task = .idle)
    (hev : thread.events = []) :
    IoThread.Owns slots t as { thread with context := .fresh t } where
  info := fun e he => absurd he List.not_mem_nil
  handler := fun e he => absurd he List.not_mem_nil
  entry := fun e he => absurd he List.not_mem_nil
  attended := fun l hl => by
    rw [IoThread.attended, htask, hev] at hl
    exact absurd hl List.not_mem_nil
  live := by
    rw [IoThread.attended, htask, hev]
    exact .refl _
  created := fun l hl => absurd (htask.symm.trans hl) (by simp)
  absent := fun _ => ⟨htask, hev, rfl⟩

theorem Bookkept.initializeSlots (inv : Bookkept s cycles) {n : Nat}
    (h : s.initializeSlots n = some s') : Bookkept s' (⟨n, []⟩ :: cycles) := by
  obtain ⟨h0, -, hmax, rfl⟩ := initializeSlots_eq_some h
  have habsent := fun t => (inv.thread t).absent (h0 ▸ Nat.zero_le t)
  refine ⟨hmax, fun t => ?_, ?_, inv.nodup, inv.made, inv.assertion⟩
  · exact .fresh (habsent t).1 (habsent t).2.1
  · refine inv.handlers.trans ?_
    refine congrArg _ (sum_congr rfl fun t _ => ?_)
    rw [IoContext.handlers, (habsent t).2.2]
    rfl

theorem coe_flatMap_range (f : Nat → List Nat) (n : Nat) :
    ((List.range n).flatMap f : Multiset Nat) =
      ∑ t ∈ range n, (f t : Multiset Nat) := by
  induction n with
  | zero => rfl
  | succ n ih =>
      rw [List.range_succ, List.flatMap_append, ← Multiset.coe_add, ih,
        sum_range_succ, List.flatMap_singleton]

theorem Bookkept.shutdown (inv : Bookkept s cycles) (h : s.shutdown = some s') :
    Bookkept s' cycles := by
  obtain ⟨hidle, h⟩ := Option.ite_none_right_eq_some.mp h
  obtain rfl := Option.some.inj h
  refine ⟨Nat.zero_le _, fun t => ?_, ?_, inv.nodup, inv.made, inv.assertion⟩
  · by_cases ht : t < s.slots
    · exact .fresh (hidle t ht).1 (hidle t ht).2
    · obtain ⟨htask, hev, -⟩ := (inv.thread t).absent (Nat.le_of_not_lt ht)
      exact .fresh htask hev
  · -- Only the contexts of the slots hold handlers.
    have hempty : ∑ t ∈ range kMaximumSlots,
        ((IoContext.fresh t).handlers : Multiset Nat) = 0 :=
      sum_eq_zero fun _ _ => rfl
    have hsum : ∑ t ∈ range s.slots,
          ((s.thread t).context.handlers : Multiset Nat) =
        ∑ t ∈ range kMaximumSlots, ((s.thread t).context.handlers : Multiset Nat) :=
      sum_subset (range_subset_range.mpr inv.slots) fun t _ ht => by
        obtain ⟨-, -, hnil⟩ := (inv.thread t).absent
          (Nat.le_of_not_lt fun hlt => ht (mem_range.mpr hlt))
        rw [IoContext.handlers, hnil]
        rfl
    refine inv.handlers.trans ?_
    show _ = ((s.deletedHandlers ++ _ : List Nat) : Multiset Nat) +
      ∑ t ∈ range kMaximumSlots, ((IoContext.fresh t).handlers : Multiset Nat)
    rw [hempty, add_zero, ← Multiset.coe_add, coe_flatMap_range, ← hsum]
    rfl

/-- A thread goes on with its task, its outgoing linkages and its tables as they
    are. -/
theorem Bookkept.work (inv : Bookkept s cycles) (ht : t < s.slots)
    (thread : IoThread) (hslots : s'.slots = s.slots)
    (hthread : s'.thread = Function.update s.thread t thread)
    (hc : thread.context = (s.thread t).context)
    (hsub : ∀ l ∈ thread.attended, l ∈ (s.thread t).attended)
    (hlive : ((s.thread t).attended.filter ProxyLinkage.outgoing).Perm
      (thread.attended.filter ProxyLinkage.outgoing))
    (hcreated : ∀ l, thread.task ≠ .created l)
    (hdeleted : s'.deletedHandlers = s.deletedHandlers)
    (hmade : s'.made = s.made) (hviolated : s'.violated = s.violated) :
    Bookkept s' cycles := by
  refine inv.move ht thread hslots hthread ?_ ?_ hmade.ge hviolated
  · exact (inv.thread t).work ht thread (by rw [hc]) (by rw [hc]) (by rw [hc])
      hsub hlive hcreated
  · rw [hdeleted, hc]

theorem Bookkept.count (inv : Bookkept s cycles) (h : s.count t = some s') :
    Bookkept s' cycles := by
  obtain ⟨ht, htask, rfl⟩ := count_eq_some h
  have hsame : IoThread.attended
      { s.thread t with task := .counted (s.incomingConnections + 1) } =
        (s.thread t).attended := by
    simp [IoThread.attended, htask, Task.attended]
  exact inv.work ht _ rfl rfl rfl (by simp [hsame]) (by rw [hsame])
    (by simp) rfl rfl rfl

theorem Bookkept.refuse (inv : Bookkept s cycles) (h : s.refuse t = some s') :
    Bookkept s' cycles := by
  obtain ⟨inconn, htask, rfl⟩ := refuse_eq_some h
  have ht : t < s.slots := (inv.thread t).lt (by simp [htask])
  have hsame : IoThread.attended { s.thread t with task := .idle } =
      (s.thread t).attended := by
    simp [IoThread.attended, htask, Task.attended]
  exact inv.work ht _ rfl rfl rfl (by simp [hsame]) (by rw [hsame])
    (by simp) rfl rfl rfl

theorem Bookkept.reject (inv : Bookkept s (cycle :: rest))
    (h : s.reject t = some s') :
    Bookkept s' (note s (.reject t) (cycle :: rest)) := by
  obtain ⟨inconn, htask, heq⟩ := reject_eq_some h
  obtain rfl := heq _ rfl
  have ht : t < s.slots := (inv.thread t).lt (by simp [htask])
  have hsame : IoThread.attended { s.thread t with
      context := ((s.thread t).context.allocateChannel s.slots true).2
      task := .idle } = (s.thread t).attended := by
    simp [IoThread.attended, htask, Task.attended]
  have howns := (inv.thread t).work ht { s.thread t with
      context := ((s.thread t).context.allocateChannel s.slots true).2
      task := .idle } rfl rfl rfl (by simp [hsame]) (by rw [hsame]) (by simp)
  exact inv.allocate ht _ ⟨t, _, none⟩ rfl rfl (howns.mono _) rfl rfl
    (fun _ hp => absurd hp List.not_mem_nil) (Nat.le_refl _) rfl

theorem Bookkept.create (inv : Bookkept s (cycle :: rest))
    (hspec : ∀ a, allocation s (.create t) = some a →
      a.channel ≠ kInvalidChannel ∧ getThreadId s.slots a.channel = a.thread ∧
        isOutgoingChannel a.channel = a.outgoing)
    (h : s.create t = some s') :
    Bookkept s' (note s (.create t) (cycle :: rest)) := by
  obtain ⟨inconn, htask, heq⟩ := create_eq_some h
  obtain rfl := heq _ rfl
  have ht : t < s.slots := (inv.thread t).lt (by simp [htask])
  obtain ⟨hvalid, hid, hout⟩ := hspec _ rfl
  have hin : isOutgoingChannel
      ((s.thread t).context.allocateChannel s.slots true).1 = false := hout
  let linkage : ProxyLinkage :=
    ⟨s.made, ((s.thread t).context.allocateChannel s.slots true).1⟩
  let ioc := ((s.thread t).context.allocateChannel s.slots true).2
  have howns := (inv.thread t).enter ht { s.thread t with
      context := { ioc with channelLinkages :=
        ioc.channelLinkages.insertNew linkage.channel linkage }
      task := .created linkage } linkage rfl rfl rfl
    (by simp [IoThread.attended, htask, Task.attended]) hvalid hid
    (fun ho => absurd (hin.symm.trans ho) (by simp)) (by
      rintro l hl
      obtain rfl := Task.created.inj hl
      exact hin)
  exact inv.allocate ht _ ⟨t, _, none⟩ rfl rfl (howns.mono _) rfl rfl
    (fun _ hp => absurd hp List.not_mem_nil) (Nat.le_succ _) rfl

theorem Bookkept.connect (inv : Bookkept s (cycle :: rest))
    (hfresh : ∀ a, allocation s (.connect t) = some a →
      ∀ b ∈ cycle.allocations, b.channel ≠ a.channel)
    (h : s.connect t = some s') :
    Bookkept s' (note s (.connect t) (cycle :: rest)) := by
  obtain ⟨ht, heq⟩ := connect_eq_some h
  obtain rfl := heq _ rfl
  let r := (s.thread t).context.allocateChannel s.slots false
  obtain ⟨howns, hhandlers⟩ := (inv.thread t).connect ht { s.thread t with
    context := { r.2 with
      connectProxyHandlers := r.2.connectProxyHandlers.insertNew r.1 s.made
      outgoingInformations :=
        r.2.outgoingInformations.insertNew r.1 ⟨s.made, t⟩ } }
    (hfresh ⟨t, r.1, some s.made⟩ rfl) rfl rfl rfl rfl rfl
  exact inv.allocate ht _ ⟨t, _, some s.made⟩ rfl rfl howns hhandlers rfl
    (fun p hp => by
      obtain rfl := List.mem_singleton.mp hp
      exact ⟨Nat.le_refl _, Nat.lt_succ_self _⟩) (Nat.le_succ _) rfl

theorem Bookkept.attach (inv : Bookkept s cycles) {attached : Bool}
    (h : s.attach t attached = some s') : Bookkept s' cycles := by
  obtain ⟨linkage, htask, rfl⟩ := attach_eq_some h
  have ht : t < s.slots := (inv.thread t).lt (by simp [htask])
  cases attached with
  | true =>
      have hsame : IoThread.attended { s.thread t with
          events := linkage :: (s.thread t).events, task := .idle } =
            (s.thread t).attended := by
        simp [IoThread.attended, htask, Task.attended]
      exact inv.work ht _ rfl rfl rfl (by simp [hsame]) (by rw [hsame])
        (by simp) rfl rfl rfl
  | false =>
      have hcons : (s.thread t).attended = linkage ::
          IoThread.attended { s.thread t with task := .idle } := by
        simp [IoThread.attended, htask, Task.attended]
      have hin : ¬linkage.outgoing = true := by
        rw [(inv.thread t).created linkage htask]
        simp
      exact inv.work ht _ rfl rfl rfl
        (fun l hl => hcons ▸ List.mem_cons_of_mem _ hl)
        (by rw [hcons, List.filter_cons_of_neg hin]) (by simp) rfl rfl rfl

theorem Bookkept.release (inv : Bookkept s cycles) {linkage : ProxyLinkage}
    (h : s.release t linkage = some s') : Bookkept s' cycles := by
  obtain ⟨htask, hmem, rfl⟩ := release_eq_some h
  have ht : t < s.slots := by
    by_contra hge
    rw [((inv.thread t).absent (Nat.le_of_not_lt hge)).2.1] at hmem
    exact absurd hmem List.not_mem_nil
  have hperm : (s.thread t).attended.Perm (IoThread.attended { s.thread t with
      events := (s.thread t).events.erase linkage
      task := .releasing linkage }) := by
    simpa [IoThread.attended, htask, Task.attended] using
      List.perm_cons_erase hmem
  exact inv.work ht _ rfl rfl rfl (fun l hl => hperm.mem_iff.mpr hl)
    (hperm.filter _) (by simp) rfl rfl rfl

theorem Bookkept.delete (inv : Bookkept s cycles) (h : s.delete t = some s') :
    Bookkept s' cycles := by
  obtain ⟨linkage, htask, rfl⟩ := delete_eq_some h
  have ht : t < s.slots := (inv.thread t).lt (by simp [htask])
  have hsame : IoThread.attended { s.thread t with task := .idle } =
      (s.thread t).attended := by
    simp [IoThread.attended, htask, Task.attended]
  exact inv.work ht _ rfl rfl rfl (by simp [hsame]) (by rw [hsame])
    (by simp) rfl rfl rfl

theorem Bookkept.reconnect (inv : Bookkept s cycles) {connected : Bool}
    (h : s.reconnect c connected = some s') : Bookkept s' cycles := by
  rw [EasyServer.reconnect, Option.ite_none_right_eq_some] at h
  obtain ⟨⟨hvalid, hnew, hout⟩, h⟩ := h
  split at h
  case h_1 => exact absurd h (by simp)
  case h_2 info hinfo =>
      have howns := inv.thread (getThreadId s.slots c)
      obtain ⟨hid, hhandler⟩ := howns.info _ (AList.mem_lookup_iff.mp hinfo)
      have ht : getThreadId s.slots c < s.slots := by
        by_contra hge
        rw [(howns.absent (Nat.le_of_not_lt hge)).2.2] at hhandler
        exact absurd hhandler List.not_mem_nil
      split at h
      case isTrue =>
          obtain rfl := Option.some.inj h
          exact inv
      case isFalse =>
          obtain rfl := Option.some.inj h
          have hid' : info.threadId = getThreadId s.slots c := hid
          let linkage : ProxyLinkage := ⟨s.made, c⟩
          let thread := s.thread (getThreadId s.slots c)
          let thread' : IoThread := { thread with
            context := { thread.context with channelLinkages :=
              thread.context.channelLinkages.insertNew c linkage }
            events := linkage :: thread.events }
          refine inv.move ht thread' rfl (by simp [hid', thread, thread', linkage])
            (howns.enter ht thread' linkage rfl rfl rfl List.perm_middle.symm
              hvalid rfl (fun _ => ⟨Table.mem_iff.mpr ⟨_, hhandler⟩, hnew⟩)
              howns.created)
            rfl (Nat.le_succ _) rfl

/-- A handler goes from the table to those deleted. -/
theorem deleted_perm {ioc : IoContext} {deleted deleted' : List Nat} {p : Nat}
    (hp : p ∈ ioc.connectProxyHandlers.lookup c)
    (hdeleted : deleted' = deleted ++ [p])
    (hhandlers : thread.context.connectProxyHandlers =
      ioc.connectProxyHandlers.erase c) :
    (deleted' : Multiset Nat) + thread.context.handlers =
      deleted + ioc.handlers := by
  have hperm := (Table.perm_erase (AList.mem_lookup_iff.mp hp)).map (·.2)
  rw [hdeleted, IoContext.handlers, IoContext.handlers, hhandlers,
    ← Multiset.coe_add, add_assoc, Multiset.coe_eq_coe.mpr hperm]
  rfl

theorem Bookkept.forget (inv : Bookkept s cycles) (hpos : 0 < s.slots) :
    Bookkept (s.forget c) cycles := by
  by_cases hvalid : c = kInvalidChannel
  · rw [EasyServer.forget, if_pos hvalid]
    exact inv
  · obtain ⟨ioc, hthread, hlink, hinfo, -, hslots, -, -, hmade, hviolated, hcases⟩ :=
      forget_spec (s := s) hvalid
    have howns := inv.thread (getThreadId s.slots c)
    have ht : getThreadId s.slots c < s.slots := Nat.mod_lt _ hpos
    have hgone : c ∉ ioc.outgoingInformations := by
      rw [hinfo]
      exact fun hmem => (AList.mem_erase.mp hmem).1 rfl
    refine inv.move ht _ hslots hthread (howns.drop ht _ ?_ ?_
      (howns.handler_iff (c := c) ?_ ?_ ?_) (fun l hl => hl) ?_ howns.created) ?_
      hmade.ge hviolated
    · intro e he
      rw [hinfo] at he
      exact Table.mem_of_mem_erase he
    · rw [hlink]
      exact fun e he => he
    · intro k hk hmem
      rw [hinfo]
      exact AList.mem_erase.mpr ⟨hk, hmem⟩
    · rw [hlink]
      exact fun k _ hmem => hmem
    · rcases hcases with ⟨hkept, heq, -⟩ | ⟨p, hno, -, heq, -⟩
      · rw [heq] at hkept
        exact .inl ⟨.inr hkept, heq⟩
      · exact .inr ⟨hgone, hno, heq⟩
    · rw [hlink]
      exact howns.live
    · rcases hcases with ⟨-, heq, hdeleted⟩ | ⟨p, -, hp, heq, hdeleted⟩
      · rw [hdeleted, IoContext.handlers, IoContext.handlers, heq]
      · exact deleted_perm hp hdeleted heq

theorem Bookkept.releasing (inv : Bookkept s cycles)
    (hout : ∀ t, ∀ e ∈ (s.thread t).context.connectProxyHandlers.entries,
      isOutgoingChannel e.1 = true)
    (h : s.releasing t = some s') : Bookkept s' cycles := by
  obtain ⟨linkage, htask, rfl⟩ := releasing_eq_some h
  have howns := inv.thread t
  have ht : t < s.slots := howns.lt (by simp [htask])
  have hcons : (s.thread t).attended = linkage :: (s.thread t).events := by
    rw [IoThread.attended, htask]
    rfl
  obtain ⟨hvalid, hid⟩ :=
    howns.attended linkage (hcons ▸ List.mem_cons_self)
  obtain ⟨ioc, hthread, hlink, hinfo, -, hslots, -, -, hmade, hcases⟩ :=
    releaseChannel_spec (s := s) hvalid
  rw [hid] at hthread hlink hinfo hcases
  let thread' : IoThread :=
    { s.thread t with context := ioc, task := .released linkage }
  have hattended : thread'.attended = (s.thread t).events := rfl
  have hgone : linkage.channel ∉ ioc.channelLinkages := by
    rw [hlink]
    exact fun hmem => (AList.mem_erase.mp hmem).1 rfl
  -- An outgoing linkage has its handler.
  have hhas : isOutgoingChannel linkage.channel = true →
      linkage.channel ∈ (s.thread t).context.connectProxyHandlers := fun ho => by
    obtain ⟨l, hl⟩ := Table.mem_iff.mp ((howns.linked ho).mpr
      ⟨linkage, hcons ▸ List.mem_cons_self, rfl⟩)
    exact (howns.entry _ hl).2 ho
  refine inv.move ht thread' hslots (by simp [hthread, thread']) (howns.drop ht
    thread' ?_ ?_ (howns.handler_iff (c := linkage.channel) ?_ ?_ ?_) ?_ ?_
    (by simp [thread'])) ?_ hmade.ge ?_
  · rw [show thread'.context = ioc from rfl, hinfo]
    exact fun e he => he
  · rw [show thread'.context = ioc from rfl, hlink]
    exact fun e he => Table.mem_of_mem_erase he
  · rw [show thread'.context = ioc from rfl, hinfo]
    exact fun k _ hmem => hmem
  · rw [show thread'.context = ioc from rfl, hlink]
    exact fun k hk hmem => AList.mem_erase.mpr ⟨hk, hmem⟩
  · rcases hcases with ⟨hkept, heq, -⟩ | ⟨p, -, hno, -, heq, -⟩
    · refine .inl ⟨?_, heq⟩
      rw [heq] at hkept
      rcases hkept with hin | hin | hno
      · refine .inr (.inr fun hmem => ?_)
        obtain ⟨p, hp⟩ := Table.mem_iff.mp hmem
        exact absurd (hin.symm.trans (hout t _ hp)) (by simp)
      · exact .inl hin
      · exact .inr (.inr hno)
    · exact .inr ⟨hno, hgone, heq⟩
  · rw [hattended, hcons]
    exact fun l hl => List.mem_cons_of_mem _ hl
  · rw [show thread'.context = ioc from rfl, hlink]
    exact howns.live_leave linkage (hcons ▸ .refl _)
  · rcases hcases with ⟨-, heq, hdeleted, -⟩ | ⟨p, -, -, hp, heq, hdeleted, -⟩
    · show ((s.releaseChannel linkage.channel).deletedHandlers : Multiset Nat) + _ =
        _
      rw [hdeleted, IoContext.handlers, IoContext.handlers, heq]
    · exact deleted_perm hp hdeleted heq
  · rcases hcases with ⟨-, heq, -, hviolated⟩ | ⟨p, -, -, -, -, -, hviolated⟩
    · exact hviolated fun ho => heq ▸ hhas ho
    · exact hviolated

/-- The channels with a handler are outgoing. -/
theorem Bookkept.handler_outgoing (inv : Bookkept s cycles)
    (hnum : Numbered s cycles)
    (hbelow : ∀ c ∈ cycles, Below c.slots c.allocations)
    {e : (_ : Channel) × Nat}
    (he : e ∈ (s.thread t).context.connectProxyHandlers.entries) :
    isOutgoingChannel e.1 = true := by
  have ht : t < s.slots := by
    by_contra hge
    rw [((inv.thread t).absent (Nat.le_of_not_lt hge)).2.2] at he
    exact absurd he List.not_mem_nil
  obtain ⟨cycle, rest, rfl⟩ := hnum.cycle_of_lt ht
  exact ((hnum.strided cycle List.mem_cons_self).channel
    (hbelow cycle List.mem_cons_self) ((inv.thread t).handler e he).1).2.2

/-- One step below the outgoing bit. -/
theorem Bookkept.next (inv : Bookkept s cycles) (hnum : Numbered s cycles)
    (hbelow : ∀ c ∈ cycles, Below c.slots c.allocations)
    (hact : BelowOutgoingBit s act) (h : FlinterEasyServer.next s act = some s') :
    Bookkept s' (note s act cycles) := by
  have hnum' := hnum.next h
  have hbelow' := hnum.below_next hbelow hact h
  cases act with
  | initializeSlots n =>
      have hnote : note s (.initializeSlots n) cycles = ⟨n, []⟩ :: cycles := by
        cases cycles <;> rfl
      rw [hnote]
      exact inv.initializeSlots h
  | reject t =>
      obtain ⟨inconn, htask, -⟩ := reject_eq_some h
      obtain ⟨cycle, rest, rfl⟩ :=
        hnum.cycle_of_lt (hnum.counting t inconn htask)
      exact inv.reject h
  | create t =>
      obtain ⟨inconn, htask, -⟩ := create_eq_some h
      obtain ⟨cycle, rest, rfl, hspec, -⟩ := fresh_channel hnum hnum' hbelow' rfl
        (hnum.counting t inconn htask)
      refine inv.create (fun a ha => ?_) h
      obtain rfl := Option.some.inj ha
      exact hspec
  | connect t =>
      obtain ⟨cycle, rest, rfl, -, hfresh⟩ := fresh_channel hnum hnum' hbelow' rfl
        (connect_eq_some h).1
      refine inv.connect (fun a ha => ?_) h
      obtain rfl := Option.some.inj ha
      exact hfresh
  | shutdown =>
      rw [note_quiet rfl (by simp)]
      exact inv.shutdown h
  | count t =>
      rw [note_quiet rfl (by simp)]
      exact inv.count h
  | refuse t =>
      rw [note_quiet rfl (by simp)]
      exact inv.refuse h
  | attach t attached =>
      rw [note_quiet rfl (by simp)]
      exact inv.attach h
  | reconnect c connected =>
      rw [note_quiet rfl (by simp)]
      exact inv.reconnect h
  | forget c =>
      rw [note_quiet rfl (by simp)]
      obtain ⟨hslots, heq⟩ := Option.ite_none_right_eq_some.mp h
      obtain rfl := Option.some.inj heq
      exact inv.forget hslots
  | disconnect c =>
      rw [note_quiet rfl (by simp)]
      obtain rfl := Option.some.inj h
      exact inv
  | release t linkage =>
      rw [note_quiet rfl (by simp)]
      exact inv.release h
  | releaseChannel t =>
      rw [note_quiet rfl (by simp)]
      exact inv.releasing (fun _ _ he => inv.handler_outgoing hnum hbelow he) h
  | delete t =>
      rw [note_quiet rfl (by simp)]
      exact inv.delete h

theorem Bookkept.fresh (n : Nat) : Bookkept (EasyServer.fresh n) [] where
  slots := Nat.zero_le _
  thread := fun t => by
    show IoThread.Owns 0 t [] { (⟨.fresh t, [], .idle⟩ : IoThread) with
      context := .fresh t }
    exact .fresh rfl rfl
  handlers := by
    have h0 : ∑ t ∈ range kMaximumSlots,
        (((EasyServer.fresh n).thread t).context.handlers : Multiset Nat) = 0 :=
      sum_eq_zero fun _ _ => rfl
    rw [h0]
    rfl
  nodup := .nil
  made := fun _ hp => absurd hp List.not_mem_nil
  assertion := rfl

/-- The books are kept in every run whose counters stay below the outgoing
    bit. -/
theorem Bookkept.reachable
    (h : Reachable (recorded.restrict fun p => BelowOutgoingBit p.1) (s, cycles)) :
    Bookkept s cycles ∧ Numbered s cycles ∧
      ∀ c ∈ cycles, Below c.slots c.allocations := by
  refine h.invariant (I := fun p => Bookkept p.1 p.2 ∧ Numbered p.1 p.2 ∧
    ∀ c ∈ p.2, Below c.slots c.allocations) ?_ ?_
  · rintro ⟨_, _⟩ ⟨⟨n, rfl⟩, rfl⟩
    exact ⟨.fresh n, .fresh n, fun _ hc => absurd hc List.not_mem_nil⟩
  · rintro ⟨s, cycles⟩ act ⟨s', _⟩ - ⟨inv, hnum, hbelow⟩ ⟨hact, hs, rfl⟩
    exact ⟨inv.next hnum hbelow hact hs, hnum.next hs,
      hnum.below_next hbelow hact hs⟩

-- ── Needed handlers ──────────────────────────────────────────────────────────

/-- The channel may connect again, or has a linkage that is not released. -/
def Needed (s : EasyServer) (c : Channel) : Prop :=
  ∃ t, c ∈ (s.thread t).context.outgoingInformations ∨
    ∃ l ∈ (s.thread t).attended, l.channel = c

/-- A handler that was made and is not deleted is in some table. -/
theorem Bookkept.held_iff (inv : Bookkept s cycles) {p : Nat}
    (hp : p ∈ handlersMade cycles) :
    p ∉ s.deletedHandlers ↔ ∃ t, p ∈ (s.thread t).context.handlers := by
  have hcount := congrArg (Multiset.count p) inv.handlers
  rw [Multiset.coe_count, List.count_eq_one_of_mem inv.nodup hp,
    Multiset.count_add, Multiset.coe_count, Multiset.count_sum'] at hcount
  constructor
  · intro hdeleted
    rw [List.count_eq_zero.mpr hdeleted, Nat.zero_add] at hcount
    obtain ⟨t, -, ht⟩ := exists_ne_zero_of_sum_ne_zero
      (ne_of_eq_of_ne hcount.symm Nat.one_ne_zero)
    rw [Multiset.coe_count] at ht
    exact ⟨t, List.count_pos_iff.mp (Nat.pos_of_ne_zero ht)⟩
  · rintro ⟨t, ht⟩ hdeleted
    have hpos := List.count_pos_iff.mpr hdeleted
    have htm : t ∈ range kMaximumSlots := by
      by_contra hge
      have habsent := (inv.thread t).absent (Nat.le_trans inv.slots
        (Nat.le_of_not_lt fun hlt => hge (mem_range.mpr hlt)))
      rw [IoContext.handlers, habsent.2.2] at ht
      exact absurd ht List.not_mem_nil
    have hle := single_le_sum (f := fun t =>
      Multiset.count p ((s.thread t).context.handlers : Multiset Nat))
      (fun _ _ => Nat.zero_le _) htm
    have hone := List.count_pos_iff.mpr ht
    rw [← Multiset.coe_count] at hone
    omega

theorem mem_handlersMade {c : Cycle} (hc : c ∈ cycles) (ha : a ∈ c.allocations)
    {p : Nat} (hp : a.proxyHandler = some p) : p ∈ handlersMade cycles :=
  List.mem_flatMap.mpr ⟨c, hc, List.mem_filterMap.mpr ⟨a, ha, hp⟩⟩

theorem Bookkept.deleted_nodup (inv : Bookkept s cycles) :
    s.deletedHandlers.Nodup := by
  have hle : (s.deletedHandlers : Multiset Nat) ≤ handlersMade cycles :=
    Multiset.le_iff_exists_add.mpr ⟨_, inv.handlers⟩
  exact Multiset.coe_nodup.mp (Multiset.nodup_of_le hle inv.nodup)

/-- A handler in a table belongs to a channel that needs it. -/
theorem Bookkept.needed_of_held (inv : Bookkept s cycles)
    (hnum : Numbered s cycles)
    (hbelow : ∀ c ∈ cycles, Below c.slots c.allocations) {p : Nat}
    (hp : p ∈ (s.thread t).context.handlers) :
    ∃ c, ⟨t, c, some p⟩ ∈ (current cycles).allocations ∧ Needed s c := by
  obtain ⟨e, he, rfl⟩ := List.mem_map.mp hp
  obtain ⟨hrec, hneed⟩ := (inv.thread t).handler e he
  have hout := inv.handler_outgoing hnum hbelow he
  exact ⟨e.1, hrec, t, hneed.imp_right ((inv.thread t).linked hout).mp⟩

/-- A channel that needs a handler has one in a table. -/
theorem Bookkept.held_of_needed (inv : Bookkept s cycles)
    (hout : isOutgoingChannel c = true) (h : Needed s c) :
    ∃ t p, p ∈ (s.thread t).context.handlers ∧
      ⟨t, c, some p⟩ ∈ (current cycles).allocations := by
  obtain ⟨t, ht⟩ := h
  have howns := inv.thread t
  have hmem : c ∈ (s.thread t).context.connectProxyHandlers := by
    rcases ht with hinfo | hlive
    · obtain ⟨info, hi⟩ := Table.mem_iff.mp hinfo
      exact Table.mem_iff.mpr ⟨_, (howns.info _ hi).2⟩
    · obtain ⟨l, hl⟩ := Table.mem_iff.mp ((howns.linked hout).mpr hlive)
      exact (howns.entry _ hl).2 hout
  obtain ⟨p, hp⟩ := Table.mem_iff.mp hmem
  exact ⟨t, p, List.mem_map_of_mem hp, (howns.handler _ hp).1⟩

/-- A handler is made for one channel. -/
theorem Bookkept.eq_of_handler (inv : Bookkept s (cycle :: rest))
    (ha : a ∈ cycle.allocations) (hb : b ∈ cycle.allocations) {p : Nat}
    (hpa : a.proxyHandler = some p) (hpb : b.proxyHandler = some p) : a = b := by
  have hnodup := (List.nodup_append.mp
    (show (cycle.handlers ++ handlersMade rest).Nodup from inv.nodup)).1
  by_contra hne
  have hpairs := List.pairwise_filterMap.mp hnodup
  have : Std.Symm fun a b : Allocation => ∀ p, a.proxyHandler = some p →
      ∀ q, b.proxyHandler = some q → p ≠ q :=
    ⟨fun x y hxy q hq r hr => Ne.symm (hxy r hr q hq)⟩
  exact hpairs.forall ha hb hne p hpa p hpb rfl

/-- **THE HANDLER LIVES WHILE IT IS NEEDED**: in every run whose counters stay
    below the outgoing bit, no assertion fails and no handler is deleted twice.
    The handler of a channel of the current cycle exists exactly as long as
    information or a linkage of the channel does; those of earlier cycles are
    deleted. -/
theorem handler_while_needed
    (h : Reachable (recorded.restrict fun p => BelowOutgoingBit p.1) (s, cycles)) :
    s.violated = false ∧ s.deletedHandlers.Nodup ∧
    (∀ a ∈ (current cycles).allocations, ∀ p, a.proxyHandler = some p →
      (p ∉ s.deletedHandlers ↔ Needed s a.channel)) ∧
    ∀ c ∈ cycles.tail, ∀ p ∈ c.handlers, p ∈ s.deletedHandlers := by
  obtain ⟨inv, hnum, hbelow⟩ := Bookkept.reachable h
  refine ⟨inv.assertion, ?_, fun a ha p hp => ?_, fun c hc p hp => ?_⟩
  · exact inv.deleted_nodup
  · cases cycles with
    | nil => exact absurd ha List.not_mem_nil
    | cons cycle rest =>
        have hstrided := hnum.strided cycle List.mem_cons_self
        have hlow := hbelow cycle List.mem_cons_self
        rw [inv.held_iff (mem_handlersMade List.mem_cons_self ha hp)]
        constructor
        · rintro ⟨t, ht⟩
          obtain ⟨c, hrec, hneed⟩ := inv.needed_of_held hnum hbelow ht
          obtain rfl := inv.eq_of_handler hrec ha rfl hp
          exact hneed
        · intro hneed
          have hout : isOutgoingChannel a.channel = true := by
            rw [(hstrided.channel hlow ha).2.2, Allocation.outgoing, hp]
            rfl
          obtain ⟨t, q, hq, hrec⟩ := inv.held_of_needed hout hneed
          have hinj := List.inj_on_of_nodup_map
            (List.pairwise_map.mpr (hstrided.distinct hlow))
          have heq : (⟨t, a.channel, some q⟩ : Allocation) = a := hinj hrec ha rfl
          rw [← heq] at hp
          obtain rfl := Option.some.inj hp
          exact ⟨t, hq⟩
  · cases cycles with
    | nil => exact absurd hc List.not_mem_nil
    | cons cycle rest =>
        obtain ⟨a, ha, hpa⟩ := List.mem_filterMap.mp hp
        by_contra hdeleted
        obtain ⟨t, ht⟩ := (inv.held_iff
          (mem_handlersMade (List.mem_cons_of_mem _ hc) ha hpa)).mp hdeleted
        obtain ⟨c', hrec, -⟩ := inv.needed_of_held hnum hbelow ht
        have hdisjoint := (List.nodup_append.mp
          (show (cycle.handlers ++ handlersMade rest).Nodup from inv.nodup)).2.2
        exact hdisjoint p (List.mem_filterMap.mpr ⟨_, hrec, rfl⟩) p
          (List.mem_flatMap.mpr ⟨c, hc, hp⟩) rfl

/-- One outgoing channel, connected and forgotten: its linkage keeps the
    handler. -/
theorem handler_while_needed_connected :
    ∃ s, Reachable (recorded.restrict fun p => BelowOutgoingBit p.1)
        (s, [⟨1, [⟨0, 0x8000000000000001, some 0⟩]⟩]) ∧
      0x8000000000000001 ∉ (s.thread 0).context.outgoingInformations ∧
      0 ∉ s.deletedHandlers ∧ Needed s 0x8000000000000001 := by
  have hreach : Reachable (recorded.restrict fun p => BelowOutgoingBit p.1)
      (_, [⟨1, [⟨0, 0x8000000000000001, some 0⟩]⟩]) :=
    recorded_next (recorded_next (recorded_next (recorded_next
      (.start ⟨⟨50000, rfl⟩, rfl⟩) (.initializeSlots 1) trivial rfl)
      (.connect 0) (by decide : 0 + 1 < 2 ^ 63) rfl)
      (.reconnect 0x8000000000000001 true) trivial rfl)
      (.forget 0x8000000000000001) trivial rfl
  have hneeded := ((handler_while_needed hreach).2.2.1 _ List.mem_cons_self 0
    rfl).mp List.not_mem_nil
  exact ⟨_, hreach, fun hmem => (AList.mem_erase.mp hmem).1 rfl,
    List.not_mem_nil, hneeded⟩

-- ── Where the counter comes round ────────────────────────────────────────────

/-- Context 0 with its counter at `v`. -/
def EasyServer.counterAt (s : EasyServer) (v : Nat) : EasyServer :=
  s.setContext 0 { (s.thread 0).context with channel := v }

/-- A connection that is rejected only advances the counter. -/
theorem reject_counterAt (hs : s.slots = 1) (htask : (s.thread 0).task = .idle)
    (hmax : s.incomingConnections + 1 < s.maximumIncomingConnections) {v : Nat}
    (hv : v + 1 < 2 ^ 64) :
    ∃ s', next (s.counterAt v) (.count 0) = some s' ∧
      next s' (.reject 0) = some (s.counterAt (v + 1)) := by
  refine ⟨_, if_pos ?_, ?_⟩
  · simp [EasyServer.counterAt, EasyServer.setThread, hs, htask]
  · simp [next, EasyServer.reject, EasyServer.counterAt, EasyServer.setThread,
      EasyServer.setTask, IoContext.allocateChannel, hs, hmax]
    rw [Nat.mod_eq_of_lt (show v + 1 < 18446744073709551616 from hv), htask]

/-- So it comes to any value. -/
theorem reachable_counterAt {v : Nat} (hs : s.slots = 1)
    (htask : (s.thread 0).task = .idle)
    (hmax : s.incomingConnections + 1 < s.maximumIncomingConnections)
    (h : Reachable (recorded.restrict fun _ _ => True)
      (s.counterAt v, cycle :: rest)) (k : Nat) (hk : v + k < 2 ^ 64) :
    ∃ cycle, Reachable (recorded.restrict fun _ _ => True)
      (s.counterAt (v + k), cycle :: rest) := by
  induction k with
  | zero => exact ⟨cycle, h⟩
  | succ k ih =>
      obtain ⟨cycle, hreach⟩ := ih (Nat.lt_of_succ_lt hk)
      obtain ⟨s', hcount, hreject⟩ := reject_counterAt hs htask hmax hk
      exact ⟨_, recorded_next (recorded_next hreach (.count 0) trivial hcount)
        (.reject 0) trivial hreject⟩

theorem counterAt_self : s.counterAt (s.thread 0).context.channel = s := by
  simp [EasyServer.counterAt, EasyServer.setThread]

/-- The first outgoing channel of context 0 alone: its handler is in the table,
    and nothing was deleted. -/
structure FirstChannel (s : EasyServer) : Prop where
  slots : s.slots = 1
  handler : (s.thread 0).context.connectProxyHandlers.lookup
    0x8000000000000001 = some 0
  deleted : s.deletedHandlers = []
  attended : ∀ t, (s.thread t).attended = []
  other : ∀ t ≠ 0, (s.thread t).context.outgoingInformations = ∅

/-- Forgetting it leaves no other handler that was made, and none is needed. -/
theorem FirstChannel.forget (h : FirstChannel s) :
    1 ∉ (s.forget 0x8000000000000001).deletedHandlers ∧
      ¬Needed (s.forget 0x8000000000000001) 0x8000000000000001 := by
  obtain ⟨ioc, hthread, hlink, hinfo, -, -, -, -, -, -, hcases⟩ :=
    forget_spec (s := s) (c := 0x8000000000000001) (by decide)
  have hid : getThreadId s.slots 0x8000000000000001 = 0 := by
    rw [getThreadId, h.slots, Nat.mod_one]
  rw [hid] at hthread hinfo hcases
  constructor
  · rcases hcases with ⟨-, -, hdel⟩ | ⟨p, -, hp, -, hdel⟩
    · rw [hdel, h.deleted]
      exact List.not_mem_nil
    · obtain rfl : 0 = p := Option.some.inj (h.handler.symm.trans hp)
      rw [hdel, h.deleted]
      decide
  · rintro ⟨t, hneed⟩
    rw [hthread] at hneed
    by_cases ht : t = 0
    · subst ht
      rw [Function.update_self] at hneed
      rcases hneed with hmem | ⟨l, hl, -⟩
      · rw [hinfo] at hmem
        exact (AList.mem_erase.mp hmem).1 rfl
      · have hnil : l ∈ (s.thread 0).attended := hl
        rw [h.attended 0] at hnil
        exact absurd hnil List.not_mem_nil
    · rw [Function.update_of_ne ht, h.attended t, h.other t ht] at hneed
      rcases hneed with hmem | ⟨l, hl, -⟩
      · exact absurd hmem List.not_mem_nil
      · exact absurd hl List.not_mem_nil

theorem FirstChannel.counterAt (h : FirstChannel s) (v : Nat) :
    FirstChannel (s.counterAt v) := by
  refine ⟨h.slots, ?_, h.deleted, fun t => ?_, fun t ht => ?_⟩
  · simpa [EasyServer.counterAt] using h.handler
  · by_cases ht : t = 0
    · subst ht
      simpa [EasyServer.counterAt, IoThread.attended] using h.attended 0
    · simpa [EasyServer.counterAt, ht] using h.attended t
  · simpa [EasyServer.counterAt, ht] using h.other t ht

/-- With the counter at the outgoing bit it is handed out again, and its second
    handler is not entered. -/
theorem FirstChannel.connect (h : FirstChannel s)
    (hch : (s.thread 0).context.channel = 2 ^ 63) :
    allocation s (.connect 0) = some ⟨0, 0x8000000000000001, some s.made⟩ ∧
      ∃ s', next s (.connect 0) = some s' ∧ FirstChannel s' := by
  have hnext : (s.thread 0).context.allocateChannel s.slots false =
      (0x8000000000000001,
        { (s.thread 0).context with channel := 2 ^ 63 + 1 }) := by
    rw [IoContext.allocateChannel, hch, h.slots]
    rfl
  have hmem : 0x8000000000000001 ∈ (s.thread 0).context.connectProxyHandlers :=
    AList.lookup_isSome.mp (by rw [h.handler]; rfl)
  refine ⟨by rw [allocation, hnext],
    { s.setContext 0 { (s.thread 0).context with
        channel := 2 ^ 63 + 1
        outgoingInformations := (s.thread 0).context.outgoingInformations.insertNew
          0x8000000000000001 ⟨s.made, 0⟩ } with made := s.made + 1 }, ?_, ?_⟩
  · have hpos : 0 < s.slots := h.slots ▸ Nat.one_pos
    simp only [next, EasyServer.connect, if_pos hpos, hnext, Table.insertNew,
      if_pos hmem]
  · refine ⟨h.slots, ?_, h.deleted, fun t => ?_, fun t ht => ?_⟩
    · simpa using h.handler
    · by_cases ht : t = 0
      · subst ht
        simpa [IoThread.attended] using h.attended 0
      · simpa [ht] using h.attended t
    · simpa [ht] using h.other t ht

/-- An outgoing channel and connections rejected until the counter has come
    round: the next outgoing channel is the same one.  Its handler is never
    entered, and when the channel is forgotten nothing needs it, but it is not
    deleted. -/
theorem leaks_handler :
    ∃ s cycles, Reachable recorded (s, cycles) ∧
      ∃ a ∈ (current cycles).allocations, ∃ p, a.proxyHandler = some p ∧
        p ∉ s.deletedHandlers ∧ ¬Needed s a.channel := by
  obtain ⟨s, cycle, hstart, hfirst, htask, hmax, hch, hmade⟩ : ∃ s cycle,
      Reachable (recorded.restrict fun _ _ => True) (s, [cycle]) ∧
        FirstChannel s ∧ (s.thread 0).task = .idle ∧
        s.incomingConnections + 1 < s.maximumIncomingConnections ∧
        (s.thread 0).context.channel = 1 ∧ s.made = 1 := by
    have hother : ∀ thread, ∀ t ≠ 0, Function.update
        (fun t => (⟨.fresh t, [], .idle⟩ : IoThread)) 0 thread t =
          ⟨.fresh t, [], .idle⟩ :=
      fun thread t ht => Function.update_of_ne ht _ _
    refine ⟨_, _, recorded_next (recorded_next (.start ⟨⟨50000, rfl⟩, rfl⟩)
      (.initializeSlots 1) trivial rfl) (.connect 0) trivial rfl,
      ⟨rfl, rfl, rfl, fun t => ?_, fun t ht => ?_⟩, rfl,
      (by decide : (0 : Int) + 1 < 50000), rfl, rfl⟩
    · by_cases ht : t = 0
      · rw [ht]
        rfl
      · exact congrArg IoThread.attended (hother _ t ht)
    · exact congrArg (fun th : IoThread => th.context.outgoingInformations)
        (hother _ t ht)
  rw [← counterAt_self (s := s), hch] at hstart
  obtain ⟨cycle, hround⟩ := reachable_counterAt hfirst.slots htask hmax hstart
    (2 ^ 63 - 1) (by decide)
  rw [show 1 + (2 ^ 63 - 1) = 2 ^ 63 by decide] at hround
  obtain ⟨hallocated, s', hconnect, hfirst'⟩ := (hfirst.counterAt (2 ^ 63)).connect
    (by simp [EasyServer.counterAt, EasyServer.setThread])
  have hpos : 0 < s'.slots := hfirst'.slots ▸ Nat.one_pos
  have hend := recorded_next (recorded_next hround (.connect 0) trivial hconnect)
    (.forget 0x8000000000000001) trivial (if_pos hpos)
  rw [note_quiet rfl (by simp), note_allocation hallocated] at hend
  refine ⟨_, _, hend.of_restrict, _, List.mem_cons_self, 1, ?_, hfirst'.forget⟩
  exact congrArg some hmade

end FlinterEasyServer
