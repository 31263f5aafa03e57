import Flinter.EasyServerProofs
import Mathlib.Algebra.BigOperators.Group.Finset.Piecewise
import Mathlib.Algebra.Order.BigOperators.Group.Multiset
import Mathlib.Data.List.Sigma
import Mathlib.Data.Multiset.Count
import Mathlib.Data.Nat.Bitwise

/-! # EasyServer: the incoming connections are counted right

    What a thread adds to `_incoming_connections` and which linkages it keeps
    alive can be read off its task and its `_events`; the tables of its context
    hold exactly the linkages it has not released yet.  Both are sums over the
    threads, and a step changes one summand. -/

namespace FlinterEasyServer

open Finset

variable {s s' : EasyServer} {t slots : Nat} {thread thread' : IoThread}
variable {c : Channel} {β : Type}

-- ── Channels ─────────────────────────────────────────────────────────────────

/-- The channel without the outgoing bit. -/
def serial (channel : Channel) : Nat := channel &&& 0x7fffffffffffffff

theorem getThreadId_eq (slots : Nat) (channel : Channel) :
    getThreadId slots channel = serial channel % slots := rfl

theorem serial_of_lt (h : c < 2 ^ 63) : serial c = c := by
  have hm := Nat.and_two_pow_sub_one_eq_mod c 63
  simp only [Nat.reducePow, Nat.reduceSub] at hm h
  rw [serial, hm, Nat.mod_eq_of_lt h]

theorem serial_outgoing (h : c < 2 ^ 63) :
    serial (c ||| 0x8000000000000000) = c := by
  have hm := Nat.and_two_pow_sub_one_eq_mod (c ||| 0x8000000000000000) 63
  have ho := @Nat.or_mod_two_pow c 0x8000000000000000 63
  simp only [Nat.reducePow, Nat.reduceSub, Nat.reduceMod] at hm ho h
  rw [serial, hm, ho, Nat.mod_eq_of_lt h, Nat.or_zero]

theorem isOutgoingChannel_of_lt (h : c < 2 ^ 63) :
    isOutgoingChannel c = false := by
  have hb := Nat.and_two_pow c 63
  rw [Nat.testBit_lt_two_pow h] at hb
  simpa [isOutgoingChannel] using hb

/-- Below the outgoing bit a channel is the next one of its thread. -/
theorem allocateChannel_eq {ioc : IoContext} (h : ioc.channel + slots < 2 ^ 63)
    (incomingOrOutgoing : Bool) :
    ioc.allocateChannel slots incomingOrOutgoing =
      (if incomingOrOutgoing then ioc.channel + slots
        else (ioc.channel + slots) ||| 0x8000000000000000,
        { ioc with channel := ioc.channel + slots }) := by
  rw [IoContext.allocateChannel,
    Nat.mod_eq_of_lt (Nat.lt_trans h (by decide))]

-- ── Tables ───────────────────────────────────────────────────────────────────

theorem Table.entries_insertNew {m : Table β} (h : c ∉ m) (b : β) :
    (m.insertNew c b).entries = ⟨c, b⟩ :: m.entries := by
  rw [Table.insertNew, if_neg h, AList.entries_insert_of_notMem h]

theorem Table.mem_insertNew {m : Table β} {b : β} {e : (_ : Channel) × β}
    (he : e ∈ (m.insertNew c b).entries) : e = ⟨c, b⟩ ∨ e ∈ m.entries := by
  by_cases h : c ∈ m
  · rw [Table.insertNew, if_pos h] at he
    exact .inr he
  · rw [Table.entries_insertNew h] at he
    exact List.mem_cons.mp he

theorem Table.mem_of_mem_erase {m : Table β} {e : (_ : Channel) × β}
    (he : e ∈ (m.erase c).entries) : e ∈ m.entries :=
  (List.kerase_sublist c m.entries).subset he

/-- What is erased was there once. -/
theorem Table.perm_erase {m : Table β} {b : β} (h : ⟨c, b⟩ ∈ m.entries) :
    m.entries.Perm (⟨c, b⟩ :: (m.erase c).entries) := by
  obtain ⟨b', l₁, l₂, -, heq, her⟩ :=
    List.exists_of_kerase (List.mem_keys_of_mem h)
  have hb : b' = b := by
    refine m.nodupKeys.eq_of_mk_mem ?_ h
    rw [heq]
    exact List.mem_append_right _ List.mem_cons_self
  show m.entries.Perm (⟨c, b⟩ :: List.kerase c m.entries)
  rw [her, heq, hb]
  exact List.perm_middle

-- ── What a thread accounts for ───────────────────────────────────────────────

/-- The linkages of the task that have not been released. -/
def Task.attended : Task → List ProxyLinkage
  | .created linkage => [linkage]
  | .releasing linkage => [linkage]
  | _ => []

/-- The linkages of the task that are alive. -/
def Task.held : Task → List ProxyLinkage
  | .created linkage => [linkage]
  | .releasing linkage => [linkage]
  | .released linkage => [linkage]
  | _ => []

/-- Counted, and no linkage yet. -/
def Task.counting : Task → Nat
  | .counted _ => 1
  | _ => 0

def IoThread.attended (thread : IoThread) : List ProxyLinkage :=
  thread.task.attended ++ thread.events

def IoThread.held (thread : IoThread) : List ProxyLinkage :=
  thread.task.held ++ thread.events

def ProxyLinkage.incoming (linkage : ProxyLinkage) : Bool :=
  !isOutgoingChannel linkage.channel

/-- What the thread has added to `_incoming_connections`. -/
def IoThread.load (thread : IoThread) : Nat :=
  thread.attended.countP ProxyLinkage.incoming + thread.task.counting

/-- What thread `t` keeps: its tables hold the linkages it attends to, under
    their own channels, which are channels of this thread already given out. -/
structure IoThread.Ok (slots t : Nat) (thread : IoThread) : Prop where
  entry : ∀ e ∈ thread.context.channelLinkages.entries,
    e.2.channel = e.1 ∧ e.1 ≠ kInvalidChannel ∧ getThreadId slots e.1 = t ∧
      serial e.1 ≤ thread.context.channel
  info : ∀ e ∈ thread.context.outgoingInformations.entries,
    e.2.threadId = t ∧ serial e.1 ≤ thread.context.channel
  attended : (thread.context.channelLinkages.entries.map (·.2)).Perm
    thread.attended
  channel : t < slots → thread.context.channel % slots = t
  absent : slots ≤ t → thread.task = .idle ∧ thread.events = [] ∧
    thread.context.outgoingInformations.entries = []

/-- **THE ACCOUNTS**: every thread is in order, and the server's counter and
    its linkages are the sums of what the threads account for. -/
structure Accounted (s : EasyServer) : Prop where
  slots : s.slots ≤ kMaximumSlots
  thread : ∀ t, (s.thread t).Ok s.slots t
  incoming : s.incomingConnections =
    ((∑ t ∈ range kMaximumSlots, (s.thread t).load : Nat) : Int)
  linkages : (s.linkages : Multiset ProxyLinkage) =
    ∑ t ∈ range kMaximumSlots, ((s.thread t).held : Multiset ProxyLinkage)

/-- What a thread holds is alive. -/
theorem Accounted.alive (inv : Accounted s) (ht : t < s.slots)
    {linkage : ProxyLinkage} (h : linkage ∈ (s.thread t).held) :
    linkage ∈ s.linkages := by
  have hmem : linkage ∈ (s.linkages : Multiset ProxyLinkage) := by
    rw [inv.linkages, Multiset.mem_sum]
    exact ⟨t, mem_range.mpr (Nat.lt_of_lt_of_le ht inv.slots), h⟩
  exact hmem

-- ── One thread changes ───────────────────────────────────────────────────────

/-- A sum in which one summand is exchanged. -/
theorem sum_update {M : Type} [AddCommMonoid M] {α : Type} (f : α → M)
    (g : Nat → α) (a : α) {n : Nat} (ht : t < n) :
    (∑ i ∈ range n, f (Function.update g t a i)) + f (g t) =
      (∑ i ∈ range n, f (g i)) + f a := by
  have hmem : t ∈ range n := mem_range.mpr ht
  have hrest : ∑ i ∈ (range n).erase t, f (Function.update g t a i) =
      ∑ i ∈ (range n).erase t, f (g i) := by
    refine sum_congr rfl fun i hi => ?_
    rw [Function.update_of_ne (ne_of_mem_erase hi)]
  rw [← add_sum_erase _ (fun i => f (Function.update g t a i)) hmem,
    ← add_sum_erase _ (fun i => f (g i)) hmem, hrest, Function.update_self]
  rw [add_right_comm, add_comm (f a), add_right_comm]

@[simp] theorem setThread_thread :
    (s.setThread t thread).thread = Function.update s.thread t thread := rfl

@[simp] theorem setThread_linkages :
    (s.setThread t thread).linkages = s.linkages := rfl

@[simp] theorem setThread_incomingConnections :
    (s.setThread t thread).incomingConnections = s.incomingConnections := rfl

@[simp] theorem setTask_eq {task : Task} :
    s.setTask t task = s.setThread t { s.thread t with task := task } := rfl

@[simp] theorem setContext_eq {ioc : IoContext} :
    s.setContext t ioc =
      s.setThread t { s.thread t with context := ioc } := rfl

/-- The accounts after a step of one thread: the thread is in order again, and
    the totals changed by what it changed. -/
theorem Accounted.move (inv : Accounted s) (ht : t < s.slots)
    (thread : IoThread) (hslots : s'.slots = s.slots)
    (hthread : s'.thread = Function.update s.thread t thread)
    (hok : thread.Ok s.slots t)
    (hin : s'.incomingConnections + (s.thread t).load =
      s.incomingConnections + thread.load)
    (hlink : (s'.linkages : Multiset ProxyLinkage) + (s.thread t).held =
      s.linkages + thread.held) :
    Accounted s' := by
  have htm : t < kMaximumSlots := Nat.lt_of_lt_of_le ht inv.slots
  refine ⟨hslots ▸ inv.slots, fun i => ?_, ?_, ?_⟩
  · rw [hslots, hthread]
    by_cases hi : i = t
    · rw [hi, Function.update_self]
      exact hok
    · rw [Function.update_of_ne hi]
      exact inv.thread i
  · have hsum := sum_update IoThread.load s.thread thread htm
    rw [inv.incoming] at hin
    rw [hthread]
    omega
  · have hsum := sum_update (fun th => (IoThread.held th : Multiset ProxyLinkage))
      s.thread thread htm
    rw [inv.linkages, ← hsum] at hlink
    rw [hthread]
    exact add_right_cancel hlink

/-- A linkage more on either side. -/
theorem coe_cons_add {linkage : ProxyLinkage} {as bs bs' : List ProxyLinkage}
    (h : bs'.Perm (linkage :: bs)) :
    ((linkage :: as : List ProxyLinkage) : Multiset ProxyLinkage) + bs =
      as + bs' := by
  rw [Multiset.coe_eq_coe.mpr h, ← Multiset.cons_coe, ← Multiset.cons_coe,
    Multiset.cons_add, Multiset.add_cons]

-- ── The thread after a step ──────────────────────────────────────────────────

/-- A thread that is at work is one of the server's. -/
theorem IoThread.Ok.lt (hok : thread.Ok slots t) (h : thread.task ≠ .idle) :
    t < slots := by
  by_contra hge
  exact h (hok.absent (Nat.le_of_not_lt hge)).1

/-- The tables are untouched, and so are the linkages attended to. -/
theorem IoThread.Ok.work (hok : thread.Ok slots t) (ht : t < slots)
    (hc : thread'.context = thread.context)
    (hp : thread.attended.Perm thread'.attended) : thread'.Ok slots t where
  entry := by rw [hc]; exact hok.entry
  info := by rw [hc]; exact hok.info
  attended := by rw [hc]; exact hok.attended.trans hp
  channel := by rw [hc]; exact hok.channel
  absent := fun h => absurd ht (Nat.not_lt_of_le h)

/-- The context goes on to its next channel. -/
theorem IoThread.Ok.allocate (hok : thread.Ok slots t) (ht : t < slots) :
    IoThread.Ok slots t { thread with context := { thread.context with
      channel := thread.context.channel + slots } } where
  entry := fun e he => by
    obtain ⟨hkey, hvalid, hid, hserial⟩ := hok.entry e he
    exact ⟨hkey, hvalid, hid, Nat.le_trans hserial (Nat.le_add_right _ _)⟩
  info := fun e he => by
    obtain ⟨hid, hserial⟩ := hok.info e he
    exact ⟨hid, Nat.le_trans hserial (Nat.le_add_right _ _)⟩
  attended := hok.attended
  channel := fun h => by
    rw [Nat.add_mod_right]
    exact hok.channel h
  absent := fun h => absurd ht (Nat.not_lt_of_le h)

/-- A context that lost entries of no linkage is as good. -/
theorem IoThread.Ok.context {ioc : IoContext} (hok : thread.Ok slots t)
    (ht : t < slots)
    (hlink : ioc.channelLinkages = thread.context.channelLinkages)
    (hch : ioc.channel = thread.context.channel)
    (hinfo : ∀ e ∈ ioc.outgoingInformations.entries,
      e.2.threadId = t ∧ serial e.1 ≤ ioc.channel) :
    IoThread.Ok slots t { thread with context := ioc } where
  entry := by rw [hlink, hch]; exact hok.entry
  info := hinfo
  attended := by rw [hlink]; exact hok.attended
  channel := by rw [hch]; exact hok.channel
  absent := fun h => absurd ht (Nat.not_lt_of_le h)

/-- A new linkage is entered under a channel of the thread that has none. -/
theorem IoThread.Ok.enter (hok : thread.Ok slots t) (ht : t < slots)
    (linkage : ProxyLinkage)
    (hlink : thread'.context.channelLinkages =
      thread.context.channelLinkages.insertNew linkage.channel linkage)
    (hinfo : thread'.context.outgoingInformations =
      thread.context.outgoingInformations)
    (hch : thread'.context.channel = thread.context.channel)
    (hnew : linkage.channel ∉ thread.context.channelLinkages)
    (hvalid : linkage.channel ≠ kInvalidChannel)
    (hthread : getThreadId slots linkage.channel = t)
    (hserial : serial linkage.channel ≤ thread.context.channel)
    (hp : (linkage :: thread.attended).Perm thread'.attended) :
    thread'.Ok slots t := by
  have hent := Table.entries_insertNew hnew linkage
  refine ⟨fun e he => ?_, ?_, ?_, ?_, fun h => absurd ht (Nat.not_lt_of_le h)⟩
  · rw [hlink, hent] at he
    rw [hch]
    rcases List.mem_cons.mp he with rfl | he
    · exact ⟨rfl, hvalid, hthread, hserial⟩
    · exact hok.entry e he
  · rw [hinfo, hch]
    exact hok.info
  · rw [hlink, hent]
    exact (hok.attended.cons linkage).trans hp
  · rw [hch]
    exact hok.channel

/-- A linkage leaves the table. -/
theorem IoThread.Ok.leave (hok : thread.Ok slots t) (ht : t < slots)
    (linkage : ProxyLinkage)
    (hlink : thread'.context.channelLinkages =
      thread.context.channelLinkages.erase linkage.channel)
    (hinfo : thread'.context.outgoingInformations =
      thread.context.outgoingInformations)
    (hch : thread'.context.channel = thread.context.channel)
    (hp : thread.attended.Perm (linkage :: thread'.attended)) :
    thread'.Ok slots t := by
  obtain ⟨e, he, heq⟩ := List.mem_map.mp
    (hok.attended.mem_iff.mpr (hp.mem_iff.mpr List.mem_cons_self))
  obtain ⟨channel, l⟩ := e
  obtain rfl : l = linkage := heq
  obtain rfl : l.channel = channel := (hok.entry _ he).1
  have hperm := (Table.perm_erase he).map (·.2)
  refine ⟨fun e he => ?_, ?_, ?_, ?_, fun h => absurd ht (Nat.not_lt_of_le h)⟩
  · rw [hlink] at he
    rw [hch]
    exact hok.entry e (Table.mem_of_mem_erase he)
  · rw [hinfo, hch]
    exact hok.info
  · rw [hlink]
    exact (hperm.symm.trans (hok.attended.trans hp)).cons_inv
  · rw [hch]
    exact hok.channel

/-- A fresh context of a thread that does nothing. -/
theorem IoThread.Ok.fresh (htask : thread.task = .idle)
    (hev : thread.events = []) :
    IoThread.Ok slots t { thread with context := .fresh t } where
  entry := fun e he => absurd he List.not_mem_nil
  info := fun e he => absurd he List.not_mem_nil
  attended := by
    show List.Perm [] (thread.task.attended ++ thread.events)
    rw [htask, hev]
    exact .refl _
  channel := fun h => Nat.mod_eq_of_lt h
  absent := fun _ => ⟨htask, hev, rfl⟩

-- ── The steps ────────────────────────────────────────────────────────────────

/-- The contexts are renewed while no thread does anything. -/
theorem Accounted.renew (inv : Accounted s)
    (hidle : ∀ t, (s.thread t).task = .idle ∧ (s.thread t).events = [])
    (hslots : s'.slots ≤ kMaximumSlots)
    (hthread : s'.thread = fun t => { s.thread t with context := .fresh t })
    (hin : s'.incomingConnections = s.incomingConnections)
    (hlink : s'.linkages = s.linkages) : Accounted s' := by
  refine ⟨hslots, fun t => ?_, ?_, ?_⟩
  · rw [hthread]
    exact .fresh (hidle t).1 (hidle t).2
  · rw [hin, inv.incoming, hthread]
    rfl
  · rw [hlink, inv.linkages, hthread]
    rfl

theorem Accounted.initializeSlots (inv : Accounted s) {n : Nat}
    (h : s.initializeSlots n = some s') : Accounted s' := by
  obtain ⟨h0, -, hn, rfl⟩ := initializeSlots_eq_some h
  refine inv.renew (fun t => ?_) hn rfl rfl rfl
  obtain ⟨htask, hev, -⟩ := (inv.thread t).absent (by omega)
  exact ⟨htask, hev⟩

theorem Accounted.shutdown (inv : Accounted s) (h : s.shutdown = some s') :
    Accounted s' := by
  rw [EasyServer.shutdown, Option.ite_none_right_eq_some] at h
  obtain ⟨hidle, h⟩ := h
  obtain rfl := Option.some.inj h
  refine inv.renew (fun t => ?_) (Nat.zero_le _) rfl rfl rfl
  by_cases ht : t < s.slots
  · exact hidle t ht
  · obtain ⟨htask, hev, -⟩ := (inv.thread t).absent (Nat.le_of_not_lt ht)
    exact ⟨htask, hev⟩

theorem Accounted.count (inv : Accounted s) (h : s.count t = some s') :
    Accounted s' := by
  obtain ⟨ht, htask, rfl⟩ := count_eq_some h
  refine inv.move ht { s.thread t with task := .counted _ } rfl rfl
    ((inv.thread t).work ht rfl ?_) ?_ ?_
  · simp [IoThread.attended, htask, Task.attended]
  · simp [IoThread.load, IoThread.attended, htask, Task.attended, Task.counting]
    omega
  · simp [IoThread.held, htask, Task.held]

theorem Accounted.refuse (inv : Accounted s) (h : s.refuse t = some s') :
    Accounted s' := by
  obtain ⟨inconn, htask, rfl⟩ := refuse_eq_some h
  have ht : t < s.slots := (inv.thread t).lt (by simp [htask])
  refine inv.move ht { s.thread t with task := .idle } rfl rfl
    ((inv.thread t).work ht rfl ?_) ?_ ?_
  · simp [IoThread.attended, htask, Task.attended]
  · simp [IoThread.load, IoThread.attended, htask, Task.attended,
      Task.counting]
  · simp [IoThread.held, htask, Task.held]

theorem Accounted.reject (inv : Accounted s)
    (hroom : (s.thread t).context.channel + s.slots < 2 ^ 63)
    (h : s.reject t = some s') : Accounted s' := by
  obtain ⟨inconn, htask, heq⟩ := reject_eq_some h
  obtain rfl := heq _ (allocateChannel_eq hroom true)
  have ht : t < s.slots := (inv.thread t).lt (by simp [htask])
  have hok := (inv.thread t).allocate ht
  refine inv.move ht { s.thread t with context := _, task := .idle } rfl rfl
    (hok.work ht rfl ?_) ?_ ?_
  · simp [IoThread.attended, htask, Task.attended]
  · simp [IoThread.load, IoThread.attended, htask, Task.attended,
      Task.counting]
  · simp [IoThread.held, htask, Task.held]

theorem Accounted.create (inv : Accounted s)
    (hroom : (s.thread t).context.channel + s.slots < 2 ^ 63)
    (h : s.create t = some s') : Accounted s' := by
  obtain ⟨inconn, htask, heq⟩ := create_eq_some h
  obtain rfl := heq _ (allocateChannel_eq hroom true)
  have ht : t < s.slots := (inv.thread t).lt (by simp [htask])
  have hok := (inv.thread t).allocate ht
  have hserial := serial_of_lt hroom
  refine inv.move ht
    { s.thread t with context := _, task := .created ⟨s.made, _⟩ } rfl rfl
    (hok.enter ht ⟨s.made, (s.thread t).context.channel + s.slots⟩
      rfl rfl rfl ?_ ?_ ?_ ?_ ?_) ?_ ?_
  · -- The channels in use are no greater than the last one given out.
    intro hmem
    obtain ⟨e, he, heq⟩ := List.mem_map.mp (AList.mem_keys.mp hmem)
    have hle := ((inv.thread t).entry e he).2.2.2
    rw [heq, hserial] at hle
    omega
  · exact Nat.ne_of_gt (Nat.lt_of_lt_of_le (Nat.zero_lt_of_lt ht)
      (Nat.le_add_left _ _))
  · rw [getThreadId_eq, hserial, Nat.add_mod_right]
    exact (inv.thread t).channel ht
  · exact Nat.le_of_eq hserial
  · simp [IoThread.attended, htask, Task.attended]
  · have hin := isOutgoingChannel_of_lt hroom
    simp [IoThread.load, IoThread.attended, htask, Task.attended,
      Task.counting, ProxyLinkage.incoming, hin]
  · refine coe_cons_add ?_
    simp [IoThread.held, htask, Task.held]

/-- Only an attachment that succeeds: one that fails leaves its entry behind. -/
theorem Accounted.attach (inv : Accounted s) (h : s.attach t true = some s') :
    Accounted s' := by
  obtain ⟨linkage, htask, rfl⟩ := attach_eq_some h
  have ht : t < s.slots := (inv.thread t).lt (by simp [htask])
  refine inv.move ht { s.thread t with
      events := linkage :: (s.thread t).events, task := .idle } rfl rfl
    ((inv.thread t).work ht rfl ?_) ?_ ?_
  · simp [IoThread.attended, htask, Task.attended]
  · simp [IoThread.load, IoThread.attended, htask, Task.attended,
      Task.counting]
  · simp [IoThread.held, htask, Task.held]

theorem Accounted.connect (inv : Accounted s)
    (hroom : (s.thread t).context.channel + s.slots < 2 ^ 63)
    (h : s.connect t = some s') : Accounted s' := by
  obtain ⟨ht, heq⟩ := connect_eq_some h
  obtain rfl := heq _ (allocateChannel_eq hroom false)
  have hok := (inv.thread t).allocate ht
  refine inv.move ht { s.thread t with context := _ } rfl rfl
    (hok.context ht rfl rfl fun e he => ?_) ?_ ?_
  · rcases Table.mem_insertNew he with rfl | he
    · exact ⟨rfl, Nat.le_of_eq (serial_outgoing hroom)⟩
    · exact hok.info e he
  · simp [IoThread.load, IoThread.attended]
  · simp [IoThread.held]

theorem Accounted.reconnect (inv : Accounted s) {connected : Bool}
    (h : s.reconnect c connected = some s') : Accounted s' := by
  rw [EasyServer.reconnect, Option.ite_none_right_eq_some] at h
  obtain ⟨⟨hvalid, hnew, hout⟩, h⟩ := h
  split at h
  case h_1 => exact absurd h (by simp)
  case h_2 info hinfo =>
      have hok := inv.thread (getThreadId s.slots c)
      have hmem := AList.mem_lookup_iff.mp hinfo
      obtain ⟨hid, hserial⟩ := hok.info _ hmem
      have ht : getThreadId s.slots c < s.slots := by
        by_contra hge
        have hnil := (hok.absent (Nat.le_of_not_lt hge)).2.2
        rw [hnil] at hmem
        exact absurd hmem List.not_mem_nil
      split at h
      case isTrue =>
          obtain rfl := Option.some.inj h
          exact inv
      case isFalse =>
          obtain rfl := Option.some.inj h
          have hid' : info.threadId = getThreadId s.slots c := hid
          let linkage : ProxyLinkage := ⟨s.made, c⟩
          let thread := s.thread (getThreadId s.slots c)
          refine inv.move ht { thread with
              context := { thread.context with channelLinkages :=
                thread.context.channelLinkages.insertNew c linkage }
              events := linkage :: thread.events } rfl
            (by simp [hid', thread, linkage])
            (hok.enter ht linkage rfl rfl rfl hnew hvalid rfl hserial ?_) ?_ ?_
          · exact List.perm_middle.symm
          · simp [IoThread.load, IoThread.attended, ProxyLinkage.incoming,
              linkage, thread, hout]
          · exact coe_cons_add List.perm_middle

theorem Accounted.release (inv : Accounted s) {linkage : ProxyLinkage}
    (h : s.release t linkage = some s') : Accounted s' := by
  obtain ⟨htask, hmem, rfl⟩ := release_eq_some h
  have hok := inv.thread t
  have ht : t < s.slots := by
    by_contra hge
    have hnil := (hok.absent (Nat.le_of_not_lt hge)).2.1
    rw [hnil] at hmem
    exact absurd hmem List.not_mem_nil
  have hperm := List.perm_cons_erase hmem
  refine inv.move ht { s.thread t with
      events := (s.thread t).events.erase linkage, task := .releasing linkage }
    rfl rfl (hok.work ht rfl ?_) ?_ ?_
  · simpa [IoThread.attended, htask, Task.attended] using hperm
  · have hcount := hperm.countP_eq ProxyLinkage.incoming
    simp [IoThread.load, IoThread.attended, htask, Task.attended, Task.counting,
      hcount]
  · have hcoe := Multiset.coe_eq_coe.mpr hperm
    simp only [setThread_linkages, IoThread.held, htask, Task.held,
      List.nil_append, List.cons_append, hcoe]

/-- What `Forget` leaves of the context of its channel.  The handler goes with
    the information, unless a linkage needs it. -/
theorem forget_spec (hvalid : c ≠ kInvalidChannel) :
    ∃ ioc : IoContext,
      (s.forget c).thread = Function.update s.thread (getThreadId s.slots c)
        { s.thread (getThreadId s.slots c) with context := ioc } ∧
      ioc.channelLinkages =
        (s.thread (getThreadId s.slots c)).context.channelLinkages ∧
      ioc.outgoingInformations =
        (s.thread (getThreadId s.slots c)).context.outgoingInformations.erase c ∧
      ioc.channel = (s.thread (getThreadId s.slots c)).context.channel ∧
      (s.forget c).slots = s.slots ∧
      (s.forget c).incomingConnections = s.incomingConnections ∧
      (s.forget c).linkages = s.linkages ∧
      (s.forget c).made = s.made ∧ (s.forget c).violated = s.violated ∧
      (((c ∈ ioc.channelLinkages ∨ c ∉ ioc.connectProxyHandlers) ∧
        ioc.connectProxyHandlers =
          (s.thread (getThreadId s.slots c)).context.connectProxyHandlers ∧
        (s.forget c).deletedHandlers = s.deletedHandlers) ∨
      ∃ p, c ∉ ioc.channelLinkages ∧ p ∈
          (s.thread (getThreadId s.slots c)).context.connectProxyHandlers.lookup c ∧
        ioc.connectProxyHandlers =
          (s.thread (getThreadId s.slots c)).context.connectProxyHandlers.erase c ∧
        (s.forget c).deletedHandlers = s.deletedHandlers ++ [p]) := by
  rw [EasyServer.forget, if_neg hvalid]
  extract_lets t ioc ioc'
  split
  case isTrue hlink =>
      exact ⟨_, rfl, rfl, rfl, rfl, rfl, rfl, rfl, rfl, rfl,
        .inl ⟨.inl hlink, rfl, rfl⟩⟩
  case isFalse hlink =>
      split
      case h_1 hnone =>
          exact ⟨_, rfl, rfl, rfl, rfl, rfl, rfl, rfl, rfl, rfl,
            .inl ⟨.inr (AList.lookup_eq_none.mp hnone), rfl, rfl⟩⟩
      case h_2 p hsome =>
          exact ⟨_, rfl, rfl, rfl, rfl, rfl, rfl, rfl, rfl, rfl,
            .inr ⟨p, hlink, hsome, rfl, rfl⟩⟩

theorem Accounted.forget (inv : Accounted s) (hslots : 0 < s.slots) :
    Accounted (s.forget c) := by
  by_cases hvalid : c = kInvalidChannel
  · rw [EasyServer.forget, if_pos hvalid]
    exact inv
  · obtain ⟨ioc, hthread, hlink, hinfo, hch, hs, hin, hll, -⟩ :=
      forget_spec (s := s) hvalid
    have ht : getThreadId s.slots c < s.slots := Nat.mod_lt _ hslots
    have hok := inv.thread (getThreadId s.slots c)
    refine inv.move ht _ hs hthread
      (hok.context ht hlink hch fun e he => ?_) ?_ ?_
    · rw [hinfo] at he
      rw [hch]
      exact hok.info e (Table.mem_of_mem_erase he)
    · rw [hin]
      rfl
    · rw [hll]
      rfl

/-- What `ReleaseChannel` leaves of the context of its channel.  The handler of
    an outgoing channel goes with the linkage, unless it may connect again. -/
theorem releaseChannel_spec (hvalid : c ≠ kInvalidChannel) :
    ∃ ioc : IoContext,
      (s.releaseChannel c).thread =
        Function.update s.thread (getThreadId s.slots c)
          { s.thread (getThreadId s.slots c) with context := ioc } ∧
      ioc.channelLinkages =
        (s.thread (getThreadId s.slots c)).context.channelLinkages.erase c ∧
      ioc.outgoingInformations =
        (s.thread (getThreadId s.slots c)).context.outgoingInformations ∧
      ioc.channel = (s.thread (getThreadId s.slots c)).context.channel ∧
      (s.releaseChannel c).slots = s.slots ∧
      (s.releaseChannel c).incomingConnections =
        s.incomingConnections - (if isOutgoingChannel c then 0 else 1) ∧
      (s.releaseChannel c).linkages = s.linkages ∧
      (s.releaseChannel c).made = s.made ∧
      (((isOutgoingChannel c = false ∨ c ∈ ioc.outgoingInformations ∨
          c ∉ ioc.connectProxyHandlers) ∧
        ioc.connectProxyHandlers =
          (s.thread (getThreadId s.slots c)).context.connectProxyHandlers ∧
        (s.releaseChannel c).deletedHandlers = s.deletedHandlers ∧
        ((isOutgoingChannel c = true → c ∈ ioc.connectProxyHandlers) →
          (s.releaseChannel c).violated = s.violated)) ∨
      ∃ p, isOutgoingChannel c = true ∧ c ∉ ioc.outgoingInformations ∧ p ∈
          (s.thread (getThreadId s.slots c)).context.connectProxyHandlers.lookup c ∧
        ioc.connectProxyHandlers =
          (s.thread (getThreadId s.slots c)).context.connectProxyHandlers.erase c ∧
        (s.releaseChannel c).deletedHandlers = s.deletedHandlers ++ [p] ∧
        (s.releaseChannel c).violated = s.violated) := by
  rw [EasyServer.releaseChannel, if_neg hvalid]
  extract_lets t ioc ioc' s₁
  split
  case isTrue hin =>
      have hfalse := Bool.eq_false_iff.mpr hin
      exact ⟨_, rfl, rfl, rfl, rfl, rfl, rfl, rfl, rfl,
        .inl ⟨.inl hfalse, rfl, rfl, fun _ => rfl⟩⟩
  case isFalse hout =>
      have hout := not_not.mp hout
      rw [if_pos hout, sub_zero]
      split
      case isTrue hinfo =>
          exact ⟨_, rfl, rfl, rfl, rfl, rfl, rfl, rfl, rfl,
            .inl ⟨.inr (.inl hinfo), rfl, rfl, fun _ => rfl⟩⟩
      case isFalse hinfo =>
          split
          case h_1 hnone =>
              have hno := AList.lookup_eq_none.mp hnone
              exact ⟨_, rfl, rfl, rfl, rfl, rfl, rfl, rfl, rfl,
                .inl ⟨.inr (.inr hno), rfl, rfl, fun h => absurd (h hout) hno⟩⟩
          case h_2 p hsome =>
              exact ⟨_, rfl, rfl, rfl, rfl, rfl, rfl, rfl, rfl,
                .inr ⟨p, hout, hinfo, hsome, rfl, rfl, rfl⟩⟩

theorem Accounted.releasing (inv : Accounted s)
    (h : s.releasing t = some s') : Accounted s' := by
  obtain ⟨linkage, htask, rfl⟩ := releasing_eq_some h
  have hok := inv.thread t
  have ht : t < s.slots := hok.lt (by simp [htask])
  obtain ⟨e, he, heq⟩ := List.mem_map.mp (hok.attended.mem_iff.mpr
    (show linkage ∈ (s.thread t).attended by
      simp [IoThread.attended, htask, Task.attended]))
  obtain ⟨hkey, hvalid, hid, -⟩ := hok.entry e he
  rw [heq] at hkey
  rw [← hkey] at hvalid hid
  obtain ⟨ioc, hthread, hlink, hinfo, hch, hs, hin, hll, -⟩ :=
    releaseChannel_spec (s := s) hvalid
  rw [hid] at hthread hlink hinfo hch
  refine inv.move ht
    { s.thread t with context := ioc, task := .released linkage } hs ?_
    (hok.leave ht linkage hlink hinfo hch ?_) ?_ ?_
  · simp [hthread]
  · simp [IoThread.attended, htask, Task.attended]
  · by_cases hout : isOutgoingChannel linkage.channel
    · simp [IoThread.load, IoThread.attended, htask, Task.attended,
        Task.counting, hin, ProxyLinkage.incoming, hout]
    · simp [IoThread.load, IoThread.attended, htask, Task.attended,
        Task.counting, hin, ProxyLinkage.incoming, hout]
  · simp [IoThread.held, htask, Task.held, hll]

theorem Accounted.delete (inv : Accounted s) (h : s.delete t = some s') :
    Accounted s' := by
  obtain ⟨linkage, htask, rfl⟩ := delete_eq_some h
  have ht : t < s.slots := (inv.thread t).lt (by simp [htask])
  have hmem : linkage ∈ (s.thread t).held := by
    simp [IoThread.held, htask, Task.held]
  have hperm := List.perm_cons_erase (inv.alive ht hmem)
  refine inv.move ht { s.thread t with task := .idle } rfl rfl
    ((inv.thread t).work ht rfl ?_) ?_ ?_
  · simp [IoThread.attended, htask, Task.attended]
  · simp [IoThread.load, IoThread.attended, htask, Task.attended,
      Task.counting]
  · rw [Multiset.coe_eq_coe.mpr hperm]
    refine (coe_cons_add ?_).symm
    simp [IoThread.held, htask, Task.held]

/-- The steps that go well: an accepted linkage is attached, and the channels
    stay below the outgoing bit. -/
def Attaching (s : EasyServer) : Action → Prop
  | .attach _ attached => attached = true
  | .reject t => (s.thread t).context.channel + s.slots < 2 ^ 63
  | .create t => (s.thread t).context.channel + s.slots < 2 ^ 63
  | .connect t => (s.thread t).context.channel + s.slots < 2 ^ 63
  | _ => True

theorem Accounted.fresh (n : Nat) : Accounted (EasyServer.fresh n) where
  slots := Nat.zero_le _
  thread := fun t => by
    show IoThread.Ok 0 t { (⟨.fresh t, [], .idle⟩ : IoThread) with
      context := .fresh t }
    exact .fresh rfl rfl
  incoming := by
    have h0 : ∑ t ∈ range kMaximumSlots,
        ((EasyServer.fresh n).thread t).load = 0 := sum_eq_zero fun _ _ => rfl
    rw [h0]
    rfl
  linkages := (sum_eq_zero fun _ _ => rfl).symm

/-- One step that goes well. -/
theorem Accounted.next {a : Action} (inv : Accounted s) (ha : Attaching s a)
    (h : next s a = some s') : Accounted s' := by
  cases a with
  | initializeSlots n => exact inv.initializeSlots h
  | shutdown => exact inv.shutdown h
  | count t => exact inv.count h
  | refuse t => exact inv.refuse h
  | reject t => exact inv.reject ha h
  | create t => exact inv.create ha h
  | attach t attached =>
      obtain rfl : attached = true := ha
      exact inv.attach h
  | connect t => exact inv.connect ha h
  | reconnect channel connected => exact inv.reconnect h
  | forget channel =>
      obtain ⟨hslots, heq⟩ := Option.ite_none_right_eq_some.mp h
      obtain rfl := Option.some.inj heq
      exact inv.forget hslots
  | disconnect channel =>
      obtain rfl := Option.some.inj h
      exact inv
  | release t linkage => exact inv.release h
  | releaseChannel t => exact inv.releasing h
  | delete t => exact inv.delete h

/-- Every run whose steps go well keeps the accounts. -/
theorem Accounted.reachable
    (h : Runs.Reachable (server.restrict Attaching) s) : Accounted s := by
  refine h.invariant ?_ ?_
  · rintro _ ⟨n, rfl⟩
    exact Accounted.fresh n
  · rintro s a s' - inv ⟨ha, hs⟩
    exact inv.next ha hs

-- ── The counter, the linkages and the tables ─────────────────────────────────

/-- The incoming linkages that exist. -/
def liveIncoming (s : EasyServer) : Nat :=
  s.linkages.countP ProxyLinkage.incoming

/-- The incoming entries of the table of a context. -/
def IoContext.incomingEntries (ioc : IoContext) : Nat :=
  ioc.channelLinkages.entries.countP fun e => !isOutgoingChannel e.1

/-- The incoming entries of the tables. -/
def incomingEntries (s : EasyServer) : Nat :=
  ∑ t ∈ range kMaximumSlots, (s.thread t).context.incomingEntries

/-- Released, and not deleted yet. -/
def Task.dying : Task → Nat
  | .released linkage => if linkage.incoming then 1 else 0
  | _ => 0

/-- The thread is neither between counting a connection and its linkage, nor
    between releasing the channel and deleting the linkage. -/
def Task.settled : Task → Bool
  | .counted _ => false
  | .released _ => false
  | _ => true

theorem IoThread.Ok.incomingEntries (hok : thread.Ok slots t) :
    thread.context.incomingEntries =
      thread.attended.countP ProxyLinkage.incoming := by
  rw [← hok.attended.countP_eq, List.countP_map]
  refine List.countP_congr fun e he => ?_
  rw [Function.comp_apply, ProxyLinkage.incoming, (hok.entry e he).1]

theorem IoThread.countP_held (thread : IoThread) :
    thread.held.countP ProxyLinkage.incoming =
      thread.attended.countP ProxyLinkage.incoming + thread.task.dying := by
  rw [IoThread.held, IoThread.attended, List.countP_append, List.countP_append]
  cases thread.task with
  | idle => rfl
  | counted inconn => rfl
  | created linkage => rfl
  | releasing linkage => rfl
  | released linkage =>
      simp [Task.held, Task.attended, Task.dying, List.countP_cons, add_comm]

theorem Accounted.incomingConnections_eq (inv : Accounted s) :
    s.incomingConnections = ((incomingEntries s +
      ∑ t ∈ range kMaximumSlots, (s.thread t).task.counting : Nat) : Int) := by
  rw [inv.incoming, incomingEntries, ← sum_add_distrib]
  refine congrArg Nat.cast (sum_congr rfl fun t _ => ?_)
  rw [IoThread.load, (inv.thread t).incomingEntries]

theorem Accounted.liveIncoming_eq (inv : Accounted s) :
    liveIncoming s = incomingEntries s +
      ∑ t ∈ range kMaximumSlots, (s.thread t).task.dying := by
  have hcount := congrArg (Multiset.countPAddMonoidHom
    fun l : ProxyLinkage => l.incoming = true) inv.linkages
  rw [map_sum] at hcount
  simp only [Multiset.coe_countPAddMonoidHom, Multiset.coe_countP,
    Bool.decide_eq_true] at hcount
  rw [liveIncoming, hcount, incomingEntries, ← sum_add_distrib]
  refine sum_congr rfl fun t _ => ?_
  rw [(inv.thread t).incomingEntries, IoThread.countP_held]

/-- No entry dangles. -/
theorem Accounted.entry_alive (inv : Accounted s)
    {e : (_ : Channel) × ProxyLinkage}
    (he : e ∈ (s.thread t).context.channelLinkages.entries) :
    e.2 ∈ s.linkages := by
  have hok := inv.thread t
  have hmem : e.2 ∈ (s.thread t).attended :=
    hok.attended.mem_iff.mp (List.mem_map_of_mem he)
  have ht : t < s.slots := by
    by_contra hge
    obtain ⟨htask, hev, -⟩ := hok.absent (Nat.le_of_not_lt hge)
    rw [IoThread.attended, htask, hev] at hmem
    exact absurd hmem List.not_mem_nil
  refine inv.alive ht ?_
  rw [IoThread.attended] at hmem
  rw [IoThread.held]
  cases htask : (s.thread t).task <;>
    simp_all [Task.attended, Task.held]

/-- **COUNTED WHILE ATTACHED**: in every run whose accepted linkages all attach,
    no entry of a table is left of a linkage that is gone; the counter is the
    number of incoming entries and of connections about to get theirs, and the
    incoming linkages are those with an entry and those about to be deleted.
    Where no thread is in the middle of either, all three are one number. -/
theorem counted_while_attached
    (h : Runs.Reachable (server.restrict Attaching) s) :
    (∀ t, ∀ e ∈ (s.thread t).context.channelLinkages.entries,
      e.2 ∈ s.linkages) ∧
    s.incomingConnections = ((incomingEntries s +
      ∑ t ∈ range kMaximumSlots, (s.thread t).task.counting : Nat) : Int) ∧
    liveIncoming s = incomingEntries s +
      ∑ t ∈ range kMaximumSlots, (s.thread t).task.dying ∧
    ((∀ t, (s.thread t).task.settled = true) →
      s.incomingConnections = liveIncoming s ∧
        liveIncoming s = incomingEntries s) := by
  have inv := Accounted.reachable h
  refine ⟨fun t e he => inv.entry_alive he, inv.incomingConnections_eq,
    inv.liveIncoming_eq, fun hsettled => ?_⟩
  have hcounting : ∑ t ∈ range kMaximumSlots, (s.thread t).task.counting = 0 := by
    refine sum_eq_zero fun t _ => ?_
    have ht := hsettled t
    cases htask : (s.thread t).task <;> simp_all [Task.settled, Task.counting]
  have hdying : ∑ t ∈ range kMaximumSlots, (s.thread t).task.dying = 0 := by
    refine sum_eq_zero fun t _ => ?_
    have ht := hsettled t
    cases htask : (s.thread t).task <;> simp_all [Task.settled, Task.dying]
  have hlive := inv.liveIncoming_eq
  have hin := inv.incomingConnections_eq
  rw [hdying, Nat.add_zero] at hlive
  rw [hcounting, Nat.add_zero, ← hlive] at hin
  exact ⟨hin, hlive⟩

/-- The threads other than the one that took three steps. -/
theorem thread_of_ne {f : Nat → IoThread} {th₁ th₂ th₃ : IoThread}
    {i : Nat} (h : i ≠ t) :
    Function.update (Function.update (Function.update f t th₁) t th₂) t th₃ i =
      f i := by
  rw [Function.update_of_ne h, Function.update_of_ne h, Function.update_of_ne h]

/-- One accepted connection, attached: it is counted once. -/
theorem counted_while_attached_one :
    ∃ s : EasyServer, s.linkages = [⟨0, 1⟩] ∧ s.incomingConnections = 1 ∧
      s.incomingConnections = liveIncoming s := by
  have hreach : Runs.Reachable (server.restrict Attaching) _ :=
    .next (l := .attach 0 true) (.next (l := .create 0) (.next (l := .count 0)
      (.next (l := .initializeSlots 1) (.start ⟨50000, rfl⟩) ⟨trivial, rfl⟩)
      ⟨trivial, rfl⟩) ⟨(by decide : 0 + 1 < 2 ^ 63), rfl⟩) ⟨rfl, rfl⟩
  refine ⟨_, rfl, rfl, ((counted_while_attached hreach).2.2.2 fun t => ?_).1⟩
  by_cases ht : t = 0
  · rw [ht]
    rfl
  · exact congrArg (fun thread : IoThread => thread.task.settled)
      (thread_of_ne ht)

/-- An accepted linkage that fails to attach (`OnConnected` answered false) is
    deleted by the listener: its connection stays counted, and its channel
    still leads to it. -/
theorem counts_deleted_linkage :
    ∃ s : EasyServer, Runs.Reachable server s ∧
      (∀ t, (s.thread t).task = .idle) ∧
      s.incomingConnections = 1 ∧ liveIncoming s = 0 ∧
      ∃ e ∈ (s.thread 0).context.channelLinkages.entries,
        e.2 ∉ s.linkages := by
  have hreach : Runs.Reachable server _ :=
    .next (l := .attach 0 false) (.next (l := .create 0) (.next (l := .count 0)
      (.next (l := .initializeSlots 1) (.start ⟨50000, rfl⟩) rfl) rfl) rfl) rfl
  refine ⟨_, hreach, fun t => ?_, rfl, rfl, ⟨1, 0, 1⟩, ?_, ?_⟩
  · by_cases ht : t = 0
    · rw [ht]
      rfl
    · exact congrArg IoThread.task (thread_of_ne ht)
  · exact List.mem_cons_self
  · exact List.not_mem_nil

end FlinterEasyServer
