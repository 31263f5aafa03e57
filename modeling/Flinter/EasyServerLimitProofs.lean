import Flinter.EasyServerCountProofs
import Mathlib.Algebra.Order.BigOperators.Group.Finset

/-! # EasyServer: the limit of incoming connections

    `AllocateChannel` adds itself to `_incoming_connections`, compares what it
    got with `maximum_incoming_connections` and takes itself back when it is
    over.  The counter is never less than the connections that are live and
    those about to be, also when an accepted linkage fails to attach and its
    count is left behind; so the limit holds in every run.

    The comparison is with the counter after the increment, though: a server
    refuses while it is one connection short of its limit, and never has as
    many connections as it may (`admission_limit`, `refuses_below_limit`). -/

namespace FlinterEasyServer

open Finset Runs

variable {s s' : EasyServer} {t : Nat} {thread : IoThread} {c : Channel}

-- ── What is live and what will be ────────────────────────────────────────────

/-- The incoming linkages that are made and not released yet. -/
def liveConnections (s : EasyServer) : Nat :=
  ∑ t ∈ range kMaximumSlots, (s.thread t).attended.countP ProxyLinkage.incoming

/-- Counted, and let in. -/
def Task.admitting (maximum : Nat) : Task → Nat
  | .counted inconn => if inconn < maximum then 1 else 0
  | _ => 0

/-- What a thread has let in. -/
def IoThread.admitted (maximum : Nat) (thread : IoThread) : Nat :=
  thread.attended.countP ProxyLinkage.incoming + thread.task.admitting maximum

theorem IoThread.admitted_le_load (maximum : Nat) (thread : IoThread) :
    thread.admitted maximum ≤ thread.load := by
  rw [IoThread.admitted, IoThread.load]
  refine Nat.add_le_add_left ?_ _
  cases thread.task with
  | counted inconn =>
      show (if inconn < (maximum : Int) then 1 else 0) ≤ 1
      split <;> omega
  | _ => exact Nat.le_refl _

/-- **THE LIMIT INVARIANT**: the counter covers the load of the threads, and
    what they let in leaves one place free. -/
structure Limited (s : EasyServer) : Prop where
  slots : s.slots ≤ kMaximumSlots
  absent : ∀ t, s.slots ≤ t → (s.thread t).task = .idle ∧ (s.thread t).events = []
  info : ∀ t, ∀ e ∈ (s.thread t).context.outgoingInformations.entries,
    e.2.threadId < s.slots
  counter : ((∑ t ∈ range kMaximumSlots, (s.thread t).load : Nat) : Int) ≤
    s.incomingConnections
  admitted : ∑ t ∈ range kMaximumSlots,
      (s.thread t).admitted s.maximumIncomingConnections ≤
    s.maximumIncomingConnections - 1

/-- A thread that is at work is one of the server's. -/
theorem Limited.lt (inv : Limited s) (h : (s.thread t).task ≠ .idle) :
    t < s.slots := by
  by_contra hge
  exact h (inv.absent t (Nat.le_of_not_lt hge)).1

/-- **THE CHECK**: whoever gets less than the maximum from the increment has
    a place, since the counter covers all that were let in before. -/
theorem Limited.room (inv : Limited s)
    (h : s.incomingConnections + 1 < s.maximumIncomingConnections) :
    ∑ t ∈ range kMaximumSlots,
      (s.thread t).admitted s.maximumIncomingConnections + 1 ≤
    s.maximumIncomingConnections - 1 := by
  have hle : ∑ t ∈ range kMaximumSlots,
        (s.thread t).admitted s.maximumIncomingConnections ≤
      ∑ t ∈ range kMaximumSlots, (s.thread t).load :=
    sum_le_sum fun t _ => (s.thread t).admitted_le_load _
  have hcounter := inv.counter
  omega

/-- One thread changes: the counter goes down by no more than its load does, and
    it lets in no more than before, or one more and the check let it. -/
theorem Limited.move (inv : Limited s) (ht : t < s.slots) (thread : IoThread)
    (hslots : s'.slots = s.slots)
    (hmax : s'.maximumIncomingConnections = s.maximumIncomingConnections)
    (hthread : s'.thread = Function.update s.thread t thread)
    (hinfo : ∀ e ∈ thread.context.outgoingInformations.entries,
      e.2.threadId < s.slots)
    (hcounter : s.incomingConnections + thread.load ≤
      s'.incomingConnections + (s.thread t).load)
    (hadmitted : thread.admitted s.maximumIncomingConnections ≤
        (s.thread t).admitted s.maximumIncomingConnections ∨
      (thread.admitted s.maximumIncomingConnections ≤
          (s.thread t).admitted s.maximumIncomingConnections + 1 ∧
        s.incomingConnections + 1 < s.maximumIncomingConnections)) :
    Limited s' := by
  have htm : t < kMaximumSlots := Nat.lt_of_lt_of_le ht inv.slots
  refine ⟨hslots ▸ inv.slots, fun i hi => ?_, fun i e he => ?_, ?_, ?_⟩
  · rw [hslots] at hi
    rw [hthread, Function.update_of_ne (by omega)]
    exact inv.absent i hi
  · rw [hslots]
    rw [hthread] at he
    by_cases hi : i = t
    · rw [hi, Function.update_self] at he
      exact hinfo e he
    · rw [Function.update_of_ne hi] at he
      exact inv.info i e he
  · have hsum := sum_update IoThread.load s.thread thread htm
    have hold := inv.counter
    rw [hthread]
    omega
  · have hsum := sum_update (IoThread.admitted s.maximumIncomingConnections)
      s.thread thread htm
    have hold := inv.admitted
    rw [hmax, hthread]
    rcases hadmitted with hle | ⟨hle, hfree⟩
    · omega
    · have hroom := inv.room hfree
      omega

/-- Only tables of contexts change. -/
theorem Limited.tables (inv : Limited s) (ht : t < s.slots) (ioc : IoContext)
    (hslots : s'.slots = s.slots)
    (hmax : s'.maximumIncomingConnections = s.maximumIncomingConnections)
    (hthread : s'.thread =
      Function.update s.thread t { s.thread t with context := ioc })
    (hinfo : ∀ e ∈ ioc.outgoingInformations.entries, e.2.threadId < s.slots)
    (hin : s'.incomingConnections = s.incomingConnections) : Limited s' :=
  inv.move ht _ hslots hmax hthread hinfo (by rw [hin]; exact le_refl _)
    (Or.inl (Nat.le_refl _))

-- ── The steps ────────────────────────────────────────────────────────────────

/-- The contexts are renewed while no thread does anything. -/
theorem Limited.renew (inv : Limited s)
    (hidle : ∀ t, (s.thread t).task = .idle ∧ (s.thread t).events = [])
    (hslots : s'.slots ≤ kMaximumSlots)
    (hmax : s'.maximumIncomingConnections = s.maximumIncomingConnections)
    (hthread : s'.thread = fun t => { s.thread t with context := .fresh t })
    (hin : s'.incomingConnections = s.incomingConnections) : Limited s' := by
  refine ⟨hslots, fun t _ => ?_, fun t e he => ?_, ?_, ?_⟩
  · rw [hthread]
    exact hidle t
  · rw [hthread] at he
    exact absurd he List.not_mem_nil
  · rw [hin, hthread]
    exact inv.counter
  · rw [hmax, hthread]
    exact inv.admitted

theorem Limited.initializeSlots (inv : Limited s) {n : Nat}
    (h : s.initializeSlots n = some s') : Limited s' := by
  obtain ⟨h0, -, hn, rfl⟩ := initializeSlots_eq_some h
  exact inv.renew (fun t => inv.absent t (by omega)) hn rfl rfl rfl

theorem Limited.shutdown (inv : Limited s) (h : s.shutdown = some s') :
    Limited s' := by
  rw [EasyServer.shutdown, Option.ite_none_right_eq_some] at h
  obtain ⟨hidle, h⟩ := h
  obtain rfl := Option.some.inj h
  refine inv.renew (fun t => ?_) (Nat.zero_le _) rfl rfl rfl
  by_cases ht : t < s.slots
  · exact hidle t ht
  · exact inv.absent t (Nat.le_of_not_lt ht)

theorem Limited.count (inv : Limited s) (h : s.count t = some s') :
    Limited s' := by
  obtain ⟨ht, htask, rfl⟩ := count_eq_some h
  refine inv.move ht { s.thread t with task := .counted _ } rfl rfl rfl
    (inv.info t) ?_ ?_
  · simp [IoThread.load, IoThread.attended, htask, Task.attended, Task.counting]
    omega
  · by_cases hfree : s.incomingConnections + 1 < s.maximumIncomingConnections
    · refine Or.inr ⟨?_, hfree⟩
      simp [IoThread.admitted, IoThread.attended, htask, Task.attended,
        Task.admitting, hfree]
    · refine Or.inl ?_
      simp [IoThread.admitted, IoThread.attended, htask, Task.attended,
        Task.admitting, hfree]

theorem Limited.refuse (inv : Limited s) (h : s.refuse t = some s') :
    Limited s' := by
  obtain ⟨inconn, htask, rfl⟩ := refuse_eq_some h
  refine inv.move (inv.lt (by simp [htask])) { s.thread t with task := .idle } rfl
    rfl rfl (inv.info t) ?_ (Or.inl ?_)
  · simp [IoThread.load, IoThread.attended, htask, Task.attended, Task.counting]
  · simp [IoThread.admitted, IoThread.attended, htask, Task.attended,
      Task.admitting]

theorem Limited.reject (inv : Limited s) (h : s.reject t = some s') :
    Limited s' := by
  obtain ⟨inconn, htask, heq⟩ := reject_eq_some h
  obtain rfl := heq _ rfl
  refine inv.move (inv.lt (by simp [htask]))
    { s.thread t with context := _, task := .idle } rfl rfl rfl (inv.info t) ?_
    (Or.inl ?_)
  · simp [IoThread.load, IoThread.attended, htask, Task.attended, Task.counting]
  · simp [IoThread.admitted, IoThread.attended, htask, Task.attended,
      Task.admitting]

/-- A linkage is made by a thread that the check let in. -/
theorem create_let_in (h : s.create t = some s') :
    ∃ inconn, (s.thread t).task = .counted inconn ∧
      inconn < s.maximumIncomingConnections := by
  rw [EasyServer.create] at h
  split at h
  case h_2 => exact absurd h (by simp)
  case h_1 inconn htask =>
      exact ⟨inconn, htask, (Option.ite_none_right_eq_some.mp h).1⟩

theorem Limited.create (inv : Limited s) (h : s.create t = some s') :
    Limited s' := by
  obtain ⟨inconn, htask, hlet⟩ := create_let_in h
  obtain ⟨_, _, heq⟩ := create_eq_some h
  obtain rfl := heq _ rfl
  have hone : ∀ l : ProxyLinkage, [l].countP ProxyLinkage.incoming ≤ 1 :=
    fun _ => List.countP_le_length
  refine inv.move (inv.lt (by simp [htask]))
    { s.thread t with context := _, task := .created _ } rfl rfl rfl (inv.info t)
    ?_ (Or.inl ?_)
  · have hle := hone ⟨s.made, ((s.thread t).context.allocateChannel s.slots true).1⟩
    simp only [setThread_incomingConnections, IoThread.load, IoThread.attended,
      htask, Task.attended, Task.counting, List.countP_append, List.countP_nil]
    omega
  · have hle := hone ⟨s.made, ((s.thread t).context.allocateChannel s.slots true).1⟩
    simp only [IoThread.admitted, IoThread.attended, htask, Task.attended,
      Task.admitting, List.countP_append, List.countP_nil, if_pos hlet]
    omega

/-- A linkage that fails to attach is gone, and its count stays. -/
theorem Limited.attach (inv : Limited s) {attached : Bool}
    (h : s.attach t attached = some s') : Limited s' := by
  obtain ⟨linkage, htask, rfl⟩ := attach_eq_some h
  have ht := inv.lt (t := t) (by simp [htask])
  cases attached with
  | true =>
      refine inv.move ht { s.thread t with
          events := linkage :: (s.thread t).events, task := .idle } rfl rfl rfl
        (inv.info t) ?_ (Or.inl ?_)
      · simp [IoThread.load, IoThread.attended, htask, Task.attended, Task.counting]
      · simp [IoThread.admitted, IoThread.attended, htask, Task.attended,
          Task.admitting]
  | false =>
      refine inv.move ht { s.thread t with task := .idle } rfl rfl rfl
        (inv.info t) ?_ (Or.inl ?_)
      · show s.incomingConnections + _ ≤ s.incomingConnections + _
        simp only [IoThread.load, IoThread.attended, htask, Task.attended,
          Task.counting, List.countP_append, List.countP_nil, List.countP_cons]
        omega
      · simp [IoThread.admitted, IoThread.attended, htask, Task.attended,
          Task.admitting, List.countP_cons]

theorem Limited.connect (inv : Limited s) (h : s.connect t = some s') :
    Limited s' := by
  obtain ⟨ht, heq⟩ := connect_eq_some h
  obtain rfl := heq _ rfl
  refine inv.tables ht _ rfl rfl rfl (fun e he => ?_) rfl
  rcases Table.mem_insertNew he with rfl | he
  · exact ht
  · exact inv.info t e he

/-- A linkage to an outgoing channel is not an incoming one. -/
theorem Limited.reconnect (inv : Limited s) {connected : Bool}
    (h : s.reconnect c connected = some s') : Limited s' := by
  rw [EasyServer.reconnect, Option.ite_none_right_eq_some] at h
  obtain ⟨⟨-, -, hout⟩, h⟩ := h
  split at h
  case h_1 => exact absurd h (by simp)
  case h_2 info hinfo =>
      have hid : info.threadId < s.slots :=
        inv.info _ _ (AList.mem_lookup_iff.mp hinfo)
      have ht : getThreadId s.slots c < s.slots := Nat.mod_lt _ (by omega)
      split at h
      case isTrue =>
          obtain rfl := Option.some.inj h
          exact inv
      case isFalse =>
          obtain rfl := Option.some.inj h
          let linkage : ProxyLinkage := ⟨s.made, c⟩
          have hnot : linkage.incoming = false := by
            simp [linkage, ProxyLinkage.incoming, hout]
          -- the entry first, then the worker
          let ioc : IoContext := { (s.thread (getThreadId s.slots c)).context with
            channelLinkages := (s.thread (getThreadId s.slots c)).context
              |>.channelLinkages.insertNew c linkage }
          have inv₁ : Limited (s.setContext (getThreadId s.slots c) ioc) :=
            inv.tables ht ioc rfl rfl rfl (inv.info _) rfl
          refine inv₁.move hid
            { (s.setContext (getThreadId s.slots c) ioc).thread info.threadId with
              events := linkage ::
                ((s.setContext (getThreadId s.slots c) ioc).thread
                  info.threadId).events }
            rfl rfl rfl (inv₁.info _) (le_of_eq ?_) (Or.inl (le_of_eq ?_))
          · simp [IoThread.load, IoThread.attended, hnot]
          · simp [IoThread.admitted, IoThread.attended, hnot]

theorem forget_maximum : (s.forget c).maximumIncomingConnections =
    s.maximumIncomingConnections := by
  rw [EasyServer.forget]
  split
  · rfl
  extract_lets t ioc ioc'
  split
  · rfl
  split
  · rfl
  · rfl

theorem releaseChannel_maximum : (s.releaseChannel c).maximumIncomingConnections =
    s.maximumIncomingConnections := by
  rw [EasyServer.releaseChannel]
  split
  · rfl
  extract_lets t ioc ioc' s₁
  split
  · rfl
  split
  · rfl
  split
  · rfl
  · rfl

theorem Limited.forget (inv : Limited s) (hslots : 0 < s.slots) :
    Limited (s.forget c) := by
  by_cases hvalid : c = kInvalidChannel
  · rw [EasyServer.forget, if_pos hvalid]
    exact inv
  · obtain ⟨ioc, hthread, -, hinfo, -, hs, hin, -⟩ := forget_spec (s := s) hvalid
    refine inv.tables (Nat.mod_lt _ hslots) ioc hs forget_maximum hthread
      (fun e he => ?_) hin
    rw [hinfo] at he
    exact inv.info _ e (Table.mem_of_mem_erase he)

theorem Limited.release (inv : Limited s) {linkage : ProxyLinkage}
    (h : s.release t linkage = some s') : Limited s' := by
  obtain ⟨htask, hmem, rfl⟩ := release_eq_some h
  have ht : t < s.slots := by
    by_contra hge
    rw [(inv.absent t (Nat.le_of_not_lt hge)).2] at hmem
    exact absurd hmem List.not_mem_nil
  have hcount := (List.perm_cons_erase hmem).countP_eq ProxyLinkage.incoming
  refine inv.move ht { s.thread t with
      events := (s.thread t).events.erase linkage, task := .releasing linkage }
    rfl rfl rfl (inv.info t) ?_ (Or.inl ?_)
  · simp [IoThread.load, IoThread.attended, htask, Task.attended, Task.counting,
      hcount]
  · simp [IoThread.admitted, IoThread.attended, htask, Task.attended,
      Task.admitting, hcount]

theorem Limited.delete (inv : Limited s) (h : s.delete t = some s') :
    Limited s' := by
  obtain ⟨linkage, htask, rfl⟩ := delete_eq_some h
  refine inv.move (inv.lt (by simp [htask])) { s.thread t with task := .idle } rfl
    rfl rfl (inv.info t) ?_ (Or.inl ?_)
  · simp [IoThread.load, IoThread.attended, htask, Task.attended, Task.counting]
  · simp [IoThread.admitted, IoThread.attended, htask, Task.attended,
      Task.admitting]

/-- A task and a context change in either order. -/
theorem update_task_context (f : Nat → IoThread) (t u : Nat) (task : Task)
    (ioc : IoContext) :
    Function.update (Function.update f u { f u with context := ioc }) t
        { Function.update f u { f u with context := ioc } t with task := task } =
      Function.update (Function.update f t { f t with task := task }) u
        { Function.update f t { f t with task := task } u with context := ioc } := by
  funext i
  by_cases hu : i = u
  · by_cases ht : i = t
    · rw [← hu, ← ht]
      simp
    · rw [← hu]
      simp [ht]
  · by_cases ht : i = t
    · rw [← ht]
      simp [hu]
    · simp [ht, hu]

/-- `ReleaseChannel` takes back the count of an incoming linkage, and no more. -/
theorem Limited.releasing (inv : Limited s)
    (h : s.releasing t = some s') : Limited s' := by
  obtain ⟨linkage, htask, rfl⟩ := releasing_eq_some h
  have ht := inv.lt (t := t) (by simp [htask])
  -- the count and the task first, then the tables of the channel's context
  have hdone : ∀ n : Int, s.incomingConnections ≤
      n + (if linkage.incoming then 1 else 0) →
      Limited { s.setTask t (.released linkage) with incomingConnections := n } := by
    intro n hn
    refine inv.move ht { s.thread t with task := .released linkage } rfl rfl rfl
      (inv.info t) ?_ (Or.inl ?_)
    · cases hinc : linkage.incoming <;> rw [hinc] at hn <;>
        simp [IoThread.load, IoThread.attended, htask, Task.attended,
          Task.counting, hinc] at hn ⊢ <;> omega
    · simp [IoThread.admitted, IoThread.attended, htask, Task.attended,
        Task.admitting, List.countP_cons]
  by_cases hvalid : linkage.channel = kInvalidChannel
  · rw [EasyServer.releaseChannel, if_pos hvalid]
    exact hdone s.incomingConnections (by split <;> omega)
  · obtain ⟨ioc, hthread, -, hinfo, -, hs, hin, -⟩ :=
      releaseChannel_spec (s := s) hvalid
    have inv₁ := hdone (s.releaseChannel linkage.channel).incomingConnections (by
      rw [hin, ProxyLinkage.incoming]
      cases isOutgoingChannel linkage.channel <;> simp)
    have hu : getThreadId s.slots linkage.channel < s.slots :=
      Nat.mod_lt _ (Nat.zero_lt_of_lt ht)
    refine inv₁.tables hu ioc hs releaseChannel_maximum ?_ (fun e he => ?_) rfl
    · show Function.update (s.releaseChannel linkage.channel).thread t _ = _
      rw [hthread]
      exact update_task_context s.thread t _ _ ioc
    · rw [hinfo] at he
      exact inv.info _ e he

/-- One step keeps the limit. -/
theorem Limited.next {a : Action} (inv : Limited s) (h : next s a = some s') :
    Limited s' := by
  cases a with
  | initializeSlots n => exact inv.initializeSlots h
  | shutdown => exact inv.shutdown h
  | count t => exact inv.count h
  | refuse t => exact inv.refuse h
  | reject t => exact inv.reject h
  | create t => exact inv.create h
  | attach t attached => exact inv.attach h
  | connect t => exact inv.connect h
  | reconnect channel connected => exact inv.reconnect h
  | forget channel =>
      obtain ⟨hslots, heq⟩ := Option.ite_none_right_eq_some.mp h
      obtain rfl := Option.some.inj heq
      exact inv.forget hslots
  | disconnect channel =>
      obtain rfl := Option.some.inj h
      exact inv
  | release t linkage => exact inv.release h
  | releaseChannel t => exact inv.releasing h
  | delete t => exact inv.delete h

theorem Limited.fresh (n : Nat) : Limited (EasyServer.fresh n) where
  slots := Nat.zero_le _
  absent := fun _ _ => ⟨rfl, rfl⟩
  info := fun _ e he => absurd he List.not_mem_nil
  counter := by
    have h0 : ∑ t ∈ range kMaximumSlots,
        ((EasyServer.fresh n).thread t).load = 0 := sum_eq_zero fun _ _ => rfl
    rw [h0]
    exact le_refl _
  admitted := by
    have h0 : ∑ t ∈ range kMaximumSlots, ((EasyServer.fresh n).thread t).admitted
        (EasyServer.fresh n).maximumIncomingConnections = 0 :=
      sum_eq_zero fun _ _ => rfl
    rw [h0]
    exact Nat.zero_le _

theorem Limited.reachable (h : Reachable server s) : Limited s := by
  refine h.invariant ?_ ?_
  · rintro _ ⟨n, rfl⟩
    exact Limited.fresh n
  · rintro s a s' - inv hs
    exact inv.next hs

-- ── The limit and the refusals ───────────────────────────────────────────────

/-- Fewer than the maximum are live, unless the maximum is zero. -/
theorem Limited.live (inv : Limited s) :
    liveConnections s ≤ s.maximumIncomingConnections - 1 := by
  refine le_trans (sum_le_sum fun t _ => ?_) inv.admitted
  exact Nat.le_add_right _ _

/-- No thread is between counting a connection and attaching its linkage. -/
def NoAccept (s : EasyServer) : Prop :=
  ∀ t, (∀ inconn, (s.thread t).task ≠ .counted inconn) ∧
    ∀ linkage, (s.thread t).task ≠ .created linkage

/-- What is asked of the next accept: alone, it is refused for the limit only if
    as many connections are live as there may be. -/
def RefusesAtLimit (s : EasyServer) : Prop :=
  ∀ t s₁, NoAccept s → s.count t = some s₁ → (s₁.refuse t).isSome = true →
    liveConnections s = s.maximumIncomingConnections

/-- An accept can run, and no other is in progress. -/
def Accepts (s : EasyServer) : Prop :=
  NoAccept s ∧ ∃ t < s.slots, (s.thread t).task = .idle

/-- An accept is refused by what it got from the increment. -/
theorem refuse_isSome (h : s.count t = some s') :
    (s'.refuse t).isSome = true ↔
      (s.maximumIncomingConnections : Int) ≤ s.incomingConnections + 1 := by
  obtain ⟨-, -, rfl⟩ := count_eq_some h
  rw [EasyServer.refuse]
  simp
  exact Iff.rfl

/-- **THE ADMISSION LIMIT**: in every reachable state no more incoming
    connections are live than the maximum; and an accept is refused at the
    limit only, exactly when the maximum is zero or the counter stays below it
    with this accept counted. -/
theorem admission_limit (h : Reachable server s) :
    liveConnections s ≤ s.maximumIncomingConnections ∧
    (RefusesAtLimit s ↔ (Accepts s → s.maximumIncomingConnections = 0 ∨
      s.incomingConnections + 1 < s.maximumIncomingConnections)) := by
  have inv := Limited.reachable h
  have hlive := inv.live
  refine ⟨by omega, ?_⟩
  constructor
  · rintro hrefuses ⟨halone, t, ht, htask⟩
    by_contra hne
    obtain ⟨hpos, hfull⟩ := not_or.mp hne
    obtain ⟨s₁, hcount⟩ : ∃ s₁, s.count t = some s₁ := by
      rw [EasyServer.count, if_pos ⟨ht, htask⟩]
      exact ⟨_, rfl⟩
    have hmax := hrefuses t s₁ halone hcount
      ((refuse_isSome hcount).mpr (Int.not_lt.mp hfull))
    omega
  · intro hfits t s₁ halone hcount hrefused
    obtain ⟨ht, htask, -⟩ := count_eq_some hcount
    rcases hfits ⟨halone, t, ht, htask⟩ with hzero | hfree
    · omega
    · exact absurd ((refuse_isSome hcount).mp hrefused) (Int.not_le.mpr hfree)

/-- In runs whose accepted linkages attach, the counter an accept finds is the
    number of live connections: it is refused one short of the limit. -/
theorem counter_when_alone (h : Reachable (server.restrict Attaching) s)
    (halone : NoAccept s) : s.incomingConnections = liveConnections s := by
  rw [(Accounted.reachable h).incoming, liveConnections]
  refine congrArg Nat.cast (sum_congr rfl fun t _ => ?_)
  rw [IoThread.load]
  have htask := (halone t).1
  cases heq : (s.thread t).task with
  | counted inconn => exact absurd heq (htask inconn)
  | _ => rfl

/-- A server that was just initialised, with its limit. -/
def readyServer (maximumIncomingConnections : Nat) : EasyServer :=
  { EasyServer.fresh maximumIncomingConnections with
    slots := 1
    thread := fun t => ⟨.fresh t, [], .idle⟩ }

theorem readyServer_reachable (n : Nat) : Reachable server (readyServer n) :=
  .next (l := .initializeSlots 1) (.start ⟨n, rfl⟩) rfl

theorem readyServer_live (n : Nat) : liveConnections (readyServer n) = 0 :=
  sum_eq_zero fun _ _ => rfl

/-- With room for fifty thousand nothing is refused. -/
theorem admission_limit_ready : RefusesAtLimit (readyServer 50000) :=
  (admission_limit (readyServer_reachable 50000)).2.mpr fun _ => Or.inr (by decide)

/-- A server that may have one connection has none, and refuses the first. -/
theorem refuses_below_limit :
    Reachable server (readyServer 1) ∧ NoAccept (readyServer 1) ∧
    liveConnections (readyServer 1) = 0 ∧ ¬ RefusesAtLimit (readyServer 1) := by
  have halone : NoAccept (readyServer 1) :=
    fun t => ⟨fun _ h0 => (by cases h0), fun _ h0 => (by cases h0)⟩
  refine ⟨readyServer_reachable 1, halone, readyServer_live 1, fun hrefuses => ?_⟩
  have hmax := hrefuses 0 _ halone rfl rfl
  rw [readyServer_live] at hmax
  cases hmax

end FlinterEasyServer
