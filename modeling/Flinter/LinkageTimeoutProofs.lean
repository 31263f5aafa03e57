import Flinter.LinkageJamProofs

/-! # Pending output is under the send timeout

    `Cleanup` drops a linkage whose peer stopped reading by `_send_jam`, the
    time since when the queue does not drain.  `UpdateLastSent` sets it whenever
    a write leaves something behind, so a queue is timed as long as a write left
    it behind (`pending_output_timed`).

    Two branches queue without a write: `Send` behind an incomplete read or
    handshake, and a retry that completes the remembered length while later
    bytes wait, which clears the stamp (`pending_output_untimed`). -/

namespace FlinterLinkage

open World Runs

variable {h : LinkageHandler}

-- ── What receiving preserves ─────────────────────────────────────────────────

/-- A predicate that calls of the handler, the receiving fields and the record
    of a message do not disturb. -/
structure Kept (P : World → Prop) : Prop where
  request : ∀ w call, P w → P (w.request call)
  receive : ∀ (w : World) (rbuffer : Bytes) (rlength : Nat)
    (lastReceived receiveJam : Int), P w → P { w with
      rbuffer := rbuffer
      rlength := rlength
      lastReceived := lastReceived
      receiveJam := receiveJam }
  message : ∀ (w : World) (message : Bytes) (ret : Int), P w →
    P (w.note (.message message ret w.wbuffer))

variable {P : World → Prop}

theorem Kept.requests (hk : Kept P) (calls : List Request) :
    ∀ w, P w → P (w.requests calls) := by
  induction calls with
  | nil => intro w hi; exact hi
  | cons call calls ih => intro w hi; exact ih _ (hk.request w call hi)

/-- Changes to the receiving fields only. -/
theorem Kept.fields (hk : Kept P) {w w' : World} (hi : P w) (heq : w' = { w with
      rbuffer := w'.rbuffer
      rlength := w'.rlength
      lastReceived := w'.lastReceived
      receiveJam := w'.receiveJam }) : P w' := by
  rw [heq]
  exact hk.receive w _ _ _ _ hi

theorem Kept.doReceivedLoop (hk : Kept P) :
    ∀ (fuel : Nat) (w : World) (ptr : Bytes) (consumed : Nat), P w →
      P (doReceivedLoop h fuel w ptr consumed).2.2 := by
  intro fuel
  induction fuel with
  | zero => intro w ptr consumed hi; exact hi
  | succ fuel ih =>
      intro w ptr consumed hi
      rw [FlinterLinkage.doReceivedLoop]
      extract_lets ret w₁ w₂ r w₃
      split
      · exact hi
      split
      · exact hi
      split
      · exact hk.fields hi rfl
      split
      · exact hk.fields hi rfl
      have hw₂ : P w₂ := hk.fields hi rfl
      have hw₃ : P w₃ := hk.message _ _ _ (hk.requests _ w₂ hw₂)
      split
      · exact hw₃
      split
      · exact hw₃
      · exact ih _ _ _ (hk.fields hw₃ rfl)

theorem Kept.receiveDirect (hk : Kept P) (w : World) (ptr : Bytes) (hi : P w) :
    P (receiveDirect h w ptr).2 := by
  have hd : P (doReceived h w ptr).2.2 := hk.doReceivedLoop _ w ptr 0 hi
  rw [FlinterLinkage.receiveDirect]
  split
  · exact hd
  split
  · exact hk.fields hd rfl
  · exact hd

/-- **RECEIVING PRESERVES** what the handler's calls preserve. -/
theorem Kept.onReceived (hk : Kept P) (w : World) (buffer : Option Bytes)
    (hi : P w) : P (onReceived h w buffer).2 := by
  cases buffer with
  | none => exact hi
  | some ptr =>
      rw [FlinterLinkage.onReceived]
      extract_lets w₁ last w₂ r₂ w₃ w₄ ptr₂ w₅ r₅ w₆
      have hw₁ : P w₁ := hk.fields hi rfl
      split
      · exact hi
      split
      · exact hw₁
      split
      · exact hk.receiveDirect w₁ ptr hw₁
      split
      · have hw₃ : P w₃ := hk.doReceivedLoop _ w₂ _ 0 (hk.fields hw₁ rfl)
        split
        · exact hw₃
        split
        · exact hk.receiveDirect w₄ _ (hk.fields hw₃ rfl)
        · exact hk.fields hw₃ rfl
      · have hw₆ : P w₆ := hk.doReceivedLoop _ w₅ _ 0 (hk.fields hw₁ rfl)
        split
        · exact hw₆
        · exact hk.fields hw₆ rfl

-- ── The two invariants ───────────────────────────────────────────────────────

/-- **THE TIMING INVARIANT**, with the clock that the stamps are taken from. -/
structure Timed (w : World) : Prop where
  clock : w.now ≠ 0
  jam : w.wbuffer ≠ [] → w.sendJam ≠ 0

/-- A `Send` does not find an incomplete action over an empty queue. -/
def Ready (w : World) : Prop :=
  w.action = .none ∨ w.wbuffer ≠ [] ∨ w.graceful = true

/-- A stamp that a failing write leaves is not zero. -/
theorem jam_set {jam now : Int} (hnow : now ≠ 0) : (if jam = 0 then now else jam) ≠ 0 := by
  split
  next => exact hnow
  next hjam => exact hjam

/-- The queue only shrank to nothing and the stamp stayed. -/
theorem Timed.keep {w w' : World} (hi : Timed w) (hb : w'.wbuffer = w.wbuffer ∨ w'.wbuffer = [])
    (hj : w'.sendJam = w.sendJam) (hn : w'.now = w.now) : Timed w' := by
  refine ⟨by rw [hn]; exact hi.clock, fun hne => ?_⟩
  rw [hj]
  rcases hb with hb | hb
  · rw [hb] at hne
    exact hi.jam hne
  · exact absurd hb hne

theorem onEventShutdown_timed {w : World} (hi : Timed w) : Timed w.onEventShutdown.2.2 := by
  cases hc : w.closed with
  | true =>
      rw [onEventShutdown_closed hc]
      exact hi.keep (Or.inl rfl) rfl rfl
  | false =>
      rw [onEventShutdown_open hc]
      exact hi.keep (Or.inl rfl) rfl rfl

theorem Timed.disconnect {w : World} (hi : Timed w) (finishWrite : Bool) :
    Timed (w.disconnect finishWrite).2 := by
  have ha : Timed (w.announce finishWrite) := by
    rw [announce_world]
    refine hi.keep ?_ rfl rfl
    cases finishWrite with
    | true => exact Or.inl rfl
    | false => exact Or.inr rfl
  rw [World.disconnect]
  split
  · exact ha
  · rw [rearm_world]
    exact (onEventShutdown_timed ha).keep (Or.inl rfl) rfl rfl

/-- A `Send` keeps the queue timed unless it queues behind something else than
    a write. -/
theorem Timed.send {w : World} (hi : Timed w) (hready : Ready w) (buffer : Option Bytes) :
    Timed (w.send buffer).2 ∧ Ready (w.send buffer).2 := by
  have hs := send_cases w buffer
  generalize (w.send buffer).1 = ret at hs
  generalize (w.send buffer).2 = w' at hs ⊢
  cases hs with
  | refused => exact ⟨hi, hready⟩
  | nothing => exact ⟨hi, hready⟩
  | full => exact ⟨hi, hready⟩
  | queued b hb hg hbusy =>
      have hne : w.wbuffer ≠ [] := by
        rcases hready with ha | hne | hgr
        · rcases hbusy with h0 | h0
          · exact absurd ha h0
          · exact h0
        · exact hne
        · rw [hg] at hgr
          cases hgr
      refine ⟨⟨hi.clock, fun _ => hi.jam hne⟩, Or.inr (Or.inl ?_)⟩
      exact List.append_ne_nil_of_left_ne_nil hne b
  | wrote b hb ha hempty => exact ⟨⟨hi.clock, fun hne => absurd hempty hne⟩, Or.inl ha⟩
  | lost b hb ha hempty => exact ⟨⟨hi.clock, fun hne => absurd hempty hne⟩, Or.inl ha⟩
  | partly b hb ha => exact ⟨⟨hi.clock, fun _ => jam_set hi.clock⟩, Or.inl ha⟩
  | jammed b hb ha => exact ⟨⟨hi.clock, fun _ => jam_set hi.clock⟩, Or.inl ha⟩
  | wanted b hb ha =>
      refine ⟨⟨hi.clock, fun _ => jam_set hi.clock⟩, Or.inr (Or.inl ?_)⟩
      exact List.append_ne_nil_of_right_ne_nil _ hb

/-- A handler's calls on a linkage that is ready. -/
theorem settled_kept : Kept fun w => Timed w ∧ Ready w where
  request := by
    rintro w call ⟨hi, hready⟩
    cases call with
    | send buffer =>
        obtain ⟨ht, hr⟩ := hi.send hready buffer
        exact ⟨ht.keep (Or.inl rfl) rfl rfl, hr⟩
    | disconnect finishWrite =>
        exact ⟨hi.disconnect finishWrite,
          Or.inr (Or.inr (disconnect_graceful w finishWrite))⟩
  receive := fun w _ _ _ _ hi => ⟨hi.1.keep (Or.inl rfl) rfl rfl, hi.2⟩
  message := fun w _ _ hi => ⟨hi.1.keep (Or.inl rfl) rfl rfl, hi.2⟩

-- ── One round of the event loop ──────────────────────────────────────────────

/-- The retry of an incomplete write completes, and later bytes wait. -/
def DrainsShort (w : World) : Prop :=
  w.lastWriting ≠ 0 ∧ w.lastWriting < w.wbuffer.length ∧
    w.answer.status = .ok ∧ w.lastWriting ≤ w.answer.retlen

theorem Timed.conclude {w : World} (hi : Timed w) (action : Action)
    (status : Status) : Timed (w.conclude action status).2.2 := by
  rw [conclude_world]
  exact hi.keep (Or.inl rfl) rfl rfl

theorem Timed.onEventRead {w : World} (hi : Timed w) :
    Timed (onEventRead h w).2.2 := by
  rw [FlinterLinkage.onEventRead]
  extract_lets w₂ r
  have hw₂ : Timed w₂ := hi.keep (Or.inl rfl) rfl rfl
  split
  · -- no action is incomplete while the handler runs
    have hr : Timed r.2 := (settled_kept.onReceived _ _
      ⟨hw₂.keep (Or.inl rfl) rfl rfl, Or.inl rfl⟩).1
    split
    · exact hr
    split
    · exact hr
    · exact hr
  · exact hw₂.conclude .read _

theorem Timed.onEventHandshake {w : World} (hi : Timed w) (action : Action) :
    Timed (onEventHandshake h w action).2.2 := by
  rw [FlinterLinkage.onEventHandshake]
  have ha : Timed w.answered := hi.keep (Or.inl rfl) rfl rfl
  split
  · have he : Timed (establish { w.answered with action := .none }) :=
      ha.keep (Or.inl rfl) rfl rfl
    exact (settled_kept.requests h.onConnected.calls _ ⟨he, Or.inl rfl⟩).1
  · exact ha.conclude action _

/-- The writing branch clears the stamp only over an empty queue, unless it
    drains short. -/
theorem Timed.onEventWrite {w : World} (hi : Timed w) (hshort : ¬ DrainsShort w) :
    Timed (onEventWrite w).2.2 := by
  have hw := onEventWrite_cases w
  generalize (FlinterLinkage.onEventWrite w).2.2 = w' at hw ⊢
  cases hw with
  | idle hempty => exact hi.keep (Or.inl rfl) rfl rfl
  | failed hne hst buffer hbuffer =>
      apply Timed.conclude
      exact ⟨hi.clock, fun _ => jam_set hi.clock⟩
  | taken hne hok buffer hbuffer =>
      refine ⟨hi.clock, fun hrest => ?_⟩
      have hrest' : w.wbuffer.drop (w.retlen buffer) ≠ [] := hrest
      have hsome : w.retlen buffer < w.picked := by
        have hlt : w.retlen buffer < w.wbuffer.length := by
          have hpos := List.length_pos_iff.mpr hrest'
          rw [List.length_drop] at hpos
          omega
        have hle : w.retlen buffer ≤ w.answer.retlen := Nat.min_le_left _ _
        rcases Nat.lt_or_ge (w.retlen buffer) w.picked with hsome | hall
        · exact hsome
        -- all that was offered is less than all there is: a retry
        rw [picked] at hall ⊢
        split at hall
        next hlast => exact absurd ⟨hlast, by omega, hok, by omega⟩ hshort
        next => omega
      show (if decide (w.retlen buffer < w.picked) = true then _ else _) ≠ (0 : Int)
      rw [if_pos (decide_eq_true hsome)]
      exact jam_set hi.clock

theorem Timed.onEventOnce {w : World} (hi : Timed w) {action : Action}
    (hshort : action = .write → ¬ DrainsShort w) :
    Timed (onEventOnce h w action).2.2 := by
  cases action with
  | none => exact hi.conclude .none .bug
  | read => exact hi.onEventRead
  | write => exact hi.onEventWrite (hshort rfl)
  | accept => exact hi.onEventHandshake .accept
  | connect => exact hi.onEventHandshake .connect
  | shutdown => exact onEventShutdown_timed hi

/-- An event writes in its first round or not at all. -/
theorem Timed.onEventLoop :
    ∀ (fuel : Nat) (w : World) (action : Action), Timed w →
      Entered w action ∨ action = .shutdown →
      (action = .write → ¬ DrainsShort w) → Timed (onEventLoop h fuel w action).2 := by
  intro fuel
  induction fuel with
  | zero => intro w action hi _ _; exact hi
  | succ fuel ih =>
      intro w action hi hentered hshort
      have honce := hi.onEventOnce (h := h) hshort
      have hnext : (FlinterLinkage.onEventOnce h w action).2.1 = .none ∨
          (FlinterLinkage.onEventOnce h w action).2.1 = .shutdown ∨
          (FlinterLinkage.onEventOnce h w action).2.1 = .read := by
        rcases hentered with hentered | rfl
        · exact (onEventOnce_round w action hentered).named.imp id
            (Or.imp id And.left)
        · exact Or.inl (onEventShutdown_next w)
      rw [FlinterLinkage.onEventLoop]
      generalize FlinterLinkage.onEventOnce h w action = r at hnext honce ⊢
      split
      next => exact honce
      next hsome =>
        rcases hnext with hn | hn | hn
        · exact absurd hn hsome
        · exact ih _ _ honce (Or.inr hn) fun h0 => (by rw [hn] at h0; cases h0)
        · exact ih _ _ honce (Or.inl (Or.inl hn)) fun h0 => (by rw [hn] at h0; cases h0)

theorem Timed.onEvent {w : World} (hi : Timed w) {idleAction : Action}
    (hidle : Idle w idleAction)
    (hshort : (if w.action = .none then idleAction else w.action) = .write →
      ¬ DrainsShort w) : Timed (onEvent h w idleAction).2 := by
  have hloop := hi.onEventLoop (h := h) (w.io.length + 2) w _ (Or.inl hidle.entered) hshort
  show Timed (World.rearm _)
  rw [rearm_world]
  exact hloop.keep (Or.inl rfl) rfl rfl

-- ── Runs ─────────────────────────────────────────────────────────────────────

/-- The runs over a monotonic clock, which never reads zero. -/
def clocked (h : LinkageHandler) : System World Step where
  init := fun w => ∃ (receiveTimeout connectTimeout sendTimeout idleTimeout : Int)
    (now : Int) (io : List Answer) (setup : Setup), 0 < now ∧
    attach h ((World.fresh receiveTimeout connectTimeout sendTimeout idleTimeout
      now).during io now) setup = (true, w)
  step := fun w s w' => 0 < s.now ∧ (system h).step w s w'

/-- A `Send` queues bytes, and no write is what holds it up. -/
def QueuesUntimed (w : World) (buffer : Option Bytes) : Prop :=
  w.action ≠ .none ∧ w.wbuffer = [] ∧ w.graceful = false ∧
    ∃ b, buffer = some b ∧ b ≠ [] ∧ b.length ≤ kMaximumBytes

/-- The `Send` calls that come before any `Disconnect`. -/
def firstSends : List Request → List (Option Bytes)
  | [] => []
  | .send buffer :: calls => buffer :: firstSends calls
  | .disconnect _ :: _ => []

/-- **THE CONDITION** on an operation: no `Send` queues behind an incomplete
    action that is not a write, and no retry completes over later bytes. -/
def QueuesTimed (w : World) : Op → Prop
  | .send buffer => ¬ QueuesUntimed w buffer
  | .disconnect _ => True
  | .readable => w.action = .write → ¬ DrainsShort w
  | .writable => w.action = .none ∨ w.action = .write → ¬ DrainsShort w
  | .healthCheck reply => cleanup w w.now = true → reply.ret = true →
      ∀ buffer ∈ firstSends reply.calls, ¬ QueuesUntimed w buffer

/-- A queue is timed in every state in which the worker holds the linkage. -/
def Punctual (w : World) : Prop :=
  w.client.isSome = true → w.wbuffer ≠ [] → w.sendJam ≠ 0

theorem doRelease_punctual (w : World) : Punctual (doRelease h w) := by
  intro hc
  rw [doRelease_released] at hc
  cases hc

theorem Timed.punctual {w : World} (hi : Timed w) : Punctual w :=
  fun _ hne => hi.jam hne

/-- A `Send` that does not queue behind another action keeps the queue timed,
    and what it finds is what the next one finds. -/
theorem Timed.sendCall {w : World} (hi : Timed w) {buffer : Option Bytes}
    (hq : ¬ QueuesUntimed w buffer) : Timed (w.sendCall buffer) ∧
      (¬ Ready w → ∃ ret, w.sendCall buffer = w.note (.sent buffer ret)) := by
  by_cases hready : Ready w
  · exact ⟨(hi.send hready buffer).1.keep (Or.inl rfl) rfl rfl, fun h0 => absurd hready h0⟩
  have hsame : ∃ ret, w.sendCall buffer = w.note (.sent buffer ret) := by
    have hs := send_cases w buffer
    rw [World.sendCall]
    generalize (w.send buffer).1 = ret at hs ⊢
    generalize (w.send buffer).2 = w' at hs ⊢
    cases hs with
    | refused => exact ⟨_, rfl⟩
    | nothing => exact ⟨_, rfl⟩
    | full => exact ⟨_, rfl⟩
    | queued b hb hg hbusy hfit =>
        have hempty : w.wbuffer = [] :=
          Decidable.not_not.mp fun h0 => hready (Or.inr (Or.inl h0))
        have ha : w.action ≠ .none := fun h0 => hready (Or.inl h0)
        rw [hempty] at hfit
        exact absurd ⟨ha, hempty, hg, b, rfl, hb, hfit⟩ hq
    | wrote b hb ha => exact absurd (Or.inl ha) hready
    | partly b hb ha => exact absurd (Or.inl ha) hready
    | jammed b hb ha => exact absurd (Or.inl ha) hready
    | wanted b hb ha => exact absurd (Or.inl ha) hready
    | lost b hb ha => exact absurd (Or.inl ha) hready
  refine ⟨?_, fun _ => hsame⟩
  obtain ⟨ret, heq⟩ := hsame
  rw [heq]
  exact hi.keep (Or.inl rfl) rfl rfl

/-- The calls of a health check, by induction on the list: up to a `Disconnect`
    they find the linkage as the first one did. -/
theorem Timed.requests (calls : List Request) :
    ∀ w, Timed w → (∀ buffer ∈ firstSends calls, ¬ QueuesUntimed w buffer) →
      Timed (w.requests calls) := by
  induction calls with
  | nil => intro w hi _; exact hi
  | cons call calls ih =>
      intro w hi hq
      have hsettled : ∀ w', Timed w' ∧ Ready w' → Timed (w'.requests calls) :=
        fun w' h0 => (settled_kept.requests calls w' h0).1
      cases call with
      | disconnect finishWrite =>
          exact hsettled _ ⟨hi.disconnect finishWrite,
            Or.inr (Or.inr (disconnect_graceful w finishWrite))⟩
      | send buffer =>
          obtain ⟨ht, hsame⟩ := hi.sendCall (hq buffer List.mem_cons_self)
          by_cases hready : Ready w
          · exact hsettled _ (settled_kept.request w (.send buffer) ⟨hi, hready⟩)
          · obtain ⟨ret, heq⟩ := hsame hready
            show Timed ((w.sendCall buffer).requests calls)
            refine ih _ ht fun buffer' hmem => ?_
            rw [heq]
            exact hq buffer' (List.mem_cons_of_mem _ hmem)

theorem workerEvent_punctual {w : World} (hi : Timed w) {idleAction : Action}
    (hidle : Idle w idleAction)
    (hshort : (if w.action = .none then idleAction else w.action) = .write →
      ¬ DrainsShort w) : Punctual (workerEvent h w idleAction) := by
  rw [workerEvent]
  split
  · exact doRelease_punctual _
  split
  · exact doRelease_punctual _
  · exact (hi.onEvent hidle hshort).punctual

theorem perform_punctual {w : World} (hi : Timed w) (op : Op)
    (hcond : QueuesTimed w op) : Punctual (perform h w op) := by
  cases op with
  | send buffer => exact (hi.sendCall hcond).1.punctual
  | disconnect finishWrite => exact (hi.disconnect finishWrite).punctual
  | readable =>
      refine workerEvent_punctual hi (Or.inl rfl) fun haction => hcond ?_
      split at haction
      · cases haction
      · exact haction
  | writable =>
      refine workerEvent_punctual hi (Or.inr (Or.inl rfl)) fun haction => hcond ?_
      split at haction
      next hnone => exact Or.inl hnone
      next => exact Or.inr haction
  | healthCheck reply =>
      show Punctual (healthCheck h w reply)
      rw [healthCheck]
      split
      · exact doRelease_punctual _
      next hclean =>
        split
        next hret =>
          have hclean' := Decidable.not_not.mp hclean
          exact (Timed.requests _ w hi (hcond hclean' hret)).punctual
        · exact doRelease_punctual _

/-- A linkage that was just attached. -/
theorem attach_punctual {receiveTimeout connectTimeout sendTimeout idleTimeout : Int}
    {now : Int} {io : List Answer} {setup : Setup} {w : World} (hnow : 0 < now)
    (hw : attach h ((World.fresh receiveTimeout connectTimeout sendTimeout
      idleTimeout now).during io now) setup = (true, w)) : Punctual w := by
  -- nothing is queued before the first event
  have hfresh : ∀ w₀ : World, w₀.now = now → w₀.wbuffer = [] → Timed w₀ :=
    fun w₀ hn hempty => ⟨by omega, fun hne => absurd hempty hne⟩
  rw [attach, if_neg (by exact Bool.false_ne_true)] at hw
  split at hw
  · cases congrArg Prod.fst hw
  split at hw
  · extract_lets r at hw
    split at hw
    · obtain rfl := congrArg Prod.snd hw
      exact (settled_kept.requests h.onConnected.calls _
        ⟨hfresh (establish _) rfl rfl, Or.inl rfl⟩).1.punctual
    · cases congrArg Prod.fst hw
  next hidle =>
  extract_lets w₁ r at hw
  split at hw
  · obtain rfl := congrArg Prod.snd hw
    exact (hfresh { w₁ with action := setup.nextAction } rfl rfl).punctual
  next hfirst =>
    split at hw
    · cases congrArg Prod.fst hw
    · obtain rfl := congrArg Prod.snd hw
      have hstart := hfresh { w₁ with action := setup.action } rfl rfl
      refine (hstart.onEvent (Or.inr (Or.inr hfirst)) fun haction => ?_).punctual
      have hwrite : setup.action = .write := by
        rw [if_neg hfirst] at haction
        exact haction
      have hopen := setup.opening setup.action (by simp)
      rw [hwrite] at hopen
      simp at hopen

/-- **PENDING OUTPUT IS UNDER THE SEND TIMEOUT** in every run whose steps queue
    behind writes only and retry without later bytes. -/
theorem pending_output_timed (h : LinkageHandler) (w : World)
    (hr : Reachable ((clocked h).restrict fun w s =>
      QueuesTimed (w.during s.io s.now) s.op) w) : Punctual w := by
  refine hr.invariant ?_ ?_
  · rintro w ⟨_, _, _, _, now, io, setup, hnow, hw⟩
    exact attach_punctual hnow hw
  · rintro w s w' _ hi ⟨hcond, hnow, hheld, rfl⟩
    have htimed : Timed (w.during s.io s.now) :=
      ⟨fun h0 => by rw [show s.now = 0 from h0] at hnow; omega,
        fun hne => hi hheld hne⟩
    exact perform_punctual htimed s.op hcond

/-- A linkage attached at time 1 with a send timeout of 5. -/
def timedWorld : World :=
  (attach idleHandler ((World.fresh 0 0 5 0 1).during [] 1) plainSetup).2

theorem timedWorld_init : (clocked idleHandler).init timedWorld :=
  ⟨0, 0, 5, 0, 1, [], plainSetup, by decide, rfl⟩

/-- The io is jammed at time 2: the byte is queued and the stamp is set. -/
theorem pending_output_timed_jammed :
    let w := perform idleHandler (timedWorld.during [⟨.jammed, [], false, 0⟩] 2)
      (.send (some [1]))
    w.wbuffer = [1] ∧ w.sendJam = 2 ∧ Punctual w := by
  intro w
  have hcond : QueuesTimed (timedWorld.during [⟨.jammed, [], false, 0⟩] 2)
      (.send (some [1])) := fun h0 => absurd (show Action.none = .none from rfl) h0.1
  have hr : Reachable ((clocked idleHandler).restrict fun w s =>
      QueuesTimed (w.during s.io s.now) s.op) w :=
    .next (l := ⟨.send (some [1]), [⟨.jammed, [], false, 0⟩], 2⟩)
      (.start timedWorld_init) ⟨hcond, by decide, rfl, rfl⟩
  exact ⟨by decide, by decide, pending_output_timed idleHandler w hr⟩

/-- A read is incomplete when a byte is sent. -/
def silentWorld : World :=
  let w := perform idleHandler (timedWorld.during [⟨.wannaRead, [], false, 0⟩] 2)
    .readable
  perform idleHandler (w.during [] 3) (.send (some [1]))

/-- Two bytes are held, a third is queued, and the retry takes the two. -/
def drainedWorld : World :=
  let w := perform idleHandler (timedWorld.during [⟨.wannaWrite, [], false, 0⟩] 2)
    (.send (some [1, 2]))
  let w := perform idleHandler (w.during [] 3) (.send (some [3]))
  perform idleHandler (w.during [⟨.ok, [], false, 2⟩] 4) .writable

/-- Both wait for a peer that may never read again, with no stamp: `Cleanup`
    never drops them. -/
theorem pending_output_untimed :
    (Reachable (clocked idleHandler) silentWorld ∧ silentWorld.wbuffer = [1] ∧
      ¬ Punctual silentWorld ∧ ∀ now, cleanup silentWorld now = true) ∧
    (Reachable (clocked idleHandler) drainedWorld ∧ drainedWorld.wbuffer = [3] ∧
      ¬ Punctual drainedWorld ∧ ∀ now, cleanup drainedWorld now = true) := by
  refine ⟨⟨?_, by decide, fun hp => hp rfl (by decide) (by decide), fun now => rfl⟩,
    ⟨?_, by decide, fun hp => hp rfl (by decide) (by decide), fun now => rfl⟩⟩
  · exact .next (l := ⟨.send (some [1]), [], 3⟩)
      (.next (l := ⟨.readable, [⟨.wannaRead, [], false, 0⟩], 2⟩)
        (.start timedWorld_init) ⟨by decide, rfl, rfl⟩) ⟨by decide, rfl, rfl⟩
  · exact .next (l := ⟨.writable, [⟨.ok, [], false, 2⟩], 4⟩)
      (.next (l := ⟨.send (some [3]), [], 3⟩)
        (.next (l := ⟨.send (some [1, 2]), [⟨.wannaWrite, [], false, 0⟩], 2⟩)
          (.start timedWorld_init) ⟨by decide, rfl, rfl⟩) ⟨by decide, rfl, rfl⟩)
      ⟨by decide, rfl, rfl⟩

end FlinterLinkage
