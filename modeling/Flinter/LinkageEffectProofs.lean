import Flinter.LinkageProofs

/-! # What one event can do to a linkage

    Every callback of the worker, and every call a handler makes while it runs,
    is a sequence of a dozen effects.  `Effect` names them with their guards;
    `onEvent_effects` says that an event is a sequence of effects followed by
    the re-arming of the watchers.  An invariant is then proved by one case
    analysis over `Effect`, and no later proof unfolds the event loop. -/

namespace FlinterLinkage

open World Relation

variable {h : LinkageHandler}

-- ── The effects ──────────────────────────────────────────────────────────────

/-- One thing a linkage does.  `hangUp` is a message answered with zero and the
    shutdown that follows it; a shutdown has no other causes than those of
    `shutdown` and `disconnect`. -/
inductive Effect : World → World → Prop where
  | send (w : World) (buffer : Option Bytes) : Effect w (w.sendCall buffer)
  | disconnect (w : World) (finishWrite : Bool) :
      Effect w (w.disconnect finishWrite).2
  | receive (w : World) (rbuffer : Bytes) (rlength : Nat)
      (lastReceived receiveJam : Int) :
      Effect w { w with
        rbuffer := rbuffer
        rlength := rlength
        lastReceived := lastReceived
        receiveJam := receiveJam }
  | deliver (w : World) (message : Bytes) (ret : Int) (hret : ret ≠ 0) :
      Effect w (w.note (.message message ret w.wbuffer))
  | hangUp (w : World) (message : Bytes) :
      Effect w (w.note (.message message 0 w.wbuffer)).onEventShutdown.2.2
  | answered (w : World) : Effect w w.answered
  | readOk (w : World) : Effect w { w.note (.read .ok) with action := .none }
  | readRest (w : World) (status : Status) (hstatus : status ≠ .ok) :
      Effect w ((w.note (.read status)).conclude .read status).2.2
  | write (w : World) : Effect w (onEventWrite w).2.2
  | establish (w : World) : Effect w (establish w)
  | handshake (w : World) (status : Status)
      (haction : w.action = .accept ∨ w.action = .connect) (hstatus : status ≠ .ok) :
      Effect w (w.conclude w.action status).2.2
  | shutdown (w : World)
      (hwhy : w.action = .shutdown ∨ (w.graceful = true ∧ w.wbuffer = [])) :
      Effect w w.onEventShutdown.2.2
  | rearm (w : World) : Effect w w.rearm

/-- Any number of effects. -/
abbrev Effects : World → World → Prop := ReflTransGen Effect

/-- Effects that end with a message answered by zero. -/
def HungUp (w w' : World) : Prop :=
  ∃ w₁ message, Effects w w₁ ∧ w' = w₁.note (.message message 0 w₁.wbuffer)

/-- What a receiving function does, by its result. -/
def Received (w : World) (ret : Int) (w' : World) : Prop :=
  (ret ≠ 0 → Effects w w') ∧ (ret = 0 → HungUp w w')

theorem HungUp.of_effects {w w₁ w' : World} (h₁ : Effects w w₁)
    (h₂ : HungUp w₁ w') : HungUp w w' := by
  obtain ⟨w₂, message, he, heq⟩ := h₂
  exact ⟨w₂, message, h₁.trans he, heq⟩

theorem Received.of_effects {w w₁ w' : World} {ret : Int} (h₁ : Effects w w₁)
    (h₂ : Received w₁ ret w') : Received w ret w' :=
  ⟨fun hr => h₁.trans (h₂.1 hr), fun hr => (h₂.2 hr).of_effects h₁⟩

theorem Received.keep {w w' : World} (he : Effects w w') : Received w 1 w' :=
  ⟨fun _ => he, fun hr => absurd hr (by decide)⟩

theorem Received.fail {w w' : World} (he : Effects w w') :
    Received w (-1) w' :=
  ⟨fun _ => he, fun hr => absurd hr (by decide)⟩

/-- The handler's calls are effects. -/
theorem requests_effects (calls : List Request) :
    ∀ w : World, Effects w (w.requests calls) := by
  induction calls with
  | nil => intro w; exact .refl
  | cons call calls ih =>
      intro w
      have hcall : Effect w (w.request call) := by
        cases call with
        | send buffer => exact .send w buffer
        | disconnect finishWrite => exact .disconnect w finishWrite
      exact .head hcall (ih (w.request call))

/-- Changes to the receiving fields only are one effect. -/
theorem receive_effects {w w' : World} (heq : w' = { w with
      rbuffer := w'.rbuffer
      rlength := w'.rlength
      lastReceived := w'.lastReceived
      receiveJam := w'.receiveJam }) : Effects w w' := by
  rw [heq]
  exact .single (.receive w _ _ _ _)

-- ── Receiving ────────────────────────────────────────────────────────────────

theorem onMessage_received (w : World) (message : Bytes) :
    Received w (onMessage h w message).1 (onMessage h w message).2 := by
  have hcalls := requests_effects (h.onMessage w.delivered message).calls w
  constructor
  · intro hret
    exact hcalls.tail (.deliver _ message _ hret)
  · intro hret
    refine ⟨_, message, hcalls, ?_⟩
    have hret' : (h.onMessage w.delivered message).ret = 0 := hret
    simp only [onMessage, hret']

theorem doReceivedLoop_received :
    ∀ (fuel : Nat) (w : World) (ptr : Bytes) (consumed : Nat),
      Received w (doReceivedLoop h fuel w ptr consumed).1
        (doReceivedLoop h fuel w ptr consumed).2.2 := by
  intro fuel
  induction fuel with
  | zero => intro w ptr consumed; exact .keep .refl
  | succ fuel ih =>
      intro w ptr consumed
      rw [doReceivedLoop]
      extract_lets ret w₁ w₂ r w₃
      split
      · exact .keep .refl
      split
      · exact .fail .refl
      split
      · exact .keep (receive_effects rfl)
      split
      · exact .keep (receive_effects rfl)
      -- a whole message is there: the handler runs, and on a positive answer
      -- the loop goes on behind it
      have hw₂ : Effects w w₂ := receive_effects rfl
      have hm : Received w r.1 w₃ := (onMessage_received w₂ _).of_effects hw₂
      split
      · exact .fail (hm.1 (by omega))
      split
      next hnext => exact ⟨fun h0 => absurd rfl h0, fun _ => hm.2 hnext⟩
      next hnext =>
        exact (ih _ _ _).of_effects ((hm.1 hnext).trans (receive_effects rfl))

theorem doReceived_received (w : World) (buffer : Bytes) :
    Received w (doReceived h w buffer).1 (doReceived h w buffer).2.2 :=
  doReceivedLoop_received _ _ _ _

theorem receiveDirect_received (w : World) (ptr : Bytes) :
    Received w (receiveDirect h w ptr).1 (receiveDirect h w ptr).2 := by
  have hd := doReceived_received (h := h) w ptr
  rw [receiveDirect]
  split
  · exact hd
  next hret =>
    have he := hd.1 (by omega)
    split
    · exact .keep (he.trans (receive_effects rfl))
    · exact .keep he

theorem onReceived_received (w : World) (buffer : Option Bytes) :
    Received w (onReceived h w buffer).1 (onReceived h w buffer).2 := by
  cases buffer with
  | none => exact .fail .refl
  | some ptr =>
      rw [onReceived]
      extract_lets w₁ last w₂ r₂ w₃ w₄ ptr₂ w₅ r₅ w₆
      have hw₁ : Effects w w₁ := receive_effects rfl
      split
      · exact .keep .refl
      split
      · exact .keep hw₁
      split
      · exact (receiveDirect_received w₁ ptr).of_effects hw₁
      split
      · -- the known message is completed first, the rest follows
        have hd : Received w r₂.1 w₃ :=
          (doReceived_received w₂ _).of_effects (receive_effects rfl)
        split
        · exact hd
        next hret =>
          have he : Effects w w₄ := (hd.1 (by omega)).trans (receive_effects rfl)
          split
          · exact (receiveDirect_received _ _).of_effects he
          · exact .keep he
      · have hd : Received w r₅.1 w₆ :=
          (doReceived_received w₅ _).of_effects (receive_effects rfl)
        split
        · exact hd
        next hret => exact .keep ((hd.1 (by omega)).trans (receive_effects rfl))

-- ── What each call does, branch by branch ────────────────────────────────────

/-- The watchers after `AfterEvent`. -/
def Client.asked (c : Client) : Status → Client
  | .wannaRead => { c with runningR := true, runningW := false }
  | .wannaWrite => { c with runningR := false, runningW := true }
  | _ => c

theorem conclude_world (w : World) (action : Action) (status : Status) :
    (w.conclude action status).2.2 = { w with
      action := if status.incomplete then action else .none
      client := w.client.map fun c => c.asked status } := by
  cases status with
  | wannaRead => rfl
  | wannaWrite => rfl
  | ok => simp [conclude, afterEvent, Client.asked]
  | bug => simp [conclude, afterEvent, Client.asked]
  | error => simp [conclude, afterEvent, Client.asked]
  | jammed => simp [conclude, afterEvent, Client.asked]
  | closed => simp [conclude, afterEvent, Client.asked]

theorem rearm_world (w : World) : w.rearm = { w with
    client := if w.action = .none then
      w.client.map fun c =>
        { c with runningR := true, runningW := !w.wbuffer.isEmpty }
      else w.client } := by
  rw [rearm]
  split <;> rfl

theorem announce_world (w : World) (finishWrite : Bool) :
    w.announce finishWrite = { w with
      graceful := true
      wbuffer := if finishWrite then w.wbuffer else []
      trace := w.trace ++ [.disconnect finishWrite w.action w.wbuffer] } := by
  cases finishWrite <;> rfl

/-- A shutdown of a closed linkage does not reach the io. -/
theorem onEventShutdown_closed {w : World} (hc : w.closed = true) :
    w.onEventShutdown.2.2 = { w with
      graceful := true
      action := .none
      client := w.client.map fun c => { c with runningR := true } } := by
  simp [onEventShutdown, shutdown, hc, setWannaRead]

/-- A shutdown that reaches the io. -/
theorem onEventShutdown_open {w : World} (hc : w.closed = false) :
    w.onEventShutdown.2.2 = { w with
      graceful := true
      closed := w.answer.status == .ok || w.answer.status == .closed
      connectJam := if w.connectJam = 0 then w.now else w.connectJam
      io := w.io.tail
      trace := w.trace ++ [.shutdown w.wbuffer]
      action := if w.answer.status.incomplete then .shutdown else .none
      client := w.client.map fun c =>
        if w.answer.status.incomplete then c.asked w.answer.status
        else { c with runningR := true } } := by
  obtain ⟨status, hstatus⟩ : ∃ s, (w.io.head?.getD Answer.exhausted).status = s :=
    ⟨_, rfl⟩
  cases status <;>
    simp [onEventShutdown, shutdown, hc, answer, hstatus, updateConnectJam,
      answered, note, conclude_world, setWannaRead, Status.incomplete]

/-- Every way a `Send` can end, with its guard.  A direct write happens with
    no action incomplete and nothing queued. -/
inductive Sent (w : World) : Option Bytes → Bool → World → Prop where
  | refused (buffer : Option Bytes)
      (hwhy : buffer = none ∨ (∃ b, buffer = some b ∧ intMax < b.length) ∨
        w.worker = false ∨ w.graceful = true) : Sent w buffer false w
  | nothing : Sent w (some []) true w
  | queued (b : Bytes) (hb : b ≠ []) (hg : w.graceful = false)
      (hbusy : w.action ≠ .none ∨ w.wbuffer ≠ [])
      (hfit : b.length ≤ kMaximumBytes - w.wbuffer.length) :
      Sent w (some b) true { w with wbuffer := w.wbuffer ++ b }
  | full (b : Bytes) (hbusy : w.action ≠ .none ∨ w.wbuffer ≠ [])
      (hfull : kMaximumBytes - w.wbuffer.length < b.length) :
      Sent w (some b) false w
  | wrote (b : Bytes) (hb : b ≠ []) (ha : w.action = .none)
      (hempty : w.wbuffer = []) (hg : w.graceful = false)
      (hok : w.answer.status = .ok) (hall : w.retlen b = b.length) :
      Sent w (some b) true ((w.ioWrite b).updateLastSent true false)
  | partly (b : Bytes) (hb : b ≠ []) (ha : w.action = .none)
      (hempty : w.wbuffer = []) (hg : w.graceful = false)
      (hok : w.answer.status = .ok) (hsome : w.retlen b < b.length)
      (hfit : (b.drop (w.retlen b)).length ≤ kMaximumBytes) :
      Sent w (some b) true
        ((({ w.ioWrite b with wbuffer := w.wbuffer ++ b.drop (w.retlen b) } :
          World).setWannaWrite true).updateLastSent true true)
  | jammed (b : Bytes) (hb : b ≠ []) (ha : w.action = .none)
      (hempty : w.wbuffer = []) (hg : w.graceful = false)
      (hjam : w.answer.status = .jammed) (hfit : b.length ≤ kMaximumBytes) :
      Sent w (some b) true
        ((({ w.ioWrite b with wbuffer := w.wbuffer ++ b } :
          World).setWanna false true).updateLastSent false true)
  | wanted (b : Bytes) (hb : b ≠ []) (ha : w.action = .none)
      (hempty : w.wbuffer = []) (hg : w.graceful = false)
      (hinc : w.answer.status.incomplete = true) (hfit : b.length ≤ kMaximumBytes) :
      Sent w (some b) true
        (({ w.ioWrite b with wbuffer := w.wbuffer ++ b } : World).awaitWrite
          (w.answer.status == .wannaRead) (w.answer.status == .wannaWrite) b.length)
  | lost (b : Bytes) (hb : b ≠ []) (ha : w.action = .none)
      (hempty : w.wbuffer = []) (hg : w.graceful = false)
      (hwhy : w.answer.status ∈ [Status.bug, .error, .closed] ∨
        kMaximumBytes < b.length) :
      Sent w (some b) false (w.ioWrite b)

/-- Bytes that could not be written are queued whole or not at all. -/
theorem queue_cases (w : World) (b : Bytes) (queued : World → World) :
    (b.length ≤ kMaximumBytes - w.wbuffer.length ∧
      w.queue b queued = (true, queued { w with wbuffer := w.wbuffer ++ b })) ∨
    (kMaximumBytes - w.wbuffer.length < b.length ∧ w.queue b queued = (false, w)) := by
  rw [queue, appendSendingBuffer]
  rcases Nat.lt_or_ge (kMaximumBytes - w.wbuffer.length) b.length with hfull | hfit
  · exact Or.inr ⟨hfull, by rw [if_pos hfull]⟩
  · exact Or.inl ⟨hfit, by rw [if_neg (Nat.not_lt.mpr hfit)]⟩

/-- **SEND** ends in one of these ways. -/
theorem send_cases (w : World) (buffer : Option Bytes) :
    Sent w buffer (w.send buffer).1 (w.send buffer).2 := by
  cases buffer with
  | none => exact .refused none (Or.inl rfl)
  | some b =>
      rw [send]
      extract_lets status retlen w₁
      split
      next hwhy =>
        refine .refused (some b) (Or.inr ?_)
        rcases hwhy with hlong | hworker | hg
        · exact Or.inl ⟨b, rfl, hlong⟩
        · exact Or.inr (Or.inl (Bool.eq_false_iff.mpr hworker))
        · exact Or.inr (Or.inr hg)
      next hwhy =>
      have hg : w.graceful = false :=
        Bool.eq_false_iff.mpr fun hg => hwhy (Or.inr (Or.inr hg))
      split
      next hnil =>
        rw [List.length_eq_zero_iff.mp hnil]
        exact .nothing
      next hnil =>
      have hb : b ≠ [] := fun hb => hnil (List.length_eq_zero_iff.mpr hb)
      split
      next hbusy =>
        rcases queue_cases w b id with ⟨hfit, heq⟩ | ⟨hfull, heq⟩ <;> rw [heq]
        · exact .queued b hb hg hbusy hfit
        · exact .full b hbusy hfull
      next hbusy =>
      -- a direct write: one case for each answer of the io
      obtain ⟨ha, hempty⟩ : w.action = .none ∧ w.wbuffer = [] := by
        simpa using hbusy
      have hroom : kMaximumBytes - w₁.wbuffer.length = kMaximumBytes := by
        rw [show w₁.wbuffer = [] from hempty]; rfl
      have hst' : w.answer.status = status := rfl
      cases hst : status with
      | ok =>
          dsimp only
          split
          next hsome =>
            rcases queue_cases w₁ (b.drop retlen) _ with ⟨hfit, heq⟩ | ⟨hfull, heq⟩ <;>
              rw [heq] <;> rw [hroom] at *
            · exact .partly b hb ha hempty hg hst hsome hfit
            · refine .lost b hb ha hempty hg (Or.inr ?_)
              rw [List.length_drop] at hfull
              omega
          next hall =>
            exact .wrote b hb ha hempty hg hst
              (Nat.le_antisymm (Nat.min_le_right _ _) (Nat.not_lt.mp hall))
      | bug => exact .lost b hb ha hempty hg (Or.inl (by simp [hst', hst]))
      | error => exact .lost b hb ha hempty hg (Or.inl (by simp [hst', hst]))
      | closed => exact .lost b hb ha hempty hg (Or.inl (by simp [hst', hst]))
      | jammed =>
          dsimp only
          rcases queue_cases w₁ b _ with ⟨hfit, heq⟩ | ⟨hfull, heq⟩ <;>
            rw [heq] <;> rw [hroom] at *
          · exact .jammed b hb ha hempty hg hst hfit
          · exact .lost b hb ha hempty hg (Or.inr hfull)
      | wannaRead =>
          dsimp only
          rcases queue_cases w₁ b _ with ⟨hfit, heq⟩ | ⟨hfull, heq⟩ <;>
            rw [heq] <;> rw [hroom] at *
          · have hw := Sent.wanted b hb ha hempty hg (by rw [hst', hst]; rfl) hfit
            rw [hst', hst] at hw
            exact hw
          · exact .lost b hb ha hempty hg (Or.inr hfull)
      | wannaWrite =>
          dsimp only
          rcases queue_cases w₁ b _ with ⟨hfit, heq⟩ | ⟨hfull, heq⟩ <;>
            rw [heq] <;> rw [hroom] at *
          · have hw := Sent.wanted b hb ha hempty hg (by rw [hst', hst]; rfl) hfit
            rw [hst', hst] at hw
            exact hw
          · exact .lost b hb ha hempty hg (Or.inr hfull)

/-- How many bytes `PickSendingBuffer` offers: the length of an incomplete
    write, else all there is. -/
def World.picked (w : World) : Nat :=
  if w.lastWriting ≠ 0 then w.lastWriting else w.wbuffer.length

theorem pickSendingBuffer_world {w : World} (hne : w.wbuffer ≠ []) :
    w.pickSendingBuffer = (w.picked, { w with lastWriting := 0 }) := by
  rw [pickSendingBuffer, picked, if_neg hne]
  split
  · rfl
  next hlast =>
    have hlast' : w.lastWriting = 0 := Decidable.not_not.mp hlast
    show (w.wbuffer.length, w) = _
    rw [← hlast']

theorem picked_pos {w : World} (hne : w.wbuffer ≠ []) : 0 < w.picked := by
  rw [picked]
  split
  · omega
  · exact List.length_pos_iff.mpr hne

/-- Every way the writing branch can end.  `buffer` is what it offers. -/
inductive Written (w : World) : World → Prop where
  | idle (hempty : w.wbuffer = []) : Written w { w with action := .none }
  | taken (hne : w.wbuffer ≠ []) (hok : w.answer.status = .ok) (buffer : Bytes)
      (hbuffer : buffer = w.wbuffer.take w.picked) :
      Written w
        ((({ ({ w with lastWriting := 0 } : World).ioWrite buffer with
            action := .none } : World).updateLastSent true
          (decide (w.retlen buffer < w.picked))).consumeSendingBuffer
            (w.retlen buffer))
  | failed (hne : w.wbuffer ≠ []) (hst : w.answer.status ≠ .ok) (buffer : Bytes)
      (hbuffer : buffer = w.wbuffer.take w.picked) :
      Written w
        ((({ ({ w with lastWriting := 0 } : World).ioWrite buffer with
            lastWriting := if w.answer.status.incomplete then w.picked else 0 } :
          World).updateLastSent false true).conclude .write w.answer.status).2.2

theorem onEventWrite_cases (w : World) : Written w (onEventWrite w).2.2 := by
  rw [onEventWrite]
  extract_lets buffer status retlen w₂ w₃ w₄ w₅
  by_cases hempty : w.wbuffer = []
  · have hpick : w.pickSendingBuffer = (0, w) := if_pos hempty
    simp only [hpick, ne_eq, not_true_eq_false, if_false]
    split <;> exact .idle hempty
  · have hpick := pickSendingBuffer_world hempty
    have hpos := picked_pos hempty
    have hbuffer : buffer = w.wbuffer.take w.picked := by
      simp only [buffer, hpick]
    have hst : status = w.answer.status := by
      simp only [status, hpick, answer]
    have hret : retlen = w.retlen buffer := by
      simp only [retlen, hpick, World.retlen, answer]
    have hw₂ : w₂ = ({ w with lastWriting := 0 } : World).ioWrite buffer := by
      simp only [w₂, hpick]
    simp only [w₃, w₅, w₄, hpick, hst, hret, hw₂]
    rw [if_pos (by omega)]
    split
    next hok =>
      have hw := Written.taken hempty hok buffer hbuffer
      split
      next hlt => simpa [hlt] using hw
      next hge =>
        have hall : w.retlen buffer = w.picked := by
          refine Nat.le_antisymm (Nat.le_trans (Nat.min_le_right _ _) ?_)
            (Nat.not_lt.mp hge)
          rw [hbuffer, List.length_take]
          exact Nat.min_le_left _ _
        simpa [hall] using hw
    next hok => exact .failed hempty hok buffer hbuffer

-- ── The answers of the io are used up in order ───────────────────────────────

theorem answered_io (w : World) : w.answered.io <:+ w.io := List.tail_suffix w.io

theorem send_io (w : World) (buffer : Option Bytes) :
    (w.send buffer).2.io <:+ w.io := by
  have hs := send_cases w buffer
  generalize (w.send buffer).1 = ret at hs
  generalize (w.send buffer).2 = w' at hs ⊢
  cases hs with
  | refused => exact List.suffix_rfl
  | nothing => exact List.suffix_rfl
  | queued => exact List.suffix_rfl
  | full => exact List.suffix_rfl
  | wrote => exact answered_io w
  | partly => exact answered_io w
  | jammed => exact answered_io w
  | wanted => exact answered_io w
  | lost => exact answered_io w

theorem onEventShutdown_io (w : World) :
    w.onEventShutdown.2.2.io <:+ w.io := by
  cases hc : w.closed with
  | true => rewrite [onEventShutdown_closed hc]; exact List.suffix_rfl
  | false => rw [onEventShutdown_open hc]; exact answered_io w

theorem disconnect_io (w : World) (finishWrite : Bool) :
    (w.disconnect finishWrite).2.io <:+ w.io := by
  have hw : (w.announce finishWrite).io = w.io := by rw [announce_world]
  rw [disconnect, ← hw]
  split
  · exact List.suffix_rfl
  · rw [rearm_world]; exact onEventShutdown_io _

theorem onEventWrite_io (w : World) : (onEventWrite w).2.2.io <:+ w.io := by
  have hw := onEventWrite_cases w
  generalize (onEventWrite w).2.2 = w' at hw
  cases hw with
  | idle => exact List.suffix_rfl
  | taken => exact answered_io w
  | failed => rw [conclude_world]; exact answered_io w

/-- An effect uses up answers from the front only. -/
theorem Effect.io_suffix {w w' : World} (he : Effect w w') : w'.io <:+ w.io := by
  cases he with
  | send buffer => exact send_io w buffer
  | disconnect finishWrite => exact disconnect_io w finishWrite
  | receive => exact List.suffix_rfl
  | deliver => exact List.suffix_rfl
  | hangUp message => exact onEventShutdown_io _
  | answered => exact answered_io w
  | readOk => exact List.suffix_rfl
  | readRest => rewrite [conclude_world]; exact List.suffix_rfl
  | write => exact onEventWrite_io w
  | establish => exact List.suffix_rfl
  | handshake => rewrite [conclude_world]; exact List.suffix_rfl
  | shutdown => exact onEventShutdown_io w
  | rearm => rewrite [rearm_world]; exact List.suffix_rfl

theorem Effects.io_suffix {w w' : World} (he : Effects w w') :
    w'.io <:+ w.io :=
  Runs.invariant_of_star (I := fun x => x.io <:+ w.io)
    (fun _ _ hs hi => hs.io_suffix.trans hi) he List.suffix_rfl

theorem disconnect_graceful (w : World) (finishWrite : Bool) :
    (w.disconnect finishWrite).2.graceful = true := by
  have ha : (w.announce finishWrite).graceful = true := by rw [announce_world]
  rw [disconnect]
  split
  · exact ha
  · rw [rearm_world]
    cases hc : (w.announce finishWrite).closed with
    | true => rw [onEventShutdown_closed hc]
    | false => rw [onEventShutdown_open hc]

-- ── One round of the event loop ──────────────────────────────────────────────

/-- What a round of the loop does, by the next action it names. -/
structure Round (w : World) (next : Action) (w' : World) : Prop where
  named : next = .none ∨ next = .shutdown ∨
    (next = .read ∧ w'.io.length < w.io.length)
  stays : next ≠ .shutdown → Effects w w'
  leaves : next = .shutdown →
    HungUp w w' ∨ (Effects w w' ∧ w'.graceful = true ∧ w'.wbuffer = [])

/-- A round that names no next action. -/
theorem Round.last {w w' : World} (he : Effects w w') : Round w .none w' where
  named := Or.inl rfl
  stays := fun _ => he
  leaves := fun hs => (by cases hs)

/-- An answer that is not the default one is used up for good. -/
theorem answered_shorter {w : World} (hok : w.answer.status = .ok) :
    w.answered.io.length < w.io.length := by
  cases hio : w.io with
  | nil => simp [answer, hio, Answer.exhausted] at hok
  | cons a rest => simp [answered, hio]

theorem onEventRead_round (w : World) :
    Round w (onEventRead h w).2.1 (onEventRead h w).2.2 := by
  rw [onEventRead]
  extract_lets w₂ r
  have ha : Effects w w.answered := .single (.answered w)
  split
  next hok =>
    have hw₂ : Effects w w₂ := by
      have hw₂' : w₂ = { w.answered.note (.read .ok) with action := .none } := by
        simp only [w₂, hok]
      rw [hw₂']
      exact ha.tail (.readOk w.answered)
    have hr : Received w r.1 r.2 := (onReceived_received w₂ _).of_effects hw₂
    split
    next hzero =>
      exact ⟨Or.inr (Or.inl rfl), fun hs => absurd rfl hs,
        fun _ => Or.inl (hr.2 hzero)⟩
    next hzero =>
      have he : Effects w r.2 := hr.1 hzero
      split
      · cases hmore : w.answer.more with
        | false => exact .last he
        | true =>
            refine ⟨Or.inr (Or.inr ⟨rfl, ?_⟩), fun _ => he, fun hs => (by cases hs)⟩
            have hle : r.2.io.length ≤ w.answered.io.length :=
              ((onReceived_received (h := h) w₂ (some (w.answer.bytes.take readBufferSize))).1
                hzero).io_suffix.length_le
            exact Nat.lt_of_le_of_lt hle (answered_shorter hok)
      · exact .last he
  next hok =>
    exact .last (ha.tail (.readRest w.answered w.answer.status hok))

/-- The writing branch leaves for the shutdown only when all is written. -/
theorem onEventWrite_next (w : World) :
    (onEventWrite w).2.1 = .none ∨
      ((onEventWrite w).2.1 = .shutdown ∧ (onEventWrite w).2.2.graceful = true ∧
        (onEventWrite w).2.2.wbuffer = []) := by
  rw [onEventWrite]
  extract_lets buffer status retlen w₂ w₃ w₄ w₅
  by_cases hempty : w.wbuffer = []
  · have hpick : w.pickSendingBuffer = (0, w) := if_pos hempty
    simp only [hpick, ne_eq, not_true_eq_false, if_false]
    split
    next hg => exact Or.inr ⟨rfl, hg, hempty⟩
    · exact Or.inl rfl
  · have hpos := picked_pos hempty
    rw [if_pos (by rw [pickSendingBuffer_world hempty]; omega)]
    refine Or.inl ?_
    split
    · split <;> rfl
    · rfl

theorem onEventWrite_round (w : World) :
    Round w (onEventWrite w).2.1 (onEventWrite w).2.2 := by
  have he : Effects w (onEventWrite w).2.2 := .single (.write w)
  rcases onEventWrite_next w with hn | ⟨hn, hg, hb⟩
  · rw [hn]
    exact .last he
  · exact ⟨Or.inr (Or.inl hn), fun _ => he, fun _ => Or.inr ⟨he, hg, hb⟩⟩

theorem doConnected_effects (w : World) : Effects w (doConnected h w).2 :=
  .head (.establish w) (requests_effects _ _)

theorem onEventHandshake_round (w : World)
    (haction : w.action = .accept ∨ w.action = .connect) :
    Round w (onEventHandshake h w w.action).2.1
      (onEventHandshake h w w.action).2.2 := by
  have ha : Effects w w.answered := .single (.answered w)
  rw [onEventHandshake]
  split
  · exact .last (ha.trans (doConnected_effects w.answered))
  next hstatus =>
    exact .last (ha.tail (.handshake w.answered _ haction hstatus))

theorem onEventShutdown_next (w : World) : w.onEventShutdown.2.1 = .none := by
  rw [onEventShutdown]
  split <;> rfl

-- ── The event loop ───────────────────────────────────────────────────────────

/-- Actions the loop may be entered with: a read, a write, or the one that is
    incomplete. -/
def Entered (w : World) (action : Action) : Prop :=
  action = .read ∨ action = .write ∨ (w.action = action ∧ action ≠ .none)

theorem onEventOnce_round (w : World) (action : Action) (ha : Entered w action) :
    Round w (onEventOnce h w action).2.1 (onEventOnce h w action).2.2 := by
  cases action with
  | none =>
      rcases ha with ha | ha | ⟨_, ha⟩
      · cases ha
      · cases ha
      · exact absurd rfl ha
  | read => exact onEventRead_round w
  | write => exact onEventWrite_round w
  | accept =>
      rcases ha with ha | ha | ⟨ha, _⟩
      · cases ha
      · cases ha
      · have hround := onEventHandshake_round (h := h) w (Or.inl ha)
        rw [ha] at hround
        exact hround
  | connect =>
      rcases ha with ha | ha | ⟨ha, _⟩
      · cases ha
      · cases ha
      · have hround := onEventHandshake_round (h := h) w (Or.inr ha)
        rw [ha] at hround
        exact hround
  | shutdown =>
      rcases ha with ha | ha | ⟨ha, _⟩
      · cases ha
      · cases ha
      · show Round w w.onEventShutdown.2.1 w.onEventShutdown.2.2
        rw [onEventShutdown_next]
        exact .last (.single (.shutdown w (Or.inl ha)))

/-- **AN EVENT IS A SEQUENCE OF EFFECTS.**  By induction on the fuel: a round
    that reads again has one answer fewer, and a round that names the shutdown
    is followed by the last one. -/
theorem onEventLoop_effects :
    ∀ (fuel : Nat) (w : World) (action : Action), Entered w action →
      w.io.length + 2 ≤ fuel → Effects w (onEventLoop h fuel w action).2 := by
  intro fuel
  induction fuel with
  | zero => intro w action _ hfuel; omega
  | succ fuel ih =>
      intro w action ha hfuel
      have hround := onEventOnce_round (h := h) w action ha
      rw [onEventLoop]
      generalize onEventOnce h w action = r at hround ⊢
      split
      next hnone =>
        exact hround.stays (by rw [hnone]; decide)
      next hnone =>
        rcases hround.named with hn | hn | ⟨hn, hlt⟩
        · exact absurd hn hnone
        · -- the shutdown that follows a zero answer or the last write
          have hlast : (onEventLoop h fuel r.2.2 r.2.1).2
              = r.2.2.onEventShutdown.2.2 := by
            obtain ⟨fuel', rfl⟩ : ∃ f, fuel = f + 1 := ⟨fuel - 1, by omega⟩
            show (onEventLoop h (fuel' + 1) r.2.2 r.2.1).2 = _
            rw [show r.2.1 = Action.shutdown from hn, onEventLoop]
            exact congrArg Prod.snd (if_pos (onEventShutdown_next r.2.2))
          rw [hlast]
          rcases hround.leaves hn with hh | ⟨he, hg, hb⟩
          · obtain ⟨w₁, message, he, heq⟩ := hh
            rw [show r.2.2 = w₁.note (.message message 0 w₁.wbuffer) from heq]
            exact he.tail (.hangUp w₁ message)
          · exact he.tail (.shutdown r.2.2 (Or.inr ⟨hg, hb⟩))
        · have he : Effects w r.2.2 := hround.stays (by rw [hn]; decide)
          have hlt' : r.2.2.io.length < w.io.length := hlt
          exact he.trans (ih _ _ (Or.inl hn) (by omega))

/-- Events come with something to do. -/
def Idle (w : World) (idleAction : Action) : Prop :=
  idleAction = .read ∨ idleAction = .write ∨ w.action ≠ .none

theorem Idle.entered {w : World} {idleAction : Action} (hidle : Idle w idleAction) :
    Entered w (if w.action = .none then idleAction else w.action) := by
  split
  next hnone =>
    rcases hidle with hr | hw | ha
    · exact Or.inl hr
    · exact Or.inr (Or.inl hw)
    · exact absurd hnone ha
  next hsome => exact Or.inr (Or.inr ⟨rfl, hsome⟩)

/-- An event: effects, then the watchers are re-armed. -/
theorem onEvent_rearmed (w : World) (idleAction : Action)
    (hidle : Idle w idleAction) :
    ∃ w₁, Effects w w₁ ∧ (onEvent h w idleAction).2 = w₁.rearm :=
  ⟨_, onEventLoop_effects (w.io.length + 2) w _ hidle.entered (Nat.le_refl _), rfl⟩

theorem onEvent_effects (w : World) (idleAction : Action)
    (hidle : Idle w idleAction) : Effects w (onEvent h w idleAction).2 := by
  obtain ⟨w₁, he, heq⟩ := onEvent_rearmed (h := h) w idleAction hidle
  rw [heq]
  exact he.tail (.rearm w₁)

/-- `Disconnect` runs the event loop on the shutdown, as the source writes it. -/
theorem disconnect_eq_onEvent (w : World) (finishWrite : Bool)
    (haction : w.action = .none) :
    w.disconnect finishWrite = onEvent h (w.announce finishWrite) .shutdown := by
  have ha : (w.announce finishWrite).action = .none := by
    rw [announce_world]; exact haction
  have hloop : onEventLoop h ((w.announce finishWrite).io.length + 1 + 1)
      (w.announce finishWrite) .shutdown
        = ((w.announce finishWrite).onEventShutdown.1,
          (w.announce finishWrite).onEventShutdown.2.2) := by
    rw [onEventLoop]
    exact if_pos (onEventShutdown_next _)
  rw [disconnect, onEvent, if_pos ha, if_neg (Decidable.not_not.mpr ha), hloop]

-- ── Runs ─────────────────────────────────────────────────────────────────────

/-- A linkage that its worker has just taken. -/
structure Opened (w : World) : Prop where
  rbuffer : w.rbuffer = []
  wbuffer : w.wbuffer = []
  lastWriting : w.lastWriting = 0
  action : w.action = .none ∨ w.action = .accept ∨ w.action = .connect
  worker : w.worker = true
  rlength : w.rlength = 0
  graceful : w.graceful = false
  closed : w.closed = false
  client : w.client.isSome = true
  trace : w.trace = []

/-- A successful `Attach` opens the linkage, then waits for a handshake, is
    connected, or runs its first event. -/
theorem attach_cases {receiveTimeout connectTimeout sendTimeout idleTimeout : Int}
    {now : Int} {io : List Answer} {setup : Setup} {w : World}
    (hw : attach h ((World.fresh receiveTimeout connectTimeout sendTimeout
      idleTimeout now).during io now) setup = (true, w)) :
    ∃ w₀, Opened w₀ ∧ (w = w₀ ∨ w = (doConnected h w₀).2 ∨
      ∃ w₁, Effects w₀ w₁ ∧ w = w₁.rearm) := by
  rw [attach, if_neg (by exact Bool.false_ne_true)] at hw
  split at hw
  · cases congrArg Prod.fst hw
  next hok =>
  have hopen := setup.opening
  split at hw
  next hidle =>
    extract_lets r at hw
    split at hw
    · obtain rfl := congrArg Prod.snd hw
      exact ⟨_, ⟨rfl, rfl, rfl, Or.inl rfl, rfl, rfl, rfl, rfl, rfl, rfl⟩,
        Or.inr (Or.inl rfl)⟩
    · cases congrArg Prod.fst hw
  next hidle =>
  extract_lets w₁ r at hw
  split at hw
  next hfirst =>
    obtain rfl := congrArg Prod.snd hw
    have hnext : setup.nextAction = .accept ∨ setup.nextAction = .connect := by
      have hmem := hopen setup.nextAction (by simp)
      simp [Setup.connecting, hfirst] at hidle
      simpa [hidle] using hmem
    exact ⟨_, ⟨rfl, rfl, rfl, Or.inr hnext, rfl, rfl, rfl, rfl, rfl, rfl⟩,
      Or.inl rfl⟩
  next hfirst =>
    have haction : setup.action = .accept ∨ setup.action = .connect := by
      have hmem := hopen setup.action (by simp)
      simpa [hfirst] using hmem
    split at hw
    · cases congrArg Prod.fst hw
    · obtain rfl := congrArg Prod.snd hw
      refine ⟨{ w₁ with action := setup.action },
        ⟨rfl, rfl, rfl, Or.inr haction, rfl, rfl, rfl, rfl, rfl, rfl⟩, ?_⟩
      exact Or.inr (Or.inr (onEvent_rearmed _ _ (Or.inr (Or.inr hfirst))))

theorem attach_effects {receiveTimeout connectTimeout sendTimeout idleTimeout : Int}
    {now : Int} {io : List Answer} {setup : Setup} {w : World}
    (hw : attach h ((World.fresh receiveTimeout connectTimeout sendTimeout
      idleTimeout now).during io now) setup = (true, w)) :
    ∃ w₀, Opened w₀ ∧ Effects w₀ w := by
  obtain ⟨w₀, hopened, rfl | rfl | ⟨w₁, he, rfl⟩⟩ := attach_cases hw
  · exact ⟨w, hopened, .refl⟩
  · exact ⟨w₀, hopened, doConnected_effects w₀⟩
  · exact ⟨w₀, hopened, he.tail (.rearm w₁)⟩

/-- What a callback of the worker does: effects, or effects, the end of the
    linkage and the handler's last calls. -/
def Performed (w w' : World) : Prop :=
  Effects w w' ∨ ∃ w₁, Effects w w₁ ∧ Effects { w₁ with client := none } w'

theorem Performed.release {w w₁ : World} (he : Effects w w₁) :
    Performed w (doRelease h w₁) :=
  Or.inr ⟨w₁, he, requests_effects _ _⟩

theorem workerEvent_performed (w : World) (idleAction : Action)
    (hidle : Idle w idleAction) : Performed w (workerEvent h w idleAction) := by
  have he := onEvent_effects (h := h) w idleAction hidle
  rw [workerEvent]
  split
  · exact .release (he.trans (requests_effects _ _))
  split
  · exact .release he
  · exact Or.inl he

theorem healthCheck_performed (w : World) (reply : Reply Bool) :
    Performed w (healthCheck h w reply) := by
  rw [healthCheck]
  split
  · exact .release .refl
  split
  · exact Or.inl (requests_effects _ _)
  · exact .release (requests_effects _ _)

theorem perform_performed (w : World) (op : Op) : Performed w (perform h w op) := by
  cases op with
  | send buffer => exact Or.inl (.single (.send w buffer))
  | disconnect finishWrite => exact Or.inl (.single (.disconnect w finishWrite))
  | readable => exact workerEvent_performed w .read (Or.inl rfl)
  | writable => exact workerEvent_performed w .write (Or.inr (Or.inl rfl))
  | healthCheck reply => exact healthCheck_performed w reply

/-- A property of linkages that holds from the start, survives every effect,
    and does not look at the clock, the answers to come or the worker. -/
structure Invariant (I : World → Prop) : Prop where
  opened : ∀ w, Opened w → I w
  effect : ∀ w w', Effect w w' → I w → I w'
  during : ∀ w io now, I w → I (w.during io now)
  released : ∀ w, I w → I { w with client := none }

/-- **THE INVARIANT RULE** for linkages. -/
theorem Invariant.reachable {I : World → Prop} (hI : Invariant I) {w : World}
    (hr : Runs.Reachable (system h) w) : I w := by
  have hstar : ∀ {w w' : World}, Effects w w' → I w → I w' := fun he hi =>
    Runs.invariant_of_star hI.effect he hi
  refine hr.invariant ?_ ?_
  · rintro w ⟨receiveTimeout, connectTimeout, sendTimeout, idleTimeout, now, io,
      setup, hw⟩
    obtain ⟨w₀, hopened, he⟩ := attach_effects hw
    exact hstar he (hI.opened w₀ hopened)
  · rintro w s w' _ hi ⟨_, rfl⟩
    have hi' := hI.during w s.io s.now hi
    rcases perform_performed (h := h) (w.during s.io s.now) s.op with he | ⟨w₁, he, he'⟩
    · exact hstar he hi'
    · exact hstar he' (hI.released w₁ (hstar he hi'))

-- ── A linkage to start from ──────────────────────────────────────────────────

/-- A handler that does nothing. -/
def idleHandler : LinkageHandler where
  getMessageLength := fun _ => 0
  onMessage := fun _ _ => ⟨[], 1⟩
  onConnected := ⟨[], true⟩
  onError := []
  onDisconnected := []

/-- An io that needs no handshake. -/
def plainSetup : Setup :=
  ⟨true, .none, .none, false, false, Or.inl rfl, by decide⟩

/-- A linkage attached over that io. -/
def openWorld (h : LinkageHandler) : World :=
  (attach h ((World.fresh 0 0 0 0 0).during [] 0) plainSetup).2

theorem openWorld_reachable : Runs.Reachable (system idleHandler)
    (openWorld idleHandler) :=
  .start ⟨0, 0, 0, 0, 0, [], plainSetup, rfl⟩

end FlinterLinkage
