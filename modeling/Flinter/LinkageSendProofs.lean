import Flinter.LinkageEffectProofs

/-! # What is sent is what is written

    Bytes given to `Send` reach the io at once or through `_wbuffer`, whole or
    in parts, and an incomplete write is resumed with its old length.  The
    invariant `Stream` says that nothing is lost, doubled or reordered on
    either way: what the io took, followed by the queue, is what was given. -/

namespace FlinterLinkage

open World

variable {h : LinkageHandler}

/-- The bytes the io took. -/
def accepted (trace : List Event) : Bytes :=
  trace.flatMap fun
    | .wrote buffer .ok retlen => buffer.take retlen
    | _ => []

/-- The bytes `Send` was given. -/
def given (trace : List Event) : Bytes :=
  trace.flatMap fun
    | .sent (some buffer) _ => buffer
    | _ => []

/-- Not a refused `Send`, and not a `Disconnect` that drops the queue. -/
def Event.harmless : Event → Bool
  | .sent _ ret => ret
  | .disconnect finishWrite _ _ => finishWrite
  | _ => true

theorem accepted_append (t t' : List Event) :
    accepted (t ++ t') = accepted t ++ accepted t' := List.flatMap_append

theorem given_append (t t' : List Event) :
    given (t ++ t') = given t ++ given t' := List.flatMap_append

/-- **THE STREAM INVARIANT.**  `resumed` keeps the write of an incomplete
    action inside the queue: only `Disconnect(false)` empties it under one. -/
structure Stream (w : World) : Prop where
  bounded : w.wbuffer.length ≤ kMaximumBytes
  resumed : w.lastWriting ≤ w.wbuffer.length ∨
    (w.wbuffer = [] ∧ w.graceful = true)
  conserved : (∀ e ∈ w.trace, e.harmless = true) →
    accepted w.trace ++ w.wbuffer = given w.trace

-- ── Effects that do not touch the queue ──────────────────────────────────────

/-- An event that moves no bytes. -/
def Event.still : Event → Bool
  | .wrote _ _ _ => false
  | .sent _ _ => false
  | _ => true

theorem accepted_still {e : Event} (he : e.still = true) : accepted [e] = [] := by
  cases e with
  | wrote => cases he
  | _ => rfl

theorem given_still {e : Event} (he : e.still = true) : given [e] = [] := by
  cases e with
  | sent => cases he
  | _ => rfl

/-- The queue as it was, and no bytes moved. -/
theorem Stream.keep {w w' : World} (hi : Stream w) (hb : w'.wbuffer = w.wbuffer)
    (hl : w'.lastWriting = w.lastWriting)
    (hg : w.graceful = true → w'.graceful = true)
    (htrace : w'.trace = w.trace ∨ ∃ e, e.still = true ∧ w'.trace = w.trace ++ [e]) :
    Stream w' where
  bounded := by rw [hb]; exact hi.bounded
  resumed := by
    rw [hb, hl]
    rcases hi.resumed with hle | ⟨hnil, hgr⟩
    · exact Or.inl hle
    · exact Or.inr ⟨hnil, hg hgr⟩
  conserved := by
    intro hharm
    rw [hb]
    rcases htrace with heq | ⟨e, he, heq⟩
    · rw [heq] at hharm ⊢
      exact hi.conserved hharm
    · rw [heq] at hharm ⊢
      rw [accepted_append, given_append, accepted_still he, given_still he,
        List.append_nil, List.append_nil]
      exact hi.conserved fun e' he' => hharm e' (List.mem_append_left _ he')

theorem Stream.note {w : World} (hi : Stream w) {e : Event} (he : e.still = true) :
    Stream (w.note e) :=
  hi.keep rfl rfl id (Or.inr ⟨e, he, rfl⟩)

theorem Stream.rearm {w : World} (hi : Stream w) : Stream w.rearm := by
  rw [rearm_world]
  exact hi.keep rfl rfl id (Or.inl rfl)

theorem Stream.conclude {w : World} (hi : Stream w) (action : Action)
    (status : Status) : Stream (w.conclude action status).2.2 := by
  rw [conclude_world]
  exact hi.keep rfl rfl id (Or.inl rfl)

theorem Stream.onEventShutdown {w : World} (hi : Stream w) :
    Stream w.onEventShutdown.2.2 := by
  cases hc : w.closed with
  | true =>
      rw [onEventShutdown_closed hc]
      exact hi.keep rfl rfl (fun _ => rfl) (Or.inl rfl)
  | false =>
      rw [onEventShutdown_open hc]
      exact hi.keep rfl rfl (fun _ => rfl) (Or.inr ⟨.shutdown w.wbuffer, rfl, rfl⟩)

-- ── Effects that do ──────────────────────────────────────────────────────────

theorem Stream.announce {w : World} (hi : Stream w) (finishWrite : Bool) :
    Stream (w.announce finishWrite) := by
  rw [announce_world]
  cases finishWrite with
  | true => exact hi.keep rfl rfl (fun _ => rfl) (Or.inr ⟨_, rfl, rfl⟩)
  | false =>
      refine ⟨Nat.zero_le _, Or.inr ⟨rfl, rfl⟩, fun hharm => ?_⟩
      have hbad := hharm (.disconnect false w.action w.wbuffer)
        (List.mem_append_right _ (List.mem_singleton.mpr rfl))
      cases hbad

theorem Stream.disconnect {w : World} (hi : Stream w) (finishWrite : Bool) :
    Stream (w.disconnect finishWrite).2 := by
  rw [World.disconnect]
  split
  · exact hi.announce finishWrite
  · exact (hi.announce finishWrite).onEventShutdown.rearm

/-- A `Send` that returned true put its bytes behind those before it, some in
    the io and the rest in the queue. -/
theorem Stream.sent {w w' : World} (hi : Stream w) {b : Bytes} {t : List Event}
    (hbound : w'.wbuffer.length ≤ kMaximumBytes)
    (hlast : w'.lastWriting ≤ w'.wbuffer.length ∨
      (w'.wbuffer = [] ∧ w'.graceful = true))
    (htrace : w'.trace = w.trace ++ t) (hgiven : given t = [])
    (hbytes : accepted t ++ w'.wbuffer = w.wbuffer ++ b) :
    Stream (w'.note (.sent (some b) true)) where
  bounded := hbound
  resumed := hlast
  conserved := by
    intro hharm
    have hold : ∀ e ∈ w.trace, e.harmless = true := by
      intro e he
      refine hharm e (List.mem_append_left _ ?_)
      rw [htrace]
      exact List.mem_append_left _ he
    calc accepted (w'.trace ++ [.sent (some b) true]) ++ w'.wbuffer
        = accepted w.trace ++ (accepted t ++ w'.wbuffer) := by
          rw [accepted_append, htrace, accepted_append,
            show accepted [.sent (some b) true] = [] from rfl, List.append_nil,
            List.append_assoc]
      _ = given w.trace ++ b := by
          rw [hbytes, ← List.append_assoc, hi.conserved hold]
      _ = given (w'.trace ++ [.sent (some b) true]) := by
          rw [given_append, htrace, given_append, hgiven, List.append_nil,
            show given [.sent (some b) true] = b from List.append_nil b]

/-- After a `Send` that returned false nothing is promised of the bytes. -/
theorem Stream.unsent {w w' : World} (hi : Stream w) (buffer : Option Bytes)
    (hb : w'.wbuffer = w.wbuffer) (hl : w'.lastWriting = w.lastWriting)
    (hg : w'.graceful = w.graceful) : Stream (w'.note (.sent buffer false)) where
  bounded := by
    show w'.wbuffer.length ≤ _
    rw [hb]
    exact hi.bounded
  resumed := by
    show w'.lastWriting ≤ w'.wbuffer.length ∨ (w'.wbuffer = [] ∧ w'.graceful = true)
    rw [hb, hl, hg]
    exact hi.resumed
  conserved := by
    intro hharm
    have hbad := hharm (.sent buffer false)
      (List.mem_append_right _ (List.mem_singleton.mpr rfl))
    cases hbad

/-- One case for each way a `Send` can end. -/
theorem Stream.sendCall {w : World} (hi : Stream w) (buffer : Option Bytes) :
    Stream (w.sendCall buffer) := by
  have hs := send_cases w buffer
  rw [World.sendCall]
  generalize (w.send buffer).1 = ret at hs ⊢
  generalize (w.send buffer).2 = w' at hs ⊢
  -- with an empty queue nothing is left to be resumed
  have hfirst : w.wbuffer = [] → w.graceful = false → w.lastWriting = 0 := by
    intro hempty hg
    rcases hi.resumed with hle | ⟨_, hgr⟩
    · rw [hempty] at hle
      exact Nat.le_zero.mp hle
    · rw [hg] at hgr
      cases hgr
  cases hs with
  | refused _ hwhy => exact hi.unsent buffer rfl rfl rfl
  | nothing =>
      exact hi.sent hi.bounded hi.resumed (List.append_nil _).symm rfl
        (List.append_nil _).symm
  | queued b hb hg hbusy hfit =>
      have hbound := hi.bounded
      refine hi.sent ?_ (Or.inl ?_) (List.append_nil _).symm rfl rfl
      · show (w.wbuffer ++ b).length ≤ _
        rw [List.length_append]
        omega
      · show w.lastWriting ≤ (w.wbuffer ++ b).length
        rw [List.length_append]
        rcases hi.resumed with hle | ⟨_, hgr⟩
        · omega
        · rw [hg] at hgr
          cases hgr
  | full b hbusy hfull => exact hi.unsent _ rfl rfl rfl
  | wrote b hb ha hempty hg hok hall =>
      refine hi.sent hi.bounded hi.resumed rfl rfl ?_
      show accepted [.wrote b w.answer.status (w.retlen b)] ++ w.wbuffer = _
      rw [hok, hall, hempty]
      simp [accepted]
  | partly b hb ha hempty hg hok hsome hfit =>
      refine hi.sent ?_ (Or.inl ?_) rfl rfl ?_
      · show (w.wbuffer ++ b.drop (w.retlen b)).length ≤ _
        rw [hempty]
        exact hfit
      · show w.lastWriting ≤ _
        rw [hfirst hempty hg]
        exact Nat.zero_le _
      · show accepted [.wrote b w.answer.status (w.retlen b)] ++
          (w.wbuffer ++ b.drop (w.retlen b)) = _
        rw [hok, hempty]
        simp [accepted]
  | jammed b hb ha hempty hg hjam hfit =>
      refine hi.sent ?_ (Or.inl ?_) rfl rfl ?_
      · show (w.wbuffer ++ b).length ≤ _
        rw [hempty]
        exact hfit
      · show w.lastWriting ≤ _
        rw [hfirst hempty hg]
        exact Nat.zero_le _
      · show accepted [.wrote b w.answer.status (w.retlen b)] ++ (w.wbuffer ++ b) = _
        rw [hjam]
        rfl
  | wanted b hb ha hempty hg hinc hfit =>
      refine hi.sent ?_ (Or.inl ?_) rfl rfl ?_
      · show (w.wbuffer ++ b).length ≤ _
        rw [hempty]
        exact hfit
      · show b.length ≤ (w.wbuffer ++ b).length
        rw [List.length_append]
        omega
      · show accepted [.wrote b w.answer.status (w.retlen b)] ++ (w.wbuffer ++ b) = _
        cases hst : w.answer.status with
        | ok => rw [hst] at hinc; cases hinc
        | _ => rfl
  | lost b hb ha hempty hg hwhy => exact hi.unsent _ rfl rfl rfl

/-- The io is never offered more than the queue holds. -/
theorem Stream.picked_le {w : World} (hi : Stream w) (hne : w.wbuffer ≠ []) :
    w.picked ≤ w.wbuffer.length := by
  rw [picked]
  split
  · rcases hi.resumed with hle | ⟨hempty, _⟩
    · exact hle
    · exact absurd hempty hne
  · exact Nat.le_refl _

/-- The writing branch moves what the io took from the queue to the wire. -/
theorem Stream.written {w : World} (hi : Stream w) :
    Stream (onEventWrite w).2.2 := by
  have hw := onEventWrite_cases w
  generalize (onEventWrite w).2.2 = w' at hw ⊢
  have hold : ∀ e, (∀ e' ∈ w.trace ++ [e], e'.harmless = true) →
      ∀ e' ∈ w.trace, e'.harmless = true := fun e hharm e' he' =>
    hharm e' (List.mem_append_left _ he')
  cases hw with
  | idle hempty => exact hi.keep rfl rfl id (Or.inl rfl)
  | taken hne hok buffer hbuffer =>
      obtain ⟨n, hn⟩ : ∃ n, w.retlen buffer = n := ⟨_, rfl⟩
      have htake : buffer.take n = w.wbuffer.take n := by
        have hle : n ≤ buffer.length := hn ▸ Nat.min_le_right _ _
        rw [hbuffer] at hle ⊢
        rw [List.length_take] at hle
        rw [List.take_take, Nat.min_eq_left (by omega)]
      refine ⟨?_, Or.inl (Nat.zero_le _), ?_⟩
      · show (w.wbuffer.drop (w.retlen buffer)).length ≤ _
        rw [List.length_drop]
        exact Nat.le_trans (Nat.sub_le _ _) hi.bounded
      · intro hharm
        show accepted (w.trace ++ [.wrote buffer w.answer.status (w.retlen buffer)])
          ++ w.wbuffer.drop (w.retlen buffer) = given (w.trace ++ [_])
        have hmoved : accepted [.wrote buffer .ok n] = w.wbuffer.take n := by
          rw [← htake]
          exact List.append_nil _
        rw [hn, hok, accepted_append, hmoved, List.append_assoc,
          List.take_append_drop, given_append, hi.conserved (hold _ hharm)]
        exact (List.append_nil _).symm
  | failed hne hst buffer hbuffer =>
      apply Stream.conclude
      refine ⟨hi.bounded, Or.inl ?_, ?_⟩
      · show (if w.answer.status.incomplete then w.picked else 0) ≤ w.wbuffer.length
        split
        · exact hi.picked_le hne
        · exact Nat.zero_le _
      · intro hharm
        show accepted (w.trace ++ [.wrote buffer w.answer.status (w.retlen buffer)])
          ++ w.wbuffer = given (w.trace ++ [_])
        have hnone : accepted [.wrote buffer w.answer.status (w.retlen buffer)] = [] := by
          cases hs : w.answer.status with
          | ok => exact absurd hs hst
          | _ => rfl
        rw [accepted_append, hnone, List.append_nil, given_append,
          hi.conserved (hold _ hharm)]
        exact (List.append_nil _).symm

-- ── Every run ────────────────────────────────────────────────────────────────

theorem Stream.effect {w w' : World} (he : Effect w w') (hi : Stream w) :
    Stream w' := by
  cases he with
  | send buffer => exact hi.sendCall buffer
  | disconnect finishWrite => exact hi.disconnect finishWrite
  | receive => exact hi.keep rfl rfl id (Or.inl rfl)
  | deliver message ret hret => exact hi.note rfl
  | hangUp message => exact (hi.note rfl).onEventShutdown
  | answered => exact hi.keep rfl rfl id (Or.inl rfl)
  | readOk => exact hi.keep rfl rfl id (Or.inr ⟨.read .ok, rfl, rfl⟩)
  | readRest status hstatus => exact (hi.note rfl).conclude .read status
  | write => exact hi.written
  | establish => exact hi.keep rfl rfl id (Or.inr ⟨.connected, rfl, rfl⟩)
  | handshake status haction hstatus => exact hi.conclude w.action status
  | shutdown hwhy => exact hi.onEventShutdown
  | rearm => exact hi.rearm

theorem stream_invariant : Invariant Stream where
  opened := by
    intro w hw
    refine ⟨?_, Or.inl ?_, fun _ => ?_⟩
    · rw [hw.wbuffer]; exact Nat.zero_le _
    · rw [hw.lastWriting]; exact Nat.zero_le _
    · rw [hw.trace, hw.wbuffer]; rfl
  effect := fun _ _ he hi => hi.effect he
  during := fun _ _ _ hi => hi.keep rfl rfl id (Or.inl rfl)
  released := fun _ hi => hi.keep rfl rfl id (Or.inl rfl)

/-- **SENT BYTES ARE NEITHER LOST, DUPLICATED NOR REORDERED**: in every run,
    what the io took and then the queue is what `Send` was given, as long as no
    `Send` returned false and no `Disconnect` dropped the queue; and the queue
    never holds more than 64 MiB. -/
theorem sent_bytes_conserved (h : LinkageHandler) (w : World)
    (hr : Runs.Reachable (system h) w) :
    ((∀ e ∈ w.trace, e.harmless = true) →
      accepted w.trace ++ w.wbuffer = given w.trace) ∧
    w.wbuffer.length ≤ kMaximumBytes :=
  have hi := stream_invariant.reachable hr
  ⟨hi.conserved, hi.bounded⟩

/-- Three bytes sent, two of them taken at once. -/
theorem sent_bytes_conserved_partly :
    let w := perform idleHandler
      ((openWorld idleHandler).during [⟨.ok, [], false, 2⟩] 0) (.send (some [1, 2, 3]))
    w.wbuffer = [3] ∧ accepted w.trace ++ w.wbuffer = given w.trace := by
  intro w
  have hr : Runs.Reachable (system idleHandler) w :=
    .next (l := ⟨.send (some [1, 2, 3]), [⟨.ok, [], false, 2⟩], 0⟩)
      openWorld_reachable ⟨rfl, rfl⟩
  exact ⟨by decide, (sent_bytes_conserved idleHandler w hr).1 (by decide)⟩

end FlinterLinkage
