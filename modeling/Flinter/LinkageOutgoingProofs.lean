import Flinter.LinkageSendProofs

/-! # The messages a linkage took

    A `Send` that returned true took its message, and one that returned false
    left nothing on the wire as long as no message is larger than the queue may
    grow: the io may take a part of a message only if the rest fits.  So what
    the io took is always a front of the messages taken, and with the queue all
    of them, unless a `Disconnect` dropped some of the queue. -/

namespace FlinterLinkage

open World

variable {h : LinkageHandler}

/-- The messages that `Send` took, the empty ones left out. -/
def sentMessages (trace : List Event) : List Bytes :=
  trace.filterMap fun
    | .sent (some buffer) true => if buffer = [] then none else some buffer
    | _ => none

/-- Not a `Send` of more than the queue can ever hold. -/
def Event.fits : Event → Bool
  | .sent (some buffer) _ => buffer.length ≤ kMaximumBytes
  | _ => true

/-- A `Disconnect` that drops bytes of the queue. -/
def Event.dumps : Event → Bool
  | .disconnect false _ pending => !pending.isEmpty
  | _ => false

theorem sentMessages_append (t t' : List Event) :
    sentMessages (t ++ t') = sentMessages t ++ sentMessages t' := List.filterMap_append

theorem sentMessages_ne_nil {trace : List Event} {m : Bytes}
    (hm : m ∈ sentMessages trace) : m ≠ [] := by
  obtain ⟨e, -, he⟩ := List.mem_filterMap.mp hm
  split at he
  · split at he
    · cases he
    next hne => exact Option.some.inj he ▸ hne
  · cases he

theorem sentMessages_still {e : Event} (he : e.still = true) : sentMessages [e] = [] := by
  cases e with
  | sent => cases he
  | _ => rfl

theorem sentMessages_taken (b : Bytes) :
    (sentMessages [.sent (some b) true]).flatten = b := by
  by_cases hb : b = []
  · rw [hb]
    rfl
  · have hone : sentMessages [.sent (some b) true] = [b] :=
      List.filterMap_cons_some (if_neg hb)
    rw [hone, List.flatten_singleton]

/-- Some of the queue was dropped, and nothing is sent any more. -/
structure Dumped (w : World) : Prop where
  dumped : ∃ e ∈ w.trace, e.dumps = true
  graceful : w.graceful = true
  wbuffer : w.wbuffer = []
  front : accepted w.trace <+: (sentMessages w.trace).flatten

/-- **THE OUTGOING INVARIANT**: what the io took and then the queue is the
    messages taken, or the queue was dropped. -/
def Outgoing (w : World) : Prop :=
  (∀ e ∈ w.trace, e.fits = true) →
    accepted w.trace ++ w.wbuffer = (sentMessages w.trace).flatten ∨ Dumped w

/-- In either case the io took a front of the messages. -/
theorem Outgoing.front {w : World} (hi : Outgoing w)
    (hfits : ∀ e ∈ w.trace, e.fits = true) :
    accepted w.trace <+: (sentMessages w.trace).flatten := by
  rcases hi hfits with heq | hd
  · rw [← heq]
    exact List.prefix_append _ _
  · exact hd.front

-- ── Effects that do not touch the queue ──────────────────────────────────────

/-- The queue as it was, and nothing taken or written. -/
theorem Outgoing.steady {w w' : World} (hi : Outgoing w) (hb : w'.wbuffer = w.wbuffer)
    (hg : w.graceful = true → w'.graceful = true) {t : List Event}
    (htrace : w'.trace = w.trace ++ t) (hsent : sentMessages t = [])
    (hacc : (∀ e ∈ t, e.fits = true) → accepted t = []) : Outgoing w' := by
  intro hfits
  rw [htrace] at hfits
  have hnone := hacc fun e he => hfits e (List.mem_append_right _ he)
  rw [htrace, accepted_append, hnone, List.append_nil, sentMessages_append, hsent,
    List.append_nil, hb]
  refine (hi fun e he => hfits e (List.mem_append_left _ he)).imp id fun hd => ?_
  obtain ⟨e, he, hdump⟩ := hd.dumped
  refine ⟨⟨e, ?_, hdump⟩, hg hd.graceful, hb.trans hd.wbuffer, ?_⟩
  · rw [htrace]
    exact List.mem_append_left _ he
  · rw [htrace, accepted_append, hnone, List.append_nil, sentMessages_append, hsent,
      List.append_nil]
    exact hd.front

/-- An event that moves no bytes, if any. -/
theorem Outgoing.keep {w w' : World} (hi : Outgoing w) (hb : w'.wbuffer = w.wbuffer)
    (hg : w.graceful = true → w'.graceful = true)
    (htrace : w'.trace = w.trace ∨ ∃ e, e.still = true ∧ w'.trace = w.trace ++ [e]) :
    Outgoing w' := by
  rcases htrace with heq | ⟨e, he, heq⟩
  · exact hi.steady hb hg (t := []) (by rw [heq, List.append_nil]) rfl fun _ => rfl
  · exact hi.steady hb hg heq (sentMessages_still he) fun _ => accepted_still he

theorem Outgoing.note {w : World} (hi : Outgoing w) {e : Event} (he : e.still = true) :
    Outgoing (w.note e) :=
  hi.keep rfl id (Or.inr ⟨e, he, rfl⟩)

theorem Outgoing.conclude {w : World} (hi : Outgoing w) (action : Action)
    (status : Status) : Outgoing (w.conclude action status).2.2 := by
  rw [conclude_world]
  exact hi.keep rfl id (Or.inl rfl)

theorem Outgoing.rearm {w : World} (hi : Outgoing w) : Outgoing w.rearm := by
  rw [rearm_world]
  exact hi.keep rfl id (Or.inl rfl)

theorem Outgoing.onEventShutdown {w : World} (hi : Outgoing w) :
    Outgoing w.onEventShutdown.2.2 := by
  cases hc : w.closed with
  | true =>
      rw [onEventShutdown_closed hc]
      exact hi.keep rfl (fun _ => rfl) (Or.inl rfl)
  | false =>
      rw [onEventShutdown_open hc]
      exact hi.keep rfl (fun _ => rfl) (Or.inr ⟨.shutdown w.wbuffer, rfl, rfl⟩)

-- ── Effects that do ──────────────────────────────────────────────────────────

theorem Outgoing.announce {w : World} (hi : Outgoing w) (finishWrite : Bool) :
    Outgoing (w.announce finishWrite) := by
  rw [announce_world]
  cases finishWrite with
  | true => exact hi.keep rfl (fun _ => rfl) (Or.inr ⟨_, rfl, rfl⟩)
  | false =>
      by_cases hempty : w.wbuffer = []
      · exact hi.keep hempty.symm (fun _ => rfl) (Or.inr ⟨_, rfl, rfl⟩)
      intro hfits
      refine Or.inr ⟨⟨.disconnect false w.action w.wbuffer,
        List.mem_append_right _ (List.mem_singleton.mpr rfl), ?_⟩, rfl, rfl, ?_⟩
      · show (!w.wbuffer.isEmpty) = true
        rw [List.isEmpty_eq_false_iff.mpr hempty]
        rfl
      · show accepted (w.trace ++ [.disconnect false w.action w.wbuffer]) <+:
          (sentMessages (w.trace ++ [.disconnect false w.action w.wbuffer])).flatten
        rw [accepted_append, sentMessages_append]
        show accepted w.trace ++ [] <+: (sentMessages w.trace ++ []).flatten
        rw [List.append_nil, List.append_nil]
        exact hi.front fun e he => hfits e (List.mem_append_left _ he)

theorem Outgoing.disconnect {w : World} (hi : Outgoing w) (finishWrite : Bool) :
    Outgoing (w.disconnect finishWrite).2 := by
  rw [World.disconnect]
  split
  · exact hi.announce finishWrite
  · exact (hi.announce finishWrite).onEventShutdown.rearm

/-- A message that was taken is behind those before it, some of it in the io
    and the rest in the queue. -/
theorem Outgoing.sent {w w' : World} (hi : Outgoing w) {b : Bytes} {t : List Event}
    (hg : w.graceful = false) (htrace : w'.trace = w.trace ++ t)
    (hsent : sentMessages t = []) (hbytes : accepted t ++ w'.wbuffer = w.wbuffer ++ b) :
    Outgoing (w'.note (.sent (some b) true)) := by
  intro hfits
  have hold : ∀ e ∈ w.trace, e.fits = true := by
    intro e he
    refine hfits e (List.mem_append_left _ ?_)
    rw [htrace]
    exact List.mem_append_left _ he
  rcases hi hold with heq | hd
  · refine Or.inl ?_
    calc accepted (w'.trace ++ [.sent (some b) true]) ++ w'.wbuffer
        = accepted w.trace ++ (accepted t ++ w'.wbuffer) := by
          rw [accepted_append, htrace, accepted_append,
            show accepted [.sent (some b) true] = [] from rfl, List.append_nil,
            List.append_assoc]
      _ = (sentMessages w.trace).flatten ++ b := by
          rw [hbytes, ← List.append_assoc, heq]
      _ = (sentMessages (w'.trace ++ [.sent (some b) true])).flatten := by
          rw [sentMessages_append, htrace, sentMessages_append, hsent, List.append_nil,
            List.flatten_append, sentMessages_taken]
  · have hgr := hd.graceful
    rw [hg] at hgr
    cases hgr

/-- A message that was refused, with nothing of it in the io. -/
theorem Outgoing.unsent {w w' : World} (hi : Outgoing w) (buffer : Option Bytes)
    {t : List Event} (hb : w'.wbuffer = w.wbuffer) (hg : w'.graceful = w.graceful)
    (htrace : w'.trace = w.trace ++ t) (hsent : sentMessages t = [])
    (hacc : (∀ b, buffer = some b → b.length ≤ kMaximumBytes) → accepted t = []) :
    Outgoing (w'.note (.sent buffer false)) := by
  have hlast : sentMessages [.sent buffer false] = [] := by
    cases buffer <;> rfl
  refine hi.steady hb (fun hgr => hg.trans hgr) (t := t ++ [.sent buffer false]) ?_ ?_
    fun hfits => ?_
  · rw [← List.append_assoc, ← htrace]
    rfl
  · rw [sentMessages_append, hsent, hlast, List.append_nil]
  · rw [accepted_append, hacc, List.nil_append]
    · rfl
    · rintro b rfl
      exact of_decide_eq_true (hfits (.sent (some b) false)
        (List.mem_append_right _ (List.mem_singleton.mpr rfl)))

/-- A write that was not answered with success took nothing. -/
theorem accepted_failed (b : Bytes) {status : Status} (hs : status ≠ .ok) (n : Nat) :
    accepted [.wrote b status n] = [] := by
  cases status with
  | ok => exact absurd rfl hs
  | _ => rfl

/-- One case for each way a `Send` can end. -/
theorem Outgoing.sendCall {w : World} (hi : Outgoing w) (buffer : Option Bytes) :
    Outgoing (w.sendCall buffer) := by
  have hs := send_cases w buffer
  rw [World.sendCall]
  generalize (w.send buffer).1 = ret at hs ⊢
  generalize (w.send buffer).2 = w' at hs ⊢
  cases hs with
  | refused _ hwhy =>
      exact hi.unsent buffer (t := []) rfl rfl (List.append_nil _).symm rfl fun _ => rfl
  | nothing => exact hi.steady rfl id (t := [.sent (some []) true]) rfl rfl fun _ => rfl
  | queued b hb hg hbusy hfit =>
      exact hi.sent hg (List.append_nil _).symm rfl rfl
  | full b hbusy hfull =>
      exact hi.unsent _ (t := []) rfl rfl (List.append_nil _).symm rfl fun _ => rfl
  | wrote b hb ha hempty hg hok hall =>
      refine hi.sent hg rfl rfl ?_
      show accepted [.wrote b w.answer.status (w.retlen b)] ++ w.wbuffer = _
      rw [hok, hall, hempty]
      simp [accepted]
  | partly b hb ha hempty hg hok hsome hfit =>
      refine hi.sent hg rfl rfl ?_
      show accepted [.wrote b w.answer.status (w.retlen b)] ++
        (w.wbuffer ++ b.drop (w.retlen b)) = _
      rw [hok, hempty]
      simp [accepted]
  | jammed b hb ha hempty hg hjam hfit =>
      refine hi.sent hg rfl rfl ?_
      show accepted [.wrote b w.answer.status (w.retlen b)] ++ (w.wbuffer ++ b) = _
      rw [accepted_failed b (by rw [hjam]; decide), List.nil_append]
  | wanted b hb ha hempty hg hinc hfit =>
      refine hi.sent hg rfl rfl ?_
      show accepted [.wrote b w.answer.status (w.retlen b)] ++ (w.wbuffer ++ b) = _
      have hst : w.answer.status ≠ .ok := fun hok => by rw [hok] at hinc; cases hinc
      rw [accepted_failed b hst, List.nil_append]
  | lost b hb ha hempty hg hwhy =>
      refine hi.unsent _ rfl rfl (t := [.wrote b w.answer.status (w.retlen b)]) rfl rfl ?_
      intro hfits
      refine accepted_failed b (fun hok => ?_) _
      rcases hwhy with hbad | hbig
      · rw [hok] at hbad
        simp at hbad
      · exact absurd (hfits b rfl) (Nat.not_le.mpr hbig)

/-- The writing branch moves what the io took from the queue to the wire. -/
theorem Outgoing.written {w : World} (hi : Outgoing w) :
    Outgoing (onEventWrite w).2.2 := by
  have hw := onEventWrite_cases w
  generalize (onEventWrite w).2.2 = w' at hw ⊢
  cases hw with
  | idle hempty => exact hi.keep rfl id (Or.inl rfl)
  | taken hne hok buffer hbuffer =>
      obtain ⟨n, hn⟩ : ∃ n, w.retlen buffer = n := ⟨_, rfl⟩
      have htake : buffer.take n = w.wbuffer.take n := by
        have hle : n ≤ buffer.length := hn ▸ Nat.min_le_right _ _
        rw [hbuffer] at hle ⊢
        rw [List.length_take] at hle
        rw [List.take_take, Nat.min_eq_left (by omega)]
      have hmoved : accepted [.wrote buffer .ok n] = w.wbuffer.take n := by
        rw [← htake]
        exact List.append_nil _
      intro hfits
      refine (hi fun e he => hfits e (List.mem_append_left _ he)).imp (fun heq => ?_)
        fun hd => absurd hd.wbuffer hne
      show accepted (w.trace ++ [.wrote buffer w.answer.status (w.retlen buffer)])
        ++ w.wbuffer.drop (w.retlen buffer) = (sentMessages (w.trace ++ [_])).flatten
      rw [hn, hok, accepted_append, hmoved, List.append_assoc, List.take_append_drop, heq,
        sentMessages_append]
      exact congrArg List.flatten (List.append_nil _).symm
  | failed hne hst buffer hbuffer =>
      apply Outgoing.conclude
      intro hfits
      refine (hi fun e he => hfits e (List.mem_append_left _ he)).imp (fun heq => ?_)
        fun hd => absurd hd.wbuffer hne
      show accepted (w.trace ++ [.wrote buffer w.answer.status (w.retlen buffer)])
        ++ w.wbuffer = (sentMessages (w.trace ++ [_])).flatten
      rw [accepted_append, accepted_failed buffer hst, List.append_nil, heq,
        sentMessages_append]
      exact congrArg List.flatten (List.append_nil _).symm

-- ── Every run ────────────────────────────────────────────────────────────────

theorem Outgoing.effect {w w' : World} (he : Effect w w') (hi : Outgoing w) :
    Outgoing w' := by
  cases he with
  | send buffer => exact hi.sendCall buffer
  | disconnect finishWrite => exact hi.disconnect finishWrite
  | receive => exact hi.keep rfl id (Or.inl rfl)
  | deliver message ret hret => exact hi.note rfl
  | hangUp message => exact (hi.note rfl).onEventShutdown
  | answered => exact hi.keep rfl id (Or.inl rfl)
  | readOk => exact hi.keep rfl id (Or.inr ⟨.read .ok, rfl, rfl⟩)
  | readRest status hstatus => exact (hi.note rfl).conclude .read status
  | write => exact hi.written
  | establish => exact hi.keep rfl id (Or.inr ⟨.connected, rfl, rfl⟩)
  | handshake status haction hstatus => exact hi.conclude w.action status
  | shutdown hwhy => exact hi.onEventShutdown
  | rearm => exact hi.rearm

theorem outgoing_invariant : Invariant Outgoing where
  opened := by
    intro w hw _
    refine Or.inl ?_
    rw [hw.trace, hw.wbuffer]
    rfl
  effect := fun _ _ he hi => hi.effect he
  during := fun _ _ _ hi => hi.keep rfl id (Or.inl rfl)
  released := fun _ hi => hi.keep rfl id (Or.inl rfl)

end FlinterLinkage
