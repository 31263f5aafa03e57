import Flinter.LinkageEffectProofs

/-! # Who wakes up a linkage with something to write

    `Send` queues silently whenever an action is incomplete or something is
    queued already, and relies on a watcher that somebody else has started.
    The watchers are set by `OnEvent`, `AfterEvent`, `DoConnected` and four
    branches of `Send`.

    Between two callbacks a queue is watched: the write watcher is on, or a
    read or a write is incomplete and the watcher its io asked for is on
    (`queued_bytes_watched`).  A linkage does one action at a time, so an
    incomplete read holds the writing up (`read_holds_writing_up`). -/

namespace FlinterLinkage

open World Runs

variable {h : LinkageHandler}

/-- What a write was answered. -/
def Event.wrote? : Event → Option Status
  | .wrote _ status _ => some status
  | _ => none

/-- What a read was answered. -/
def Event.read? : Event → Option Status
  | .read status => some status
  | _ => none

/-- The last of the answers that `f` finds. -/
def lastOf (f : Event → Option Status) (t : List Event) : Option Status :=
  (t.filterMap f).getLast?

/-- The watcher that an incomplete call asked for is on. -/
def Client.watches (c : Client) : Status → Bool
  | .wannaRead => c.runningR
  | .wannaWrite => c.runningW
  | _ => false

/-- Attached, connected and not shutting down. -/
structure Live (w : World) (c : Client) : Prop where
  client : w.client = some c
  connected : .connected ∈ w.trace
  graceful : w.graceful = false

/-- An incomplete write, and the watcher its io asked for is on. -/
def WriteResumable (w : World) (c : Client) : Prop :=
  w.action = .write ∧
    ∃ status, lastOf Event.wrote? w.trace = some status ∧ c.watches status = true

/-- The same of a read. -/
def ReadResumable (w : World) (c : Client) : Prop :=
  w.action = .read ∧
    ∃ status, lastOf Event.read? w.trace = some status ∧ c.watches status = true

/-- **THE WAITING INVARIANT**, also within a callback. -/
def Waiting (w : World) : Prop :=
  ∀ c, Live w c → w.action = .none ∨ WriteResumable w c ∨ ReadResumable w c

/-- With no action incomplete, a queue is watched. -/
def Rested (w : World) : Prop :=
  ∀ c, Live w c → w.action = .none → w.wbuffer ≠ [] → c.runningW = true

theorem lastOf_some {f : Event → Option Status} {t : List Event} {e : Event}
    {status : Status} (he : f e = some status) :
    lastOf f (t ++ [e]) = some status := by
  rw [lastOf, List.filterMap_append, List.filterMap_cons_some he, List.filterMap_nil]
  exact List.getLast?_concat

theorem lastOf_none {f : Event → Option Status} {t : List Event} {e : Event}
    (he : f e = none) : lastOf f (t ++ [e]) = lastOf f t := by
  rw [lastOf, lastOf, List.filterMap_append, List.filterMap_cons_none he,
    List.filterMap_nil, List.append_nil]

/-- An incomplete call starts the watcher it asked for. -/
theorem asked_watches (c : Client) {status : Status}
    (hinc : status.incomplete = true) : (c.asked status).watches status = true := by
  cases status with
  | wannaRead => rfl
  | wannaWrite => rfl
  | _ => cases hinc

-- ── Effects ──────────────────────────────────────────────────────────────────

/-- Effects that change the watchers only: the linkage was live before. -/
theorem Live.before {w w' : World} {c : Client} (hl : Live w' c)
    {f : Client → Client} (hc : w'.client = w.client.map f)
    (hg : w'.graceful = w.graceful)
    (htrace : w'.trace = w.trace ∨
      ∃ e, e ≠ .connected ∧ w'.trace = w.trace ++ [e]) :
    ∃ c₀, Live w c₀ ∧ c = f c₀ := by
  have hclient := hl.client
  rw [hc] at hclient
  obtain ⟨c₀, hc₀, rfl⟩ := Option.map_eq_some_iff.mp hclient
  refine ⟨c₀, ⟨hc₀, ?_, ?_⟩, rfl⟩
  · have hconn := hl.connected
    rcases htrace with heq | ⟨e, hne, heq⟩
    · rw [heq] at hconn
      exact hconn
    · rw [heq] at hconn
      rcases List.mem_append.mp hconn with hm | hm
      · exact hm
      · exact absurd (List.mem_singleton.mp hm).symm hne
  · rw [← hg]
    exact hl.graceful

theorem Live.same {w w' : World} {c : Client} (hl : Live w' c)
    (hc : w'.client = w.client) (hg : w'.graceful = w.graceful)
    (htrace : w'.trace = w.trace ∨
      ∃ e, e ≠ .connected ∧ w'.trace = w.trace ++ [e]) : Live w c := by
  obtain ⟨c₀, hl₀, heq⟩ := hl.before (f := fun c => c)
    (by rw [hc, Option.map_id']) hg htrace
  rw [heq]
  exact hl₀

/-- An event that is neither a read nor a write, and the action kept or done
    with. -/
theorem Waiting.keep {w w' : World} (hi : Waiting w) (hc : w'.client = w.client)
    (hg : w'.graceful = w.graceful)
    (htrace : w'.trace = w.trace ∨ ∃ e, e ≠ .connected ∧ e.wrote? = none ∧
      e.read? = none ∧ w'.trace = w.trace ++ [e])
    (ha : w'.action = w.action ∨ w'.action = .none) : Waiting w' := by
  intro c hl
  rcases ha with ha | ha
  · have hl₀ : Live w c := hl.same hc hg
      (htrace.imp id fun ⟨e, hne, _, _, heq⟩ => ⟨e, hne, heq⟩)
    have hlast : lastOf Event.wrote? w'.trace = lastOf Event.wrote? w.trace ∧
        lastOf Event.read? w'.trace = lastOf Event.read? w.trace := by
      rcases htrace with heq | ⟨e, _, hw, hr, heq⟩
      · rw [heq]
        exact ⟨rfl, rfl⟩
      · rw [heq]
        exact ⟨lastOf_none hw, lastOf_none hr⟩
    rw [WriteResumable, ReadResumable, ha, hlast.1, hlast.2]
    exact hi c hl₀
  · exact Or.inl ha

theorem Waiting.note {w : World} (hi : Waiting w) {e : Event} (hne : e ≠ .connected)
    (hw : e.wrote? = none) (hr : e.read? = none) : Waiting (w.note e) :=
  hi.keep rfl rfl (Or.inr ⟨e, hne, hw, hr, rfl⟩) (Or.inl rfl)

/-- A linkage that shuts down is not asked about. -/
theorem Waiting.of_graceful {w : World} (hg : w.graceful = true) : Waiting w := by
  intro c hl
  rw [hl.graceful] at hg
  cases hg

/-- A write just answered, and taken up as the action if it is incomplete. -/
theorem waiting_write {w : World} (buffer : Bytes) (status : Status) (retlen : Nat)
    (t : List Event) (htrace : w.trace = t ++ [.wrote buffer status retlen]) :
    Waiting (w.conclude .write status).2.2 := by
  rw [conclude_world]
  intro c hl
  cases hinc : status.incomplete with
  | false => exact Or.inl (by simp)
  | true =>
      obtain ⟨c₀, _, rfl⟩ := hl.before (w := w) rfl rfl (Or.inl rfl)
      refine Or.inr (Or.inl ⟨by simp, status, ?_, asked_watches c₀ hinc⟩)
      show lastOf _ w.trace = some status
      rw [htrace]
      exact lastOf_some rfl

theorem waiting_read {w : World} (status : Status) (t : List Event)
    (htrace : w.trace = t ++ [.read status]) :
    Waiting (w.conclude .read status).2.2 := by
  rw [conclude_world]
  intro c hl
  cases hinc : status.incomplete with
  | false => exact Or.inl (by simp)
  | true =>
      obtain ⟨c₀, _, rfl⟩ := hl.before (w := w) rfl rfl (Or.inl rfl)
      refine Or.inr (Or.inr ⟨by simp, status, ?_, asked_watches c₀ hinc⟩)
      show lastOf _ w.trace = some status
      rw [htrace]
      exact lastOf_some rfl

theorem Waiting.send {w : World} (hi : Waiting w) (buffer : Option Bytes) :
    Waiting (w.send buffer).2 := by
  have hs := send_cases w buffer
  generalize (w.send buffer).1 = ret at hs
  generalize (w.send buffer).2 = w' at hs ⊢
  cases hs with
  | refused => exact hi
  | nothing => exact hi
  | queued => exact hi.keep rfl rfl (Or.inl rfl) (Or.inl rfl)
  | full => exact hi
  | wrote b hb ha => exact fun _ _ => Or.inl ha
  | partly b hb ha => exact fun _ _ => Or.inl ha
  | jammed b hb ha => exact fun _ _ => Or.inl ha
  | lost b hb ha => exact fun _ _ => Or.inl ha
  | wanted b hb ha hempty hg hinc hfit =>
      intro c hl
      obtain ⟨c₀, _, rfl⟩ := hl.before (w := w.ioWrite b) rfl rfl (Or.inl rfl)
      refine Or.inr (Or.inl ⟨rfl, w.answer.status, lastOf_some rfl, ?_⟩)
      cases hst : w.answer.status with
      | wannaRead => rfl
      | wannaWrite => rfl
      | _ => rw [hst] at hinc; cases hinc

theorem onEventShutdown_graceful (w : World) :
    w.onEventShutdown.2.2.graceful = true := by
  cases hc : w.closed with
  | true => rw [onEventShutdown_closed hc]
  | false => rw [onEventShutdown_open hc]

theorem onEventWrite_waiting (w : World) : Waiting (onEventWrite w).2.2 := by
  have hw := onEventWrite_cases w
  generalize (onEventWrite w).2.2 = w' at hw ⊢
  cases hw with
  | idle hempty => exact fun _ _ => Or.inl rfl
  | taken hne hok buffer hbuffer => exact fun _ _ => Or.inl rfl
  | failed hne hst buffer hbuffer => exact waiting_write _ _ _ w.trace rfl

theorem Waiting.effect {w w' : World} (he : Effect w w') (hi : Waiting w) :
    Waiting w' := by
  cases he with
  | send buffer =>
      exact (hi.send buffer).note (fun h0 => (by cases h0)) rfl rfl
  | disconnect finishWrite => exact .of_graceful (disconnect_graceful w finishWrite)
  | receive => exact hi.keep rfl rfl (Or.inl rfl) (Or.inl rfl)
  | deliver message ret hret => exact hi.note (fun h0 => (by cases h0)) rfl rfl
  | hangUp message => exact .of_graceful (onEventShutdown_graceful _)
  | answered => exact hi.keep rfl rfl (Or.inl rfl) (Or.inl rfl)
  | readOk => exact fun _ _ => Or.inl rfl
  | readRest status hstatus => exact waiting_read status w.trace rfl
  | write => exact onEventWrite_waiting _
  | establish => exact fun _ _ => Or.inl rfl
  | handshake status haction hstatus =>
      -- a linkage that is connected has no handshake incomplete
      rw [conclude_world]
      intro c hl
      obtain ⟨c₀, hl₀, _⟩ := hl.before (w := w) rfl rfl (Or.inl rfl)
      rcases hi c₀ hl₀ with ha | ⟨ha, _⟩ | ⟨ha, _⟩ <;>
        rw [ha] at haction <;> rcases haction with h0 | h0 <;> cases h0
  | shutdown hwhy => exact .of_graceful (onEventShutdown_graceful w)
  | rearm =>
      rw [rearm_world]
      by_cases ha : w.action = .none
      · exact fun _ _ => Or.inl ha
      · exact hi.keep (if_neg ha) rfl (Or.inl rfl) (Or.inl rfl)

theorem waiting_invariant : Invariant Waiting where
  opened := by
    intro w hw c hl
    have hconn := hl.connected
    rw [hw.trace] at hconn
    exact absurd hconn List.not_mem_nil
  effect := fun _ _ he hi => hi.effect he
  during := fun _ _ _ hi => hi.keep rfl rfl (Or.inl rfl) (Or.inl rfl)
  released := fun _ _ _ hl => nomatch hl.client

-- ── Between two callbacks ────────────────────────────────────────────────────

theorem Rested.of_graceful {w : World} (hg : w.graceful = true) : Rested w := by
  intro c hl
  rw [hl.graceful] at hg
  cases hg

/-- The end of every event. -/
theorem rearm_rested (w : World) : Rested w.rearm := by
  rw [rearm_world]
  intro c hl ha hne
  have hclient := hl.client
  have ha' : w.action = .none := ha
  have hne' : w.wbuffer ≠ [] := hne
  simp only [ha', if_true] at hclient
  obtain ⟨c₀, _, rfl⟩ := Option.map_eq_some_iff.mp hclient
  simp [hne']

theorem establish_rested (w : World) : Rested (establish w) := by
  intro c hl ha hne
  have hne' : w.wbuffer ≠ [] := hne
  obtain ⟨c₀, _, rfl⟩ := Option.map_eq_some_iff.mp hl.client
  simp [hne']

/-- A `Send` to a rested linkage leaves it rested: what it queues is watched
    already, or it starts the watcher. -/
theorem Rested.sendCall {w : World} (hi : Rested w) (buffer : Option Bytes) :
    Rested (w.sendCall buffer) := by
  have hs := send_cases w buffer
  rw [World.sendCall]
  generalize (w.send buffer).1 = ret at hs ⊢
  generalize (w.send buffer).2 = w' at hs ⊢
  have hnote : Rested w' → Rested (w'.note (.sent buffer ret)) := by
    intro hr c hl ha hne
    have hl₀ : Live w' c := hl.same rfl rfl
      (Or.inr ⟨.sent buffer ret, fun h0 => (by cases h0), rfl⟩)
    exact hr c hl₀ ha hne
  refine hnote ?_
  cases hs with
  | refused => exact hi
  | nothing => exact hi
  | full => exact hi
  | queued b hb hg hbusy hfit =>
      intro c hl ha hne
      have hl₀ : Live w c := hl.same rfl rfl (Or.inl rfl)
      refine hi c hl₀ ha ?_
      rcases hbusy with hbusy | hbusy
      · exact absurd ha hbusy
      · exact hbusy
  | wrote b hb ha hempty => exact fun _ _ _ hne => absurd hempty hne
  | lost b hb ha hempty => exact fun _ _ _ hne => absurd hempty hne
  | partly =>
      intro c hl _ _
      obtain ⟨c₀, _, rfl⟩ := Option.map_eq_some_iff.mp hl.client
      rfl
  | jammed =>
      intro c hl _ _
      obtain ⟨c₀, _, rfl⟩ := Option.map_eq_some_iff.mp hl.client
      rfl
  | wanted => exact fun _ _ ha _ => (by cases ha)

theorem requests_rested (calls : List Request) :
    ∀ w : World, Rested w → Rested (w.requests calls) := by
  induction calls with
  | nil => intro w hi; exact hi
  | cons call calls ih =>
      intro w hi
      refine ih (w.request call) ?_
      cases call with
      | send buffer => exact hi.sendCall buffer
      | disconnect finishWrite => exact .of_graceful (disconnect_graceful w finishWrite)

theorem doRelease_rested (w : World) : Rested (doRelease h w) := by
  refine requests_rested _ _ ?_
  intro c hl
  exact nomatch hl.client

theorem perform_rested (w : World) (op : Op) (hi : Rested w) :
    Rested (perform h w op) := by
  have hevent : ∀ idle, Idle w idle → Rested (workerEvent h w idle) := by
    intro idle hidle
    obtain ⟨w₁, _, heq⟩ := onEvent_rearmed (h := h) w idle hidle
    rw [workerEvent]
    split
    · exact doRelease_rested _
    split
    · exact doRelease_rested _
    · rw [heq]
      exact rearm_rested w₁
  cases op with
  | send buffer => exact hi.sendCall buffer
  | disconnect finishWrite => exact .of_graceful (disconnect_graceful w finishWrite)
  | readable => exact hevent .read (Or.inl rfl)
  | writable => exact hevent .write (Or.inr (Or.inl rfl))
  | healthCheck reply =>
      show Rested (healthCheck h w reply)
      rw [healthCheck]
      split
      · exact doRelease_rested _
      split
      · exact requests_rested _ _ hi
      · exact doRelease_rested _

theorem reachable_rested {w : World} (hr : Reachable (system h) w) : Rested w := by
  refine hr.invariant ?_ ?_
  · rintro w ⟨receiveTimeout, connectTimeout, sendTimeout, idleTimeout, now, io,
      setup, hw⟩
    obtain ⟨w₀, hopened, rfl | rfl | ⟨w₁, _, rfl⟩⟩ := attach_cases hw
    · intro c hl
      have hconn := hl.connected
      rw [hopened.trace] at hconn
      exact absurd hconn List.not_mem_nil
    · exact requests_rested _ _ (establish_rested w₀)
    · exact rearm_rested w₁
  · rintro w s w' _ hi ⟨_, rfl⟩
    refine perform_rested (w.during s.io s.now) s.op ?_
    intro c hl
    exact hi c ⟨hl.client, hl.connected, hl.graceful⟩

/-- **NO LOST WRITE WAKE-UP**: between callbacks, what is queued waits with the
    write watcher on, or behind an incomplete write or read whose io gets the
    watcher it asked for. -/
theorem queued_bytes_watched (h : LinkageHandler) (w : World)
    (hr : Reachable (system h) w) (c : Client) (hl : Live w c)
    (hq : w.wbuffer ≠ []) :
    c.runningW = true ∨ WriteResumable w c ∨ ReadResumable w c := by
  rcases waiting_invariant.reachable hr c hl with ha | hres
  · exact Or.inl (reachable_rested hr c hl ha hq)
  · exact Or.inr hres

/-- A `Send` that the io was jammed for. -/
def jammedWorld : World :=
  perform idleHandler ((openWorld idleHandler).during [⟨.jammed, [], false, 0⟩] 0)
    (.send (some [1]))

/-- The byte is queued and the write watcher is on. -/
theorem queued_bytes_watched_jammed :
    jammedWorld.wbuffer = [1] ∧ ((⟨false, true, true⟩ : Client).runningW = true ∨
      WriteResumable jammedWorld ⟨false, true, true⟩ ∨
      ReadResumable jammedWorld ⟨false, true, true⟩) := by
  have hr : Reachable (system idleHandler) jammedWorld :=
    .next (l := ⟨.send (some [1]), [⟨.jammed, [], false, 0⟩], 0⟩)
      openWorld_reachable ⟨rfl, rfl⟩
  have hl : Live jammedWorld ⟨false, true, true⟩ :=
    ⟨by decide, by decide, by decide⟩
  exact ⟨by decide,
    queued_bytes_watched idleHandler jammedWorld hr ⟨false, true, true⟩ hl (by decide)⟩

/-- A read that the io wants to be resumed, then a `Send`. -/
def heldWorld : World :=
  let w := perform idleHandler
    ((openWorld idleHandler).during [⟨.wannaRead, [], false, 0⟩] 0) .readable
  perform idleHandler (w.during [] 0) (.send (some [1]))

theorem heldWorld_reachable : Reachable (system idleHandler) heldWorld :=
  .next (l := ⟨.send (some [1]), [], 0⟩)
    (.next (l := ⟨.readable, [⟨.wannaRead, [], false, 0⟩], 0⟩)
      openWorld_reachable ⟨rfl, rfl⟩) ⟨rfl, rfl⟩

/-- The byte is queued, the write watcher is off, and the action is not a
    write. -/
theorem read_holds_writing_up :
    Reachable (system idleHandler) heldWorld ∧
    Live heldWorld ⟨true, false, true⟩ ∧ heldWorld.wbuffer = [1] ∧
    ¬ ((⟨true, false, true⟩ : Client).runningW = true ∨
      WriteResumable heldWorld ⟨true, false, true⟩) := by
  refine ⟨heldWorld_reachable, ⟨by decide, by decide, by decide⟩, by decide, ?_⟩
  rintro (hw | ⟨ha, _⟩)
  · cases hw
  · exact absurd ha (by decide)

end FlinterLinkage
