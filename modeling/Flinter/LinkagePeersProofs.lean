import Flinter.LinkageRetryProofs
import Flinter.LinkageOutgoingProofs
import Flinter.LinkageArrivalProofs

/-! # Two linkages and the connection between them

    A connection joins two linkages, each with its own handler.  What the io of
    one end took and the other end has not read yet is in flight; the io is a
    reliable stream, so reading takes from the front of what is in flight, and
    any call may instead block, fail or find the connection closed.

    Each step is `Attach` or one operation at one end, so a run is any
    interleaving of the two programs.  In every run the messages delivered at
    one end are a front of the messages sent at the other; with nothing queued
    and nothing in flight they are all of them (`delivered_in_order`). -/

namespace FlinterLinkage

open World Framing Runs Relation

-- ── The connection ───────────────────────────────────────────────────────────

/-- The two ends. -/
inductive Side where
  | near
  | far
deriving DecidableEq, Repr

/-- The peer. -/
def Side.other : Side → Side
  | .near => .far
  | .far => .near

theorem Side.other_other (s : Side) : s.other.other = s := by
  cases s <;> rfl

theorem Side.eq_or_other (s t : Side) : t = s ∨ t = s.other := by
  cases s <;> cases t <;> simp [Side.other]

/-- The linkages made so far, and for each end the bytes its io took that are
    not read yet. -/
structure Connection where
  ends : Side → Option World
  flight : Side → Bytes

/-- One end makes its linkage and attaches it, or does an operation. -/
inductive Deed where
  | attach (receiveTimeout connectTimeout sendTimeout idleTimeout now : Int)
      (io : List Answer) (setup : Setup)
  | act (step : Step)

/-- What is on the record of `w'` and was not on that of `w`. -/
def World.since (w w' : World) : List Event := w'.trace.drop w.trace.length

/-- The connection carries what one end does: what its io takes goes into
    flight, and what it reads comes out. -/
structure Carries (c : Connection) (s : Side) (io : List Answer) (w w' : World)
    (c' : Connection) : Prop where
  here : c'.ends s = some w'
  there : c'.ends s.other = c.ends s.other
  takes : c'.flight s = c.flight s ++ accepted (w.since w')
  reads : readBytes io (w.since w') ++ c'.flight s.other = c.flight s.other

/-- A linkage as it is made, and what its io will say. -/
def made (receiveTimeout connectTimeout sendTimeout idleTimeout now : Int)
    (io : List Answer) : World :=
  (World.fresh receiveTimeout connectTimeout sendTimeout idleTimeout now).during io now

/-- One deed at one end. -/
inductive Does (h : Side → LinkageHandler) (c : Connection) (s : Side) :
    Deed → Connection → Prop where
  | attach (receiveTimeout connectTimeout sendTimeout idleTimeout now : Int)
      (io : List Answer) (setup : Setup) (w' : World) (c' : Connection)
      (hnew : c.ends s = none)
      (hw : FlinterLinkage.attach (h s) (made receiveTimeout connectTimeout sendTimeout
        idleTimeout now io) setup = (true, w'))
      (hc : Carries c s io (made receiveTimeout connectTimeout sendTimeout idleTimeout
        now io) w' c') :
      Does h c s (.attach receiveTimeout connectTimeout sendTimeout idleTimeout now io
        setup) c'
  | act (step : Step) (w : World) (c' : Connection) (hw : c.ends s = some w)
      (hheld : w.client.isSome = true)
      (hc : Carries c s step.io w
        (perform (h s) (w.during step.io step.now) step.op) c') :
      Does h c s (.act step) c'

/-- The runs of two linkages over a new connection. -/
def connection (h : Side → LinkageHandler) : System Connection (Side × Deed) where
  init := fun c => ∀ s, c.ends s = none ∧ c.flight s = []
  step := fun c l c' => Does h c l.1 l.2 c'

variable {h : Side → LinkageHandler}

-- ── Either end alone ─────────────────────────────────────────────────────────

theorem Effects.trace_grows {w w' : World} (he : Effects w w') :
    w.trace <+: w'.trace :=
  Runs.invariant_of_star (I := fun x => w.trace <+: x.trace)
    (fun _ _ hs hi => hi.trans hs.trace_grows) he List.prefix_rfl

/-- An operation only adds to the record. -/
theorem perform_since (g : LinkageHandler) (w : World) (s : Step) :
    (perform g (w.during s.io s.now) s.op).trace
      = w.trace ++ w.since (perform g (w.during s.io s.now) s.op) := by
  have hgrows : w.trace <+: (perform g (w.during s.io s.now) s.op).trace := by
    rcases perform_performed (h := g) (w.during s.io s.now) s.op with he | ⟨w₁, he, he'⟩
    · exact he.trace_grows
    · exact he.trace_grows.trans he'.trace_grows
  exact (List.prefix_iff_eq_append.mp hgrows).symm

theorem since_append {w w' : World} {t : List Event} (ht : w'.trace = w.trace ++ t) :
    w.since w' = t := by
  rw [World.since, ht, List.drop_left]

/-- Each end runs as a linkage on its own does. -/
theorem ends_reachable {c : Connection} (hr : Reachable (connection h) c) (s : Side) {w : World}
    (hw : c.ends s = some w) : Reachable (system (h s)) w := by
  refine hr.invariant (I := fun c => ∀ w, c.ends s = some w → Reachable (system (h s)) w)
    ?_ ?_ w hw
  · intro c hinit w hw
    rw [(hinit s).1] at hw
    cases hw
  · rintro c ⟨t, deed⟩ c' _ ih hdoes w hw
    rcases Side.eq_or_other s t with rfl | rfl
    · cases hdoes with
      | attach receiveTimeout connectTimeout sendTimeout idleTimeout now io setup w' _ hnew
          hattach hc =>
          obtain rfl := Option.some.inj (hw.symm.trans hc.here)
          exact .start ⟨_, _, _, _, _, _, setup, hattach⟩
      | act step v _ hv hheld hc =>
          obtain rfl := Option.some.inj (hw.symm.trans hc.here)
          exact .next (l := step) (ih v hv) ⟨hheld, rfl⟩
    · cases hdoes with
      | attach _ _ _ _ _ _ _ _ _ _ _ hc =>
          have hsame := hc.there
          rw [Side.other_other, hw] at hsame
          exact ih w hsame.symm
      | act _ _ _ _ _ hc =>
          have hsame := hc.there
          rw [Side.other_other, hw] at hsame
          exact ih w hsame.symm

-- ── From one end to the other ────────────────────────────────────────────────

/-- What the io of an end took so far. -/
def Connection.took (c : Connection) (s : Side) : Bytes :=
  match c.ends s with
  | none => []
  | some w => accepted w.trace

/-- The other end read a front of what this end's io took, and the rest is in
    flight; what it made of that is `Behind` and `Level`. -/
def Crossed (h : Side → LinkageHandler) (s : Side) (c : Connection) : Prop :=
  ∃ received, c.took s = received ++ c.flight s ∧
    (c.ends s.other = none → received = []) ∧
    ∀ v, c.ends s.other = some v →
      Behind (h s.other) received v ∧
      (v.client.isSome = true → Level (h s.other) received v)

/-- A deed at this end puts into flight what the io took. -/
theorem Crossed.sends {s : Side} {c c' : Connection} {deed : Deed} (hi : Crossed h s c)
    (hd : Does h c s deed c') : Crossed h s c' := by
  obtain ⟨received, hbytes, hnone, hsome⟩ := hi
  have hsplit : ∀ {io : List Answer} {w w' : World}, Carries c s io w w' c' →
      accepted w'.trace = c.took s ++ accepted (w.since w') → Crossed h s c' := by
    intro io w w' hc hgrown
    refine ⟨received, ?_, fun hn => hnone ?_, fun v hv => hsome v ?_⟩
    · rw [Connection.took, hc.here, hc.takes]
      show accepted w'.trace = _
      rw [hgrown, hbytes, List.append_assoc]
    · rw [← hn, hc.there]
    · rw [← hv, hc.there]
  cases hd with
  | attach _ _ _ _ _ _ _ w' _ hnew hattach hc =>
      refine hsplit hc ?_
      rw [Connection.took, hnew]
      rfl
  | act step w _ hw hheld hc =>
      refine hsplit hc ?_
      rw [Connection.took, hw, perform_since (h s) w step, accepted_append]

/-- A deed at the other end reads from the front of what is in flight. -/
theorem Crossed.reads {s : Side} (hpc : PrefixConsistent (h s.other).getMessageLength)
    {c c' : Connection} {deed : Deed} (hi : Crossed h s c)
    (hd : Does h c s.other deed c') : Crossed h s c' := by
  obtain ⟨received, hbytes, hnone, hsome⟩ := hi
  -- the bytes that were read are behind those read before
  have hread : ∀ {io : List Answer} {w w' : World} {go : Prop}, w.io = io →
      Carries c s.other io w w' c' → Taken (h s.other) received w go w' →
      (w'.client.isSome = true → go) → Crossed h s c' := by
    rintro io w w' go rfl hc ⟨t, htrace, hb, hl⟩ hgo
    have hthere := hc.there
    have hreads := hc.reads
    rw [Side.other_other] at hthere hreads
    rw [since_append htrace] at hreads
    refine ⟨received ++ readBytes w.io t, ?_, fun hn => ?_, fun v hv => ?_⟩
    · rw [Connection.took, hthere, List.append_assoc, hreads]
      exact hbytes
    · rw [hc.here] at hn
      cases hn
    · obtain rfl := Option.some.inj (hv.symm.trans hc.here)
      exact ⟨hb, fun hheld => hl (hgo hheld)⟩
  cases hd with
  | attach receiveTimeout connectTimeout sendTimeout idleTimeout now io setup w' _ hnew
      hattach hc =>
      obtain rfl := hnone hnew
      exact hread rfl hc (attach_taken hpc hattach) fun _ => trivial
  | act step w _ hw hheld hc =>
      obtain ⟨hb, hl⟩ := hsome w hw
      have hb' : Behind (h s.other) received (w.during step.io step.now) := hb
      have htaken := perform_taken hpc hb' (hl hheld) step.op
      exact hread (w := w.during step.io step.now) rfl
        ⟨hc.here, hc.there, hc.takes, hc.reads⟩ htaken id

theorem crossed {c : Connection} (hr : Reachable (connection h) c) (s : Side)
    (hpc : PrefixConsistent (h s.other).getMessageLength) : Crossed h s c := by
  refine hr.invariant (I := Crossed h s) ?_ ?_
  · intro c hinit
    refine ⟨[], ?_, fun _ => rfl, fun v hv => ?_⟩
    · rw [Connection.took, (hinit s).1, (hinit s).2]
      rfl
    · rw [(hinit s.other).1] at hv
      cases hv
  · rintro c ⟨t, deed⟩ c' _ ih hdoes
    rcases Side.eq_or_other s t with rfl | rfl
    · exact ih.sends hdoes
    · exact ih.reads hpc hdoes

/-- **FROM SEND TO ONMESSAGE**: in every interleaving, the messages delivered at
    one end are a front of those that `Send` took at the other.  While the
    receiving end is held and not closing and the sending end dropped nothing,
    every byte is delivered, buffered, in flight or queued; with nothing queued
    and nothing in flight every message is delivered. -/
theorem delivered_in_order (h : Side → LinkageHandler) (c : Connection)
    (hr : Reachable (connection h) c) (s : Side) (w v : World) (hw : c.ends s = some w)
    (hv : c.ends s.other = some v)
    (hpc : PrefixConsistent (h s.other).getMessageLength)
    (hwhole : ∀ m ∈ sentMessages w.trace, (h s.other).getMessageLength m = m.length)
    (hfits : ∀ e ∈ w.trace, e.fits = true) :
    v.delivered <+: sentMessages w.trace ∧
    (v.client.isSome = true → v.graceful = false → (∀ e ∈ w.trace, e.dumps = false) →
      v.delivered.flatten ++ v.rbuffer ++ c.flight s ++ w.wbuffer
        = (sentMessages w.trace).flatten ∧
      (c.flight s = [] → w.wbuffer = [] →
        v.delivered = sentMessages w.trace ∧ v.rbuffer = [])) := by
  obtain ⟨received, hbytes, -, hsome⟩ := crossed hr s hpc
  obtain ⟨hb, hl⟩ := hsome v hv
  have hout := outgoing_invariant.reachable (ends_reachable hr s hw)
  have htook : accepted w.trace = received ++ c.flight s := by
    rw [← hbytes, Connection.took, hw]
  have hms : ∀ m ∈ sentMessages w.trace, Whole (h s.other).getMessageLength m :=
    fun m hm => ⟨sentMessages_ne_nil hm, hwhole m hm⟩
  refine ⟨?_, fun hheld hg hdumps => ?_⟩
  · have hfront : received <+: (sentMessages w.trace).flatten :=
      List.IsPrefix.trans ⟨_, htook.symm⟩ (hout.front hfits)
    exact List.IsPrefix.trans hb
      (cut_whole hpc [] hms (expects_zero _) hfront).2
  · have hlevel := hl hheld hg
    have hqueue : received ++ c.flight s ++ w.wbuffer = (sentMessages w.trace).flatten := by
      rw [← htook]
      refine (hout hfits).resolve_right fun hd => ?_
      obtain ⟨e, he, hdump⟩ := hd.dumped
      rw [hdumps e he] at hdump
      cases hdump
    have hflat : v.delivered.flatten ++ v.rbuffer = received := by
      have hcut := cut_flatten (r := free (β := Verdict) (h s.other).getMessageLength) 0 []
        received
      rw [show cut (free (h s.other).getMessageLength) 0 [] received = v.received
        from hlevel.symm] at hcut
      exact hcut
    refine ⟨by rw [hflat, hqueue], fun hflight hempty => ?_⟩
    rw [hflight, hempty, List.append_nil, List.append_nil] at hqueue
    rw [hqueue, arrived, cut_whole_all hpc hms (expects_zero _)] at hlevel
    exact ⟨congrArg Cut.seen hlevel, congrArg Cut.rest hlevel⟩

/-- The first byte of a message is its length; each is accepted. -/
def prefixHandler : LinkageHandler where
  getMessageLength
    | [] => 0
    | b :: _ => b.toNat
  onMessage := fun _ _ => ⟨[], 1⟩
  onConnected := ⟨[], true⟩
  onError := []
  onDisconnected := []

/-- Two messages, whose bytes its io takes one, three and one at a time. -/
def sendSteps : List Step :=
  [⟨.send (some [3, 7, 8]), [⟨.ok, [], false, 1⟩], 0⟩,
    ⟨.send (some [2, 9]), [], 0⟩,
    ⟨.writable, [⟨.ok, [], false, 3⟩], 0⟩,
    ⟨.writable, [⟨.ok, [], false, 1⟩], 0⟩]

/-- They are read likewise: the second event ends one message and begins the
    other. -/
def readSteps : List Step :=
  [⟨.readable, [⟨.ok, [3], false, 0⟩], 0⟩,
    ⟨.readable, [⟨.ok, [7, 8, 2], false, 0⟩], 0⟩,
    ⟨.readable, [⟨.ok, [9], false, 0⟩], 0⟩]

/-- An end after some steps. -/
def prefixEnd (steps : List Step) : World :=
  steps.foldl (fun w s => perform prefixHandler (w.during s.io s.now) s.op)
    (openWorld prefixHandler)

theorem prefixEnd_snoc (steps : List Step) (step : Step) :
    prefixEnd (steps ++ [step]) =
      perform prefixHandler ((prefixEnd steps).during step.io step.now) step.op := by
  rw [prefixEnd, List.foldl_append]
  rfl

/-- The near end sends, the far end reads. -/
def prefixConnection (near far : Option (List Step)) (flight : Bytes) : Connection where
  ends
    | .near => near.map prefixEnd
    | .far => far.map prefixEnd
  flight
    | .near => flight
    | .far => []

section

variable {near far : List Step} {flight : Bytes}

theorem prefixConnection_attached :
    Reachable (connection fun _ => prefixHandler)
      (prefixConnection (some []) (some []) []) := by
  have h₀ : Reachable (connection fun _ => prefixHandler)
      (prefixConnection none none []) :=
    .start fun s => by cases s <;> exact ⟨rfl, rfl⟩
  have h₁ : Reachable (connection fun _ => prefixHandler)
      (prefixConnection (some []) none []) :=
    .next (l := (.near, .attach 0 0 0 0 0 [] plainSetup)) h₀
      (.attach 0 0 0 0 0 [] plainSetup _ _ rfl rfl ⟨rfl, rfl, rfl, rfl⟩)
  exact .next (l := (.far, .attach 0 0 0 0 0 [] plainSetup)) h₁
    (.attach 0 0 0 0 0 [] plainSetup _ _ rfl rfl ⟨rfl, rfl, rfl, rfl⟩)

theorem prefixConnection_near (step : Step) (flight' : Bytes)
    (hr : Reachable (connection fun _ => prefixHandler)
      (prefixConnection (some near) (some far) flight))
    (hheld : (prefixEnd near).client.isSome = true)
    (htakes : flight' =
      flight ++ accepted ((prefixEnd near).since (prefixEnd (near ++ [step]))))
    (hreads : readBytes step.io
      ((prefixEnd near).since (prefixEnd (near ++ [step]))) ++ [] = []) :
    Reachable (connection fun _ => prefixHandler)
      (prefixConnection (some (near ++ [step])) (some far) flight') := by
  rw [prefixEnd_snoc] at htakes hreads
  refine .next (l := (.near, .act step)) hr (.act step _ _ rfl hheld
    ⟨?_, rfl, htakes, hreads⟩)
  exact congrArg some (prefixEnd_snoc near step)

theorem prefixConnection_far (step : Step) (flight' : Bytes)
    (hr : Reachable (connection fun _ => prefixHandler)
      (prefixConnection (some near) (some far) flight))
    (hheld : (prefixEnd far).client.isSome = true)
    (htakes : [] =
      [] ++ accepted ((prefixEnd far).since (prefixEnd (far ++ [step]))))
    (hreads : readBytes step.io
      ((prefixEnd far).since (prefixEnd (far ++ [step]))) ++ flight' = flight) :
    Reachable (connection fun _ => prefixHandler)
      (prefixConnection (some near) (some (far ++ [step])) flight') := by
  rw [prefixEnd_snoc] at htakes hreads
  refine .next (l := (.far, .act step)) hr (.act step _ _ rfl hheld
    ⟨?_, rfl, htakes, hreads⟩)
  exact congrArg some (prefixEnd_snoc far step)

end

/-- The bytes are read as they come, in between the sending. -/
theorem prefixConnection_reachable :
    Reachable (connection fun _ => prefixHandler)
      (prefixConnection (some sendSteps) (some readSteps) []) := by
  have h₁ := prefixConnection_near sendSteps[0] [3] prefixConnection_attached
    (by decide +kernel) (by decide +kernel) (by decide +kernel)
  have h₂ := prefixConnection_far readSteps[0] [] h₁
    (by decide +kernel) (by decide +kernel) (by decide +kernel)
  have h₃ := prefixConnection_near sendSteps[1] [] h₂
    (by decide +kernel) (by decide +kernel) (by decide +kernel)
  have h₄ := prefixConnection_near sendSteps[2] [7, 8, 2] h₃
    (by decide +kernel) (by decide +kernel) (by decide +kernel)
  have h₅ := prefixConnection_far readSteps[1] [] h₄
    (by decide +kernel) (by decide +kernel) (by decide +kernel)
  have h₆ := prefixConnection_near sendSteps[3] [9] h₅
    (by decide +kernel) (by decide +kernel) (by decide +kernel)
  exact prefixConnection_far readSteps[2] [] h₆
    (by decide +kernel) (by decide +kernel) (by decide +kernel)

theorem prefixHandler_consistent : PrefixConsistent prefixHandler.getMessageLength := by
  rintro (_ | ⟨b, buf⟩) more hne -
  · exact absurd rfl hne
  · rfl

theorem delivered_in_order_cut :
    (prefixEnd readSteps).delivered = [[3, 7, 8], [2, 9]] ∧
    (prefixEnd readSteps).delivered = sentMessages (prefixEnd sendSteps).trace := by
  refine ⟨by decide +kernel, ?_⟩
  have hall := delivered_in_order (fun _ => prefixHandler) _ prefixConnection_reachable
    .near (prefixEnd sendSteps) (prefixEnd readSteps) rfl rfl prefixHandler_consistent
    (by decide +kernel) (by decide +kernel)
  have hrest := hall.2 (by decide +kernel) (by decide +kernel) (by decide +kernel)
  exact (hrest.2 rfl (by decide +kernel)).1

end FlinterLinkage
