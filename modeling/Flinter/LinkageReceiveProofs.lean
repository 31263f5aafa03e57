import Flinter.LinkageEffectProofs
import Flinter.FramingProofs

/-! # The delivery loop of a linkage

    `DoReceived` hands on the messages it finds in a buffer.  Here the loop is
    shown to be `Framing.cut` on that buffer (`doReceivedLoop_cut`), but for a
    handler that disconnects its own linkage: the loop does not look at
    `_graceful`, so it goes on to the messages behind. -/

namespace FlinterLinkage

open World Framing

variable {h : LinkageHandler}

/-- Why a linkage takes no more messages. -/
inductive Verdict where
  | hangUp
  | error
  | disconnected
deriving DecidableEq

/-- Is the call a `Disconnect`? -/
def Request.disconnects : Request → Bool
  | .send _ => false
  | .disconnect _ => true

/-- The handler as a receiver that should take no more once it disconnects. -/
def receiver (h : LinkageHandler) : Receiver UInt8 Verdict where
  length := h.getMessageLength
  stop := fun seen m =>
    if (h.onMessage seen m).ret < 0 then some .error
    else if (h.onMessage seen m).ret = 0 then some .hangUp
    else if (h.onMessage seen m).calls.any Request.disconnects then
      some .disconnected
    else none

/-- What `OnReceived` says of each end. -/
def outcomeRet : Outcome Verdict → Int
  | .more => 1
  | .failed => -1
  | .stopped .hangUp => 0
  | .stopped .error => -1
  | .stopped .disconnected => 1

-- ── The handler's calls leave the receiving side alone ───────────────────────

/-- `w'` has the receiving side of `w`; `d` tells whether a `Disconnect` came
    between. -/
structure SameStream (w w' : World) (d : Bool) : Prop where
  rbuffer : w'.rbuffer = w.rbuffer
  rlength : w'.rlength = w.rlength
  delivered : w'.delivered = w.delivered
  graceful : w'.graceful = (w.graceful || d)

theorem SameStream.refl (w : World) : SameStream w w false :=
  ⟨rfl, rfl, rfl, (Bool.or_false _).symm⟩

theorem SameStream.trans {w₁ w₂ w₃ : World} {d d' : Bool}
    (h₁ : SameStream w₁ w₂ d) (h₂ : SameStream w₂ w₃ d') :
    SameStream w₁ w₃ (d || d') where
  rbuffer := h₂.rbuffer.trans h₁.rbuffer
  rlength := h₂.rlength.trans h₁.rlength
  delivered := h₂.delivered.trans h₁.delivered
  graceful := by rw [h₂.graceful, h₁.graceful, Bool.or_assoc]

/-- An event that is no message delivers nothing. -/
theorem delivered_of_trace {w w' : World} {e : Event}
    (htrace : w'.trace = w.trace ++ [e]) (he : e.message? = none) :
    w'.delivered = w.delivered := by
  rw [delivered, delivered, htrace, List.filterMap_append,
    List.filterMap_cons_none he, List.filterMap_nil, List.append_nil]

theorem delivered_message (w : World) (m : Bytes) (ret : Int) (p : Bytes) :
    (w.note (.message m ret p)).delivered = w.delivered ++ [m] :=
  List.filterMap_append

/-- Changes elsewhere, with one event that is no message. -/
theorem SameStream.of_event {w w' : World} {d : Bool} {e : Event}
    (hb : w'.rbuffer = w.rbuffer) (hl : w'.rlength = w.rlength)
    (htrace : w'.trace = w.trace ++ [e]) (he : e.message? = none)
    (hg : w'.graceful = (w.graceful || d)) : SameStream w w' d :=
  ⟨hb, hl, delivered_of_trace htrace he, hg⟩

theorem send_stream (w : World) (buffer : Option Bytes) :
    SameStream w (w.send buffer).2 false := by
  have hs := send_cases w buffer
  generalize (w.send buffer).1 = ret at hs
  generalize (w.send buffer).2 = w' at hs ⊢
  have hg : w.graceful = (w.graceful || false) := (Bool.or_false _).symm
  cases hs with
  | refused => exact .refl w
  | nothing => exact .refl w
  | queued => exact ⟨rfl, rfl, rfl, hg⟩
  | full => exact .refl w
  | wrote => exact .of_event rfl rfl rfl rfl hg
  | partly => exact .of_event rfl rfl rfl rfl hg
  | jammed => exact .of_event rfl rfl rfl rfl hg
  | wanted => exact .of_event rfl rfl rfl rfl hg
  | lost => exact .of_event rfl rfl rfl rfl hg

theorem rearm_stream (w : World) : SameStream w w.rearm false := by
  rw [rearm_world]
  exact ⟨rfl, rfl, rfl, (Bool.or_false _).symm⟩

theorem onEventShutdown_stream (w : World) :
    SameStream w w.onEventShutdown.2.2 true := by
  cases hc : w.closed with
  | true =>
      rw [onEventShutdown_closed hc]
      exact ⟨rfl, rfl, rfl, (Bool.or_true _).symm⟩
  | false =>
      rw [onEventShutdown_open hc]
      exact .of_event rfl rfl rfl rfl
        (Bool.or_true _).symm

theorem disconnect_stream (w : World) (finishWrite : Bool) :
    SameStream w (w.disconnect finishWrite).2 true := by
  have ha : SameStream w (w.announce finishWrite) true := by
    rw [announce_world]
    exact .of_event rfl rfl rfl rfl (Bool.or_true _).symm
  rw [disconnect]
  split
  · exact ha
  · exact (ha.trans (onEventShutdown_stream _)).trans (rearm_stream _)

theorem request_stream (w : World) (call : Request) :
    SameStream w (w.request call) call.disconnects := by
  cases call with
  | send buffer =>
      have hs := send_stream w buffer
      exact ⟨hs.rbuffer, hs.rlength,
        (delivered_of_trace rfl rfl).trans hs.delivered,
        hs.graceful⟩
  | disconnect finishWrite => exact disconnect_stream w finishWrite

theorem requests_stream (calls : List Request) :
    ∀ w : World, SameStream w (w.requests calls) (calls.any Request.disconnects) := by
  induction calls with
  | nil => intro w; exact .refl w
  | cons call calls ih =>
      intro w
      exact (request_stream w call).trans (ih (w.request call))

/-- `OnMessage` delivers its message and nothing else. -/
theorem onMessage_stream (w : World) (m : Bytes) :
    (onMessage h w m).1 = (h.onMessage w.delivered m).ret ∧
    (onMessage h w m).2.rbuffer = w.rbuffer ∧
    (onMessage h w m).2.rlength = w.rlength ∧
    (onMessage h w m).2.delivered = w.delivered ++ [m] ∧
    (onMessage h w m).2.graceful = (w.graceful ||
      (h.onMessage w.delivered m).calls.any Request.disconnects) := by
  have hs := requests_stream (h.onMessage w.delivered m).calls w
  refine ⟨rfl, hs.rbuffer, hs.rlength, ?_, hs.graceful⟩
  rw [← hs.delivered]
  exact delivered_message _ m _ _

/-- `OnMessage` behind what left the receiving side alone. -/
theorem SameStream.handled {w w₂ : World} {n : Nat}
    (hs : SameStream { w with rlength := n } w₂ false) (m : Bytes) :
    (onMessage h w₂ m).1 = (h.onMessage w.delivered m).ret ∧
    (onMessage h w₂ m).2.delivered = w.delivered ++ [m] ∧
    (onMessage h w₂ m).2.graceful = (w.graceful ||
      (h.onMessage w.delivered m).calls.any Request.disconnects) := by
  obtain ⟨hret, _, _, hd, hg⟩ := onMessage_stream (h := h) w₂ m
  have hd₂ : w₂.delivered = w.delivered := hs.delivered
  have hg₂ : w₂.graceful = w.graceful := by rw [hs.graceful, Bool.or_false]
  rw [hd₂] at hret hd hg
  rw [hg₂] at hg
  exact ⟨hret, hd, hg⟩

-- ── The loop of DoReceived, one look at a time ───────────────────────────────

theorem loop_wait {fuel : Nat} {w : World} {ptr : Bytes} {known : Nat}
    (consumed : Nat) (hfuel : ptr.length ≤ fuel)
    (hl : look h.getMessageLength w.rlength ptr = .wait known) :
    ∃ w', SameStream { w with rlength := known } w' false ∧
      doReceivedLoop h fuel w ptr consumed = (1, consumed, w') := by
  have hlooked := looked h.getMessageLength w.rlength ptr
  rw [hl] at hlooked
  cases hlooked with
  | empty hnil =>
      refine ⟨w, .refl w, ?_⟩
      cases fuel with
      | zero => rfl
      | succ fuel => rw [doReceivedLoop, if_pos (List.length_eq_zero_iff.mp hnil)]
  | undecided hnil hzero =>
      -- not decided: then nothing was known before
      have hk : w.rlength = 0 := by
        by_cases hk : w.rlength = 0
        · exact hk
        · rw [asked_known hk] at hzero
          omega
      obtain ⟨fuel', rfl⟩ : ∃ f, fuel = f + 1 := ⟨fuel - 1, by omega⟩
      rw [doReceivedLoop]
      extract_lets ret w₁ w₂ r w₃
      have hret : ret = 0 := hzero
      rw [if_neg (fun hb => hnil (List.length_eq_zero_iff.mpr hb)), if_neg (by omega),
        if_pos hret]
      exact ⟨w.updateReceiveJam true, ⟨rfl, hk, rfl, (Bool.or_false _).symm⟩, rfl⟩
  | short hpos hnil hlen =>
      obtain ⟨fuel', rfl⟩ : ∃ f, fuel = f + 1 := ⟨fuel - 1, by omega⟩
      rw [doReceivedLoop]
      extract_lets ret w₁ w₂ r w₃
      have hret : 0 < ret := hpos
      have hshort : ptr.length < w₁.rlength := hlen
      rw [if_neg (fun hb => hnil (List.length_eq_zero_iff.mpr hb)), if_neg (by omega),
        if_neg (by omega), if_pos hshort]
      exact ⟨w₁.updateReceiveJam true, ⟨rfl, rfl, rfl, (Bool.or_false _).symm⟩, rfl⟩

theorem loop_fail {fuel : Nat} {w : World} {ptr : Bytes}
    (consumed : Nat) (hfuel : ptr.length ≤ fuel)
    (hl : look h.getMessageLength w.rlength ptr = .fail) :
    doReceivedLoop h fuel w ptr consumed = (-1, consumed, w) := by
  have hlooked := looked h.getMessageLength w.rlength ptr
  rw [hl] at hlooked
  cases hlooked with
  | negative hnil hneg =>
      obtain ⟨fuel', rfl⟩ : ∃ f, fuel = f + 1 := ⟨fuel - 1, by omega⟩
      rw [doReceivedLoop]
      extract_lets ret w₁ w₂ r w₃
      have hret : ret < 0 := hneg
      rw [if_neg (fun hb => hnil (List.length_eq_zero_iff.mpr hb)), if_pos hret]

/-- A whole message at the front: the handler gets it, then the loop goes on
    behind it. -/
theorem loop_message {fuel : Nat} {w : World} {ptr m rest : Bytes}
    (consumed : Nat) (hfuel : ptr.length ≤ fuel)
    (hl : look h.getMessageLength w.rlength ptr = .message m rest) :
    ∃ w₂ fuel', SameStream { w with rlength := m.length } w₂ false ∧
      rest.length ≤ fuel' ∧
      doReceivedLoop h fuel w ptr consumed =
        if (onMessage h w₂ m).1 < 0 then (-1, consumed, (onMessage h w₂ m).2)
        else if (onMessage h w₂ m).1 = 0 then (0, consumed, (onMessage h w₂ m).2)
        else doReceivedLoop h fuel' { (onMessage h w₂ m).2 with rlength := 0 } rest
          (consumed + m.length) := by
  have hshort := look_shorter hl
  have hlooked := looked h.getMessageLength w.rlength ptr
  rw [hl] at hlooked
  cases hlooked with
  | whole hpos hnil hlen =>
      obtain ⟨fuel', rfl⟩ : ∃ f, fuel = f + 1 := ⟨fuel - 1, by omega⟩
      rw [doReceivedLoop]
      extract_lets ret w₁ w₂ r w₃
      have hret : 0 < ret := hpos
      have hwhole : ¬ptr.length < w₁.rlength := Nat.not_lt.mpr hlen
      have hmlen : (ptr.take ret.toNat).length = ret.toNat := by
        rw [List.length_take]
        exact Nat.min_eq_left hlen
      have hw₃ : w₃.rlength = (ptr.take ret.toNat).length :=
        (onMessage_stream w₂ _).2.2.1.trans hmlen.symm
      rw [if_neg (fun hb => hnil (List.length_eq_zero_iff.mpr hb)), if_neg (by omega),
        if_neg (by omega), if_neg hwhole]
      refine ⟨w₂, fuel', ?_, by omega, ?_⟩
      · exact ⟨rfl, hmlen.symm, rfl, (Bool.or_false _).symm⟩
      · have hdrop : ptr.drop w₃.rlength = ptr.drop ret.toNat := by rw [hw₃, hmlen]
        rw [hdrop, hw₃]
        rfl

/-- The loop never touches `_rbuffer`. -/
theorem doReceivedLoop_rbuffer :
    ∀ (fuel : Nat) (w : World) (ptr : Bytes) (consumed : Nat),
      (doReceivedLoop h fuel w ptr consumed).2.2.rbuffer = w.rbuffer := by
  intro fuel
  induction fuel with
  | zero => intro w ptr consumed; rfl
  | succ fuel ih =>
      intro w ptr consumed
      rw [doReceivedLoop]
      extract_lets ret w₁ w₂ r w₃
      have hw₃ : w₃.rbuffer = w.rbuffer := (onMessage_stream w₂ _).2.1
      split
      · rfl
      split
      · rfl
      split
      · rfl
      split
      · rfl
      split
      · exact hw₃
      split
      · exact hw₃
      · rw [ih]; exact hw₃

-- ── The loop is a cut ────────────────────────────────────────────────────────

theorem stop_none {seen : List Bytes} {m : Bytes}
    (hs : (receiver h).stop seen m = none) :
    0 < (h.onMessage seen m).ret ∧
      (h.onMessage seen m).calls.any Request.disconnects = false := by
  simp only [receiver] at hs
  split at hs
  · cases hs
  split at hs
  · cases hs
  split at hs
  · cases hs
  next hneg hzero hcalls => exact ⟨by omega, Bool.eq_false_iff.mpr hcalls⟩

theorem stop_some {seen : List Bytes} {m : Bytes} {why : Verdict}
    (hs : (receiver h).stop seen m = some why) :
    match why with
    | .error => (h.onMessage seen m).ret < 0
    | .hangUp => (h.onMessage seen m).ret = 0
    | .disconnected => 0 < (h.onMessage seen m).ret ∧
        (h.onMessage seen m).calls.any Request.disconnects = true := by
  simp only [receiver] at hs
  split at hs
  next hneg => obtain rfl := Option.some.inj hs; exact hneg
  split at hs
  next hzero => obtain rfl := Option.some.inj hs; exact hzero
  split at hs
  next hneg hzero hcalls =>
    obtain rfl := Option.some.inj hs
    exact ⟨by omega, hcalls⟩
  · cases hs

/-- What delivering the bytes of a cut must come to.  After a `Disconnect` by
    the handler the loop goes on: it delivers more exactly if a whole message
    is left. -/
structure Framed (h : LinkageHandler) (c : Cut UInt8 Verdict) (ret : Int)
    (w : World) : Prop where
  more : c.outcome = .more →
    ret = 1 ∧ w.delivered = c.seen ∧ w.rlength = c.known ∧ w.graceful = false
  ended : c.outcome ≠ .more → c.outcome ≠ .stopped .disconnected →
    ret = outcomeRet c.outcome ∧ w.delivered = c.seen
  overran : c.outcome = .stopped .disconnected →
    w.graceful = true ∧ c.seen <+: w.delivered ∧
    (w.delivered = c.seen ↔
      ∀ m rest, look h.getMessageLength 0 c.rest ≠ .message m rest)

/-- An end that the caller is told. -/
theorem Framed.told {c : Cut UInt8 Verdict} {ret : Int} {w : World}
    (hm : c.outcome ≠ .more) (hd : c.outcome ≠ .stopped .disconnected)
    (hret : ret = outcomeRet c.outcome) (hseen : w.delivered = c.seen) :
    Framed h c ret w where
  more := fun hmore => absurd hmore hm
  ended := fun _ _ => ⟨hret, hseen⟩
  overran := fun hdis => absurd hdis hd

/-- `_graceful` does not end the loop, and stays. -/
theorem loop_graceful {w : World} (hg : w.graceful = true) :
    ∀ {fuel : Nat} {ptr : Bytes} (consumed : Nat), ptr.length ≤ fuel →
      (doReceivedLoop h fuel w ptr consumed).2.2.graceful = true ∧
      w.delivered <+: (doReceivedLoop h fuel w ptr consumed).2.2.delivered := by
  intro fuel ptr
  induction hn : ptr.length using Nat.strongRecOn generalizing w fuel ptr with
  | _ n ih =>
      intro consumed hfuel
      rw [← hn] at hfuel
      cases hl : look h.getMessageLength w.rlength ptr with
      | wait known =>
          obtain ⟨w', hs, heq⟩ := loop_wait consumed hfuel hl
          rw [heq]
          have hd : w'.delivered = w.delivered := hs.delivered
          exact ⟨by rw [hs.graceful, Bool.or_false]; exact hg,
            by rewrite [hd]; exact List.prefix_rfl⟩
      | fail =>
          rw [loop_fail consumed hfuel hl]
          exact ⟨hg, List.prefix_rfl⟩
      | message m rest =>
          obtain ⟨w₂, fuel', hs, hfuel', heq⟩ := loop_message consumed hfuel hl
          obtain ⟨-, hd₃, hg₃⟩ := hs.handled (h := h) m
          rw [hg, Bool.true_or] at hg₃
          have hpre : w.delivered <+: (onMessage h w₂ m).2.delivered := by
            rw [hd₃]; exact List.prefix_append _ _
          rw [heq]
          split
          · exact ⟨hg₃, hpre⟩
          split
          · exact ⟨hg₃, hpre⟩
          · have hlt : rest.length < n := hn ▸ look_shorter hl
            have hrec := ih rest.length hlt
              (w := { (onMessage h w₂ m).2 with rlength := 0 }) hg₃ rfl
              (consumed + m.length) hfuel'
            exact ⟨hrec.1, hpre.trans hrec.2⟩

/-- Past a `Disconnect`, the loop delivers more if it finds a whole message. -/
theorem loop_overran {w : World} (hg : w.graceful = true) (hk : w.rlength = 0)
    {fuel : Nat} {ptr : Bytes} (consumed : Nat) (hfuel : ptr.length ≤ fuel) :
    (doReceivedLoop h fuel w ptr consumed).2.2.delivered = w.delivered ↔
      ∀ m rest, look h.getMessageLength 0 ptr ≠ .message m rest := by
  rw [← hk]
  cases hl : look h.getMessageLength w.rlength ptr with
  | wait known =>
      obtain ⟨w', hs, heq⟩ := loop_wait consumed hfuel hl
      rw [heq]
      exact ⟨fun _ _ _ he => (by cases he), fun _ => hs.delivered⟩
  | fail =>
      rw [loop_fail consumed hfuel hl]
      exact ⟨fun _ _ _ he => (by cases he), fun _ => rfl⟩
  | message m rest =>
      obtain ⟨w₂, fuel', hs, hfuel', heq⟩ := loop_message consumed hfuel hl
      obtain ⟨-, hd₃, hg₃⟩ := hs.handled (h := h) m
      rw [hg, Bool.true_or] at hg₃
      have hpre : (onMessage h w₂ m).2.delivered <+:
          (doReceivedLoop h fuel w ptr consumed).2.2.delivered := by
        rw [heq]
        split
        · exact List.prefix_rfl
        split
        · exact List.prefix_rfl
        · exact (loop_graceful (w := { (onMessage h w₂ m).2 with rlength := 0 })
            hg₃ _ hfuel').2
      constructor
      · intro hd
        have hlen := hpre.length_le
        rw [hd, hd₃, List.length_append, List.length_singleton] at hlen
        omega
      · intro hnone
        exact absurd rfl (hnone m rest)

/-- **THE DELIVERY LOOP IS A CUT** of its buffer. -/
theorem doReceivedLoop_cut (known : Nat) (seen : List Bytes) (ptr : Bytes) :
    ∀ (w : World) (fuel consumed : Nat), w.rlength = known → w.delivered = seen →
      w.graceful = false → ptr.length ≤ fuel →
      Framed h (cut (receiver h) known seen ptr)
        (doReceivedLoop h fuel w ptr consumed).1
        (doReceivedLoop h fuel w ptr consumed).2.2 ∧
      ((cut (receiver h) known seen ptr).outcome = .more →
        (doReceivedLoop h fuel w ptr consumed).2.1 +
          (cut (receiver h) known seen ptr).rest.length = consumed + ptr.length) := by
  induction known, seen, ptr using cut_induction (receiver h) with
  | wait known seen ptr known' hl =>
      intro w fuel consumed hk hd hg hfuel
      subst hk hd
      obtain ⟨w', hs, heq⟩ := loop_wait consumed hfuel hl
      rw [heq, cut_wait hl]
      have hg' : w'.graceful = false := by
        rw [hs.graceful, Bool.or_false]; exact hg
      exact ⟨⟨fun _ => ⟨rfl, hs.delivered, hs.rlength, hg'⟩,
        fun hm => absurd rfl hm, fun hm => (by cases hm)⟩, fun _ => rfl⟩
  | fail known seen ptr hl =>
      intro w fuel consumed hk hd hg hfuel
      subst hk hd
      rw [loop_fail consumed hfuel hl, cut_fail hl]
      exact ⟨.told (by simp) (by simp) rfl rfl, fun hm => (by cases hm)⟩
  | stop known seen ptr m rest why hl hstop =>
      intro w fuel consumed hk hd hg hfuel
      subst hk hd
      obtain ⟨w₂, fuel', hs, hfuel', heq⟩ := loop_message consumed hfuel hl
      obtain ⟨hret, hd₃, hg₃⟩ := hs.handled (h := h) m
      rw [hg, Bool.false_or] at hg₃
      have hwhy := stop_some hstop
      rw [heq, cut_stop hl hstop]
      cases why with
      | error =>
          rw [if_pos (hret ▸ hwhy)]
          exact ⟨.told (by simp) (by simp) rfl hd₃, fun hm => (by cases hm)⟩
      | hangUp =>
          have hzero : (onMessage h w₂ m).1 = 0 := hret.trans hwhy
          rw [if_neg (by omega), if_pos hzero]
          exact ⟨.told (by simp) (by simp) rfl hd₃, fun hm => (by cases hm)⟩
      | disconnected =>
          have hpos : 0 < (onMessage h w₂ m).1 := hret ▸ hwhy.1
          rw [hwhy.2] at hg₃
          rw [if_neg (by omega), if_neg (by omega)]
          refine ⟨⟨fun hm => (by cases hm), fun _ hm => absurd rfl hm, fun _ => ?_⟩,
            fun hm => (by cases hm)⟩
          have hgr := loop_graceful (h := h)
            (w := { (onMessage h w₂ m).2 with rlength := 0 }) hg₃
            (consumed + m.length) hfuel'
          have hov := loop_overran (h := h)
            (w := { (onMessage h w₂ m).2 with rlength := 0 }) hg₃ rfl
            (consumed + m.length) hfuel'
          have hd : ({ (onMessage h w₂ m).2 with rlength := 0 } : World).delivered
              = w.delivered ++ [m] := hd₃
          rw [hd] at hgr hov
          exact ⟨hgr.1, hgr.2, hov⟩
  | go known seen ptr m rest hl hstop ih =>
      intro w fuel consumed hk hd hg hfuel
      subst hk hd
      obtain ⟨w₂, fuel', hs, hfuel', heq⟩ := loop_message consumed hfuel hl
      obtain ⟨hret, hd₃, hg₃⟩ := hs.handled (h := h) m
      obtain ⟨hpos, hcalls⟩ := stop_none hstop
      rw [hg, Bool.false_or, hcalls] at hg₃
      have hlen : m.length + rest.length = ptr.length := by
        rw [← List.length_append, (look_message hl).2]
      have hrec := ih { (onMessage h w₂ m).2 with rlength := 0 } fuel'
        (consumed + m.length) rfl hd₃ hg₃ hfuel'
      rw [heq, cut_go hl hstop, if_neg (by omega), if_neg (by omega)]
      refine ⟨hrec.1, fun hm => ?_⟩
      have hcount := hrec.2 hm
      omega

end FlinterLinkage
