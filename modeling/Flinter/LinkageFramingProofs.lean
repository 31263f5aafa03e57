import Flinter.LinkageReceiveProofs

/-! # Message framing of a linkage

    `OnReceived` keeps undelivered bytes in `_rbuffer`, the length it learned
    of them in `_rlength`, and has three ways to join them with a new chunk.
    All three come to the `Framing.cut` of the buffer and the chunk
    (`onReceived_cut`), so every chunking of a stream delivers the same
    messages, ends the same way, and leaves the same bytes.

    The exception is a handler that disconnects its own linkage: `_graceful` is
    looked at where a chunk enters and not in the delivery loop, so the other
    messages of that chunk are still delivered. -/

namespace FlinterLinkage

open World Framing

variable {h : LinkageHandler}

/-- Hand a stream to `OnReceived` chunk by chunk, as long as it says go on. -/
def feed (h : LinkageHandler) (w : World) : List Bytes → Int × World
  | [] => (1, w)
  | chunk :: chunks =>
    let r := onReceived h w (some chunk)
    if r.1 ≤ 0 then r else feed h r.2 chunks

/-- Nothing received yet. -/
structure Unread (w : World) : Prop where
  rbuffer : w.rbuffer = []
  rlength : w.rlength = 0
  graceful : w.graceful = false
  delivered : w.delivered = []

/-- A receiving side between two chunks: no whole message is buffered. -/
structure Settled (h : LinkageHandler) (w : World) : Prop where
  graceful : w.graceful = false
  waiting : look h.getMessageLength w.rlength w.rbuffer = .wait w.rlength

theorem Unread.settled {w : World} (hw : Unread w) : Settled h w where
  graceful := hw.graceful
  waiting := by rw [hw.rbuffer, look_nil]

/-- The receiving side as the cut of what came so far. -/
def World.received (w : World) : Cut UInt8 Verdict :=
  ⟨.more, w.delivered, w.rlength, w.rbuffer⟩

-- ── The three paths of OnReceived ────────────────────────────────────────────

theorem Framed.set_rbuffer {c : Cut UInt8 Verdict} {ret : Int} {w : World}
    (hf : Framed h c ret w) (rbuffer : Bytes) :
    Framed h c ret { w with rbuffer := rbuffer } :=
  ⟨hf.more, hf.ended, hf.overran⟩

/-- A result that is not positive is not one of going on. -/
theorem Framed.not_more {c : Cut UInt8 Verdict} {ret : Int} {w : World}
    (hf : Framed h c ret w) (hret : ret ≤ 0) : c.outcome ≠ .more := by
  intro hm
  have := (hf.more hm).1
  omega

theorem outcomeRet_end {o : Outcome Verdict} (hm : o ≠ .more)
    (hd : o ≠ .stopped .disconnected) : outcomeRet o ≤ 0 := by
  cases o with
  | more => exact absurd rfl hm
  | failed => decide
  | stopped why =>
      cases why with
      | hangUp => decide
      | error => decide
      | disconnected => exact absurd rfl hd

/-- A positive result is always reported as one. -/
theorem Framed.positive {c : Cut UInt8 Verdict} {ret : Int} {w : World}
    (hf : Framed h c ret w) (hret : 0 < ret) : Framed h c 1 w where
  more := fun hm => ⟨rfl, (hf.more hm).2⟩
  ended := by
    intro hm hd
    have hle := outcomeRet_end hm hd
    rw [← (hf.ended hm hd).1] at hle
    omega
  overran := hf.overran

/-- But for a `Disconnect`, the result and the messages are those of the cut. -/
theorem Framed.result {c : Cut UInt8 Verdict} {ret : Int} {w : World}
    (hf : Framed h c ret w) (hdis : c.outcome ≠ .stopped .disconnected) :
    ret = outcomeRet c.outcome ∧ w.delivered = c.seen := by
  by_cases hm : c.outcome = .more
  · obtain ⟨hret, hd, _⟩ := hf.more hm
    rw [hm]
    exact ⟨hret, hd⟩
  · exact hf.ended hm hdis

/-- `DoReceived` on its own buffer: what it consumed is what the cut took. -/
theorem doReceived_cut {w : World} (hg : w.graceful = false) (ptr : Bytes) :
    Framed h (cut (receiver h) w.rlength w.delivered ptr)
      (doReceived h w ptr).1 (doReceived h w ptr).2.2 ∧
    ((cut (receiver h) w.rlength w.delivered ptr).outcome = .more →
      ptr.drop (doReceived h w ptr).2.1
        = (cut (receiver h) w.rlength w.delivered ptr).rest) := by
  obtain ⟨hf, hcount⟩ := doReceivedLoop_cut (h := h) w.rlength w.delivered ptr w
    ptr.length 0 rfl rfl hg (Nat.le_refl _)
  refine ⟨hf, fun hm => ?_⟩
  have hrest := List.suffix_iff_eq_drop.mp
    (cut_rest (r := receiver h) w.rlength w.delivered ptr)
  have hlen : (doReceived h w ptr).2.1 = ptr.length -
      (cut (receiver h) w.rlength w.delivered ptr).rest.length := by
    have := hcount hm
    rw [doReceived]
    omega
  rw [hlen]
  exact hrest.symm

/-- The path that does not move the buffer. -/
theorem receiveDirect_cut {w : World} (hg : w.graceful = false)
    (hb : w.rbuffer = []) (ptr : Bytes) :
    Framed h (cut (receiver h) w.rlength w.delivered ptr)
      (receiveDirect h w ptr).1 (receiveDirect h w ptr).2 ∧
    ((cut (receiver h) w.rlength w.delivered ptr).outcome = .more →
      (receiveDirect h w ptr).2.rbuffer
        = (cut (receiver h) w.rlength w.delivered ptr).rest) := by
  obtain ⟨hf, hdrop⟩ := doReceived_cut (h := h) hg ptr
  have hkeep : (doReceived h w ptr).2.2.rbuffer = [] := by
    rw [doReceived, doReceivedLoop_rbuffer, hb]
  rw [receiveDirect]
  split
  next hret =>
    exact ⟨hf, fun hm => absurd hm (hf.not_more hret)⟩
  next hret =>
  have hpos := hf.positive (by omega : 0 < (doReceived h w ptr).1)
  split
  next hsome =>
    refine ⟨hpos.set_rbuffer _, fun hm => ?_⟩
    show (doReceived h w ptr).2.2.rbuffer ++ _ = _
    rw [hkeep, List.nil_append, hdrop hm]
  next hall =>
    refine ⟨hpos, fun hm => ?_⟩
    rw [hkeep, ← hdrop hm, Decidable.not_not.mp hall, List.drop_length]

theorem receiveDirect_nil (w : World) : receiveDirect h w [] = (1, w) := rfl

/-- Past a `Disconnect`: what stays and what may come. -/
theorem receiveDirect_overran {w : World} (hg : w.graceful = true)
    (hk : w.rlength = 0) (ptr : Bytes) :
    (receiveDirect h w ptr).2.graceful = true ∧
    w.delivered <+: (receiveDirect h w ptr).2.delivered ∧
    ((receiveDirect h w ptr).2.delivered = w.delivered ↔
      ∀ m rest, look h.getMessageLength 0 ptr ≠ .message m rest) := by
  have hgr := loop_graceful (h := h) hg 0 (Nat.le_refl ptr.length)
  have hov := loop_overran (h := h) hg hk 0 (Nat.le_refl ptr.length)
  rw [receiveDirect]
  split
  · exact ⟨hgr.1, hgr.2, hov⟩
  split
  · exact ⟨hgr.1, hgr.2, hov⟩
  · exact ⟨hgr.1, hgr.2, hov⟩

/-- `DoReceived` on exactly one message. -/
theorem doReceived_one {w : World} {m : Bytes}
    (hl : look h.getMessageLength w.rlength m = .message m []) :
    ∃ w₂, SameStream { w with rlength := m.length } w₂ false ∧
      doReceived h w m =
        if (onMessage h w₂ m).1 < 0 then (-1, 0, (onMessage h w₂ m).2)
        else if (onMessage h w₂ m).1 = 0 then (0, 0, (onMessage h w₂ m).2)
        else (1, m.length, { (onMessage h w₂ m).2 with rlength := 0 }) := by
  obtain ⟨w₂, fuel', hs, _, heq⟩ := loop_message 0 (Nat.le_refl m.length) hl
  refine ⟨w₂, hs, ?_⟩
  have hend : doReceivedLoop h fuel' { (onMessage h w₂ m).2 with rlength := 0 } []
      (0 + m.length) = (1, m.length, { (onMessage h w₂ m).2 with rlength := 0 }) := by
    rw [Nat.zero_add]
    cases fuel' <;> rfl
  rw [doReceived, heq, hend]

/-- The path that completes a message of known length and goes on with the
    rest of the chunk. -/
theorem receiveKnown_cut {w : World} (hg : w.graceful = false)
    {m rest : Bytes}
    (hl : look h.getMessageLength w.rlength (m ++ rest) = .message m rest)
    (hone : look h.getMessageLength w.rlength m = .message m []) :
    let r := doReceived h w m
    let w' := ({ r.2.2 with rbuffer := [] } : World)
    let r' := if r.1 ≤ 0 then (r.1, r.2.2) else receiveDirect h w' rest
    (r.1 ≤ 0 ∨ r.2.1 = m.length) ∧
    Framed h (cut (receiver h) w.rlength w.delivered (m ++ rest)) r'.1 r'.2 ∧
    ((cut (receiver h) w.rlength w.delivered (m ++ rest)).outcome = .more →
      r'.2.rbuffer = (cut (receiver h) w.rlength w.delivered (m ++ rest)).rest) := by
  intro r w' r'
  obtain ⟨w₂, hs, heq⟩ := doReceived_one hone
  obtain ⟨hret, hd₃, hg₃⟩ := hs.handled (h := h) m
  rw [hg, Bool.false_or] at hg₃
  have hgo : 0 < (h.onMessage w.delivered m).ret →
      r = (1, m.length, { (onMessage h w₂ m).2 with rlength := 0 }) := by
    intro hpos
    show doReceived h w m = _
    rw [heq, if_neg (by omega), if_neg (by omega)]
  -- with a positive answer the rest is received as if the buffer were empty
  have hrest : 0 < (h.onMessage w.delivered m).ret →
      r' = receiveDirect h w' rest ∧ w'.delivered = w.delivered ++ [m] ∧
      w'.rlength = 0 ∧ w'.graceful =
        (h.onMessage w.delivered m).calls.any Request.disconnects ∧
      r.2.1 = m.length := by
    intro hpos
    have hr := hgo hpos
    have hret₁ : ¬ r.1 ≤ 0 := by rw [hr]; exact (by decide : ¬ (1 : Int) ≤ 0)
    have hr' : r' = receiveDirect h w' rest := if_neg hret₁
    have hw' : w' = { (onMessage h w₂ m).2 with rlength := 0, rbuffer := [] } := by
      simp only [w', hr]
    rw [hw'] at hr' ⊢
    exact ⟨hr', hd₃, rfl, hg₃, by rw [hr]⟩
  cases hstop : (receiver h).stop w.delivered m with
  | none =>
      obtain ⟨hpos, hcalls⟩ := stop_none hstop
      obtain ⟨hr', hd', hk', hg', hlen⟩ := hrest hpos
      rw [hr', cut_go hl hstop, ← hd', ← hk']
      exact ⟨Or.inr hlen, receiveDirect_cut (hg'.trans hcalls) rfl rest⟩
  | some why =>
      have hwhy := stop_some hstop
      rw [cut_stop hl hstop]
      cases why with
      | error =>
          have hr : r = (-1, 0, (onMessage h w₂ m).2) := by
            show doReceived h w m = _
            rw [heq, if_pos (hret ▸ hwhy)]
          have hneg : r.1 ≤ 0 := by rw [hr]; exact (by decide : (-1 : Int) ≤ 0)
          have hr' : r' = (r.1, r.2.2) := if_pos hneg
          rw [hr']
          rw [hr] at hneg ⊢
          exact ⟨Or.inl hneg, .told (by simp) (by simp) rfl hd₃,
            fun hm => (by cases hm)⟩
      | hangUp =>
          have hzero : (onMessage h w₂ m).1 = 0 := hret.trans hwhy
          have hr : r = (0, 0, (onMessage h w₂ m).2) := by
            show doReceived h w m = _
            rw [heq, if_neg (by omega), if_pos hzero]
          have hnp : r.1 ≤ 0 := by rewrite [hr]; exact Int.le_refl 0
          have hr' : r' = (r.1, r.2.2) := if_pos hnp
          rw [hr']
          rw [hr] at hnp ⊢
          exact ⟨Or.inl hnp, .told (by simp) (by simp) rfl hd₃,
            fun hm => (by cases hm)⟩
      | disconnected =>
          obtain ⟨hr', hd', hk', hg', hlen⟩ := hrest hwhy.1
          have hov := receiveDirect_overran (h := h) (hg'.trans hwhy.2) hk' rest
          rw [hd'] at hov
          rw [hr']
          exact ⟨Or.inr hlen, ⟨fun hm => (by cases hm),
            fun _ hm => absurd rfl hm, fun _ => hov⟩, fun hm => (by cases hm)⟩

/-- **EACH PATH OF OnReceived IS THE CUT** of what was buffered and the
    chunk. -/
theorem onReceived_cut {w : World} (hw : Settled h w) (ptr : Bytes) :
    Framed h (cut (receiver h) w.rlength w.delivered (w.rbuffer ++ ptr))
      (onReceived h w (some ptr)).1 (onReceived h w (some ptr)).2 ∧
    ((cut (receiver h) w.rlength w.delivered (w.rbuffer ++ ptr)).outcome = .more →
      (onReceived h w (some ptr)).2.rbuffer
        = (cut (receiver h) w.rlength w.delivered (w.rbuffer ++ ptr)).rest) := by
  rw [onReceived]
  extract_lets w₁ last w₂ r₂ w₃ w₄ ptr₂ w₅ r₅ w₆
  split
  next hnil =>
    -- an empty chunk
    have hwait : look (receiver h).length w.rlength w.rbuffer = .wait w.rlength :=
      hw.waiting
    rw [List.length_eq_zero_iff.mp hnil, List.append_nil, cut_wait hwait]
    exact ⟨⟨fun _ => ⟨rfl, rfl, rfl, hw.graceful⟩, fun hm => absurd rfl hm,
      fun hm => (by cases hm)⟩, fun _ => rfl⟩
  have hg₁ : w₁.graceful = false := hw.graceful
  rw [if_neg (Bool.eq_false_iff.mp hg₁)]
  split
  next hempty =>
    rw [show w.rbuffer = [] from hempty, List.nil_append]
    exact receiveDirect_cut hg₁ hempty ptr
  next hempty =>
  split
  next hknown =>
    -- the message whose length is known is completed by this chunk
    obtain ⟨hk, hreach⟩ := hknown
    have hlast : last < w.rlength := look_wait hw.waiting hk
    have hlen : w₂.rbuffer.length = w.rlength := by
      have hreach' : w.rlength ≤ w.rbuffer.length + ptr.length := hreach
      have hlast' : last = w.rbuffer.length := rfl
      show (w.rbuffer ++ ptr.take (w.rlength - last)).length = w.rlength
      rw [List.length_append, List.length_take]
      omega
    have htake : w₂.rbuffer.take w₂.rlength = w₂.rbuffer :=
      List.take_of_length_le (Nat.le_of_eq hlen)
    have hjoin : w.rbuffer ++ ptr = w₂.rbuffer ++ ptr.drop (w.rlength - last) := by
      show _ = (w.rbuffer ++ ptr.take (w.rlength - last)) ++ _
      rw [List.append_assoc, List.take_append_drop]
    have hl := fun rest => look_known_message h.getMessageLength hk hlen rest
    have hone := hl []
    rw [List.append_nil] at hone
    obtain ⟨hcount, hspec⟩ := receiveKnown_cut (h := h) (w := w₂) hg₁
      (hl (ptr.drop (w.rlength - last))) hone
    have hr₂ : r₂ = doReceived h w₂ w₂.rbuffer := by
      show doReceived h w₂ (w₂.rbuffer.take w₂.rlength) = _
      rw [htake]
    rw [← hr₂] at hcount hspec
    rw [hjoin]
    split
    next hret =>
      rw [if_pos hret] at hspec
      exact hspec
    next hret =>
      have hptr₂ : ptr₂ = ptr.drop (w.rlength - last) := by
        rcases hcount with hneg | hcount
        · exact absurd hneg hret
        · show ptr.drop (r₂.2.1 - last) = _
          rw [hcount, hlen]
      rw [if_neg hret, ← hptr₂] at hspec
      split
      · rw [hptr₂] at hspec ⊢
        exact hspec
      next hall =>
        have hnil : ptr₂ = [] :=
          List.length_eq_zero_iff.mp (Decidable.not_not.mp hall)
        rw [hnil, receiveDirect_nil] at hspec
        rw [← hptr₂, hnil]
        exact hspec
  next hknown =>
    -- the chunk goes behind what is buffered
    obtain ⟨hf, hdrop⟩ := doReceived_cut (h := h) (w := w₅) hg₁ w₅.rbuffer
    have hkeep : r₅.2.2.rbuffer = w₅.rbuffer := doReceivedLoop_rbuffer _ _ _ _
    split
    next hret => exact ⟨hf, fun hm => absurd hm (hf.not_more hret)⟩
    next hret =>
      refine ⟨(hf.positive (Int.not_le.mp hret)).set_rbuffer _, fun hm => ?_⟩
      show w₆.rbuffer.drop r₅.2.1 = _
      rw [show w₆.rbuffer = w₅.rbuffer from hkeep]
      exact hdrop hm

-- ── A stream in chunks ───────────────────────────────────────────────────────

/-- Nothing is received once the linkage is shutting down. -/
theorem feed_graceful (chunks : List Bytes) :
    ∀ w : World, w.graceful = true →
      (feed h w chunks).2.graceful = true ∧
      (feed h w chunks).2.delivered = w.delivered := by
  induction chunks with
  | nil => intro w hg; exact ⟨hg, rfl⟩
  | cons chunk chunks ih =>
      intro w hg
      have hrec : ∃ w', onReceived h w (some chunk) = (1, w') ∧
          w'.graceful = true ∧ w'.delivered = w.delivered := by
        rw [onReceived]
        split
        · exact ⟨w, rfl, hg, rfl⟩
        · have hg' : w.updateLastReceived.graceful = true := hg
          rw [if_pos hg']
          exact ⟨w.updateLastReceived, rfl, hg, rfl⟩
      obtain ⟨w', heq, hg', hd'⟩ := hrec
      rw [feed, heq, if_neg (by decide : ¬ (1 : Int) ≤ 0), ← hd']
      exact ih w' hg'

/-- **A STREAM IN CHUNKS IS FED TO THE CUT.** -/
theorem feed_cut (chunks : List Bytes) :
    ∀ w : World, Settled h w →
      let c := chunks.foldl (Cut.feed (receiver h)) w.received
      (c.outcome = .more →
        (feed h w chunks).1 = 1 ∧ (feed h w chunks).2.delivered = c.seen ∧
        (feed h w chunks).2.rbuffer = c.rest) ∧
      (c.outcome ≠ .more → c.outcome ≠ .stopped .disconnected →
        (feed h w chunks).1 = outcomeRet c.outcome ∧
        (feed h w chunks).2.delivered = c.seen) ∧
      (c.outcome = .stopped .disconnected →
        c.seen <+: (feed h w chunks).2.delivered ∧
        ((feed h w chunks).2.delivered = c.seen ↔
          ∀ m rest, look h.getMessageLength 0 c.rest ≠ .message m rest)) := by
  induction chunks with
  | nil =>
      intro w hw
      exact ⟨fun _ => ⟨rfl, rfl, rfl⟩, fun hm => absurd rfl hm, fun hm => (by cases hm)⟩
  | cons chunk chunks ih =>
      intro w hw
      obtain ⟨hf, hrest⟩ := onReceived_cut hw chunk
      have hfeed : w.received.feed (receiver h) chunk
          = cut (receiver h) w.rlength w.delivered (w.rbuffer ++ chunk) :=
        Cut.feed_more rfl chunk
      rw [List.foldl_cons, hfeed, feed]
      generalize hc : cut (receiver h) w.rlength w.delivered (w.rbuffer ++ chunk) = c
        at hf hrest
      by_cases hm : c.outcome = .more
      · obtain ⟨hret, hd, hk, hg⟩ := hf.more hm
        have hset := cut_settled (r := receiver h) w.rlength w.delivered
          (w.rbuffer ++ chunk) (by rw [hc]; exact hm)
        rw [hc] at hset
        have hrec : (onReceived h w (some chunk)).2.received = c := by
          rw [World.received, hd, hk, hrest hm, ← hm]
        rw [if_neg (by omega), ← hrec]
        refine ih _ ⟨hg, ?_⟩
        rw [hk, hrest hm]
        exact hset
      · rw [Cut.feed_end hm]
        by_cases hdis : c.outcome = .stopped .disconnected
        · obtain ⟨hg, hov⟩ := hf.overran hdis
          refine ⟨fun h0 => absurd h0 hm, fun _ h0 => absurd hdis h0, fun _ => ?_⟩
          split
          · exact hov
          · rw [(feed_graceful chunks _ hg).2]
            exact hov
        · obtain ⟨hret, hd⟩ := hf.ended hm hdis
          have hle := outcomeRet_end hm hdis
          rw [← hret] at hle
          rw [if_pos hle]
          exact ⟨fun h0 => absurd h0 hm, fun _ _ => ⟨hret, hd⟩,
            fun h0 => absurd h0 hdis⟩

/-- A handler that never disconnects never stops a receiver that way. -/
theorem not_disconnected
    (hquiet : ∀ seen m, (h.onMessage seen m).calls.any Request.disconnects = false)
    {init : List Bytes} {m : Bytes} :
    (receiver h).stop init m ≠ some .disconnected := by
  intro hstop
  have hcalls := (stop_some hstop).2
  rw [hquiet init m] at hcalls
  cases hcalls

theorem unstopped_nil : Unstopped (receiver h) [] := by
  intro pre m post heq
  rcases pre with _ | ⟨x, pre⟩
  · cases heq
  · cases heq

/-- The messages of a stream, and how they end, from the stream alone. -/
def framed (h : LinkageHandler) (stream : Bytes) : Cut UInt8 Verdict :=
  cut (receiver h) 0 [] stream

theorem unread_framed {w : World} (hw : Unread w) (stream : Bytes) :
    cut (receiver h) w.rlength w.delivered (w.rbuffer ++ stream)
      = framed h stream := by
  rw [hw.rlength, hw.delivered, hw.rbuffer, List.nil_append, framed]

/-- Fed in any chunks, a stream ends as its framing does. -/
theorem feed_framed (hpc : PrefixConsistent h.getMessageLength)
    {w : World} (hw : Unread w) (chunks : List Bytes) :
    let c := chunks.foldl (Cut.feed (receiver h)) w.received
    c.outcome = (framed h chunks.flatten).outcome ∧
    c.seen = (framed h chunks.flatten).seen ∧
    (c.outcome = .more → c = framed h chunks.flatten) := by
  have hflat := feed_flatten (r := receiver h) hpc chunks w.received rfl
    (hw.settled (h := h)).waiting
  rw [← unread_framed hw chunks.flatten]
  exact hflat

/-- **FRAMING DOES NOT DEPEND ON THE CHUNKS**: a stream cut in any way delivers
    the messages it delivers at once and ends the same way, and while the
    linkage goes on, what is not delivered is what `_rbuffer` holds. -/
theorem framing_independent_of_chunks (h : LinkageHandler)
    (hpc : PrefixConsistent h.getMessageLength)
    (hquiet : ∀ seen m, (h.onMessage seen m).calls.any Request.disconnects = false)
    (w : World) (hw : Unread w) (chunks : List Bytes) :
    (feed h w chunks).1 = (onReceived h w (some chunks.flatten)).1 ∧
    (feed h w chunks).2.delivered
      = (onReceived h w (some chunks.flatten)).2.delivered ∧
    (0 < (feed h w chunks).1 →
      (feed h w chunks).2.delivered.flatten ++ (feed h w chunks).2.rbuffer
        = chunks.flatten) := by
  -- both sides come to the framing of the stream
  have hdis : (framed h chunks.flatten).outcome ≠ .stopped .disconnected := by
    intro hdis
    obtain ⟨init, m, _, _, hstop⟩ := (cut_unstopped (r := receiver h) 0 []
      chunks.flatten unstopped_nil).1 _ hdis
    exact not_disconnected hquiet hstop
  have honce := (onReceived_cut (hw.settled (h := h)) chunks.flatten).1
  rw [unread_framed hw] at honce
  obtain ⟨hret, hd⟩ := honce.result hdis
  obtain ⟨hmore, hended, _⟩ := feed_cut chunks w (hw.settled (h := h))
  obtain ⟨hout, hseen, hall⟩ := feed_framed hpc hw chunks
  rw [hout] at hmore hended
  rw [hseen] at hmore hended
  rw [hret, hd]
  by_cases hm : (framed h chunks.flatten).outcome = .more
  · obtain ⟨hfret, hfd, hfb⟩ := hmore hm
    rw [hall (hout.trans hm)] at hfb
    refine ⟨?_, hfd, fun _ => ?_⟩
    · rw [hfret, hm]; rfl
    · rw [hfd, hfb]
      exact cut_flatten 0 [] chunks.flatten
  · obtain ⟨hfret, hfd⟩ := hended hm hdis
    refine ⟨hfret, hfd, fun hpos => ?_⟩
    rw [hfret, ← hret] at hpos
    have hle := outcomeRet_end hm hdis
    omega

/-- One byte a message, each accepted: a stream in two chunks. -/
theorem framing_independent_of_chunks_bytes :
    let h : LinkageHandler := ⟨fun _ => 1, fun _ _ => ⟨[], 1⟩, ⟨[], true⟩, [], []⟩
    let w := World.fresh 0 0 0 0 0
    (feed h w [[1], [2, 3]]).2.delivered = [[1], [2], [3]] ∧
    (feed h w [[1], [2, 3]]).2.delivered
      = (onReceived h w (some [[1], [2, 3]].flatten)).2.delivered := by
  intro h w
  exact ⟨by decide, (framing_independent_of_chunks h (fun _ _ _ _ => rfl)
    (fun _ _ => rfl) w ⟨rfl, rfl, rfl, rfl⟩ [[1], [2, 3]]).2.1⟩

-- ── A handler that disconnects ───────────────────────────────────────────────

/-- Nothing is delivered behind a message whose handler disconnected the
    linkage and said go on. -/
def SilentAfterDisconnect (h : LinkageHandler) (delivered : List Bytes) : Prop :=
  ∀ pre m post, delivered = pre ++ m :: post →
    0 < (h.onMessage pre m).ret →
    (h.onMessage pre m).calls.any Request.disconnects = true → post = []

/-- No chunk holds a whole message behind the one whose handler disconnects.
    The chunks are framed from the bytes alone. -/
def LastOfItsChunk (h : LinkageHandler) (chunks : List Bytes) : Prop :=
  let c := chunks.foldl (Cut.feed (receiver h)) Cut.empty
  c.outcome = .stopped .disconnected →
    ∀ m rest, look h.getMessageLength 0 c.rest ≠ .message m rest

theorem Unread.received {w : World} (hw : Unread w) : w.received = Cut.empty := by
  rw [World.received, hw.delivered, hw.rlength, hw.rbuffer, Cut.empty]

/-- The handler disconnects at none of the messages it went on after. -/
theorem unstopped_quiet {seen pre post : List Bytes} {m : Bytes}
    (hu : Unstopped (receiver h) seen) (heq : seen = pre ++ m :: post) :
    (h.onMessage pre m).calls.any Request.disconnects = false :=
  (stop_none (hu pre m post heq)).2

theorem silent_of_unstopped {seen : List Bytes} (hu : Unstopped (receiver h) seen) :
    SilentAfterDisconnect h seen := by
  intro pre m post heq _ hcalls
  rw [unstopped_quiet hu heq] at hcalls
  cases hcalls

/-- Only the last message may be one it stopped at. -/
theorem silent_snoc {init : List Bytes} {m : Bytes}
    (hu : Unstopped (receiver h) init) :
    SilentAfterDisconnect h (init ++ [m]) := by
  intro pre m' post heq _ hcalls
  rcases List.eq_nil_or_concat post with rfl | ⟨post', x, rfl⟩
  · rfl
  · rw [List.concat_eq_append, ← List.cons_append, ← List.append_assoc] at heq
    rw [unstopped_quiet hu (List.append_inj' heq rfl).1] at hcalls
    cases hcalls

/-- **SILENCE AFTER A DISCONNECT** holds exactly when the message that brings
    it is the last whole one of its chunk.  For a length rule that does not
    take back an answer, the messages are then those of the stream, whatever
    the chunks. -/
theorem silent_after_disconnect_iff (h : LinkageHandler) (w : World)
    (hw : Unread w) (chunks : List Bytes) :
    (SilentAfterDisconnect h (feed h w chunks).2.delivered ↔
      LastOfItsChunk h chunks) ∧
    (PrefixConsistent h.getMessageLength → LastOfItsChunk h chunks →
      (feed h w chunks).2.delivered = (framed h chunks.flatten).seen) := by
  obtain ⟨hmore, hended, hover⟩ := feed_cut chunks w (hw.settled (h := h))
  have hun := feed_unstopped chunks w.received
    (by rw [hw.received]; exact unstopped_nil (h := h)) rfl
  have hframed := fun hpc => (feed_framed (h := h) hpc hw chunks).2.1
  rw [LastOfItsChunk]
  rw [hw.received] at hmore hended hover hun hframed
  generalize chunks.foldl (Cut.feed (receiver h)) Cut.empty = c
    at hmore hended hover hun hframed
  by_cases hdis : c.outcome = .stopped .disconnected
  · obtain ⟨hpre, hov⟩ := hover hdis
    obtain ⟨init, m, hseen, hu, hstop⟩ := hun.1 _ hdis
    obtain ⟨hret, hcalls⟩ := stop_some hstop
    refine ⟨⟨fun hs _ => ?_, fun hlast => ?_⟩, fun hpc hlast => ?_⟩
    · -- silence leaves nothing behind the message that disconnects
      obtain ⟨post, hpost⟩ := hpre
      rw [hseen, List.append_assoc] at hpost
      have hnil := hs init m post hpost.symm hret hcalls
      refine hov.mp ?_
      rw [← hpost, hnil, hseen]
      rfl
    · rw [hov.mpr (hlast hdis), hseen]
      exact silent_snoc hu
    · rw [hov.mpr (hlast hdis)]
      exact hframed hpc
  · have hd : (feed h w chunks).2.delivered = c.seen := by
      by_cases hm : c.outcome = .more
      · exact (hmore hm).2.1
      · exact (hended hm hdis).2
    rw [hd]
    refine ⟨⟨fun _ h0 => absurd h0 hdis, fun _ => ?_⟩, fun hpc _ => hframed hpc⟩
    by_cases hstopped : ∃ why, c.outcome = .stopped why
    · obtain ⟨why, hwhy⟩ := hstopped
      obtain ⟨init, m, hseen, hu, _⟩ := hun.1 why hwhy
      rw [hseen]
      exact silent_snoc hu
    · exact silent_of_unstopped (hun.2 fun why hwhy => hstopped ⟨why, hwhy⟩)

/-- One byte a message; the first one is answered by a `Disconnect`. -/
def disconnectFirst : LinkageHandler where
  getMessageLength := fun _ => 1
  onMessage := fun seen _ => ⟨if seen = [] then [.disconnect true] else [], 1⟩
  onConnected := ⟨[], true⟩
  onError := []
  onDisconnected := []

/-- An attached linkage whose io will say `ok` to a shutdown. -/
def attachedWorld : World :=
  { World.fresh 0 0 0 0 0 with
    worker := true
    client := some ⟨true, false, true⟩
    io := [⟨.ok, [], false, 0⟩] }

theorem silent_after_disconnect_split :
    SilentAfterDisconnect disconnectFirst
      (feed disconnectFirst attachedWorld [[1], [2]]).2.delivered := by
  refine (silent_after_disconnect_iff disconnectFirst attachedWorld
    ⟨rfl, rfl, rfl, rfl⟩ [[1], [2]]).1.mpr ?_
  have hcut : cut (receiver disconnectFirst) 0 [] [1]
      = ⟨.stopped .disconnected, [[1]], 0, []⟩ :=
    cut_stop (show look _ 0 [1] = .message [1] [] from rfl) rfl
  have hfirst : Cut.empty.feed (receiver disconnectFirst) [1]
      = ⟨.stopped .disconnected, [[1]], 0, []⟩ := (Cut.feed_more rfl [1]).trans hcut
  have hend : (⟨.stopped .disconnected, [[1]], 0, []⟩ : Cut UInt8 Verdict).outcome
      ≠ .more := fun he => (by cases he)
  rw [LastOfItsChunk, List.foldl_cons, hfirst, Cut.feed_end hend]
  intro _ m rest
  rw [look_nil]
  exact fun he => (by cases he)

/-- Two messages in one chunk: the second is delivered after the `Disconnect`,
    and it is not when it comes in a chunk of its own. -/
theorem delivers_after_disconnect :
    ¬ SilentAfterDisconnect disconnectFirst
      (feed disconnectFirst attachedWorld [[1, 2]]).2.delivered ∧
    (feed disconnectFirst attachedWorld [[1, 2]]).2.delivered = [[1], [2]] ∧
    (feed disconnectFirst attachedWorld [[1], [2]]).2.delivered = [[1]] := by
  have hd : (feed disconnectFirst attachedWorld [[1, 2]]).2.delivered = [[1], [2]] := by
    decide
  refine ⟨fun hs => ?_, hd, by decide⟩
  exact absurd (hs [] [1] [[2]] hd (by decide) (by decide)) (by decide)

end FlinterLinkage
