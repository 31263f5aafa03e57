import Flinter.CgiProofs

/-! # How a CGI request announces its body

    When a kept back body is flushed before the headers are sent, `FlushBody`
    announces it: by its length if the request is handled, so that nothing more
    is to come, else as chunked.  The length is right.  The body is never put
    into chunks, so a body that is announced as chunked is not what was
    announced. -/

namespace FlinterCgi

variable {neosStrip : Text → Text} {c c' : CGI} {r : Request} {call : Call}
variable {body text fmt : Text} {filters : List (List Step × Result)}
variable {run : List Step}

-- ── The chunked encoding ─────────────────────────────────────────────────────

def crlf : Text := ['\r', '\n']

def isHex (ch : Char) : Bool :=
  ch.isDigit || ('a' ≤ ch && ch ≤ 'f') || ('A' ≤ ch && ch ≤ 'F')

def hexValue (ch : Char) : Nat :=
  if ch.isDigit then ch.toNat - 48
  else if 'a' ≤ ch then ch.toNat - 87
  else ch.toNat - 55

/-- A chunk size in hexadecimal digits. -/
def IsSize (size : Text) (n : Nat) : Prop :=
  size ≠ [] ∧ (∀ ch ∈ size, isHex ch = true) ∧
    size.foldl (fun n ch => 16 * n + hexValue ch) 0 = n

/-- A chunk extension, if any. -/
def IsExtension (ext : Text) : Prop := ext = [] ∨ ext.head? = some ';'

/-- `encoded` is a chunked encoding of the body: chunks, the last chunk, maybe a
    trailer, and an empty line. -/
inductive Chunked : Text → Text → Prop where
  | last (size ext : Text) (trailer : List Text) (hsize : IsSize size 0)
      (hext : IsExtension ext) :
      Chunked (size ++ ext ++ crlf ++ (trailer.map (· ++ crlf)).flatten ++ crlf) []
  | chunk (size ext data encoded body : Text) (hdata : data ≠ [])
      (hsize : IsSize size data.length) (hext : IsExtension ext)
      (hrest : Chunked encoded body) :
      Chunked (size ++ ext ++ crlf ++ data ++ crlf ++ encoded) (data ++ body)

/-- An encoding is longer than what it encodes. -/
theorem Chunked.length_lt {encoded : Text} (h : Chunked encoded body) :
    body.length < encoded.length := by
  induction h with
  | last size ext trailer hsize hext =>
      rw [List.length_append, crlf]
      exact Nat.lt_of_lt_of_le (Nat.zero_lt_two) (Nat.le_add_left _ _)
  | chunk size ext data encoded body hdata hsize hext hrest ih =>
      simp only [List.length_append]
      omega

example : Chunked ['2', '\r', '\n', 'h', 'i', '\r', '\n', '0', '\r', '\n',
    '\r', '\n'] ['h', 'i'] :=
  .chunk ['2'] [] ['h', 'i'] _ [] (by decide)
    ⟨by decide, List.forall_mem_singleton.mpr rfl, rfl⟩ (.inl rfl)
    (.last ['0'] [] [] ⟨by decide, List.forall_mem_singleton.mpr rfl, rfl⟩
      (.inl rfl))

-- ── What is announced ────────────────────────────────────────────────────────

def contentLength : Text := "Content-Length".toList
def transferEncoding : Text := "Transfer-Encoding".toList
def chunked : Text := "chunked".toList

/-- The calls that write, flush, or switch the buffering. -/
def Call.IsBody : Call → Prop
  | .outputBody _ | .outputBodyF _ _ _ | .overflow _ | .xsputn _
  | .setBodyBuffered _ | .flushBody | .finish => True
  | _ => False

/-- A call that flushes a kept back body before the headers are sent. -/
def FlushesEarly (e : CGI × Call) : Prop :=
  (e.2 = .flushBody ∨ e.2 = .setBodyBuffered false) ∧
    e.1.headerSent = false ∧ e.1.bufferedBody ≠ []

/-- The headers stay, and stay sent. -/
structure Keeps (c c' : CGI) : Prop where
  headers : c'.headers = c.headers
  handled : c'.requestHandled = c.requestHandled
  sent : c.headerSent = true → c'.headerSent = true

theorem keeps_self (c : CGI) : Keeps c c := ⟨rfl, rfl, id⟩

theorem keeps_outputHeaders (c : CGI) :
    Keeps c c.outputHeaders ∧ c.outputHeaders.headerSent = true := by
  cases hsent : c.headerSent with
  | true =>
      rw [CGI.outputHeaders_sent hsent]
      exact ⟨keeps_self c, hsent⟩
  | false =>
      rw [CGI.outputHeaders_eq hsent]
      exact ⟨⟨rfl, rfl, fun _ => rfl⟩, rfl⟩

theorem keeps_realOutput (c : CGI) (body : Text) (bodySent : Bool) :
    Keeps c (CGI.realOutput { c.outputHeaders with bodySent := bodySent } body) := by
  obtain ⟨hkeeps, hsent⟩ := keeps_outputHeaders c
  rw [CGI.realOutput_eq]
  exact ⟨hkeeps.headers, hkeeps.handled, fun _ => hsent⟩

theorem keeps_outputBody (c : CGI) (body : Text) : Keeps c (c.outputBody body) := by
  rw [CGI.outputBody]
  split
  · exact keeps_self c
  · split
    · exact ⟨rfl, rfl, id⟩
    · exact keeps_realOutput c body true

theorem keeps_outputBodyV {again : Option Text}
    (hok : c.outputBodyV fmt text again = .ok c') : Keeps c c' := by
  unfold CGI.outputBodyV at hok
  split at hok
  · obtain rfl := Except.ok.inj hok
    exact keeps_self c
  · split at hok
    · obtain rfl := Except.ok.inj hok
      exact keeps_realOutput c text true
    · split at hok
      · cases hok
      · split at hok
        · obtain rfl := Except.ok.inj hok
          exact keeps_self c
        · split at hok
          · obtain rfl := Except.ok.inj hok
            exact keeps_outputBody c text
          · cases again with
            | none => cases hok
            | some buf =>
                dsimp only at hok
                split at hok
                · cases hok
                · obtain rfl := Except.ok.inj hok
                  exact keeps_outputBody c buf

/-- The header by which `FlushBody` announces a body. -/
def framing (c : CGI) : Text × Text :=
  if c.requestHandled then (contentLength, decimal c.bufferedBody.length)
  else (transferEncoding, chunked)

theorem decimal_ne_nil (n : Nat) : decimal n ≠ [] := by
  rw [decimal, if_neg (by omega)]
  exact Nat.toDigits_ne_nil

theorem setHeaderInternal_first {key value : Text} (hsent : c.headerSent = false)
    (hheaders : c.headers = []) (hvalue : value ≠ []) :
    c.setHeaderInternal key value false =
      .ok { c with headers := [(key, value)] } := by
  unfold CGI.setHeaderInternal
  rw [hheaders, if_neg (Bool.eq_false_iff.mp hsent), if_neg hvalue]
  rfl

theorem announceBody_first (hsent : c.headerSent = false)
    (hheaders : c.headers = []) :
    c.announceBody = .ok { c with headers := [framing c] } := by
  have hdo : (!c.headerSent) = true := by
    rw [hsent]
    rfl
  unfold CGI.announceBody framing
  rw [if_pos hdo, if_pos hdo]
  split
  · exact setHeaderInternal_first hsent hheaders (decimal_ne_nil _)
  · exact setHeaderInternal_first hsent hheaders (by decide)

theorem keeps_sendBody (c : CGI) :
    Keeps c c.sendBody ∧ c.sendBody.headerSent = true := by
  cases hsent : c.headerSent with
  | true =>
      rw [CGI.sendBody_sent hsent]
      exact ⟨⟨rfl, rfl, fun _ => hsent⟩, hsent⟩
  | false =>
      rw [CGI.sendBody_unsent hsent]
      exact ⟨⟨rfl, rfl, fun _ => rfl⟩, rfl⟩

/-- A flush does not fail, and leaves the headers sent.  They are as they were,
    unless it announces a body. -/
theorem flushBody_spec (c : CGI) : ∃ c', c.flushBody = .ok c' ∧
    c'.headerSent = true ∧ c'.requestHandled = c.requestHandled ∧
    (c.headerSent = true ∨ c.bufferedBody = [] → c'.headers = c.headers) ∧
    (c.headerSent = false → c.headers = [] → c.bufferedBody ≠ [] →
      c'.headers = [framing c]) := by
  unfold CGI.flushBody
  by_cases hempty : c.bufferedBody = []
  · obtain ⟨hkeeps, hsent⟩ := keeps_outputHeaders c
    exact ⟨_, if_pos hempty, hsent, hkeeps.handled, fun _ => hkeeps.headers,
      fun _ _ hne => absurd hempty hne⟩
  · rw [if_neg hempty]
    obtain ⟨headers, hannounce, hsame⟩ := announceBody_cases c
    obtain ⟨hkeeps, hsent⟩ := keeps_sendBody { c with headers := headers }
    rw [hannounce]
    refine ⟨_, rfl, hsent, hkeeps.handled, fun h => ?_, fun hunsent hheaders _ => ?_⟩
    · exact hkeeps.headers.trans (hsame (h.resolve_right hempty))
    · rw [announceBody_first hunsent hheaders] at hannounce
      rw [hkeeps.headers, ← congrArg CGI.headers (Except.ok.inj hannounce)]

-- ── Runs ─────────────────────────────────────────────────────────────────────

/-- The headers, after calls that set none: none while they can be set, and
    later the one that announced chunks, if a flush came early. -/
structure Framed (r : Request) : Prop where
  handled : r.cgi.requestHandled = false
  unsent : r.cgi.headerSent = false →
    r.cgi.headers = [] ∧ ∀ e ∈ r.made, ¬FlushesEarly e
  sent : r.cgi.headerSent = true →
    r.cgi.headers = [] ∧ (∀ e ∈ r.made, ¬FlushesEarly e) ∨
      r.cgi.headers = [(transferEncoding, chunked)] ∧ ∃ e ∈ r.made, FlushesEarly e

/-- A call that is no early flush keeps to it. -/
theorem Framed.keeps (h : Framed r) (hkeeps : Keeps r.cgi c')
    (hlate : ¬FlushesEarly (r.cgi, call)) :
    Framed ⟨c', r.made ++ [(r.cgi, call)]⟩ := by
  have hmade : (∀ e ∈ r.made, ¬FlushesEarly e) →
      ∀ e ∈ r.made ++ [(r.cgi, call)], ¬FlushesEarly e := by
    intro hnone e he
    rcases List.mem_append.mp he with he | he
    · exact hnone e he
    · rw [List.mem_singleton.mp he]
      exact hlate
  refine ⟨hkeeps.handled.trans h.handled, fun hunsent => ?_, fun _ => ?_⟩
  · have hwas : r.cgi.headerSent = false := by
      by_contra hne
      rw [hkeeps.sent (Bool.not_eq_false _ ▸ hne)] at hunsent
      cases hunsent
    obtain ⟨hheaders, hnone⟩ := h.unsent hwas
    exact ⟨hkeeps.headers.trans hheaders, hmade hnone⟩
  · have hcases : r.cgi.headers = [] ∧ (∀ e ∈ r.made, ¬FlushesEarly e) ∨
        r.cgi.headers = [(transferEncoding, chunked)] ∧
          ∃ e ∈ r.made, FlushesEarly e := by
      cases hwas : r.cgi.headerSent with
      | true => exact h.sent hwas
      | false => exact .inl (h.unsent hwas)
    rcases hcases with ⟨hheaders, hnone⟩ | ⟨hheaders, e, he, hearly⟩
    · exact .inl ⟨hkeeps.headers.trans hheaders, hmade hnone⟩
    · exact .inr ⟨hkeeps.headers.trans hheaders, e,
        List.mem_append_left _ he, hearly⟩

/-- A flush, with the buffering on or off. -/
theorem Framed.flushes (h : Framed r) (buffered : Bool)
    (hcall : call = .flushBody ∨ call = .setBodyBuffered false)
    (hok : CGI.flushBody { r.cgi with buffered := buffered } = .ok c') :
    Framed ⟨c', r.made ++ [(r.cgi, call)]⟩ := by
  obtain ⟨c₁, hflush, hsent, hhandled, hsame, hannounce⟩ :=
    flushBody_spec { r.cgi with buffered := buffered }
  obtain rfl := Except.ok.inj (hflush.symm.trans hok)
  by_cases hearly : FlushesEarly (r.cgi, call)
  · have hunsent := hearly.2.1
    have hne := hearly.2.2
    obtain ⟨hheaders, -⟩ := h.unsent hunsent
    have hframing : framing { r.cgi with buffered := buffered } =
        (transferEncoding, chunked) := if_neg (Bool.eq_false_iff.mp h.handled)
    refine ⟨hhandled.trans h.handled, fun hnot => ?_, fun _ => .inr ⟨?_, ?_⟩⟩
    · exact absurd hsent (Bool.eq_false_iff.mp hnot)
    · rw [hannounce hunsent hheaders hne, hframing]
    · exact ⟨_, List.mem_append_right _ (List.mem_singleton_self _), hearly⟩
  · have hkeeps : Keeps r.cgi c₁ := by
      refine ⟨hsame ?_, hhandled, fun _ => hsent⟩
      by_contra hboth
      rw [not_or, Bool.not_eq_true] at hboth
      exact hearly ⟨hcall, hboth⟩
    exact h.keeps hkeeps hearly

theorem framed_ok (hbody : call.IsBody) (h : Framed r)
    (hok : invoke neosStrip r.cgi call = .ok c') :
    Framed ⟨c', r.made ++ [(r.cgi, call)]⟩ := by
  have hwrites : ∀ {call : Call}, call ≠ .flushBody → call ≠ .setBodyBuffered false →
      ¬FlushesEarly (r.cgi, call) := by
    rintro call hflush hset ⟨h | h, -⟩
    · exact hflush h
    · exact hset h
  cases call with
  | outputBody body =>
      obtain rfl := Except.ok.inj hok
      exact h.keeps (keeps_outputBody _ body) (hwrites (by simp) (by simp))
  | outputBodyF fmt text again =>
      exact h.keeps (keeps_outputBodyV hok) (hwrites (by simp) (by simp))
  | overflow ch =>
      obtain rfl := Except.ok.inj hok
      exact h.keeps (keeps_outputBody _ [ch]) (hwrites (by simp) (by simp))
  | xsputn s =>
      obtain rfl := Except.ok.inj hok
      exact h.keeps (keeps_outputBody _ s) (hwrites (by simp) (by simp))
  | setBodyBuffered buffered =>
      cases buffered with
      | false => exact h.flushes false (.inr rfl) hok
      | true =>
          obtain rfl := Except.ok.inj hok
          exact h.keeps ⟨rfl, rfl, id⟩ (hwrites (by simp) (by simp))
  | flushBody => exact h.flushes r.cgi.buffered (.inl rfl) hok
  | finish => cases hok
  | _ => cases hbody

theorem framed_error {e : Thrown} (h : Framed r)
    (herror : invoke neosStrip r.cgi call = .error e) :
    Framed ⟨r.cgi, r.made ++ [(r.cgi, call)]⟩ := by
  refine h.keeps (keeps_self _) ?_
  -- a flush does not fail
  rintro ⟨hflush | hflush, -⟩
  · have hcall : call = .flushBody := hflush
    subst hcall
    obtain ⟨c', hok⟩ := flushBody_ok r.cgi
    cases hok.symm.trans herror
  · have hcall : call = .setBodyBuffered false := hflush
    subst hcall
    obtain ⟨c', hok⟩ := flushBody_ok { r.cgi with buffered := false }
    cases hok.symm.trans herror

/-- The headers that were sent in the end, and what they announce. -/
theorem processRequest_headers (hbody : Calls Call.IsBody filters run)
    (h : processRequest neosStrip filters run = some r) :
    (r.cgi.headers = [] ∧ ∀ e ∈ r.made, ¬FlushesEarly e) ∨
    (r.cgi.headers = [(transferEncoding, chunked)] ∧
      ∃ e ∈ r.made, FlushesEarly e) ∨
    (r.cgi.headers =
        [(contentLength, decimal (taken neosStrip r.made).length)] ∧
      ∀ e ∈ r.made, ¬FlushesEarly e) := by
  obtain ⟨r', hrun, hflush, hmade⟩ := processRequest_cases h
  have hframed : Framed r' := by
    rw [← hrun]
    refine runFilters_invariant (fun r call c' hbody hr hok => framed_ok hbody hr hok)
      (fun r call e _ hr herror => framed_error hr herror) hbody true ?_
    exact ⟨rfl, fun _ => ⟨rfl, by simp⟩, fun h => (by cases h)⟩
  have hholds := runs_hold neosStrip filters run
  rw [hrun] at hholds
  obtain ⟨c', hflush', hsent, hhandled, hsame, hannounce⟩ :=
    flushBody_spec { r'.cgi with requestHandled := true }
  obtain rfl := Except.ok.inj (hflush.symm.trans hflush')
  rw [hmade]
  by_cases hlate : r'.cgi.headerSent = true ∨ r'.cgi.bufferedBody = []
  · have hheaders : r.cgi.headers = r'.cgi.headers := hsame hlate
    rw [hheaders]
    cases hwas : r'.cgi.headerSent with
    | true =>
        rcases hframed.sent hwas with hnone | hchunked
        · exact .inl hnone
        · exact .inr (.inl hchunked)
    | false => exact .inl (hframed.unsent hwas)
  · rw [not_or, Bool.not_eq_true] at hlate
    obtain ⟨hnone, hmade'⟩ := hframed.unsent hlate.1
    have hheaders := hannounce hlate.1 hnone hlate.2
    have hlength : framing { r'.cgi with requestHandled := true } =
        (contentLength, decimal (taken neosStrip r'.made).length) := by
      rw [← (hholds.1.unsent hlate.1).2]
      exact if_pos rfl
    rw [hlength] at hheaders
    exact .inr (.inr ⟨hheaders, hmade'⟩)

/-- What follows the headers is what they announce. -/
def Announced (r : Request) : Prop :=
  ∃ status rest, Known status ∧
    r.cgi.out = block status r.cgi.headers ++ rest ∧
    (∀ n, (contentLength, n) ∈ r.cgi.headers → n = decimal rest.length) ∧
    ((transferEncoding, chunked) ∈ r.cgi.headers →
      Chunked rest (written r.made))

/-- Raw bytes are too few to be chunks of what was written. -/
theorem not_announced (hbody : Calls Call.IsBody filters run)
    (h : processRequest neosStrip filters run = some r)
    (hearly : ∃ e ∈ r.made, FlushesEarly e) : ¬Announced r := by
  rintro ⟨status', rest, -, hout', -, hchunks⟩
  obtain ⟨status, -, hout⟩ := processRequest_out h
  have hrest := block_inj (hout.symm.trans hout')
  have hle : (taken neosStrip r.made).length ≤ (written r.made).length :=
    flatten_length_le fun e _ => (delivered_spec e).1
  obtain ⟨e, he, hflush⟩ := hearly
  rcases processRequest_headers hbody h with
    ⟨-, hnone⟩ | ⟨hheaders, -⟩ | ⟨-, hnone⟩
  · exact hnone e he hflush
  · have hchunked := hchunks (hheaders ▸ List.mem_singleton_self _)
    rw [← hrest] at hchunked
    have hlt := hchunked.length_lt
    omega
  · exact hnone e he hflush

/-- **ANNOUNCED**: when `ProcessRequest` returns from calls that write, flush or
    switch the buffering, the body is what the headers announce, its length or
    chunks; if and only if no call has flushed a kept back body before the headers
    were sent. -/
theorem processRequest_announced (hbody : Calls Call.IsBody filters run)
    (h : processRequest neosStrip filters run = some r) :
    Announced r ↔ ∀ e ∈ r.made, ¬FlushesEarly e := by
  constructor
  · intro hannounced e he hearly
    exact not_announced hbody h ⟨e, he, hearly⟩ hannounced
  · intro hnone
    obtain ⟨status, hknown, hout⟩ := processRequest_out h
    have hkeys : contentLength ≠ transferEncoding := by decide
    refine ⟨status, _, hknown, hout, fun n hn => ?_, fun hmem => ?_⟩
    · rcases processRequest_headers hbody h with
        ⟨hheaders, -⟩ | ⟨-, e, he, hearly⟩ | ⟨hheaders, -⟩
      · rw [hheaders] at hn
        cases hn
      · exact absurd hearly (hnone e he)
      · rw [hheaders] at hn
        exact congrArg Prod.snd (List.mem_singleton.mp hn)
    · rcases processRequest_headers hbody h with
        ⟨hheaders, -⟩ | ⟨-, e, he, hearly⟩ | ⟨hheaders, -⟩
      · rw [hheaders] at hmem
        cases hmem
      · exact absurd hearly (hnone e he)
      · rw [hheaders] at hmem
        exact absurd (congrArg Prod.fst (List.mem_singleton.mp hmem)).symm hkeys

/-- Two letters go out without buffering, and a third one is kept back behind
    them. -/
theorem processRequest_announced_letters :
    ∃ r, processRequest id [] [⟨.setBodyBuffered false, false⟩,
      ⟨.outputBody ['h', 'i'], false⟩, ⟨.setBodyBuffered true, false⟩,
      ⟨.outputBody ['!'], false⟩] = some r ∧ Announced r := by
  obtain ⟨c₁, hflush⟩ := flushBody_ok { CGI.new with buffered := false }
  generalize hc₂ : c₁.outputBody ['h', 'i'] = c₂
  have hpasses : Passes id .new [(.new, .setBodyBuffered false),
      (c₁, .outputBody ['h', 'i']), (c₂, .setBodyBuffered true),
      ({ c₂ with buffered := true }, .outputBody ['!'])] _ :=
    .call hflush (.call (congrArg Except.ok hc₂) (.call rfl (.call rfl .done)))
  obtain ⟨c, hc⟩ := hpasses.returns
  have hbody : Calls Call.IsBody [] [⟨.setBodyBuffered false, false⟩,
      ⟨.outputBody ['h', 'i'], false⟩, ⟨.setBodyBuffered true, false⟩,
      ⟨.outputBody ['!'], false⟩] := by
    refine ⟨fun f hf => (by cases hf), fun s hs => ?_⟩
    simp only [List.mem_cons, List.not_mem_nil, or_false] at hs
    rcases hs with rfl | rfl | rfl | rfl <;> trivial
  refine ⟨_, hc, (processRequest_announced hbody hc).mpr fun e he => ?_⟩
  simp only [List.mem_cons, List.not_mem_nil, or_false] at he
  rcases he with rfl | rfl | rfl | rfl
  · rintro ⟨-, -, hkept⟩
    exact hkept rfl
  · rintro ⟨hflushes, -⟩
    simp at hflushes
  · rintro ⟨hflushes, -⟩
    simp at hflushes
  · rintro ⟨hflushes, -⟩
    simp at hflushes

/-- Two letters are written and the buffering is switched off: they are announced
    as chunks and sent as they are. -/
theorem letters_not_chunked :
    ∃ r, processRequest id [] [⟨.outputBody ['h', 'i'], false⟩,
      ⟨.setBodyBuffered false, false⟩] = some r ∧ ¬Announced r := by
  obtain ⟨c₂, hflush⟩ := flushBody_ok
    { CGI.new.outputBody ['h', 'i'] with buffered := false }
  have hpasses : Passes id .new [(.new, .outputBody ['h', 'i']),
      (CGI.new.outputBody ['h', 'i'], .setBodyBuffered false)] c₂ :=
    .call rfl (.call hflush .done)
  obtain ⟨c, hc⟩ := hpasses.returns
  have hbody : Calls Call.IsBody [] [⟨.outputBody ['h', 'i'], false⟩,
      ⟨.setBodyBuffered false, false⟩] := by
    refine ⟨fun f hf => (by cases hf), fun s hs => ?_⟩
    simp only [List.mem_cons, List.not_mem_nil, or_false] at hs
    rcases hs with rfl | rfl <;> trivial
  refine ⟨_, hc, not_announced hbody hc
    ⟨(CGI.new.outputBody ['h', 'i'], .setBodyBuffered false), ?_, ?_⟩⟩
  · exact List.mem_cons_of_mem _ (List.mem_singleton_self _)
  · exact ⟨.inr rfl, rfl, by decide⟩

end FlinterCgi
