import Flinter.CgiFramingProofs

/-! # From a request to its response

    `Dispatcher` finds the handler of a request, makes it and has it process the
    request.  Whatever the filters and `Run` of a handler do, they may throw an
    exception of their own, and so may the constructor: an `HttpException` is
    answered by the default handler, if nothing was sent, and others are not
    answered at all.  What the default handler throws then leaves the dispatcher.

    `Worker::Run` serves one request after the other, until one is not
    dispatched. -/

namespace FlinterCgi

/-- What a program throws that uses the object: an `HttpException`, or anything
    else. -/
inductive Exc where
  | http (statusCode : Int)
  | other
deriving DecidableEq, Repr

/-- `Filter::Process`: the calls it makes, and how it ends. -/
structure Filter where
  calls : List Step
  ends : Except Exc Result

/-- A class derived of `CGI`, on one request: its filters, and the calls of `Run`
    with what it throws behind them. -/
structure Handler where
  filters : List Filter
  run : List Step
  raises : Option Exc

/-- What leaves a filter or `Run`. -/
inductive Left where
  | endException
  | raised (e : Exc)
deriving DecidableEq, Repr

/-- What the object itself throws is no `HttpException`. -/
def Left.of : Thrown → Left
  | .endException => .endException
  | .error _ => .raised .other

namespace Handler

variable (neosStrip : Text → Text) (h : Handler)

/-- `Run`. -/
def runs (r : Request) : Option Left × Request :=
  match perform neosStrip r h.run with
  | (some e, r) => (some (.of e), r)
  | (none, r) => (h.raises.map .raised, r)

/-- `ProcessRequest`: the filters, then `Run` if they let it. -/
def process (r : Request) (ready : Bool) : List Filter → Option Left × Request
  | [] => if ready then h.runs neosStrip r else (none, r)
  | filter :: rest =>
      match perform neosStrip r filter.calls with
      | (some e, r) => (some (.of e), r)
      | (none, r) =>
          match filter.ends with
          | .error e => (some (.raised e), r)
          | .ok ret =>
              let ready :=
                if ret = .kResultFail ∨ ret = .kResultNext then false else ready
              if ret = .kResultFail ∨ ret = .kResultBreak then
                if ready then h.runs neosStrip r else (none, r)
              else process r ready rest

/-- `ProcessRequest`: what leaves it, and the object then. -/
def processRequest : Option Exc × Request :=
  match h.process neosStrip ⟨.new, []⟩ true h.filters with
  | (some (.raised e), r) => (some e, r)
  | (_, r) =>
      match CGI.flushBody { r.cgi with requestHandled := true } with
      | .ok c => (none, { r with cgi := c })
      | .error _ => (some .other, r)

end Handler

-- ── The dispatcher ───────────────────────────────────────────────────────────

/-- `Factory<CGI>::Create`: a handler for this request, unless the constructor
    throws.  A constructor is taken to output nothing. -/
abbrev Factory (ρ : Type) := ρ → Except Exc Handler

/-- `Dispatcher`: `requestUri` is `REQUEST_URI` of a request, a C string that may be
    missing, and `defaultFactory` makes a `DefaultHandler` and sets its status.
    `set_site_root` sees to it that the root is between slashes.  There are no
    system factories. -/
structure Dispatcher (ρ : Type) where
  singleHandlerMode : Bool
  factories : List (Text × Factory ρ)
  siteRoot : Text
  rooted : siteRoot.head? = some '/' ∧ siteRoot.getLast? = some '/'
  requestUriToHandlerPath : Text → Text
  defaultFactory : Int → Factory ρ
  requestUri : ρ → Option Text

/-- What came of a request: what `DispatchRequest` returned, unless an exception
    left it, and the objects that were made, in order. -/
structure Dispatched where
  result : Option Bool
  objects : List Request

/-- All that was sent. -/
def Dispatched.out (r : Dispatched) : Text := (r.objects.map fun o => o.cgi.out).flatten

namespace Dispatcher

variable {ρ : Type} (neosStrip : Text → Text) (d : Dispatcher ρ)

/-- `PassthroughDispatcher`. -/
def passthrough (requestUri : Text) : Text := requestUri.takeWhile (· ≠ '?')

/-- `GetDefaultHandler`. -/
def getDefaultHandler (q : ρ) : Except Exc Handler := d.defaultFactory 404 q

/-- `GetHandler`, when it looks at the path. -/
def getHandlerOf (q : ρ) (path : Text) : Except Exc Handler :=
  let cut := path.takeWhile (· ≠ '?')
  if cut.take d.siteRoot.length ≠ d.siteRoot then d.getDefaultHandler q
  else
    let uri := d.requestUriToHandlerPath (path.drop (d.siteRoot.length - 1))
    if uri = [] then d.getDefaultHandler q
    else
      match d.factories.lookup uri with
      | some factory => factory q
      | none => d.getDefaultHandler q

/-- `GetHandler`: `none` is NULL. -/
def getHandler (q : ρ) : Option (Except Exc Handler) :=
  match d.singleHandlerMode, d.factories with
  | true, [(_, factory)] => some (factory q)
  | _, _ =>
      match d.requestUri q with
      | none => none
      | some path => if path.head? ≠ some '/' then none else some (d.getHandlerOf q path)

/-- `ProcessException`, unless it is too late. -/
def processException (q : ρ) (objects : List Request) (statusCode : Int) : Dispatched :=
  match d.defaultFactory statusCode q with
  | .error _ => ⟨none, objects⟩
  | .ok h =>
      match h.processRequest neosStrip with
      | (none, r) => ⟨some true, objects ++ [r]⟩
      | (some _, r) => ⟨none, objects ++ [r]⟩

/-- The `catch` clauses of `DispatchRequest`. -/
def handleException (q : ρ) (objects : List Request) (headerSent : Bool) : Exc → Dispatched
  | .http statusCode =>
      if headerSent then ⟨some true, objects⟩ else d.processException neosStrip q objects statusCode
  | .other => ⟨some false, objects⟩

/-- `DispatchRequest`. -/
def dispatchRequest (q : ρ) : Dispatched :=
  match d.getHandler q with
  | none => ⟨some false, []⟩
  | some (.error e) => d.handleException neosStrip q [] false e
  | some (.ok h) =>
      match h.processRequest neosStrip with
      | (none, r) => ⟨some true, [r]⟩
      | (some e, r) => d.handleException neosStrip q [r] r.cgi.headerSent e

/-- `Worker::Run`, given the requests it accepts: what came of those that it
    served. -/
def serve : List ρ → List Dispatched
  | [] => []
  | q :: qs =>
      let r := d.dispatchRequest neosStrip q
      if r.result = some true then r :: serve qs else [r]

end Dispatcher

-- ── The page of the default handler ──────────────────────────────────────────

/-- What the page is made of: the address, the address of the administrator and
    the method, each of them escaped. -/
structure Page where
  final : Text
  admin : Text
  method : Text

/-- The switch of `RunStandardHandler`. -/
def Page.paragraph (page : Page) (status : Int) : List Text :=
  if status ∈ [(301 : Int), 302, 307, 308] then
    ["<p>The document has moved <a href=\"".toList, page.final, "\">here</a>.</p>\n".toList]
  else if status = 303 then
    ["<p>The answer to your request is located <a href=\"".toList, page.final,
      "\">here</a>.</p>\n".toList]
  else if status = 305 then
    ["<p>This resource is only accessible through the proxy\n".toList, page.final,
      "<br />\nYou will need to configure your client to use that proxy.</p>\n".toList]
  else if status = 400 then
    ["<p>Your browser sent a request that this server could not understand.<br />\n".toList]
  else if status ∈ [(403 : Int), 407] then
    ["<p>You don't have permission to access ".toList, page.final,
      "\non this server.<br /></p>\n".toList]
  else if status = 404 then
    ["<p>The requested URL ".toList, page.final, " was not found on this server.</p>\n".toList]
  else if status = 405 then
    ["<p>The requested method ".toList, page.method, " is not allowed for the URL ".toList,
      page.final, ".</p>\n".toList]
  else if status = 406 then
    ["<p>An appropriate representation of the requested resource ".toList, page.final,
      " could not be found on this server.</p>\n".toList]
  else if status = 412 then
    ["<p>The precondition on the request for the URL ".toList, page.final,
      " evaluated to false.</p>\n".toList]
  else if status = 415 then
    [("<p>The supplied request data is not in a format\n" ++
      "acceptable for processing by this resource.</p>\n").toList]
  else if status = 416 then
    [("<p>None of the range-specifier values in the Range\n" ++
      "request-header field overlap the current extent\n" ++
      "of the selected resource.</p>\n").toList]
  else if status = 428 then ["<p>The request is required to be conditional.</p>\n".toList]
  else if status = 501 then
    ["<p>".toList, page.method, " to ".toList, page.final,
      " not supported.<br /></p>\n".toList]
  else if status = 502 then
    [("<p>The proxy server received an invalid\n" ++
      "response from an upstream server.<br /></p>\n").toList]
  else if status = 503 then
    [("<p>The server is temporarily unable to service your\n" ++
      "request due to maintenance downtime or capacity\n" ++
      "problems. Please try again later.</p>\n").toList]
  else if status = 504 then
    [("<p>The gateway did not receive a timely response\n" ++
      "from the upstream server or application.</p>\n").toList]
  else
    [("<p>The server encountered an internal error or\n" ++
      "misconfiguration and was unable to complete\n" ++
      "your request.</p>\n" ++
      "<p>Please contact the server administrator at \n ").toList, page.admin,
      (" to inform them of the time this error occurred,\n" ++
      " and the actions you performed just before this error.</p>\n" ++
      "<p>More information about this error may be available\n" ++
      "in the server error log.</p>\n").toList]

/-- What is put into the stream. -/
def Page.texts (page : Page) (status : Int) : List Text :=
  let text := ((findStatus status).getD "").toList
  [("<!DOCTYPE HTML PUBLIC \"-//IETF//DTD HTML 2.0//EN\">\n" ++
      "<html><head>\n<title>").toList, decimal status, [' '], text,
    "</title>\n</head><body>\n<h1>".toList, text, "</h1>\n".toList] ++
    page.paragraph status ++ ["</body></html>\n".toList]

/-- `DefaultApacheHandler`: `RunStandardHandler`.  A status without a text would
    get the page of 500, but `SetStatusCode` throws before. -/
def standardHandler (page : Page) (status : Int) : Handler where
  filters := []
  run := [⟨.setStatusCode status, false⟩, ⟨.setBodyBuffered true, false⟩,
    ⟨.setContentType "text/html".toList "iso-8859-1".toList, false⟩] ++
    (page.texts (if (findStatus status).isSome then status else 500)).map fun s =>
      ⟨.xsputn s, false⟩
  raises := none

-- ── What is kept back ────────────────────────────────────────────────────────

variable {neosStrip : Text → Text} {c c' : CGI} {call : Call} {body : Text}
variable {h : Handler} {r o : Request}

theorem outputHeaders_bufferedBody (c : CGI) :
    c.outputHeaders.bufferedBody = c.bufferedBody := by
  cases hsent : c.headerSent with
  | true => rw [CGI.outputHeaders_sent hsent]
  | false => rw [CGI.outputHeaders_eq hsent]

/-- A body is kept back if it is buffered. -/
theorem outputBody_bufferedBody (c : CGI) (body : Text) :
    (c.outputBody body).bufferedBody =
      c.bufferedBody ++ if c.buffered = true then body else [] := by
  rw [CGI.outputBody]
  split
  next hbody =>
    rw [hbody]
    split
    · exact (List.append_nil _).symm
    · exact (List.append_nil _).symm
  next =>
    split
    · rfl
    · rw [CGI.realOutput_eq, List.append_nil]
      exact outputHeaders_bufferedBody c

theorem setHeaderInternal_bufferedBody {key value : Text} {duplicate : Bool}
    (hok : c.setHeaderInternal key value duplicate = .ok c') :
    c'.bufferedBody = c.bufferedBody := by
  rcases setHeaderInternal_cases c key value duplicate with
    ⟨-, what, herror⟩ | ⟨-, headers, hset⟩
  · rw [herror] at hok
    cases hok
  · rw [hset] at hok
    obtain rfl := Except.ok.inj hok
    rfl

theorem keeping_same (hsame : c'.bufferedBody = c.bufferedBody) :
    c'.bufferedBody = [] ∨ c'.bufferedBody = c.bufferedBody ++ [] :=
  .inr (hsame.trans (List.append_nil _).symm)

/-- Without a buffer nothing was kept back before. -/
theorem keeping_output (hdirect : Direct c) (body : Text) :
    (c.outputBody body).bufferedBody = [] ∨
      (c.outputBody body).bufferedBody = c.bufferedBody ++ body := by
  rw [outputBody_bufferedBody]
  split
  · exact .inr rfl
  next hbuffered =>
    refine .inl ?_
    rw [(hdirect (Bool.eq_false_iff.mpr hbuffered)).2]
    rfl

theorem keeping_outputBodyV {fmt text : Text} {again : Option Text} (hdirect : Direct c)
    (hok : c.outputBodyV fmt text again = .ok c') :
    c'.bufferedBody = [] ∨ c'.bufferedBody = c.bufferedBody ++ (if fmt = [] then []
      else if c.buffered = true ∧ 8192 ≤ text.length then again.getD [] else text) := by
  unfold CGI.outputBodyV at hok
  split at hok
  next hfmt =>
    obtain rfl := Except.ok.inj hok
    rw [if_pos hfmt]
    exact keeping_same rfl
  next hfmt =>
    rw [if_neg hfmt]
    split at hok
    next hbuffered =>
      obtain rfl := Except.ok.inj hok
      refine .inl ?_
      rw [CGI.realOutput_eq]
      exact (outputHeaders_bufferedBody c).trans (hdirect (Bool.eq_false_iff.mpr hbuffered)).2
    next hbuffered =>
      split at hok
      · cases hok
      split at hok
      next hzero =>
        obtain rfl := Except.ok.inj hok
        rw [if_neg (by omega), List.eq_nil_of_length_eq_zero hzero]
        exact keeping_same rfl
      split at hok
      · obtain rfl := Except.ok.inj hok
        rw [if_neg (by omega)]
        exact keeping_output hdirect text
      next hlong =>
        rw [if_pos ⟨not_not.mp hbuffered, Nat.not_lt.mp hlong⟩]
        cases again with
        | none => cases hok
        | some buf =>
            dsimp only at hok
            split at hok
            · cases hok
            · obtain rfl := Except.ok.inj hok
              exact keeping_output hdirect buf

/-- **ONE CALL** keeps back nothing, or what was kept back and what it delivers. -/
theorem keeping_invoke {kept : Text} (hsound : Sound c kept) (hdirect : Direct c)
    (hok : invoke neosStrip c call = .ok c') :
    c'.bufferedBody = [] ∨
      c'.bufferedBody = c.bufferedBody ++ delivered neosStrip (c, call) := by
  have hflushed : ∀ {c₀ : CGI}, Sound c₀ kept → c₀.flushBody = .ok c' →
      c'.bufferedBody = [] := by
    intro c₀ h₀ hflush
    obtain ⟨c₁, hflush₁, -, -, hempty⟩ := h₀.flushBody
    obtain rfl := Except.ok.inj (hflush₁.symm.trans hflush)
    exact hempty
  rw [delivered, hok]
  dsimp only
  cases call with
  | outputBody body =>
      obtain rfl := Except.ok.inj hok
      exact keeping_output hdirect body
  | outputBodyF fmt text again => exact keeping_outputBodyV hdirect hok
  | overflow ch =>
      obtain rfl := Except.ok.inj hok
      exact keeping_output hdirect [ch]
  | xsputn s =>
      obtain rfl := Except.ok.inj hok
      exact keeping_output hdirect s
  | setBodyBuffered buffered =>
      have hmode : Sound { c with buffered := buffered } kept :=
        ⟨hsound.known, hsound.unsent, hsound.sent⟩
      unfold invoke CGI.setBodyBuffered at hok
      dsimp only at hok
      split at hok
      · exact .inl (hflushed hmode hok)
      · obtain rfl := Except.ok.inj hok
        exact keeping_same rfl
  | flushBody => exact .inl (hflushed hsound hok)
  | setHeader key value =>
      unfold invoke CGI.setHeader at hok
      dsimp only at hok
      split at hok
      · obtain rfl := Except.ok.inj hok
        exact keeping_same rfl
      · exact keeping_same (setHeaderInternal_bufferedBody hok)
  | setStatusCode status =>
      unfold invoke CGI.setStatusCode at hok
      dsimp only at hok
      split at hok
      · cases hok
      · obtain rfl := Except.ok.inj hok
        exact keeping_same rfl
  | setContentType type charset => exact keeping_same (setHeaderInternal_bufferedBody hok)
  | setCookie key cookie =>
      unfold invoke CGI.setCookie at hok
      dsimp only at hok
      split at hok
      · obtain rfl := Except.ok.inj hok
        exact keeping_same rfl
      · exact keeping_same (setHeaderInternal_bufferedBody hok)
  | redirect url moved =>
      unfold invoke CGI.redirect at hok
      dsimp only at hok
      split at hok
      · cases hok
      next c₁ hset =>
        have hsame := setHeaderInternal_bufferedBody hset
        obtain rfl := Except.ok.inj hok
        exact keeping_same hsame
  | finish => cases hok

-- ── One object ───────────────────────────────────────────────────────────────

/-- The object holds what it took, and what it keeps back was taken last. -/
structure Ordered (neosStrip : Text → Text) (r : Request) : Prop where
  holds : Holds neosStrip r
  last : r.cgi.bufferedBody <:+ taken neosStrip r.made

theorem ordered_new : Ordered neosStrip ⟨.new, []⟩ := ⟨holds_new, List.nil_suffix⟩

theorem perform_ordered (hr : Ordered neosStrip r) (steps : List Step) :
    Ordered neosStrip (perform neosStrip r steps).2 := by
  refine perform_invariant (I := Ordered neosStrip) (P := fun _ => True) ?_ ?_
    (fun _ _ => trivial) hr
  · intro r call c' _ hr hinvoke
    refine ⟨holds_ok hr.holds hinvoke, ?_⟩
    rw [taken_snoc]
    rcases keeping_invoke hr.holds.1 hr.holds.2 hinvoke with hempty | hmore
    · exact hempty ▸ List.nil_suffix
    · obtain ⟨before, hbefore⟩ := hr.last
      exact ⟨before, by rw [hmore, ← hbefore, List.append_assoc]⟩
  · intro r call e _ hr hinvoke
    refine ⟨holds_error hr.holds hinvoke, ?_⟩
    have hnothing : delivered neosStrip (r.cgi, call) = [] := by rw [delivered, hinvoke]
    rw [taken_snoc, hnothing, List.append_nil]
    exact hr.last

theorem runs_ordered (hr : Ordered neosStrip r) : Ordered neosStrip (h.runs neosStrip r).2 := by
  have hrun := perform_ordered hr h.run
  rw [Handler.runs]
  split
  next hperform =>
    rw [hperform] at hrun
    exact hrun
  next hperform =>
    rw [hperform] at hrun
    exact hrun

/-- Whatever the filters and `Run` do, and whatever leaves them. -/
theorem process_ordered (filters : List Filter) (ready : Bool) (hr : Ordered neosStrip r) :
    Ordered neosStrip (h.process neosStrip r ready filters).2 := by
  have hend : ∀ {r} (ready : Bool), Ordered neosStrip r →
      Ordered neosStrip (if ready then h.runs neosStrip r else (none, r)).2 := by
    intro r ready hr
    split
    · exact runs_ordered hr
    · exact hr
  induction filters generalizing r ready with
  | nil => exact hend ready hr
  | cons filter rest ih =>
      have hfilter := perform_ordered hr filter.calls
      rw [Handler.process]
      split
      next hperform =>
        rw [hperform] at hfilter
        exact hfilter
      next hperform =>
        rw [hperform] at hfilter
        split
        · exact hfilter
        next ret _ =>
          generalize (if ret = .kResultFail ∨ ret = .kResultNext then false else ready) = ready'
          dsimp only
          split
          · exact hend _ hfilter
          · exact ih _ hfilter

/-- `ProcessRequest`: when it returns, everything is out. -/
theorem processRequest_ordered (neosStrip : Text → Text) (h : Handler) :
    Ordered neosStrip (h.processRequest neosStrip).2 ∧
    ((h.processRequest neosStrip).1 = none →
      (h.processRequest neosStrip).2.cgi.headerSent = true) := by
  have hprocess := process_ordered (h := h) h.filters true
    (ordered_new : Ordered neosStrip ⟨.new, []⟩)
  have hflush : ∀ {r : Request}, Ordered neosStrip r →
      let p := match CGI.flushBody { r.cgi with requestHandled := true } with
        | .ok c => ((none : Option Exc), { r with cgi := c })
        | .error _ => (some .other, r)
      Ordered neosStrip p.2 ∧ (p.1 = none → p.2.cgi.headerSent = true) := by
    intro r hr
    have hsound : Sound { r.cgi with requestHandled := true } (taken neosStrip r.made) :=
      ⟨hr.holds.1.known, hr.holds.1.unsent, hr.holds.1.sent⟩
    obtain ⟨c, hok, hc, hsent, hempty⟩ := hsound.flushBody
    rw [hok]
    exact ⟨⟨⟨hc, fun _ => ⟨hsent, hempty⟩⟩, hempty ▸ List.nil_suffix⟩, fun _ => hsent⟩
  rw [Handler.processRequest]
  split
  next e r hleft =>
    rw [hleft] at hprocess
    exact ⟨hprocess, fun hnone => by cases hnone⟩
  next e r _ hleft =>
    rw [hleft] at hprocess
    exact hflush hprocess

theorem Ordered.unsent (hr : Ordered neosStrip r) (hsent : r.cgi.headerSent = false) :
    r.cgi.out = [] := (hr.holds.1.unsent hsent).1

/-- A block, and the front of what was taken. -/
theorem Ordered.sent (hr : Ordered neosStrip r) (hsent : r.cgi.headerSent = true) :
    ∃ status body, Known status ∧ r.cgi.out = block status r.cgi.headers ++ body ∧
      body ++ r.cgi.bufferedBody = taken neosStrip r.made := by
  obtain ⟨status, hknown, hout⟩ := hr.holds.1.sent hsent
  obtain ⟨body, hbody⟩ := hr.last
  refine ⟨status, body, hknown, ?_, hbody⟩
  rw [← hbody, ← List.append_assoc] at hout
  exact List.append_cancel_right hout

-- ── One request ──────────────────────────────────────────────────────────────

variable {ρ : Type} {d : Dispatcher ρ} {q : ρ} {objects : List Request}

/-- Nothing was sent, or one object has sent a header block and, behind it, what
    it took but for the end that it keeps back. -/
def OneBlock (neosStrip : Text → Text) (r : Dispatched) : Prop :=
  r.out = [] ∨ ∃ o ∈ r.objects, ∃ status body, Known status ∧
    r.out = block status o.cgi.headers ++ body ∧
    body ++ o.cgi.bufferedBody = taken neosStrip o.made

structure Answered (neosStrip : Text → Text) (r : Dispatched) : Prop where
  oneBlock : OneBlock neosStrip r
  sent : r.result = some true → r.out ≠ []

theorem block_ne_nil {status : Int} {headers : List (Text × Text)} {body : Text} :
    block status headers ++ body ≠ [] := by
  rw [block]
  exact List.append_ne_nil_of_left_ne_nil
    (List.append_ne_nil_of_right_ne_nil _ (List.cons_ne_nil '\n' [])) body

/-- What is sent behind objects that have sent nothing. -/
theorem out_snoc {result : Option Bool} (hnothing : ∀ o ∈ objects, o.cgi.out = []) :
    Dispatched.out ⟨result, objects ++ [o]⟩ = o.cgi.out := by
  rw [Dispatched.out, List.map_append, List.flatten_append, List.map_singleton,
    List.flatten_singleton, List.flatten_eq_nil_iff.mpr, List.nil_append]
  intro out hmem
  obtain ⟨o', ho', rfl⟩ := List.mem_map.mp hmem
  exact hnothing o' ho'

/-- Behind objects that have sent nothing, one more. -/
theorem answered_snoc {result : Option Bool} (hnothing : ∀ o ∈ objects, o.cgi.out = [])
    (ho : Ordered neosStrip o) (hsent : result = some true → o.cgi.headerSent = true) :
    Answered neosStrip ⟨result, objects ++ [o]⟩ := by
  have hout : Dispatched.out ⟨result, objects ++ [o]⟩ = o.cgi.out := out_snoc hnothing
  have hmem : o ∈ objects ++ [o] := List.mem_append_right _ (List.mem_singleton_self o)
  cases hs : o.cgi.headerSent with
  | false =>
      refine ⟨.inl (hout.trans (ho.unsent hs)), fun hresult => ?_⟩
      rw [hsent hresult] at hs
      cases hs
  | true =>
      obtain ⟨status, body, hknown, hblock, hbody⟩ := ho.sent hs
      refine ⟨.inr ⟨o, hmem, status, body, hknown, hout.trans hblock, hbody⟩, fun _ => ?_⟩
      rw [hout, hblock]
      exact block_ne_nil

/-- Nothing was sent, and nobody says that it was. -/
theorem answered_nothing {result : Option Bool} (hnothing : ∀ o ∈ objects, o.cgi.out = [])
    (hresult : result ≠ some true) : Answered neosStrip ⟨result, objects⟩ := by
  refine ⟨.inl (List.flatten_eq_nil_iff.mpr fun out hmem => ?_), fun h => absurd h hresult⟩
  obtain ⟨o, ho, rfl⟩ := List.mem_map.mp hmem
  exact hnothing o ho

theorem processException_answered (hnothing : ∀ o ∈ objects, o.cgi.out = [])
    (statusCode : Int) :
    Answered neosStrip (d.processException neosStrip q objects statusCode) := by
  rw [Dispatcher.processException]
  split
  · exact answered_nothing hnothing nofun
  next h _ =>
    obtain ⟨hordered, hsent⟩ := processRequest_ordered neosStrip h
    split
    next r hprocess =>
      rw [hprocess] at hordered hsent
      exact answered_snoc hnothing hordered fun _ => hsent rfl
    next e r hprocess =>
      rw [hprocess] at hordered
      exact answered_snoc hnothing hordered nofun

theorem dispatchRequest_answered (neosStrip : Text → Text) (d : Dispatcher ρ) (q : ρ) :
    Answered neosStrip (d.dispatchRequest neosStrip q) := by
  have hnone : ∀ o ∈ ([] : List Request), o.cgi.out = [] := fun o ho => absurd ho List.not_mem_nil
  rw [Dispatcher.dispatchRequest]
  split
  · exact answered_nothing hnone nofun
  next e _ =>
    -- the constructor has thrown
    cases e with
    | http statusCode => exact processException_answered hnone statusCode
    | other => exact answered_nothing hnone nofun
  next h _ =>
    obtain ⟨hordered, hsent⟩ := processRequest_ordered neosStrip h
    split
    next r hprocess =>
      rw [hprocess] at hordered hsent
      exact answered_snoc hnone hordered fun _ => hsent rfl
    next e r hprocess =>
      rw [hprocess] at hordered
      cases e with
      | other => exact answered_snoc hnone hordered nofun
      | http statusCode =>
          rw [Dispatcher.handleException]
          split
          next hlate => exact answered_snoc hnone hordered fun _ => hlate
          next hearly =>
            refine processException_answered (fun o ho => ?_) statusCode
            obtain rfl := List.mem_singleton.mp ho
            exact hordered.unsent (Bool.eq_false_iff.mpr hearly)

/-- **ONE RESPONSE EACH**: whatever handlers, filters and the default handler do
    and throw, a worker serves requests in order up to the first that is not
    dispatched; each has sent nothing, or one status line and header block and
    behind it a front of what the object that sent it took; and each that was
    dispatched has sent some. -/
theorem requests_answered (neosStrip : Text → Text) (d : Dispatcher ρ) (qs : List ρ) :
    (∀ r ∈ d.serve neosStrip qs, Answered neosStrip r) ∧
    (∃ served rest, qs = served ++ rest ∧
      d.serve neosStrip qs = served.map (d.dispatchRequest neosStrip) ∧
      (∀ r ∈ (d.serve neosStrip qs).dropLast, r.result = some true) ∧
      (rest ≠ [] → ∃ r, (d.serve neosStrip qs).getLast? = some r ∧ r.result ≠ some true)) := by
  induction qs with
  | nil =>
      refine ⟨fun r hr => absurd hr List.not_mem_nil, [], [], rfl, rfl, fun r hr => ?_, ?_⟩
      · exact absurd hr List.not_mem_nil
      · exact fun hne => absurd rfl hne
  | cons q qs ih =>
      obtain ⟨hanswered, served, rest, hqs, hserved, hbefore, hlast⟩ := ih
      have hfirst := dispatchRequest_answered neosStrip d q
      rw [Dispatcher.serve]
      split
      next hresult =>
        refine ⟨List.forall_mem_cons.mpr ⟨hfirst, hanswered⟩, q :: served, rest, ?_, ?_, ?_, ?_⟩
        · rw [hqs]
          rfl
        · rw [hserved]
          rfl
        · intro r hr
          cases hmore : d.serve neosStrip qs with
          | nil =>
              rw [hmore] at hr
              exact absurd hr List.not_mem_nil
          | cons r' rs =>
              rw [hmore] at hr hbefore
              rcases List.mem_cons.mp hr with rfl | hr
              · exact hresult
              · exact hbefore r hr
        · intro hrest
          obtain ⟨r, hr, hnot⟩ := hlast hrest
          refine ⟨r, ?_, hnot⟩
          rw [List.getLast?_cons, hr]
          rfl
      next hresult =>
        refine ⟨fun r hr => List.mem_singleton.mp hr ▸ hfirst, [q], qs, rfl, rfl, ?_, ?_⟩
        · exact fun r hr => absurd hr List.not_mem_nil
        · exact fun _ => ⟨_, rfl, hresult⟩

-- ── The page ─────────────────────────────────────────────────────────────────

variable {page : Page} {status : Int} {statusCode : Int}

/-- The text of a page. -/
def Page.text (page : Page) (status : Int) : Text := (page.texts status).flatten

/-- `Content-Type` of a page. -/
def contentType : Text × Text :=
  ("Content-Type".toList, "text/html; charset=iso-8859-1".toList)

/-- A page, with what is sent before it. -/
def response (page : Page) (status : Int) : Text :=
  block status [(contentLength, decimal (page.text status).length), contentType] ++
    page.text status

/-- Texts that are put into a stream, one after the other, are kept back. -/
theorem perform_texts (neosStrip : Text → Text) (texts : List Text)
    (hbuffered : r.cgi.buffered = true) :
    ∃ made, perform neosStrip r (texts.map fun s => ⟨.xsputn s, false⟩) =
      (none, ⟨{ r.cgi with bufferedBody := r.cgi.bufferedBody ++ texts.flatten }, made⟩) := by
  induction texts generalizing r with
  | nil => exact ⟨r.made, by rw [List.flatten_nil, List.append_nil]; rfl⟩
  | cons s texts ih =>
      have hput : r.cgi.outputBody s =
          { r.cgi with bufferedBody := r.cgi.bufferedBody ++ s } := by
        rw [CGI.outputBody]
        by_cases hempty : s = []
        · rw [if_pos hempty, hempty, List.append_nil]
        · rw [if_neg hempty, if_pos hbuffered]
      have hnext := ih (r := ⟨r.cgi.outputBody s, r.made ++ [(r.cgi, .xsputn s)]⟩)
        (by rw [hput]; exact hbuffered)
      obtain ⟨made, hmade⟩ := hnext
      refine ⟨made, ?_⟩
      rw [List.map_cons, perform]
      show perform neosStrip _ _ = _
      rw [hmade, hput, List.flatten_cons, List.append_assoc]

theorem text_ne_nil (page : Page) (status : Int) : page.text status ≠ [] := by
  rw [Page.text, Page.texts, List.flatten_append]
  exact List.append_ne_nil_of_right_ne_nil _ (by decide)

/-- The length of a page that is kept back is announced, before its type. -/
theorem flush_page {c : CGI} (hbody : c.bufferedBody ≠ []) (hheaders : c.headers = [contentType])
    (hsent : c.headerSent = false) (hhandled : c.requestHandled = true) :
    ∃ c', c.flushBody = .ok c' ∧ c'.out = c.out ++
      block c.status [(contentLength, decimal c.bufferedBody.length), contentType] ++
        c.bufferedBody := by
  have hvalue : decimal c.bufferedBody.length ≠ [] := decimal_ne_nil _
  have hset : c.setHeaderInternal contentLength (decimal c.bufferedBody.length) false =
      .ok { c with headers := [(contentLength, decimal c.bufferedBody.length), contentType] } := by
    unfold CGI.setHeaderInternal
    have hnew : (c.headers.all fun p => p.1 ≠ contentLength) = true := by
      rw [hheaders]
      decide
    have hinsert : insertHeader [contentType] contentLength (decimal c.bufferedBody.length) =
        [(contentLength, decimal c.bufferedBody.length), contentType] := by
      rw [insertHeader, List.takeWhile_cons_of_neg (by decide),
        List.dropWhile_cons_of_neg (by decide)]
      rfl
    rw [if_neg (Bool.eq_false_iff.mp hsent), if_neg hvalue, if_pos (.inl hnew), hheaders, hinsert]
  have hannounce : c.announceBody = c.setHeaderInternal contentLength
      (decimal c.bufferedBody.length) false := by
    rw [CGI.announceBody, if_pos hhandled, if_pos (by rw [hsent]; rfl)]
    rfl
  rw [CGI.flushBody, if_neg hbody, hannounce, hset]
  exact ⟨_, rfl, congrArg CGI.out (CGI.sendBody_unsent (c := { c with
    headers := [(contentLength, decimal c.bufferedBody.length), contentType] }) hsent)⟩

/-- A call that succeeds is behind. -/
theorem perform_ok {caught : Bool} {rest : List Step}
    (hok : invoke neosStrip r.cgi call = .ok c') :
    perform neosStrip r (⟨call, caught⟩ :: rest) =
      perform neosStrip ⟨c', r.made ++ [(r.cgi, call)]⟩ rest := by
  rw [perform, hok]

/-- The object before its page is written. -/
def headed (status : Int) : CGI := { CGI.new with status := status, headers := [contentType] }

theorem standard_known (neosStrip : Text → Text) (page : Page) (hknown : Known status) :
    ∃ r, (standardHandler page status).processRequest neosStrip = (none, r) ∧
      r.cgi.out = response page status := by
  have hset : invoke neosStrip .new (.setStatusCode status) =
      .ok { CGI.new with status := status } := by
    show CGI.new.setStatusCode status = _
    rw [CGI.setStatusCode, if_neg (Option.isSome_iff_ne_none.mp hknown)]
  have htype : invoke neosStrip { CGI.new with status := status }
      (.setContentType "text/html".toList "iso-8859-1".toList) = .ok (headed status) := rfl
  obtain ⟨made, hmade⟩ := perform_texts neosStrip (page.texts status)
    (r := ⟨headed status, _⟩) rfl
  have hrun : perform neosStrip ⟨.new, []⟩ (standardHandler page status).run =
      (none, ⟨{ headed status with bufferedBody := page.text status }, made⟩) := by
    rw [standardHandler, if_pos (show (findStatus status).isSome = true from hknown)]
    refine (perform_ok hset).trans ((perform_ok rfl).trans ((perform_ok htype).trans ?_))
    exact hmade
  have hprocess : (standardHandler page status).process neosStrip ⟨.new, []⟩ true [] =
      (none, ⟨{ headed status with bufferedBody := page.text status }, made⟩) := by
    rw [Handler.process, if_pos rfl, Handler.runs, hrun]
    rfl
  obtain ⟨c', hflush, hout⟩ := flush_page (c := { headed status with
    bufferedBody := page.text status, requestHandled := true })
    (text_ne_nil page status) rfl rfl rfl
  refine ⟨⟨c', made⟩, ?_, hout⟩
  rw [Handler.processRequest]
  show (match (standardHandler page status).process neosStrip ⟨.new, []⟩ true [] with
    | (some (.raised e), r) => _ | (_, r) => _) = _
  rw [hprocess]
  dsimp only
  rw [hflush]

theorem standard_unknown (neosStrip : Text → Text) (page : Page) (hunknown : ¬Known status) :
    ∃ r, (standardHandler page status).processRequest neosStrip = (some .other, r) ∧
      r.cgi.out = [] := by
  have hset : invoke neosStrip .new (.setStatusCode status) =
      .error (.error "HTTP status code out of range") := by
    show CGI.new.setStatusCode status = _
    rw [CGI.setStatusCode, if_pos (Option.not_isSome_iff_eq_none.mp hunknown)]
  have hrun : perform neosStrip ⟨.new, []⟩ (standardHandler page status).run =
      (some (.error "HTTP status code out of range"), ⟨.new, [(.new, .setStatusCode status)]⟩) := by
    rw [standardHandler]
    show perform neosStrip ⟨.new, []⟩ (⟨.setStatusCode status, false⟩ :: _) = _
    rw [perform, hset]
    rfl
  refine ⟨⟨.new, [(.new, .setStatusCode status)]⟩, ?_, rfl⟩
  rw [Handler.processRequest]
  show (match (standardHandler page status).process neosStrip ⟨.new, []⟩ true [] with
    | (some (.raised e), r) => _ | (_, r) => _) = _
  rw [Handler.process, if_pos rfl, Handler.runs, hrun]
  rfl

-- ── Who answers ──────────────────────────────────────────────────────────────

/-- The path of an address. -/
def pathOf (requestUri : Text) : Text := requestUri.takeWhile (· ≠ '?')

theorem root_split (d : Dispatcher ρ) : d.siteRoot.dropLast ++ ['/'] = d.siteRoot :=
  List.dropLast_append_getLast? '/' d.rooted.2

/-- The path without the front of the root, whatever the query is. -/
theorem passthrough_drop {path front uri : Text} (hpath : pathOf path = front ++ uri) :
    Dispatcher.passthrough (path.drop front.length) = uri := by
  have hsplit : path = front ++ (uri ++ path.dropWhile (· ≠ '?')) := by
    rw [← List.append_assoc, ← hpath, pathOf, List.takeWhile_append_dropWhile]
  have hplain : ∀ ch ∈ uri, decide (ch ≠ '?') = true := by
    intro ch hch
    have hmem : ch ∈ pathOf path := hpath ▸ List.mem_append_right front hch
    exact List.all_eq_true.mp List.all_takeWhile ch hmem
  have hquery : (path.dropWhile (· ≠ '?')).takeWhile (· ≠ '?') = [] := by
    have hhead := List.head?_dropWhile_not (fun ch => decide (ch ≠ '?')) path
    cases hdrop : path.dropWhile (· ≠ '?') with
    | nil => rfl
    | cons ch query =>
        rw [hdrop] at hhead
        exact List.takeWhile_cons_of_neg (Bool.eq_false_iff.mp hhead)
  rw [hsplit, List.drop_left, Dispatcher.passthrough, List.takeWhile_append_of_pos hplain,
    hquery, List.append_nil]

/-- **THE ROUTE**: behind the root, without its last slash, stands the path that a
    handler is registered for; the query does not matter. -/
theorem getHandlerOf_registered {path uri : Text}
    (hpass : d.requestUriToHandlerPath = Dispatcher.passthrough)
    (hpath : pathOf path = d.siteRoot.dropLast ++ uri) (hslash : uri.head? = some '/') :
    d.getHandlerOf q path = ((d.factories.lookup uri).getD (d.defaultFactory 404)) q := by
  obtain ⟨rest, rfl⟩ := List.head?_eq_some_iff.mp hslash
  have hlen : d.siteRoot.length - 1 = d.siteRoot.dropLast.length := List.length_dropLast.symm
  have hroot : (pathOf path).take d.siteRoot.length = d.siteRoot := by
    have hfront : pathOf path = d.siteRoot ++ rest := by
      rw [hpath, ← List.singleton_append, ← List.append_assoc, root_split]
    rw [hfront, List.take_left]
  rw [Dispatcher.getHandlerOf]
  show (if (pathOf path).take d.siteRoot.length ≠ d.siteRoot then _ else _) = _
  rw [if_neg (not_not.mpr hroot), hpass, hlen, passthrough_drop hpath,
    if_neg (List.cons_ne_nil _ _)]
  cases d.factories.lookup ('/' :: rest) with
  | some factory => rfl
  | none => rfl

/-- A path that is not below the root, or for which nothing is registered. -/
def Unregistered (d : Dispatcher ρ) (path : Text) : Prop :=
  ∀ uri, uri.head? = some '/' → pathOf path = d.siteRoot.dropLast ++ uri →
    d.factories.lookup uri = none

theorem getHandlerOf_unregistered {path : Text}
    (hpass : d.requestUriToHandlerPath = Dispatcher.passthrough) (hun : Unregistered d path) :
    d.getHandlerOf q path = d.defaultFactory 404 q := by
  by_cases hroot : (pathOf path).take d.siteRoot.length = d.siteRoot
  · have hpath : pathOf path = d.siteRoot.dropLast ++
        '/' :: (pathOf path).drop d.siteRoot.length := by
      rw [← List.singleton_append, ← List.append_assoc, root_split]
      exact ((List.take_append_drop d.siteRoot.length (pathOf path)).symm.trans (by rw [hroot]))
    rw [getHandlerOf_registered hpass hpath rfl, hun _ rfl hpath]
    rfl
  · rw [Dispatcher.getHandlerOf]
    exact if_pos hroot

/-- The default handler has to answer a request with a status: no handler is
    registered for it, or an `HttpException` left the one there is, or its
    constructor, before anything was sent. -/
inductive Defaulted (neosStrip : Text → Text) (d : Dispatcher ρ) (q : ρ) : Int → Prop where
  | unregistered (path : Text) (hmode : d.singleHandlerMode = false ∨ d.factories.length ≠ 1)
      (huri : d.requestUri q = some path) (hslash : path.head? = some '/')
      (hun : Unregistered d path) : Defaulted neosStrip d q 404
  | constructed (status : Int) (hget : d.getHandler q = some (.error (.http status))) :
      Defaulted neosStrip d q status
  | processed (status : Int) (h : Handler) (r : Request) (hget : d.getHandler q = some (.ok h))
      (hleft : h.processRequest neosStrip = (some (.http status), r))
      (hunsent : r.cgi.headerSent = false) : Defaulted neosStrip d q status

theorem getHandler_path {path : Text}
    (hmode : d.singleHandlerMode = false ∨ d.factories.length ≠ 1)
    (huri : d.requestUri q = some path) (hslash : path.head? = some '/') :
    d.getHandler q = some (d.getHandlerOf q path) := by
  rw [Dispatcher.getHandler]
  split
  next hsingle hfactories =>
    rcases hmode with hmode | hmode
    · rw [hsingle] at hmode
      cases hmode
    · rw [hfactories] at hmode
      exact absurd rfl hmode
  next => rw [huri]; exact if_neg (not_not.mpr hslash)

/-- What `ProcessException` sends, behind objects that have sent nothing. -/
theorem processException_standard (page : Page)
    (hdefault : ∀ status, d.defaultFactory status q = .ok (standardHandler page status))
    (hnothing : ∀ o ∈ objects, o.cgi.out = []) (statusCode : Int) :
    (Known statusCode →
      (d.processException neosStrip q objects statusCode).result = some true ∧
      (d.processException neosStrip q objects statusCode).out = response page statusCode) ∧
    (¬Known statusCode →
      (d.processException neosStrip q objects statusCode).result = none ∧
      (d.processException neosStrip q objects statusCode).out = []) := by
  rw [Dispatcher.processException, hdefault]
  constructor
  · intro hknown
    obtain ⟨r, hprocess, hr⟩ := standard_known neosStrip page hknown
    dsimp only
    rw [hprocess]
    exact ⟨rfl, (out_snoc hnothing).trans hr⟩
  · intro hunknown
    obtain ⟨r, hprocess, hr⟩ := standard_unknown neosStrip page hunknown
    dsimp only
    rw [hprocess]
    exact ⟨rfl, (out_snoc hnothing).trans hr⟩

/-- **THE DEFAULT HANDLER ANSWERS**: a request without a handler, or refused by an
    `HttpException` before anything was sent, gets the page of its status, whose
    length is announced, and nothing else; an exception whose status has no text
    leaves the dispatcher, and nothing is sent. -/
theorem defaulted_answered (page : Page)
    (hpass : d.requestUriToHandlerPath = Dispatcher.passthrough)
    (hdefault : ∀ status, d.defaultFactory status q = .ok (standardHandler page status))
    (hd : Defaulted neosStrip d q status) :
    (Known status → (d.dispatchRequest neosStrip q).result = some true ∧
      (d.dispatchRequest neosStrip q).out = response page status) ∧
    (¬Known status → (d.dispatchRequest neosStrip q).result = none ∧
      (d.dispatchRequest neosStrip q).out = []) := by
  cases hd with
  | unregistered path hmode huri hslash hun =>
      have hknown : Known 404 := rfl
      refine ⟨fun _ => ?_, fun hunknown => absurd hknown hunknown⟩
      obtain ⟨r, hprocess, hr⟩ := standard_known neosStrip page hknown
      have hnone : ∀ o ∈ ([] : List Request), o.cgi.out = [] :=
        fun o ho => absurd ho List.not_mem_nil
      rw [Dispatcher.dispatchRequest, getHandler_path hmode huri hslash,
        getHandlerOf_unregistered hpass hun, hdefault]
      dsimp only
      rw [hprocess]
      exact ⟨rfl, (out_snoc hnone).trans hr⟩
  | constructed _ hget =>
      rw [Dispatcher.dispatchRequest, hget]
      exact processException_standard page hdefault (fun o ho => absurd ho List.not_mem_nil) status
  | processed _ h r hget hleft hunsent =>
      have hordered := (processRequest_ordered neosStrip h).1
      rw [hleft] at hordered
      have hnothing : ∀ o ∈ [r], o.cgi.out = [] := by
        intro o ho
        obtain rfl := List.mem_singleton.mp ho
        exact hordered.unsent hunsent
      rw [Dispatcher.dispatchRequest, hget]
      dsimp only
      rw [hleft]
      dsimp only
      rw [hunsent]
      exact processException_standard page hdefault hnothing status

/-- One handler is registered, which refuses everybody. -/
def gate : Dispatcher Text where
  singleHandlerMode := false
  factories := [("/a".toList, fun _ => .error (.http 403))]
  siteRoot := ['/']
  rooted := ⟨rfl, rfl⟩
  requestUriToHandlerPath := Dispatcher.passthrough
  defaultFactory := fun status _ => .ok (standardHandler ⟨"/b".toList, [], "GET".toList⟩ status)
  requestUri := some

theorem defaulted_answered_missing :
    (gate.dispatchRequest id "/b?c=/a".toList).out =
      response ⟨"/b".toList, [], "GET".toList⟩ 404 := by
  have hun : Unregistered gate "/b?c=/a".toList := by
    rintro uri - heq
    have huri : uri = "/b".toList := heq.symm
    rw [huri]
    rfl
  have hd : Defaulted id gate "/b?c=/a".toList 404 := .unregistered _ (.inl rfl) rfl rfl hun
  exact ((defaulted_answered ⟨"/b".toList, [], "GET".toList⟩ rfl (fun _ => rfl) hd).1 rfl).2

end FlinterCgi
