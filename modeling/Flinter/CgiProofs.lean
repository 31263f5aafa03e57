import Flinter.RunProofs
import Mathlib.Data.Char
import Mathlib.Data.List.Lex

/-! # What a CGI request sends

    A request's filters and its `Run` make calls of the `CGI` object: they set
    the status and headers, and write the body, through `OutputBody`,
    `OutputBodyF` or the stream `BODY`.  While the body is buffered its bytes are
    kept; otherwise they go out, and the headers before the first of them.  When
    nothing is left to run, or one of them ends the request, `ProcessRequest`
    flushes.

    A call may throw, and whoever makes it may catch that.  The `va_list` of a
    buffered `OutputBodyF` is used twice if the text is long: what the second
    `vsnprintf` makes of it is part of the call here.  Writing to the web server
    does not fail. -/

namespace FlinterCgi

abbrev Text := List Char

-- ── Status codes and headers ─────────────────────────────────────────────────

/-- `kHttpStatusCodes`. -/
def kHttpStatusCodes : List (Int × String) :=
  [(100, "Continue"), (101, "Switching Protocols"), (102, "Processing"),
   (200, "OK"), (201, "Created"), (202, "Accepted"),
   (203, "Non-Authoritative Information"), (204, "No Content"),
   (205, "Reset Content"), (206, "Partial Content"), (207, "Multi-Status"),
   (208, "Already Reported"), (226, "IM Used"), (300, "Multiple Choises"),
   (301, "Moved Permanently"), (302, "Found"), (303, "See Other"),
   (304, "Not Modified"), (305, "Use Proxy"), (306, "Switch Proxy"),
   (307, "Temporary Redirect"), (308, "Permanent Redirect"),
   (400, "Bad Request"), (401, "Unauthorized"), (402, "Payment Required"),
   (403, "Forbidden"), (404, "Not Found"), (405, "Method Not Allowed"),
   (406, "Not Acceptable"), (407, "Proxy Authentication Required"),
   (408, "Request Timeout"), (409, "Conflict"), (410, "Gone"),
   (411, "Length Required"), (412, "Precondition Failed"),
   (413, "Request Entity Too Large"), (414, "Request-URI Too Long"),
   (415, "Unsupported Media Type"), (416, "Requested Range Not Satisfiable"),
   (417, "Expectation Failed"), (419, "Authentication Timeout"),
   (422, "Unprocessable Entity"), (423, "Locked"), (424, "Failed Dependency"),
   (424, "Method Failure"), (425, "Unordered Collection"),
   (426, "Upgrade Required"), (428, "Precondition Required"),
   (429, "Too Many Requests"), (431, "Request Header Fields Too Large"),
   (451, "Unavailable For Legal Reasons"), (500, "Internal Server Error"),
   (501, "Not Implemented"), (502, "Bad Gateway"),
   (503, "Service Unavailable"), (504, "Gateway Timeout"),
   (505, "HTTP Version Not Supported"), (506, "Variant Also Negotiates"),
   (507, "Insufficient Storage"), (508, "Loop Detected"),
   (510, "Not Extended"), (511, "Network Authentication Required")]

/-- `kHttpStatusCodes.find`: a map keeps the first of a key. -/
def findStatus (status : Int) : Option String :=
  (kHttpStatusCodes.find? fun p => p.1 = status).map Prod.snd

/-- `kForbiddenHeaders`. -/
def kForbiddenHeaders : List String :=
  ["status", "location", "set-cookie", "content-type", "content-length",
   "transfer-encoding"]

/-- `kForbiddenCookies`. -/
def kForbiddenCookies : List String := ["path", "domain", "expires", "max-age"]

/-- An integer put into a stream. -/
def decimal (n : Int) : Text :=
  if n < 0 then '-' :: Nat.toDigits 10 n.natAbs else Nat.toDigits 10 n.natAbs

/-- `std::multimap::insert`: behind those of the same key. -/
def insertHeader (headers : List (Text × Text)) (key value : Text) :
    List (Text × Text) :=
  headers.takeWhile (fun p => decide (p.1 ≤ key)) ++
    (key, value) :: headers.dropWhile (fun p => decide (p.1 ≤ key))

/-- The value of the first of a key is replaced. -/
def replaceHeader (key value : Text) : List (Text × Text) → List (Text × Text)
  | [] => []
  | p :: rest =>
      if p.1 = key then (p.1, value) :: rest
      else p :: replaceHeader key value rest

/-- `OutputStatusHeader`: the line. -/
def statusLine (status : Int) : Text :=
  "Status: ".toList ++ decimal status ++ [' '] ++
    ((findStatus status).getD "").toList ++ ['\n']

/-- `OutputHeaders`: one header; its key is a C string. -/
def headerLine (p : Text × Text) : Text :=
  p.1.takeWhile (fun ch => ch.toNat ≠ 0) ++ ": ".toList ++ p.2 ++ ['\n']

-- ── The object ───────────────────────────────────────────────────────────────

/-- `CGI`, and the bytes that have been written. -/
structure CGI where
  headers : List (Text × Text)
  bufferedBody : Text
  requestHandled : Bool
  headerSent : Bool
  bodySent : Bool
  buffered : Bool
  status : Int
  out : Text
deriving DecidableEq, Repr

/-- What is thrown: the end of the request, or an error. -/
inductive Thrown where
  | endException
  | error (what : String)
deriving DecidableEq, Repr

namespace CGI

/-- The constructor. -/
def new : CGI where
  headers := []
  bufferedBody := []
  requestHandled := false
  headerSent := false
  bodySent := false
  buffered := true
  status := 200
  out := []

/-- `RealOutput`: the loop, with the writes it makes. -/
def pieces (kMaximum : Nat) (hpos : 0 < kMaximum) (what : Text) : List Text :=
  if what.length > kMaximum then
    what.take kMaximum :: pieces kMaximum hpos (what.drop kMaximum)
  else
    [what]
termination_by what.length
decreasing_by
  rw [List.length_drop]
  omega

/-- `RealOutput`, when no write fails; `kMaximum` is `INT_MAX / 2`. -/
def realOutput (c : CGI) (what : Text) : CGI :=
  { c with out := c.out ++ (pieces 1073741823 (by decide) what).flatten }

/-- `OutputStatusHeader`. -/
def outputStatusHeader (c : CGI) : CGI := c.realOutput (statusLine c.status)

/-- `OutputHeaders`. -/
def outputHeaders (c : CGI) : CGI :=
  if c.headerSent then c
  else
    let c := outputStatusHeader { c with headerSent := true }
    let c := c.headers.foldl (fun c p => c.realOutput (headerLine p)) c
    c.realOutput ['\n']

/-- `SetHeaderInternal`. -/
def setHeaderInternal (c : CGI) (key value : Text) (allowDuplicate : Bool) :
    Except Thrown CGI :=
  if c.headerSent then .error (.error "trying to set header after body")
  else if value = [] then
    .ok { c with headers := c.headers.filter fun p => p.1 ≠ key }
  else if c.headers.all (fun p => p.1 ≠ key) ∨ allowDuplicate then
    .ok { c with headers := insertHeader c.headers key value }
  else
    .ok { c with headers := replaceHeader key value c.headers }

/-- `OutputBody`. -/
def outputBody (c : CGI) (body : Text) : CGI :=
  if body = [] then c
  else if c.buffered then { c with bufferedBody := c.bufferedBody ++ body }
  else
    let c := c.outputHeaders
    let c := { c with bodySent := true }
    c.realOutput body

/-- `OutputBodyV`: `text` is what the format and its arguments make, `again` is
    what a second `vsnprintf` makes with the same `va_list`. -/
def outputBodyV (c : CGI) (fmt text : Text) (again : Option Text) :
    Except Thrown CGI :=
  if fmt = [] then .ok c
  else if ¬c.buffered then
    let c := c.outputHeaders
    let c := { c with bodySent := true }
    .ok (c.realOutput text)
  else if text.length > 2147483647 then .error (.error "vsnprintf(3)")
  else if text.length = 0 then .ok c
  else if text.length < 8192 then .ok (c.outputBody text)
  else
    match again with
    | none => .error (.error "vsnprintf(3)")
    | some buf =>
        if buf.length ≠ text.length then .error (.error "vsnprintf(3)")
        else .ok (c.outputBody buf)

/-- `FlushBody`: the header that announces the body. -/
def announceBody (c : CGI) : Except Thrown CGI :=
  if c.requestHandled then
    if !c.headerSent then
      c.setHeaderInternal "Content-Length".toList
        (decimal c.bufferedBody.length) false
    else .ok c
  else
    if !c.headerSent then
      c.setHeaderInternal "Transfer-Encoding".toList "chunked".toList false
    else .ok c

/-- `FlushBody`: the body. -/
def sendBody (c : CGI) : CGI :=
  let body := c.bufferedBody
  let c := { c with bufferedBody := [] }
  let c := c.outputHeaders
  let c := { c with bodySent := true }
  c.realOutput body

/-- `FlushBody`; the stream has no buffer of its own to flush. -/
def flushBody (c : CGI) : Except Thrown CGI :=
  if c.bufferedBody = [] then .ok c.outputHeaders
  else
    match c.announceBody with
    | .error e => .error e
    | .ok c => .ok c.sendBody

/-- `SetBodyBuffered`. -/
def setBodyBuffered (c : CGI) (buffered : Bool) : Except Thrown CGI :=
  let c := { c with buffered := buffered }
  if !buffered then c.flushBody else .ok c

/-- `SetStatusCode`. -/
def setStatusCode (c : CGI) (status : Int) : Except Thrown CGI :=
  if findStatus status = none then
    .error (.error "HTTP status code out of range")
  else .ok { c with status := status }

variable (neosStrip : Text → Text)

/-- `IsForbiddenToken`. -/
def isForbiddenToken (key : Text) (array : List String) : Bool :=
  let k := (neosStrip key).map Char.toLower
  array.any fun hay => k = hay.toList

/-- `SetHeader`. -/
def setHeader (c : CGI) (key value : Text) : Except Thrown CGI :=
  if key = [] ∨ isForbiddenToken neosStrip key kForbiddenHeaders then .ok c
  else c.setHeaderInternal key value false

/-- `SetContentType`. -/
def setContentType (c : CGI) (type charset : Text) : Except Thrown CGI :=
  c.setHeaderInternal "Content-Type".toList
    (if charset = [] then type else type ++ "; charset=".toList ++ charset) false

/-- `SetCookie`, with the text it makes of its arguments. -/
def setCookie (c : CGI) (key cookie : Text) : Except Thrown CGI :=
  if key = [] ∨ isForbiddenToken neosStrip key kForbiddenCookies then .ok c
  else c.setHeaderInternal "Set-Cookie".toList cookie true

/-- `Redirect`. -/
def redirect (c : CGI) (url : Text) (movedPermanently : Bool) :
    Except Thrown CGI :=
  match c.setHeaderInternal "Location".toList url false with
  | .error e => .error e
  | .ok c => .ok { c with status := if movedPermanently then 301 else 302 }

end CGI

-- ── Requests ─────────────────────────────────────────────────────────────────

/-- A call of the object; `overflow` and `xsputn` are those of `BODY`. -/
inductive Call where
  | outputBody (body : Text)
  | outputBodyF (fmt text : Text) (again : Option Text)
  | overflow (ch : Char)
  | xsputn (s : Text)
  | setBodyBuffered (buffered : Bool)
  | flushBody
  | setHeader (key value : Text)
  | setStatusCode (status : Int)
  | setContentType (type charset : Text)
  | setCookie (key cookie : Text)
  | redirect (url : Text) (movedPermanently : Bool)
  | finish
deriving DecidableEq, Repr

/-- A call, and whether its caller catches what it throws. -/
structure Step where
  call : Call
  caught : Bool
deriving DecidableEq, Repr

/-- `Filter::Result`. -/
inductive Result where
  | kResultPass
  | kResultFail
  | kResultBreak
  | kResultNext
deriving DecidableEq, Repr

/-- What a call does. -/
def invoke (neosStrip : Text → Text) (c : CGI) : Call → Except Thrown CGI
  | .outputBody body => .ok (c.outputBody body)
  | .outputBodyF fmt text again => c.outputBodyV fmt text again
  | .overflow ch => .ok (c.outputBody [ch])
  | .xsputn s => .ok (c.outputBody s)
  | .setBodyBuffered buffered => c.setBodyBuffered buffered
  | .flushBody => c.flushBody
  | .setHeader key value => c.setHeader neosStrip key value
  | .setStatusCode status => c.setStatusCode status
  | .setContentType type charset => c.setContentType type charset
  | .setCookie key cookie => c.setCookie neosStrip key cookie
  | .redirect url movedPermanently => c.redirect url movedPermanently
  | .finish => .error .endException

/-- The object, and the calls that were made of it, each with the object as it
    was before. -/
structure Request where
  cgi : CGI
  made : List (CGI × Call)

/-- The calls of a filter, or of `Run`: what they throw in the end. -/
def perform (neosStrip : Text → Text) (r : Request) :
    List Step → Option Thrown × Request
  | [] => (none, r)
  | s :: rest =>
      let made := r.made ++ [(r.cgi, s.call)]
      match invoke neosStrip r.cgi s.call with
      | .ok c => perform neosStrip ⟨c, made⟩ rest
      | .error e =>
          if s.caught then perform neosStrip ⟨r.cgi, made⟩ rest
          else (some e, ⟨r.cgi, made⟩)

/-- `ProcessRequest`: the filters, then `Run` if they let it. -/
def runFilters (neosStrip : Text → Text) (run : List Step) (r : Request)
    (ready : Bool) : List (List Step × Result) → Option Thrown × Request
  | [] => if ready then perform neosStrip r run else (none, r)
  | (filter, ret) :: rest =>
      match perform neosStrip r filter with
      | (some e, r) => (some e, r)
      | (none, r) =>
          let ready :=
            if ret = .kResultFail ∨ ret = .kResultNext then false else ready
          if ret = .kResultFail ∨ ret = .kResultBreak then
            if ready then perform neosStrip r run else (none, r)
          else runFilters neosStrip run r ready rest

/-- `ProcessRequest`, unless an error leaves it. -/
def processRequest (neosStrip : Text → Text) (filters : List (List Step × Result))
    (run : List Step) : Option Request :=
  match runFilters neosStrip run ⟨.new, []⟩ true filters with
  | (some (.error _), _) => none
  | (_, r) =>
      match CGI.flushBody { r.cgi with requestHandled := true } with
      | .ok c => some { r with cgi := c }
      | .error _ => none

-- ── What goes out ────────────────────────────────────────────────────────────

variable {neosStrip : Text → Text} {c c' : CGI} {r r' : Request} {call : Call}
variable {body text fmt : Text} {status : Int} {headers : List (Text × Text)}

/-- A status line and a header block. -/
def block (status : Int) (headers : List (Text × Text)) : Text :=
  statusLine status ++ (headers.map headerLine).flatten ++ ['\n']

/-- The status is one that has a text. -/
def Known (status : Int) : Prop := (findStatus status).isSome = true

namespace CGI

theorem pieces_flatten (kMaximum : Nat) (hpos : 0 < kMaximum) (what : Text) :
    (pieces kMaximum hpos what).flatten = what := by
  fun_induction pieces kMaximum hpos what with
  | case1 what _ ih =>
      rw [List.flatten_cons, ih, List.take_append_drop]
  | case2 what _ => exact List.append_nil what

theorem realOutput_eq (c : CGI) (what : Text) :
    c.realOutput what = { c with out := c.out ++ what } := by
  rw [realOutput, pieces_flatten]

theorem headerLines_eq (headers : List (Text × Text)) (c : CGI) :
    headers.foldl (fun c p => c.realOutput (headerLine p)) c =
      { c with out := c.out ++ (headers.map headerLine).flatten } := by
  induction headers generalizing c with
  | nil =>
      rw [List.foldl_nil, List.map_nil, List.flatten_nil, List.append_nil]
  | cons p headers ih =>
      rw [List.foldl_cons, ih, realOutput_eq, List.map_cons, List.flatten_cons]
      dsimp only
      rw [List.append_assoc]

/-- The headers are sent once. -/
theorem outputHeaders_eq (h : c.headerSent = false) :
    c.outputHeaders = { c with
      headerSent := true, out := c.out ++ block c.status c.headers } := by
  rw [outputHeaders, h, if_neg Bool.false_ne_true, outputStatusHeader]
  dsimp only
  rw [realOutput_eq, headerLines_eq, realOutput_eq]
  dsimp only
  rw [block, List.append_assoc c.out, List.append_assoc c.out]

theorem outputHeaders_sent (h : c.headerSent = true) : c.outputHeaders = c := by
  rw [outputHeaders, if_pos h]

theorem sendBody_sent (h : c.headerSent = true) :
    c.sendBody = { c with
      bufferedBody := [], bodySent := true, out := c.out ++ c.bufferedBody } := by
  have hsame : CGI.outputHeaders { c with bufferedBody := [] } =
      { c with bufferedBody := [] } := outputHeaders_sent h
  rw [sendBody, hsame, realOutput_eq]

theorem sendBody_unsent (h : c.headerSent = false) :
    c.sendBody = { c with
      headerSent := true
      bufferedBody := []
      bodySent := true
      out := c.out ++ block c.status c.headers ++ c.bufferedBody } := by
  have hheaders : CGI.outputHeaders { c with bufferedBody := [] } = { c with
      bufferedBody := [], headerSent := true
      out := c.out ++ block c.status c.headers } := outputHeaders_eq h
  rw [sendBody, hheaders, realOutput_eq]

end CGI

/-- Headers are set until they are sent. -/
theorem setHeaderInternal_cases (c : CGI) (key value : Text) (duplicate : Bool) :
    (c.headerSent = true ∧ ∃ what,
        c.setHeaderInternal key value duplicate = .error (.error what)) ∨
      c.headerSent = false ∧ ∃ headers,
        c.setHeaderInternal key value duplicate =
          .ok { c with headers := headers } := by
  unfold CGI.setHeaderInternal
  cases hsent : c.headerSent with
  | true => exact .inl ⟨rfl, _, rfl⟩
  | false =>
      refine .inr ⟨rfl, ?_⟩
      rw [if_neg Bool.false_ne_true]
      split
      · exact ⟨_, rfl⟩
      · split
        · exact ⟨_, rfl⟩
        · exact ⟨_, rfl⟩

/-- What `FlushBody` announces is a header, set while that can be done. -/
theorem announceBody_cases (c : CGI) :
    ∃ headers, c.announceBody = .ok { c with headers := headers } ∧
      (c.headerSent = true → headers = c.headers) := by
  unfold CGI.announceBody
  by_cases hsent : c.headerSent = true
  · have hskip : ¬(!c.headerSent) = true := by
      rw [hsent]
      exact Bool.false_ne_true
    refine ⟨c.headers, ?_, fun _ => rfl⟩
    rw [if_neg hskip, if_neg hskip, ite_self]
  · have hset : ∀ key value, ∃ headers,
        c.setHeaderInternal key value false = .ok { c with headers := headers } := by
      intro key value
      rcases setHeaderInternal_cases c key value false with ⟨h, -⟩ | ⟨-, h⟩
      · exact absurd h hsent
      · exact h
    have hdo : (!c.headerSent) = true := by
      rw [Bool.eq_false_iff.mpr hsent]
      rfl
    rw [if_pos hdo, if_pos hdo]
    split
    · obtain ⟨headers, hheaders⟩ := hset "Content-Length".toList
        (decimal c.bufferedBody.length)
      exact ⟨headers, hheaders, fun h => absurd h hsent⟩
    · obtain ⟨headers, hheaders⟩ := hset "Transfer-Encoding".toList
        "chunked".toList
      exact ⟨headers, hheaders, fun h => absurd h hsent⟩

/-- A flush does not fail. -/
theorem flushBody_ok (c : CGI) : ∃ c', c.flushBody = .ok c' := by
  rw [CGI.flushBody]
  by_cases hbody : c.bufferedBody = []
  · exact ⟨_, if_pos hbody⟩
  · obtain ⟨headers, hannounce, -⟩ := announceBody_cases c
    rw [if_neg hbody, hannounce]
    exact ⟨_, rfl⟩

/-- Where the body bytes are that were taken: kept back while the headers can be
    changed, else behind the headers. -/
structure Sound (c : CGI) (taken : Text) : Prop where
  known : Known c.status
  unsent : c.headerSent = false → c.out = [] ∧ c.bufferedBody = taken
  sent : c.headerSent = true →
    ∃ status, Known status ∧
      c.out ++ c.bufferedBody = block status c.headers ++ taken

/-- Without a buffer the headers are sent and nothing is kept back. -/
def Direct (c : CGI) : Prop :=
  c.buffered = false → c.headerSent = true ∧ c.bufferedBody = []

namespace Sound

variable {taken : Text} (h : Sound c taken)
include h

/-- Sending the headers. -/
theorem outputHeaders (hempty : c.bufferedBody = []) :
    Sound c.outputHeaders taken ∧ c.outputHeaders.headerSent = true ∧
      c.outputHeaders.bufferedBody = [] := by
  cases hsent : c.headerSent with
  | true =>
      rw [CGI.outputHeaders_sent hsent]
      exact ⟨h, hsent, hempty⟩
  | false =>
      obtain ⟨hout, htaken⟩ := h.unsent hsent
      rw [CGI.outputHeaders_eq hsent]
      refine ⟨⟨h.known, fun h => (by cases h), fun _ => ?_⟩, rfl, hempty⟩
      refine ⟨c.status, h.known, ?_⟩
      dsimp only
      rw [hout, ← htaken, hempty, List.nil_append]

/-- Bytes that go out behind the headers. -/
theorem realOutput (hsent : c.headerSent = true) (hempty : c.bufferedBody = [])
    (body : Text) (bodySent : Bool) :
    Sound (CGI.realOutput { c with bodySent := bodySent } body)
      (taken ++ body) := by
  rw [CGI.realOutput_eq]
  refine ⟨h.known, fun hunsent => ?_, fun _ => ?_⟩
  · rw [hsent] at hunsent
    cases hunsent
  · obtain ⟨status, hknown, hout⟩ := h.sent hsent
    refine ⟨status, hknown, ?_⟩
    dsimp only
    rw [hempty, List.append_nil] at hout
    rw [hempty, List.append_nil, hout, List.append_assoc]

/-- A piece of the body is taken. -/
theorem outputBody (hdirect : Direct c) (body : Text) :
    Sound (c.outputBody body) (taken ++ body) ∧ Direct (c.outputBody body) := by
  rw [CGI.outputBody]
  split
  · next hbody =>
      rw [hbody, List.append_nil]
      exact ⟨h, hdirect⟩
  · split
    · next hbuffered =>
        refine ⟨⟨h.known, fun hunsent => ?_, fun hsent => ?_⟩, fun h => ?_⟩
        · obtain ⟨hout, htaken⟩ := h.unsent hunsent
          exact ⟨hout, congrArg (· ++ body) htaken⟩
        · obtain ⟨status, hknown, hout⟩ := h.sent hsent
          refine ⟨status, hknown, ?_⟩
          dsimp only
          rw [← List.append_assoc, hout, List.append_assoc]
        · exact absurd hbuffered (Bool.eq_false_iff.mp h)
    · next hbuffered =>
        obtain ⟨-, hempty⟩ := hdirect (Bool.eq_false_iff.mpr hbuffered)
        obtain ⟨hsound, hsent, hempty'⟩ := h.outputHeaders hempty
        refine ⟨hsound.realOutput hsent hempty' body true, fun _ => ?_⟩
        dsimp only
        rw [CGI.realOutput_eq]
        exact ⟨hsent, hempty'⟩

/-- The headers are changed before they are sent. -/
theorem setHeaders (hsent : c.headerSent = false)
    (headers : List (Text × Text)) : Sound { c with headers := headers } taken := by
  refine ⟨h.known, h.unsent, fun h => ?_⟩
  rw [hsent] at h
  cases h

theorem setStatus (hstatus : Known status) :
    Sound { c with status := status } taken :=
  ⟨hstatus, h.unsent, h.sent⟩

/-- What was kept back is put behind the headers. -/
theorem sendBody : Sound c.sendBody taken ∧ c.sendBody.headerSent = true ∧
    c.sendBody.bufferedBody = [] := by
  by_cases hsent : c.headerSent = true
  · obtain ⟨status, hknown, hout⟩ := h.sent hsent
    rw [CGI.sendBody_sent hsent]
    refine ⟨⟨h.known, fun hunsent => ?_, fun _ => ?_⟩, hsent, rfl⟩
    · exact absurd hsent (Bool.eq_false_iff.mp hunsent)
    · refine ⟨status, hknown, ?_⟩
      dsimp only
      rw [List.append_nil, hout]
  · have hunsent := Bool.eq_false_iff.mpr hsent
    obtain ⟨hout, htaken⟩ := h.unsent hunsent
    rw [CGI.sendBody_unsent hunsent]
    refine ⟨⟨h.known, fun h => (by cases h), fun _ => ?_⟩,
      rfl, rfl⟩
    refine ⟨c.status, h.known, ?_⟩
    dsimp only
    rw [List.append_nil, hout, htaken, List.nil_append]

/-- After a flush everything that was taken is out. -/
theorem flushBody : ∃ c', c.flushBody = .ok c' ∧ Sound c' taken ∧
    c'.headerSent = true ∧ c'.bufferedBody = [] := by
  rw [CGI.flushBody]
  by_cases hbody : c.bufferedBody = []
  · exact ⟨c.outputHeaders, if_pos hbody, h.outputHeaders hbody⟩
  · obtain ⟨headers, hannounce, hsame⟩ := announceBody_cases c
    have hsound : Sound { c with headers := headers } taken := by
      by_cases hsent : c.headerSent = true
      · rw [hsame hsent]
        exact h
      · exact h.setHeaders (Bool.eq_false_iff.mpr hsent) headers
    rw [if_neg hbody, hannounce]
    exact ⟨_, rfl, hsound.sendBody⟩

end Sound

-- ── Calls ────────────────────────────────────────────────────────────────────

/-- The body that a call writes. -/
def Call.written : Call → Text
  | .outputBody body => body
  | .outputBodyF fmt text _ => if fmt = [] then [] else text
  | .overflow ch => [ch]
  | .xsputn s => s
  | _ => []

/-- What the object takes of it. -/
def delivered (neosStrip : Text → Text) (e : CGI × Call) : Text :=
  match invoke neosStrip e.1 e.2 with
  | .error _ => []
  | .ok _ =>
      match e.2 with
      | .outputBodyF fmt text again =>
          if fmt = [] then []
          else if e.1.buffered = true ∧ 8192 ≤ text.length then again.getD []
          else text
      | call => call.written

section

variable {taken : Text} (h : Sound c taken) (hdirect : Direct c)
include h hdirect

/-- Headers are set before they are sent, so nothing that is out changes. -/
theorem Sound.setHeaderInternal {key value : Text} {duplicate : Bool}
    (hok : c.setHeaderInternal key value duplicate = .ok c') :
    Sound c' taken ∧ Direct c' := by
  rcases setHeaderInternal_cases c key value duplicate with
    ⟨-, what, herror⟩ | ⟨hsent, headers, hset⟩
  · rw [herror] at hok
    cases hok
  · rw [hset] at hok
    obtain rfl := Except.ok.inj hok
    exact ⟨h.setHeaders hsent headers, hdirect⟩

theorem Sound.setHeader {key value : Text}
    (hok : c.setHeader neosStrip key value = .ok c') :
    Sound c' taken ∧ Direct c' := by
  unfold CGI.setHeader at hok
  split at hok
  · obtain rfl := Except.ok.inj hok
    exact ⟨h, hdirect⟩
  · exact h.setHeaderInternal hdirect hok

theorem Sound.setCookie {key cookie : Text}
    (hok : c.setCookie neosStrip key cookie = .ok c') :
    Sound c' taken ∧ Direct c' := by
  unfold CGI.setCookie at hok
  split at hok
  · obtain rfl := Except.ok.inj hok
    exact ⟨h, hdirect⟩
  · exact h.setHeaderInternal hdirect hok

theorem Sound.setStatusCode {status : Int}
    (hok : c.setStatusCode status = .ok c') : Sound c' taken ∧ Direct c' := by
  unfold CGI.setStatusCode at hok
  split at hok
  · cases hok
  · next hfound =>
      obtain rfl := Except.ok.inj hok
      exact ⟨h.setStatus (Option.isSome_iff_ne_none.mpr hfound), hdirect⟩

theorem Sound.redirect {url : Text} {moved : Bool}
    (hok : c.redirect url moved = .ok c') : Sound c' taken ∧ Direct c' := by
  unfold CGI.redirect at hok
  split at hok
  · cases hok
  · next c₁ hset =>
      obtain ⟨hsound, hdirect⟩ := h.setHeaderInternal hdirect hset
      obtain rfl := Except.ok.inj hok
      have hknown : Known (if moved = true then 301 else 302) := by
        cases moved <;> rfl
      exact ⟨hsound.setStatus hknown, hdirect⟩

omit hdirect in
theorem Sound.setBodyBuffered {buffered : Bool}
    (hok : c.setBodyBuffered buffered = .ok c') : Sound c' taken ∧ Direct c' := by
  have hmode : Sound { c with buffered := buffered } taken :=
    ⟨h.known, h.unsent, h.sent⟩
  unfold CGI.setBodyBuffered at hok
  dsimp only at hok
  split at hok
  · obtain ⟨c₁, hflush, hsound, hsent, hempty⟩ := hmode.flushBody
    obtain rfl := Except.ok.inj (hflush.symm.trans hok)
    exact ⟨hsound, fun _ => ⟨hsent, hempty⟩⟩
  · next hbuffered =>
      obtain rfl := Except.ok.inj hok
      refine ⟨hmode, fun h => absurd h ?_⟩
      rw [Bool.not_eq_true'] at hbuffered
      exact hbuffered

/-- The formatted text is taken, or what a second formatting made of it. -/
theorem Sound.outputBodyV {fmt text : Text} {again : Option Text}
    (hok : c.outputBodyV fmt text again = .ok c') :
    Sound c' (taken ++ if fmt = [] then []
      else if c.buffered = true ∧ 8192 ≤ text.length then again.getD []
      else text) ∧ Direct c' := by
  unfold CGI.outputBodyV at hok
  split at hok
  · next hfmt =>
      obtain rfl := Except.ok.inj hok
      rw [if_pos hfmt, List.append_nil]
      exact ⟨h, hdirect⟩
  · next hfmt =>
      rw [if_neg hfmt]
      split at hok
      · next hbuffered =>
          obtain ⟨-, hempty⟩ := hdirect (Bool.eq_false_iff.mpr hbuffered)
          obtain ⟨hsound, hsent, hempty'⟩ := h.outputHeaders hempty
          obtain rfl := Except.ok.inj hok
          rw [if_neg fun h => hbuffered h.1]
          refine ⟨hsound.realOutput hsent hempty' text true, fun _ => ?_⟩
          rw [CGI.realOutput_eq]
          exact ⟨hsent, hempty'⟩
      · next hbuffered =>
          split at hok
          · cases hok
          · split at hok
            · next hzero =>
                obtain rfl := Except.ok.inj hok
                rw [if_neg (by omega), List.eq_nil_of_length_eq_zero hzero,
                  List.append_nil]
                exact ⟨h, hdirect⟩
            · split at hok
              · obtain rfl := Except.ok.inj hok
                rw [if_neg (by omega)]
                exact h.outputBody hdirect text
              · next hlong =>
                  rw [if_pos ⟨not_not.mp hbuffered, Nat.not_lt.mp hlong⟩]
                  cases again with
                  | none => cases hok
                  | some buf =>
                      dsimp only at hok
                      split at hok
                      · cases hok
                      · obtain rfl := Except.ok.inj hok
                        exact h.outputBody hdirect buf

/-- **ONE CALL**: what it delivers is taken, behind what was before. -/
theorem Sound.invoke (hok : FlinterCgi.invoke neosStrip c call = .ok c') :
    Sound c' (taken ++ delivered neosStrip (c, call)) ∧ Direct c' := by
  rw [delivered, hok]
  dsimp only
  cases call with
  | outputBody body =>
      obtain rfl := Except.ok.inj hok
      exact h.outputBody hdirect body
  | outputBodyF fmt text again => exact h.outputBodyV hdirect hok
  | overflow ch =>
      obtain rfl := Except.ok.inj hok
      exact h.outputBody hdirect [ch]
  | xsputn s =>
      obtain rfl := Except.ok.inj hok
      exact h.outputBody hdirect s
  | setBodyBuffered buffered =>
      show Sound c' (taken ++ []) ∧ Direct c'
      rw [List.append_nil]
      exact h.setBodyBuffered hok
  | flushBody =>
      show Sound c' (taken ++ []) ∧ Direct c'
      rw [List.append_nil]
      obtain ⟨c₁, hflush, hsound, hsent, hempty⟩ := h.flushBody
      obtain rfl := Except.ok.inj (hflush.symm.trans hok)
      exact ⟨hsound, fun _ => ⟨hsent, hempty⟩⟩
  | setHeader key value =>
      show Sound c' (taken ++ []) ∧ Direct c'
      rw [List.append_nil]
      exact h.setHeader hdirect hok
  | setStatusCode status =>
      show Sound c' (taken ++ []) ∧ Direct c'
      rw [List.append_nil]
      exact h.setStatusCode hdirect hok
  | setContentType type charset =>
      show Sound c' (taken ++ []) ∧ Direct c'
      rw [List.append_nil]
      exact h.setHeaderInternal hdirect hok
  | setCookie key cookie =>
      show Sound c' (taken ++ []) ∧ Direct c'
      rw [List.append_nil]
      exact h.setCookie hdirect hok
  | redirect url moved =>
      show Sound c' (taken ++ []) ∧ Direct c'
      rw [List.append_nil]
      exact h.redirect hdirect hok
  | finish => cases hok

end

-- ── Requests as runs ─────────────────────────────────────────────────────────

/-- What the calls wrote, in order. -/
def written (made : List (CGI × Call)) : Text :=
  (made.map fun e => e.2.written).flatten

/-- What the object took of it, in order. -/
def taken (neosStrip : Text → Text) (made : List (CGI × Call)) : Text :=
  (made.map (delivered neosStrip)).flatten

/-- `P` holds of what is called, by a filter or by `Run`. -/
def Calls (P : Call → Prop) (filters : List (List Step × Result))
    (run : List Step) : Prop :=
  (∀ f ∈ filters, ∀ s ∈ f.1, P s.call) ∧ ∀ s ∈ run, P s.call

section

variable {I : Request → Prop} {P : Call → Prop} {steps run : List Step}
variable {filters : List (List Step × Result)}
variable (hok : ∀ r call c', P call → I r → invoke neosStrip r.cgi call = .ok c' →
    I ⟨c', r.made ++ [(r.cgi, call)]⟩)
variable (herror : ∀ r call e, P call → I r →
    invoke neosStrip r.cgi call = .error e →
    I ⟨r.cgi, r.made ++ [(r.cgi, call)]⟩)
include hok herror

/-- What each call keeps, a filter or `Run` keeps. -/
theorem perform_invariant (hsteps : ∀ s ∈ steps, P s.call) (hr : I r) :
    I (perform neosStrip r steps).2 := by
  induction steps generalizing r with
  | nil => exact hr
  | cons s rest ih =>
      have hcall := hsteps s List.mem_cons_self
      have hrest := fun s hs => hsteps s (List.mem_cons_of_mem _ hs)
      rw [perform]
      split
      · next c' hinvoke => exact ih hrest (hok r s.call c' hcall hr hinvoke)
      · next e hinvoke =>
          have hkept := herror r s.call e hcall hr hinvoke
          split
          · exact ih hrest hkept
          · exact hkept

theorem runFilters_invariant (hcalls : Calls P filters run) (ready : Bool)
    (hr : I r) : I (runFilters neosStrip run r ready filters).2 := by
  have hrun : ∀ {r} (ready : Bool), I r →
      I (if ready then perform neosStrip r run else (none, r)).2 := by
    intro r ready hr
    split
    · exact perform_invariant hok herror hcalls.2 hr
    · exact hr
  induction filters generalizing r ready with
  | nil => exact hrun ready hr
  | cons f rest ih =>
      obtain ⟨filter, ret⟩ := f
      have hfilter := perform_invariant hok herror
        (hcalls.1 _ List.mem_cons_self) hr
      have hrest : Calls P rest run :=
        ⟨fun f hf => hcalls.1 f (List.mem_cons_of_mem _ hf), hcalls.2⟩
      rw [runFilters]
      split
      · next e r' hperform =>
          rw [hperform] at hfilter
          exact hfilter
      · next r' hperform =>
          rw [hperform] at hfilter
          generalize (if ret = .kResultFail ∨ ret = .kResultNext then false
            else ready) = ready'
          dsimp only
          split
          · exact hrun _ hfilter
          · exact ih hrest _ hfilter

end

/-- After each call the object holds what it took. -/
def Holds (neosStrip : Text → Text) (r : Request) : Prop :=
  Sound r.cgi (taken neosStrip r.made) ∧ Direct r.cgi

theorem taken_snoc (made : List (CGI × Call)) (e : CGI × Call) :
    taken neosStrip (made ++ [e]) =
      taken neosStrip made ++ delivered neosStrip e := by
  rw [taken, List.map_append, List.flatten_append, taken, List.map_singleton,
    List.flatten_singleton]

theorem holds_ok (h : Holds neosStrip r)
    (hinvoke : invoke neosStrip r.cgi call = .ok c') :
    Holds neosStrip ⟨c', r.made ++ [(r.cgi, call)]⟩ := by
  rw [Holds, taken_snoc]
  exact h.1.invoke h.2 hinvoke

theorem holds_error {e : Thrown} (h : Holds neosStrip r)
    (hinvoke : invoke neosStrip r.cgi call = .error e) :
    Holds neosStrip ⟨r.cgi, r.made ++ [(r.cgi, call)]⟩ := by
  have hnothing : delivered neosStrip (r.cgi, call) = [] := by
    rw [delivered, hinvoke]
  rw [Holds, taken_snoc, hnothing, List.append_nil]
  exact h

theorem holds_new : Holds neosStrip ⟨.new, []⟩ :=
  ⟨⟨rfl, fun _ => ⟨rfl, rfl⟩, fun h => (by cases h)⟩, fun h => (by cases h)⟩

/-- **THE RUN**: whatever is called, the object holds what it took. -/
theorem runs_hold (neosStrip : Text → Text) (filters : List (List Step × Result))
    (run : List Step) :
    Holds neosStrip (runFilters neosStrip run ⟨.new, []⟩ true filters).2 :=
  runFilters_invariant (P := fun _ => True)
    (fun _ _ _ _ hr hinvoke => holds_ok hr hinvoke)
    (fun _ _ _ _ hr hinvoke => holds_error hr hinvoke)
    ⟨fun _ _ _ _ => trivial, fun _ _ => trivial⟩ true holds_new

/-- How `ProcessRequest` returns: the calls were made, and it has flushed. -/
theorem processRequest_cases {filters : List (List Step × Result)}
    {run : List Step} (h : processRequest neosStrip filters run = some r) :
    ∃ r', (runFilters neosStrip run ⟨.new, []⟩ true filters).2 = r' ∧
      CGI.flushBody { r'.cgi with requestHandled := true } = .ok r.cgi ∧
      r.made = r'.made := by
  unfold processRequest at h
  split at h
  · cases h
  · next e r' hrun hthrown =>
      rw [hthrown]
      split at h
      · next c hflush =>
          obtain rfl := Option.some.inj h
          exact ⟨r', rfl, hflush, rfl⟩
      · cases h

/-- **THE ORDER**: one status line and header block, then what was taken. -/
theorem processRequest_out {filters : List (List Step × Result)}
    {run : List Step} (h : processRequest neosStrip filters run = some r) :
    ∃ status, Known status ∧
      r.cgi.out = block status r.cgi.headers ++ taken neosStrip r.made := by
  obtain ⟨r', hrun, hflush, hmade⟩ := processRequest_cases h
  have hholds := runs_hold neosStrip filters run
  rw [hrun] at hholds
  have hsound : Sound { r'.cgi with requestHandled := true }
      (taken neosStrip r.made) := by
    rw [hmade]
    exact ⟨hholds.1.known, hholds.1.unsent, hholds.1.sent⟩
  obtain ⟨c, hflush', hc, hsent, hempty⟩ := hsound.flushBody
  obtain rfl := Except.ok.inj (hflush.symm.trans hflush')
  obtain ⟨status, hknown, hout⟩ := hc.sent hsent
  rw [hempty, List.append_nil] at hout
  exact ⟨status, hknown, hout⟩

-- ── Nothing lost ─────────────────────────────────────────────────────────────

/-- A line of text has no line break before its end. -/
theorem statusLine_eq (status : Int) :
    ∃ line, '\n' ∉ line ∧ statusLine status = line ++ ['\n'] := by
  refine ⟨_, fun hmem => ?_, rfl⟩
  have hdigits : '\n' ∉ Nat.toDigits 10 status.natAbs := by
    intro hmem
    cases Nat.isDigit_of_mem_toDigits (by decide) (by decide) hmem
  rcases List.mem_append.mp hmem with hmem | hmem
  · rcases List.mem_append.mp hmem with hmem | hmem
    · rcases List.mem_append.mp hmem with hmem | hmem
      · exact absurd hmem (by decide)
      · rw [decimal] at hmem
        split at hmem
        · rcases List.mem_cons.mp hmem with heq | hmem
          · cases heq
          · exact hdigits hmem
        · exact hdigits hmem
    · exact absurd hmem (by decide)
  · have htable : ∀ p ∈ kHttpStatusCodes, '\n' ∉ p.2.toList := by decide +kernel
    cases hfind : kHttpStatusCodes.find? fun p => p.1 = status with
    | none =>
        rw [findStatus, hfind] at hmem
        exact absurd hmem (by decide)
    | some p =>
        rw [findStatus, hfind] at hmem
        exact htable p (List.mem_of_find?_eq_some hfind) hmem

/-- The header block and the body behind it can be told apart. -/
theorem block_inj {status' : Int} {body' : Text}
    (heq : block status headers ++ body = block status' headers ++ body') :
    body = body' := by
  obtain ⟨line, hline, hstatus⟩ := statusLine_eq status
  obtain ⟨line', hline', hstatus'⟩ := statusLine_eq status'
  have hfirst : ∀ {line line' rest rest' : Text}, '\n' ∉ line → '\n' ∉ line' →
      line ++ '\n' :: rest = line' ++ '\n' :: rest' → rest = rest' := by
    intro line line' rest rest' hline hline' heq
    induction line generalizing line' with
    | nil =>
        cases line' with
        | nil => exact (List.cons.inj heq).2
        | cons ch line' =>
            exact absurd (List.cons.inj heq).1 fun h =>
              hline' (h ▸ List.mem_cons_self)
    | cons ch line ih =>
        cases line' with
        | nil =>
            exact absurd (List.cons.inj heq).1 fun h =>
              hline (h ▸ List.mem_cons_self)
        | cons ch' line' =>
            exact ih (fun h => hline (List.mem_cons_of_mem _ h))
              (fun h => hline' (List.mem_cons_of_mem _ h)) (List.cons.inj heq).2
  rw [block, block, hstatus, hstatus'] at heq
  simp only [List.append_assoc, List.cons_append, List.nil_append] at heq
  have hrest := hfirst hline hline' heq
  exact (List.cons.inj (List.append_cancel_left hrest)).2

/-- A long text that is buffered is formatted twice: the second time has to give
    the same.  (`vsnprintf` has no more than `INT_MAX` bytes.) -/
def FormattedAgain (e : CGI × Call) : Prop :=
  match e.2 with
  | .outputBodyF fmt text again =>
      fmt ≠ [] → e.1.buffered = true → 8192 ≤ text.length →
        text.length ≤ 2147483647 ∧ again = some text
  | _ => True

/-- A call that writes what it is given. -/
theorem delivered_plain (h : ∀ fmt text again, call ≠ .outputBodyF fmt text again)
    (hwrites : call.written ≠ [] → ∃ c', invoke neosStrip c call = .ok c') :
    delivered neosStrip (c, call) = call.written := by
  have htaken : ∀ c', invoke neosStrip c call = .ok c' →
      delivered neosStrip (c, call) = call.written := by
    intro c' hinvoke
    rw [delivered, hinvoke]
    cases call with
    | outputBodyF fmt text again => exact absurd rfl (h fmt text again)
    | _ => rfl
  by_cases hnil : call.written = []
  · cases hinvoke : invoke neosStrip c call with
    | ok c' => exact htaken c' hinvoke
    | error e => rw [delivered, hinvoke, hnil]
  · obtain ⟨c', hinvoke⟩ := hwrites hnil
    exact htaken c' hinvoke

/-- A formatted text that is short, or goes out directly, is taken. -/
theorem delivered_short {again : Option Text}
    (h : ¬(fmt ≠ [] ∧ c.buffered = true ∧ 8192 ≤ text.length)) :
    delivered neosStrip (c, .outputBodyF fmt text again) =
      (Call.outputBodyF fmt text again).written := by
  have hok : ∃ c', c.outputBodyV fmt text again = .ok c' := by
    unfold CGI.outputBodyV
    split
    · exact ⟨_, rfl⟩
    · next hfmt =>
        split
        · exact ⟨_, rfl⟩
        · next hbuffered =>
            have hlt : text.length < 8192 := by
              by_contra hge
              exact h ⟨hfmt, not_not.mp hbuffered, Nat.not_lt.mp hge⟩
            rw [if_neg (by omega)]
            split
            · exact ⟨_, rfl⟩
            · exact ⟨_, rfl⟩
  obtain ⟨c', hok⟩ := hok
  have hinvoke : invoke neosStrip c (.outputBodyF fmt text again) = .ok c' := hok
  rw [delivered, hinvoke]
  show (if fmt = [] then [] else if c.buffered = true ∧ 8192 ≤ text.length then
    again.getD [] else text) = if fmt = [] then [] else text
  split
  · rfl
  · next hfmt => rw [if_neg fun hlong => h ⟨hfmt, hlong⟩]

/-- Of a long one that is buffered, what the second formatting made is taken, if
    it is as long. -/
theorem delivered_long {again : Option Text} (hfmt : fmt ≠ [])
    (hbuffered : c.buffered = true) (hlong : 8192 ≤ text.length) :
    (delivered neosStrip (c, .outputBodyF fmt text again)).length ≤ text.length ∧
      (delivered neosStrip (c, .outputBodyF fmt text again) = text ↔
        text.length ≤ 2147483647 ∧ again = some text) := by
  have hthrows : ∀ {e}, c.outputBodyV fmt text again = .error e →
      delivered neosStrip (c, .outputBodyF fmt text again) = [] := by
    intro e herror
    have hinvoke : invoke neosStrip c (.outputBodyF fmt text again) = .error e :=
      herror
    rw [delivered, hinvoke]
  have hne : text ≠ [] := by
    rintro rfl
    cases hlong
  unfold CGI.outputBodyV at hthrows
  rw [if_neg hfmt, if_neg (not_not.mpr hbuffered)] at hthrows
  by_cases hhuge : text.length > 2147483647
  · rw [if_pos hhuge] at hthrows
    rw [hthrows rfl]
    exact ⟨Nat.zero_le _, fun h => absurd h.symm hne, fun h => by omega⟩
  · rw [if_neg hhuge, if_neg (by omega), if_neg (by omega)] at hthrows
    cases again with
    | none =>
        rw [hthrows rfl]
        refine ⟨Nat.zero_le _, fun h => absurd h.symm hne, fun h => ?_⟩
        cases h.2
    | some buf =>
        by_cases hlength : buf.length ≠ text.length
        · dsimp only at hthrows
          rw [if_pos hlength] at hthrows
          rw [hthrows rfl]
          refine ⟨Nat.zero_le _, fun h => absurd h.symm hne, fun h => ?_⟩
          exact absurd (congrArg List.length (Option.some.inj h.2)) hlength
        · have hinvoke : invoke neosStrip c (.outputBodyF fmt text (some buf)) =
              .ok (c.outputBody buf) := by
            unfold invoke CGI.outputBodyV
            dsimp only
            rw [if_neg hfmt, if_neg (not_not.mpr hbuffered), if_neg hhuge,
              if_neg (by omega), if_neg (by omega), if_neg hlength]
          have htaken : delivered neosStrip (c, .outputBodyF fmt text (some buf)) =
              buf := by
            rw [delivered, hinvoke]
            dsimp only
            rw [if_neg hfmt, if_pos ⟨hbuffered, hlong⟩, Option.getD_some]
          rw [htaken]
          refine ⟨Nat.le_of_eq (not_not.mp hlength), fun h => ⟨by omega, congrArg some h⟩,
            fun h => Option.some.inj h.2⟩

/-- Of a call that writes, no more than it wrote is taken; all of it unless a
    long text was not formatted again. -/
theorem delivered_spec (e : CGI × Call) :
    (delivered neosStrip e).length ≤ e.2.written.length ∧
      (delivered neosStrip e = e.2.written ↔ FormattedAgain e) := by
  obtain ⟨c, call⟩ := e
  have hplain : delivered neosStrip (c, call) = call.written →
      FormattedAgain (c, call) →
      (delivered neosStrip (c, call)).length ≤ call.written.length ∧
        (delivered neosStrip (c, call) = call.written ↔
          FormattedAgain (c, call)) :=
    fun heq hagain => ⟨Nat.le_of_eq (congrArg List.length heq), fun _ => hagain, fun _ => heq⟩
  cases call with
  | outputBodyF fmt text again =>
      by_cases hlong : fmt ≠ [] ∧ c.buffered = true ∧ 8192 ≤ text.length
      · obtain ⟨hfmt, hbuffered, hlength⟩ := hlong
        have hwritten : (Call.outputBodyF fmt text again).written = text :=
          if_neg hfmt
        obtain ⟨hle, hiff⟩ :=
          @delivered_long neosStrip c text fmt again hfmt hbuffered hlength
        rw [hwritten]
        refine ⟨hle, hiff.trans ⟨fun h _ _ _ => h, fun h => ?_⟩⟩
        exact h hfmt hbuffered hlength
      · exact hplain (delivered_short hlong)
          fun hfmt hbuffered hlength => absurd ⟨hfmt, hbuffered, hlength⟩ hlong
  | outputBody body =>
      exact hplain (delivered_plain (by simp) fun _ => ⟨_, rfl⟩) trivial
  | overflow ch =>
      exact hplain (delivered_plain (by simp) fun _ => ⟨_, rfl⟩) trivial
  | xsputn s =>
      exact hplain (delivered_plain (by simp) fun _ => ⟨_, rfl⟩) trivial
  | _ => exact hplain (delivered_plain (by simp) fun h => absurd rfl h) trivial

/-- Pieces that are no longer than others make no longer a text. -/
theorem flatten_length_le {α : Type} {f g : α → Text} {es : List α}
    (hle : ∀ e ∈ es, (f e).length ≤ (g e).length) :
    ((es.map f).flatten).length ≤ ((es.map g).flatten).length := by
  induction es with
  | nil => exact Nat.le_refl _
  | cons e es ih =>
      rw [List.map_cons, List.map_cons, List.flatten_cons, List.flatten_cons,
        List.length_append, List.length_append]
      have hhead := hle e List.mem_cons_self
      have htail := ih fun e' he => hle e' (List.mem_cons_of_mem _ he)
      omega

/-- They make the same text only if each is the same. -/
theorem flatten_eq_iff {α : Type} {f g : α → Text} {es : List α}
    (hle : ∀ e ∈ es, (f e).length ≤ (g e).length) :
    (es.map f).flatten = (es.map g).flatten ↔ ∀ e ∈ es, f e = g e := by
  constructor
  · intro heq
    induction es with
    | nil =>
        intro e he
        cases he
    | cons e es ih =>
        have htail := fun e' he => hle e' (List.mem_cons_of_mem e he)
        have hlength := congrArg List.length heq
        rw [List.map_cons, List.map_cons, List.flatten_cons, List.flatten_cons]
          at heq hlength
        rw [List.length_append, List.length_append] at hlength
        have hhead := hle e List.mem_cons_self
        have hrest := flatten_length_le htail
        obtain ⟨hsame, hflat⟩ := List.append_inj heq (by omega)
        intro e' he'
        rcases List.mem_cons.mp he' with rfl | he'
        · exact hsame
        · exact ih htail hflat e' he'
  · intro h
    rw [List.map_congr_left h]

/-- What went out is one status line and header block and then all that was
    written. -/
def InOrder (r : Request) : Prop :=
  ∃ status, Known status ∧
    r.cgi.out = block status r.cgi.headers ++ written r.made

/-- All that was written went out if and only if it was taken. -/
theorem inOrder_iff {filters : List (List Step × Result)} {run : List Step}
    (h : processRequest neosStrip filters run = some r) :
    InOrder r ↔ taken neosStrip r.made = written r.made := by
  obtain ⟨status, hknown, hout⟩ := processRequest_out h
  constructor
  · rintro ⟨status', -, hout'⟩
    exact block_inj (hout.symm.trans hout')
  · intro heq
    rw [heq] at hout
    exact ⟨status, hknown, hout⟩

/-- If no error leaves the filters and `Run`, `ProcessRequest` returns. -/
theorem processRequest_returns {filters : List (List Step × Result)}
    {run : List Step} {thrown : Option Thrown}
    (hrun : runFilters neosStrip run ⟨.new, []⟩ true filters = (thrown, r))
    (hthrown : ∀ what, thrown ≠ some (.error what)) :
    ∃ c, processRequest neosStrip filters run = some ⟨c, r.made⟩ := by
  obtain ⟨c, hflush⟩ := flushBody_ok { r.cgi with requestHandled := true }
  refine ⟨c, ?_⟩
  rw [processRequest, hrun]
  split
  · next what _ heq => exact absurd (congrArg Prod.fst heq) (hthrown what)
  · next e r' _ heq =>
      obtain rfl := congrArg Prod.snd heq
      rw [hflush]

/-- Calls that throw nothing, each with the object that it finds. -/
inductive Passes (neosStrip : Text → Text) : CGI → List (CGI × Call) → CGI → Prop where
  | done {c₁ : CGI} : Passes neosStrip c₁ [] c₁
  | call {c₁ c₂ c₃ : CGI} {what : Call} {made : List (CGI × Call)}
      (hinvoke : invoke neosStrip c₁ what = .ok c₂)
      (hrest : Passes neosStrip c₂ made c₃) :
      Passes neosStrip c₁ ((c₁, what) :: made) c₃

variable {made : List (CGI × Call)}

theorem Passes.perform (h : Passes neosStrip c made c') (before : List (CGI × Call)) :
    FlinterCgi.perform neosStrip ⟨c, before⟩ (made.map fun e => ⟨e.2, false⟩) =
      (none, ⟨c', before ++ made⟩) := by
  induction h generalizing before with
  | done =>
      rw [List.append_nil]
      rfl
  | call hinvoke _ ih =>
      rw [List.map_cons, FlinterCgi.perform, hinvoke]
      dsimp only
      rw [ih, List.append_assoc, List.singleton_append]

/-- Without filters, `ProcessRequest` returns from such a `Run`. -/
theorem Passes.returns (h : Passes neosStrip .new made c') :
    ∃ c, processRequest neosStrip [] (made.map fun e => ⟨e.2, false⟩) =
      some ⟨c, made⟩ := by
  have hrun : runFilters neosStrip (made.map fun e => ⟨e.2, false⟩) ⟨.new, []⟩ true [] =
      (none, ⟨c', made⟩) := by
    rw [runFilters, if_pos rfl, h.perform, List.nil_append]
  exact processRequest_returns hrun fun _ hnone => nomatch hnone

/-- **ALL OF IT, IN ORDER**: when `ProcessRequest` returns, one status line and
    header block have gone out and behind them what the calls wrote, in their
    order; if and only if no long text that was buffered was formatted to
    something else the second time. -/
theorem processRequest_inOrder {filters : List (List Step × Result)}
    {run : List Step} (h : processRequest neosStrip filters run = some r) :
    InOrder r ↔ ∀ e ∈ r.made, FormattedAgain e := by
  rw [inOrder_iff h, taken, written,
    flatten_eq_iff fun e _ => (delivered_spec e).1]
  exact forall₂_congr fun e _ => (delivered_spec e).2

/-- Two letters are kept back, the buffering is switched off, and a third one goes
    out behind them. -/
theorem processRequest_inOrder_letters :
    ∃ r, processRequest id [] [⟨.outputBody ['h', 'i'], false⟩,
      ⟨.setBodyBuffered false, false⟩, ⟨.outputBody ['!'], false⟩] = some r ∧
      InOrder r := by
  obtain ⟨c₁, hflush⟩ := flushBody_ok
    { CGI.new.outputBody ['h', 'i'] with buffered := false }
  have hpasses : Passes id .new [(.new, .outputBody ['h', 'i']),
      (CGI.new.outputBody ['h', 'i'], .setBodyBuffered false),
      (c₁, .outputBody ['!'])] (c₁.outputBody ['!']) :=
    .call rfl (.call hflush (.call rfl .done))
  obtain ⟨c, hc⟩ := hpasses.returns
  refine ⟨_, hc, (processRequest_inOrder hc).mpr fun e he => ?_⟩
  simp only [List.mem_cons, List.not_mem_nil, or_false] at he
  rcases he with rfl | rfl | rfl
  · trivial
  · trivial
  · trivial

/-- A text of 8192 bytes, of which the second `vsnprintf` makes something else. -/
theorem formatted_to_other_text :
    ∃ r, processRequest id [] [⟨.outputBodyF ['%', 's'] (List.replicate 8192 'a')
      (some (List.replicate 8192 'b')), false⟩] = some r ∧ ¬InOrder r := by
  generalize htext : List.replicate 8192 'a' = text
  generalize hbuf : List.replicate 8192 'b' = buf
  have hlength : text.length = 8192 := by rw [← htext, List.length_replicate]
  have hlength' : buf.length = 8192 := by rw [← hbuf, List.length_replicate]
  have hne : buf ≠ text := by
    intro heq
    have hmem : 'a' ∈ buf := by
      rw [heq, ← htext]
      exact List.mem_replicate.mpr ⟨by decide, rfl⟩
    rw [← hbuf] at hmem
    exact absurd (List.eq_of_mem_replicate hmem) (by decide)
  have hinvoke : invoke id .new (.outputBodyF ['%', 's'] text (some buf)) =
      .ok (CGI.new.outputBody buf) := by
    unfold invoke CGI.outputBodyV
    dsimp only
    rw [if_neg (by decide), if_neg (by decide), if_neg (by omega),
      if_neg (by omega), if_neg (by omega), if_neg (by omega)]
  have hpasses : Passes id .new [(.new, .outputBodyF ['%', 's'] text (some buf))]
      (CGI.new.outputBody buf) := .call hinvoke .done
  obtain ⟨c, hc⟩ := hpasses.returns
  refine ⟨_, hc, fun hinOrder => ?_⟩
  rw [inOrder_iff hc, taken, written,
    flatten_eq_iff fun e _ => (delivered_spec e).1] at hinOrder
  have hsame := hinOrder _ (List.mem_singleton_self _)
  have hagain := (delivered_spec _).2.mp hsame
  have hsome := (hagain (by simp) rfl (by omega)).2
  exact hne (Option.some.inj hsome)

end FlinterCgi
