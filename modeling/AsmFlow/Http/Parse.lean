import AsmFlow.Http.Endpoints
import AsmFlow.Library.Transducer

/-!
# The parser's callbacks

`http_parse.asm`. The parser is an incremental machine that answers every byte
with the callbacks the byte brings about; inside one call of `llhttp_execute`
the bytes of a span arrive as one callback. Only the ceilings of the buffers are
modelled, not the allocator.
-/

namespace AsmFlow.Http

open Library

inductive Span
  | url
  | headerField
  | headerValue
  | body
  deriving DecidableEq, Repr

/-- What the accessors of the parser report at the end of the header section. -/
structure RequestLine where
  method : ℕ
  major : ℕ
  minor : ℕ
  upgrade : Bool
  keepAlive : Bool
  deriving DecidableEq, Repr

/-- The parser's own errors; the first four are about framing. -/
inductive SyntaxError
  | unexpectedContentLength
  | invalidContentLength
  | invalidChunkSize
  | invalidTransferEncoding
  | other
  deriving DecidableEq, Repr

/-- A callback, or the parser's refusal. `unset` stands for the callbacks the settings
leave out. -/
inductive Call
  | span (kind : Span) (at_ : Bytes)
  | messageBegin
  | headerFieldComplete
  | headerValueComplete
  | headersComplete (line : RequestLine)
  | messageComplete
  | unset
  | bad (e : SyntaxError)
  deriving DecidableEq, Repr

/-- Why a parse stopped: `AF_HPE_*`. -/
inductive Hpe
  | paused
  | user
  | bad (e : SyntaxError)
  deriving DecidableEq, Repr

/-- Where in a message the parser is. Fields that come after the header section are
trailers. -/
inductive Phase
  | idle
  | head
  | body
  deriving DecidableEq, Repr

/-- The order in which the library makes its callbacks; `none` for one out of order. -/
def Phase.step : Phase → Call → Option Phase
  | ph, .unset => some ph
  | ph, .bad _ => some ph
  | .idle, .messageBegin => some .head
  | .head, .span kind _ => if kind = .body then none else some .head
  | .head, .headerFieldComplete => some .head
  | .head, .headerValueComplete => some .head
  | .head, .headersComplete _ => some .body
  | .body, .span kind _ => if kind = .url then none else some .body
  | .body, .headerFieldComplete => some .body
  | .body, .headerValueComplete => some .body
  | .body, .messageComplete => some .idle
  | _, _ => none

def Phase.steps (ph : Phase) (xs : List Call) : Option Phase :=
  xs.foldl (fun acc x => acc.bind fun ph => ph.step x) (some ph)

/-- The parser, one byte at a time. -/
structure Parser (P : Type) extends Transducer P UInt8 Call where
  start : P
  phase : P → Phase
  start_idle : phase start = .idle
  orderly : ∀ p b, (phase p).steps (next p b).2 = some (phase (next p b).1)

/-- Two pieces of one span. -/
def Call.join : Call → Call → Option Call
  | .span k a, .span k' b => if k = k' then some (.span k (a ++ b)) else none
  | _, _ => none

/-- `AF_HTTP_TARGET_MAX`, `AF_HTTP_NAME_MAX` and `AF_HTTP_VALUE_MAX`. -/
def targetMax : ℕ := 8192
def nameMax : ℕ := 1024
def valueMax : ℕ := 8192

/-- `af_buf_append` against the ceiling. -/
def extend (max : ℕ) (data p : Bytes) : Option Bytes :=
  if data.length + p.length ≤ max then some (data ++ p) else none

/-- `af_http_parse_u64`: digits and nothing else. -/
def parseU64 (b : Bytes) : Option ℕ :=
  if b = [] ∨ 20 < b.length then none
  else
    b.foldl (fun acc c =>
      acc.bind fun v =>
        if 48 ≤ c ∧ c ≤ 57 ∧ 10 * v + (c.toNat - 48) < 2 ^ 64 then
          some (10 * v + (c.toNat - 48))
        else none) (some 0)

def endpointTable : List (Bytes × Endpoint) :=
  [(ascii "/healthz", .healthz), (ascii "/readyz", .readyz), (ascii "/v1/models", .models),
    (ascii "/v1/responses", .responses), (ascii "/v1/chat/completions", .chat)]

/-- `af_http_resolve_endpoint`. -/
def resolveEndpoint (target : Bytes) : Endpoint :=
  if target.head? = some 47 then
    (endpointTable.lookup (target.takeWhile (· ≠ 63))).getD .unknown
  else .unknown

variable {O : Type}

namespace Conn

/-- A fault recorded in a callback stops the parse. -/
def refuse (c : Conn O) (id : ErrorId) : Conn O × Option Hpe := (c.setFault id, some .user)

end Conn

namespace Server

variable (s : Server O)

/-- `af_http_cb_url`. -/
def onUrl (c : Conn O) (p : Bytes) : Conn O × Option Hpe :=
  match extend targetMax c.target p with
  | none => c.refuse .headersTooLarge
  | some target => ({ c with target := target }, none)

/-- A value means the pair before is finished. -/
def nextName (c : Conn O) : Conn O :=
  if c.value = [] then c else { c with name := [], value := [] }

/-- `af_http_cb_header_field`. -/
def onHeaderField (c : Conn O) (p : Bytes) : Conn O × Option Hpe :=
  match extend nameMax (nextName c).name p with
  | none => (nextName c).refuse .headersTooLarge
  | some name => ({ nextName c with name := name }, none)

/-- `af_http_cb_header_value`. -/
def onHeaderValue (c : Conn O) (p : Bytes) : Conn O × Option Hpe :=
  match extend valueMax c.value p with
  | none => c.refuse .headersTooLarge
  | some value => ({ c with value := value }, none)

/-- `af_http_cb_body`. -/
def onBody (c : Conn O) (p : Bytes) : Conn O × Option Hpe :=
  if s.bodyMax < c.bodyBytes + p.length then c.refuse .bodyTooLarge
  else
    match extend s.bodyMax c.body p with
    | none => Conn.refuse { c with bodyBytes := c.bodyBytes + p.length } .bodyTooLarge
    | some body => ({ c with bodyBytes := c.bodyBytes + p.length, body := body }, none)

def onSpan (c : Conn O) (p : Bytes) : Span → Conn O × Option Hpe
  | .url => onUrl c p
  | .headerField => onHeaderField c p
  | .headerValue => onHeaderValue c p
  | .body => s.onBody c p

/-- A second one is refused whatever it says. -/
def onContentLength (c : Conn O) : Conn O × Option Hpe :=
  if c.haveCl || c.haveTe then c.refuse .smuggling
  else
    match parseU64 c.value with
    | none => c.refuse .smuggling
    | some n => ({ c with contentLength := some n, haveCl := true }, none)

def onTransferEncoding (c : Conn O) : Conn O × Option Hpe :=
  if c.haveTe || c.haveCl then c.refuse .smuggling
  else if isCi c.value (ascii "chunked") then ({ c with haveTe := true }, none)
  else c.refuse .smuggling

def onContentType (c : Conn O) : Conn O × Option Hpe :=
  match extend valueMax c.ctype c.value with
  | none => c.refuse .headersTooLarge
  | some ctype => ({ c with ctype := ctype, haveCtype := true }, none)

def onCredential (c : Conn O) : Conn O × Option Hpe :=
  if c.haveAuth then c.refuse .smuggling
  else
    match extend valueMax c.auth c.value with
    | none => c.refuse .headersTooLarge
    | some auth =>
      ({ c with
          auth := auth
          authAllocated := c.authAllocated || !c.value.isEmpty
          haveAuth := true }, none)

/-- Whether a header is the one the credential policy names. -/
def isCredential (name : Bytes) : Bool :=
  match s.authHeader with
  | none => false
  | some header => isCi name header

/-- `af_http_cb_header_value_complete`: one complete header pair. -/
def onHeaderValueComplete (c : Conn O) : Conn O × Option Hpe :=
  if isCi c.name (ascii "content-length") then onContentLength c
  else if isCi c.name (ascii "transfer-encoding") then onTransferEncoding c
  else if isCi c.name (ascii "content-type") then onContentType c
  else if s.isCredential c.name then onCredential c
  else (c, none)

/-- The size check on the declaration. -/
def declaredTooLarge (c : Conn O) : Bool :=
  match c.contentLength with
  | none => false
  | some n => decide (n < 2 ^ 63 ∧ s.bodyMax < n)

/-- `af_http_cb_headers_complete`. -/
def onHeadersComplete (c : Conn O) (line : RequestLine) : Conn O × Option Hpe :=
  let c := { c with headersDone := true, method := line.method }
  if line.major ≠ 1 ∨ 1 < line.minor then c.refuse .version
  else if line.upgrade then c.refuse .malformed
  else
    let c := { c with keepAlive := c.keepAlive || line.keepAlive }
    if c.target.head? ≠ some 47 then c.refuse .malformed
    else
      let c := { c with endpoint := resolveEndpoint c.target }
      if s.declaredTooLarge c then c.refuse .bodyTooLarge else (c, none)

/-- What becomes of the connection once its request has been dispatched. -/
def afterDispatch (c : Conn O) : Conn O × Option Hpe :=
  if c.upstream then (c, some .paused)
  else if c.keepAlive = false ∨ c.fault.isSome then ({ c with closing := true }, some .user)
  else (c.resetMessage, none)

/-- `af_http_cb_message_complete`. -/
def onMessageComplete (c : Conn O) : Conn O × Option Hpe :=
  match s.dispatch { c with messageDone := true } with
  | (c, st) =>
    if st < 0 then ({ c.setFault .internal with closing := true }, some .user)
    else afterDispatch { c with requests := c.requests + 1 }

/-- A callback, and what it returns to the parser. -/
def call (c : Conn O) : Call → Conn O × Option Hpe
  | .span kind p => s.onSpan c p kind
  | .messageBegin => (c.resetMessage, none)
  | .headerFieldComplete => (c, none)
  | .headerValueComplete => s.onHeaderValueComplete c
  | .headersComplete line => s.onHeadersComplete c line
  | .messageComplete => s.onMessageComplete c
  | .unset => (c, none)
  | .bad e => (c, some (.bad e))

end Server
/-! ## A small parser -/

/-- A parser of POST requests whose last header is a Content-Length: where it is, the minor
version, and the length the last value spells. -/
inductive Reading
  | start
  | method
  | url
  | version (minor : ℕ)
  | line (minor length : ℕ)
  | name (minor : ℕ)
  | value (minor length : ℕ)
  | valueEnd (minor length : ℕ)
  | final (minor length : ℕ)
  | body (left : ℕ)
  deriving DecidableEq, Repr

namespace Reading

def phase : Reading → Phase
  | start => .idle
  | body _ => .body
  | _ => .head

/-- The end of the header section; only version 1.1 keeps the connection. -/
def headersEnd (minor : ℕ) : Call := .headersComplete ⟨methodPost, 1, minor, false, minor == 1⟩

def next : Reading → UInt8 → Reading × List Call
  | start, _ => (method, [.messageBegin])
  | method, b => (if b = 32 then url else method, [])
  | url, b => if b = 32 then (version 0, []) else (url, [.span .url [b]])
  | version m, b =>
    (if b = 10 then line m 0 else if b = 13 then version m else version (b.toNat - 48), [])
  | line m n, b => if b = 13 then (final m n, []) else (name m, [.span .headerField [b]])
  | name m, b =>
    if b = 58 then (value m 0, [.headerFieldComplete]) else (name m, [.span .headerField [b]])
  | value m n, b =>
    if b = 13 then (valueEnd m n, [.headerValueComplete])
    else if b = 32 then (value m n, [])
    else (value m (10 * n + (b.toNat - 48)), [.span .headerValue [b]])
  | valueEnd m n, _ => (line m n, [])
  | final m 0, _ => (start, [headersEnd m, .messageComplete])
  | final m (n + 1), _ => (body n, [headersEnd m])
  | body 0, b => (start, [.span .body [b], .messageComplete])
  | body (n + 1), b => (body n, [.span .body [b]])

theorem orderly (r : Reading) (b : UInt8) :
    r.phase.steps (r.next b).2 = some (r.next b).1.phase := by
  cases r with
  | start => rfl
  | method =>
    simp only [next]
    split_ifs <;> rfl
  | url =>
    simp only [next]
    split_ifs <;> rfl
  | version m =>
    simp only [next]
    split_ifs <;> rfl
  | line m n =>
    simp only [next]
    split_ifs <;> rfl
  | name m =>
    simp only [next]
    split_ifs <;> rfl
  | value m n =>
    simp only [next]
    split_ifs <;> rfl
  | valueEnd m n => rfl
  | final m n => cases n <;> rfl
  | body n => cases n <;> rfl

def parser : Parser Reading where
  next := next
  start := start
  phase := phase
  start_idle := rfl
  orderly := orderly

end Reading

end AsmFlow.Http
