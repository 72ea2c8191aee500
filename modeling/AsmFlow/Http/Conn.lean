import AsmFlow.Http.Response

/-!
# A client connection

The `HC_*` record, without what only the socket's side touches. What the
responses go to is left open: it is the outbox, or a record of the responses
where the outbox's ceiling plays no part.
-/

namespace AsmFlow.Http

/-- `AF_EP_*`. -/
inductive Endpoint
  | unknown
  | healthz
  | readyz
  | models
  | responses
  | chat
  deriving DecidableEq, Repr

/-- The endpoints from `AF_EP_RESPONSES` on. -/
def Endpoint.generates : Endpoint → Bool
  | responses => true
  | chat => true
  | _ => false

structure Conn (O : Type) where
  outbox : O
  method : ℕ
  endpoint : Endpoint
  headerBytes : ℕ
  bodyBytes : ℕ
  contentLength : Option ℕ
  /-- `HC_FAULT`, when `HC_F_FAULT` is set. -/
  fault : Option ErrorId
  closing : Bool
  headersDone : Bool
  messageDone : Bool
  keepAlive : Bool
  haveCl : Bool
  haveTe : Bool
  haveAuth : Bool
  haveCtype : Bool
  responded : Bool
  draining : Bool
  upstream : Bool
  requests : ℕ
  target : Bytes
  name : Bytes
  value : Bytes
  body : Bytes
  auth : Bytes
  /-- The credential buffer has been allocated, which outlives the message. -/
  authAllocated : Bool
  ctype : Bytes
  response : Bytes
  requestId : Bytes
  /-- How many request ids have been drawn. -/
  drawn : ℕ
  deriving DecidableEq, Repr

namespace Conn

variable {O : Type}

/-- A slot as `af_http_on_listen` fills it. -/
def fresh (outbox : O) : Conn O where
  outbox := outbox
  method := 0
  endpoint := .unknown
  headerBytes := 0
  bodyBytes := 0
  contentLength := none
  fault := none
  closing := false
  headersDone := false
  messageDone := false
  keepAlive := false
  haveCl := false
  haveTe := false
  haveAuth := false
  haveCtype := false
  responded := false
  draining := false
  upstream := false
  requests := 0
  target := []
  name := []
  value := []
  body := []
  auth := []
  authAllocated := false
  ctype := []
  response := []
  requestId := []
  drawn := 0

/-- `af_http_fault`: the first one wins. -/
def setFault (c : Conn O) (id : ErrorId) : Conn O :=
  match c.fault with
  | none => { c with fault := some id }
  | some _ => c

/-- `af_http_reset_message`: of the flags only the closing one is kept. -/
def resetMessage (c : Conn O) : Conn O :=
  { c with
    target := [], name := [], value := [], body := [], auth := [], ctype := []
    method := 0, endpoint := .unknown, headerBytes := 0, bodyBytes := 0, contentLength := none
    fault := none, headersDone := false, messageDone := false, keepAlive := false
    haveCl := false, haveTe := false, haveAuth := false, haveCtype := false
    responded := false, draining := false, upstream := false }

/-- The response `af_http_commit` writes. A refused message ends the connection, and
its response says so. -/
def reply (c : Conn O) (status : ℕ) (flags : HeadFlags) : Reply where
  status := status
  flags := { flags with noStore := flags.noStore || c.endpoint.generates }
  requestId := c.requestId
  keepAlive := c.keepAlive && !(c.fault.isSome || c.closing)
  body := c.response

/-- `af_http_commit`. -/
def commit (post : O → Reply → O × Status) (c : Conn O) (status : ℕ) (flags : HeadFlags) :
    Conn O × Status :=
  match post c.outbox (c.reply status flags) with
  | (outbox, st) =>
    if st < 0 then ({ c with outbox := outbox }, st)
    else ({ c with outbox := outbox, responded := true }, .ok)

end Conn
end AsmFlow.Http
