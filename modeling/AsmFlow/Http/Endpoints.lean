import AsmFlow.Http.Conn

/-!
# Answering a request

The credential check of `http_auth.asm` and the dispatcher of
`http_endpoints.asm`. What a page shows, what the generation endpoints find in a
body and what an upstream exchange answers are left open; they may depend on how
many requests the connection has completed.
-/

namespace AsmFlow.Http

/-- `AF_AUTH_*`. -/
inductive AuthType
  | none
  | bearerEnv
  | headerEnv
  deriving DecidableEq, Repr

/-- `AF_HTTP_M_*`. -/
def methodGet : ℕ := 1
def methodPost : ℕ := 3

/-- What an upstream exchange delivers to the connection in the end. A streamed answer
counts as the response it amounts to. -/
inductive Answer
  | response (status : ℕ) (flags : HeadFlags) (body : Bytes)
  | error (id : ErrorId)
  deriving DecidableEq, Repr

/-- The `HS_*` record, and the daemon behind it. -/
structure Server (O : Type) where
  headerMax : ℕ
  bodyMax : ℕ
  authType : AuthType
  authHeader : Option Bytes
  authSecret : Bytes
  /-- `af_id_generate`, the ids in the order they are drawn. -/
  newId : ℕ → Bytes
  /-- `af_http_build_error_body`. -/
  errorBody : ErrorId → Bytes → Bytes
  /-- Status and body of a page; its writer may fail. -/
  page : Endpoint → ℕ → Option (ℕ × Bytes)
  /-- The refusal of a generation request, unless its exchange is started. -/
  generate : Endpoint → Bytes → ℕ → Option ErrorId
  /-- The answer of a started exchange. -/
  exchange : Endpoint → Bytes → ℕ → Answer
  /-- Writes a response. -/
  post : O → Reply → O × Status

variable {O : Type}

/-- ASCII lower case. -/
def lower (c : UInt8) : UInt8 := if 65 ≤ c ∧ c ≤ 90 then c + 32 else c

/-- `af_http_buffer_is_ci`. -/
def isCi (b token : Bytes) : Bool := b.map lower == token.map lower

/-- `af_http_buffer_starts_ci`. -/
def startsCi (b token : Bytes) : Bool := isCi (b.take token.length) token

namespace Server

variable (s : Server O)

/-- The comparison of `af_http_check_auth` with the secret. -/
def checkToken (presented : Bytes) : Option ErrorId :=
  if presented = s.authSecret then none else some .invalidToken

/-- `af_http_check_auth`: the fault it records, if the request may not proceed. -/
def checkAuth (c : Conn O) : Option ErrorId :=
  match s.authType with
  | .none => none
  | kind =>
    if s.authSecret = [] then some .missingToken
    else if c.haveAuth = false then some .missingToken
    else if c.authAllocated = false then some .missingToken
    else if kind = .bearerEnv then
      if c.auth.length ≤ 7 then some .invalidToken
      else if isCi (c.auth.take 6) (ascii "bearer") = false then some .invalidToken
      else if c.auth[6]? ≠ some 32 then some .invalidToken
      else s.checkToken (c.auth.drop 7)
    else s.checkToken c.auth

/-- `af_http_assign_request_id`. -/
def assignRequestId (c : Conn O) : Conn O :=
  { c with requestId := s.newId c.drawn, drawn := c.drawn + 1 }

/-- `af_http_send_error`. -/
def sendError (c : Conn O) (id : ErrorId) : Conn O × Status :=
  let c := if c.requestId = [] then s.assignRequestId c else c
  Conn.commit s.post { c with response := s.errorBody id c.requestId } id.status id.headFlags

/-- `af_http_ep_healthz`, `af_http_ep_readyz` and `af_http_ep_models`. -/
def showPage (c : Conn O) : Conn O × Status :=
  match s.page c.endpoint c.requests with
  | none => ({ c with response := [] }, .nomem)
  | some (status, body) => Conn.commit s.post { c with response := body } status .none

/-- `af_http_ep_generation`. -/
def generation (c : Conn O) : Conn O × Status :=
  if c.haveCl = false ∧ c.haveTe = false then s.sendError c .lengthRequired
  else if c.haveCtype = false then s.sendError c .unsupportedCtype
  else if startsCi c.ctype (ascii "application/json") = false then
    s.sendError c .unsupportedCtype
  else if c.body = [] then s.sendError c .invalidJson
  else
    match s.generate c.endpoint c.body c.requests with
    | some id => s.sendError c id
    | none => ({ c with upstream := true }, .ok)

/-- `af_http_dispatch`, after the request id: path, then credential, then method. -/
def answer (c : Conn O) : Conn O × Status :=
  match c.fault with
  | some id => s.sendError c id
  | none =>
    if c.endpoint = .unknown then s.sendError c .unknownPath
    else
      match s.checkAuth c with
      | some id => s.sendError (c.setFault id) id
      | none =>
        if c.endpoint.generates then
          if c.method = methodPost then s.generation c else s.sendError c .methodPostOnly
        else if c.method = methodGet then s.showPage c
        else s.sendError c .methodGetOnly

/-- `af_http_dispatch`. -/
def dispatch (c : Conn O) : Conn O × Status := s.answer (s.assignRequestId c)

/-- What `af_prov_exchange_finish` does to the connection of a delivered exchange. -/
def deliver (c : Conn O) : Conn O :=
  let c :=
    match s.exchange c.endpoint c.body c.requests with
    | .response status flags body => (Conn.commit s.post { c with response := body } status flags).1
    | .error id => (s.sendError c id).1
  { c with upstream := false }

end Server
end AsmFlow.Http
