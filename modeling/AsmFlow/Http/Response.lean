import AsmFlow.Http.Outbox

/-!
# Writing a response

`http_response.asm`: the error catalogue, the status line, and the head as the
pieces `af_http_write_head` appends one after the other.
-/

namespace AsmFlow.Http

def ascii (s : String) : Bytes := s.toList.map fun c => UInt8.ofNat c.toNat

def crlf : Bytes := [13, 10]

/-- `af_u64_to_dec`. -/
def decimal (n : ℕ) : Bytes :=
  if n = 0 then [48] else (Nat.digits 10 n).reverse.map fun d => UInt8.ofNat (48 + d)

/-- `AF_HEAD_*`. -/
structure HeadFlags where
  noStore : Bool
  allowGet : Bool
  allowPost : Bool
  sse : Bool
  chunked : Bool
  deriving DecidableEq, Repr

namespace HeadFlags

def none : HeadFlags := ⟨false, false, false, false, false⟩

end HeadFlags

/-- `AF_HERR_*`. -/
inductive ErrorId
  | unknownPath
  | methodGetOnly
  | methodPostOnly
  | headersTooLarge
  | bodyTooLarge
  | lengthRequired
  | unsupportedCtype
  | invalidJson
  | invalidField
  | missingModel
  | missingToken
  | invalidToken
  | malformed
  | smuggling
  | requestTimeout
  | notReady
  | unknownAlias
  | routeDisabled
  | unsupportedBuild
  | version
  | internal
  | upstreamConnect
  | upstreamTls
  | upstreamTimeout
  | upstreamInvalid
  | noTarget
  | capacity
  deriving DecidableEq, Repr

namespace ErrorId

/-- The status column of `af_http_error_table`. -/
def status : ErrorId → ℕ
  | unknownPath => 404
  | methodGetOnly => 405
  | methodPostOnly => 405
  | headersTooLarge => 431
  | bodyTooLarge => 413
  | lengthRequired => 411
  | unsupportedCtype => 415
  | invalidJson => 400
  | invalidField => 400
  | missingModel => 400
  | missingToken => 401
  | invalidToken => 401
  | malformed => 400
  | smuggling => 400
  | requestTimeout => 408
  | notReady => 503
  | unknownAlias => 404
  | routeDisabled => 503
  | unsupportedBuild => 503
  | version => 505
  | internal => 500
  | upstreamConnect => 502
  | upstreamTls => 502
  | upstreamTimeout => 504
  | upstreamInvalid => 502
  | noTarget => 503
  | capacity => 429

/-- The head flags column. -/
def headFlags : ErrorId → HeadFlags
  | methodGetOnly => { HeadFlags.none with allowGet := true }
  | methodPostOnly => { HeadFlags.none with allowPost := true }
  | _ => HeadFlags.none

end ErrorId

def statusTable : List (ℕ × String) :=
  [(200, "OK"), (400, "Bad Request"), (401, "Unauthorized"), (404, "Not Found"),
    (405, "Method Not Allowed"), (408, "Request Timeout"), (411, "Length Required"),
    (413, "Content Too Large"), (415, "Unsupported Media Type"),
    (431, "Request Header Fields Too Large"), (429, "Too Many Requests"),
    (500, "Internal Server Error"), (502, "Bad Gateway"), (503, "Service Unavailable"),
    (504, "Gateway Timeout"), (505, "HTTP Version Not Supported")]

/-- `af_http_reason`. -/
def reason (status : ℕ) : Bytes := ascii ((statusTable.lookup status).getD "Error")

def contentLength (n : ℕ) : List Bytes := [ascii "Content-Length: ", decimal n, crlf]

/-- What `af_http_write_head` appends, in its order. -/
def headPieces (status bodyLen : ℕ) (requestId : Option Bytes) (keepAlive : Bool)
    (flags : HeadFlags) : List Bytes :=
  [ascii "HTTP/1.1 ", decimal status, [32], reason status, crlf,
      if flags.sse then ascii "Content-Type: text/event-stream\r\n"
      else ascii "Content-Type: application/json\r\n"] ++
    ((if flags.chunked then [ascii "Transfer-Encoding: chunked\r\n"] else contentLength bodyLen) ++
    ([ascii "X-Content-Type-Options: nosniff\r\n"] ++
    ((if flags.noStore then [ascii "Cache-Control: no-store\r\n"] else []) ++
    ((if flags.allowGet then [ascii "Allow: GET\r\n"] else []) ++
    ((if flags.allowPost then [ascii "Allow: POST\r\n"] else []) ++
    ((match requestId with
      | .none => []
      | .some id => [ascii "X-AsmFlow-Request-Id: ", id, crlf]) ++
    [if keepAlive then ascii "Connection: keep-alive\r\n" else ascii "Connection: close\r\n",
      crlf]))))))

/-- A response about to be written. -/
structure Reply where
  status : ℕ
  flags : HeadFlags
  requestId : Bytes
  keepAlive : Bool
  body : Bytes
  deriving DecidableEq, Repr

namespace Reply

def pieces (r : Reply) : List Bytes :=
  headPieces r.status r.body.length (some r.requestId) r.keepAlive r.flags

def head (r : Reply) : Bytes := r.pieces.flatten

/-- The whole response. -/
def bytes (r : Reply) : Bytes := r.head ++ r.body

/-- Unless it is chunked, a response declares the length of its body. -/
theorem head_declares (r : Reply) (h : r.flags.chunked = false) :
    ∃ before after, r.head = before ++ (contentLength r.body.length).flatten ++ after := by
  unfold head pieces headPieces
  rw [h, if_neg Bool.false_ne_true, List.flatten_append, List.flatten_append, ← List.append_assoc]
  exact ⟨_, _, rfl⟩

end Reply

namespace Outbox

variable {alloc : ℕ → Bool} {o : Outbox}

/-- One append after the other, up to the first that is refused. -/
def appendAll (alloc : ℕ → Bool) (o : Outbox) : List Bytes → Outbox × Status
  | [] => (o, .ok)
  | p :: ps =>
    match o.append alloc p with
    | (o, st) => if st < 0 then (o, st) else appendAll alloc o ps

/-- `af_http_write_head`. -/
def writeHead (alloc : ℕ → Bool) (o : Outbox) (status bodyLen : ℕ) (requestId : Option Bytes)
    (keepAlive : Bool) (flags : HeadFlags) : Outbox × Status :=
  o.appendAll alloc (headPieces status bodyLen requestId keepAlive flags)

/-- The head, and if it was written the body. -/
def post (alloc : ℕ → Bool) (o : Outbox) (r : Reply) : Outbox × Status :=
  match o.writeHead alloc r.status r.body.length (some r.requestId) r.keepAlive r.flags with
  | (o, st) => if st < 0 then (o, st) else o.append alloc r.body

theorem appendAll_cons (p : Bytes) (ps : List Bytes) :
    o.appendAll alloc (p :: ps) =
      if (o.append alloc p).2 < 0 then o.append alloc p
      else (o.append alloc p).1.appendAll alloc ps := rfl

theorem appendAll_append (ps qs : List Bytes) (o : Outbox) :
    o.appendAll alloc (ps ++ qs) =
      if (o.appendAll alloc ps).2 < 0 then o.appendAll alloc ps
      else (o.appendAll alloc ps).1.appendAll alloc qs := by
  induction ps generalizing o with
  | nil =>
    have hok : ¬(o.appendAll alloc []).2 < 0 := (by decide : ¬Status.ok < 0)
    rw [if_neg hok]
    rfl
  | cons p ps ih =>
    rw [List.cons_append, appendAll_cons, appendAll_cons]
    by_cases hneg : (o.append alloc p).2 < 0
    · rw [if_pos hneg, if_pos hneg, if_pos hneg]
    · rw [if_neg hneg, if_neg hneg]
      exact ih _

/-- A response is its pieces and its body, one append after the other. -/
theorem post_eq (r : Reply) : o.post alloc r = o.appendAll alloc (r.pieces ++ [r.body]) := by
  rw [appendAll_append]
  unfold post writeHead Reply.pieces
  dsimp only
  by_cases hneg : (o.appendAll alloc (headPieces r.status r.body.length (some r.requestId)
      r.keepAlive r.flags)).2 < 0
  · rw [if_pos hneg, if_pos hneg]
  · rw [if_neg hneg, if_neg hneg, appendAll_cons]
    split_ifs with hbody
    · rfl
    · rcases append_cases alloc _ r.body with ⟨o', heq, -⟩ | ⟨e, he, heq⟩
      · rw [heq]
        rfl
      · rw [heq] at hbody
        exact absurd he hbody

/-- What the appends leave: all of the pieces, or some of them and a refusal. -/
theorem appendAll_cases (alloc : ℕ → Bool) (ps : List Bytes) (o : Outbox) :
    ((o.appendAll alloc ps).2 = .ok ∧
        (o.appendAll alloc ps).1.pending = o.pending ++ ps.flatten) ∨
      ((o.appendAll alloc ps).2 < 0 ∧
        ∃ written refused rest, ps = written ++ refused :: rest ∧
          (o.appendAll alloc ps).1.pending = o.pending ++ written.flatten) := by
  induction ps generalizing o with
  | nil =>
    left
    rw [List.flatten_nil, List.append_nil]
    exact ⟨rfl, rfl⟩
  | cons p ps ih =>
    rw [appendAll_cons]
    rcases append_cases alloc o p with ⟨o', heq, hpending⟩ | ⟨e, he, heq⟩
    · rw [heq, if_neg (by decide : ¬Status.ok < 0)]
      dsimp only
      rcases ih o' with ⟨hst, hall⟩ | ⟨hst, written, refused, rest, hps, hsome⟩
      · left
        refine ⟨hst, ?_⟩
        rw [hall, hpending, List.flatten_cons, List.append_assoc]
      · right
        refine ⟨hst, p :: written, refused, rest, by rw [hps, List.cons_append], ?_⟩
        rw [hsome, hpending, List.flatten_cons, List.append_assoc]
    · right
      rw [heq, if_pos he]
      refine ⟨he, [], p, ps, rfl, ?_⟩
      rw [List.flatten_nil, List.append_nil]

end Outbox
end AsmFlow.Http
