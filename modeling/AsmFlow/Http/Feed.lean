import AsmFlow.Http.Parse

/-!
# Feeding the parser

`af_http_conn_feed` and what runs it: a readable socket, and an exchange that
has answered. The reader is the connection with its parser; the client adds the
bytes that were read and not yet given to the parser.
-/

namespace AsmFlow.Http

open Library

/-- `AF_HTTP_READ_CHUNK`. -/
def readChunk : ℕ := 65536

variable {P O : Type}

/-- The connection, the state of its parser, and what the parser stopped with: it keeps
answering it. -/
structure Reader (P O : Type) where
  conn : Conn O
  parser : P
  errno : Option Hpe
  deriving DecidableEq, Repr

structure Client (P O : Type) extends Reader P O where
  inbox : Bytes
  deriving DecidableEq, Repr

/-- An accepted client. -/
def Client.fresh (parser : P) (outbox : O) : Client P O :=
  ⟨⟨Conn.fresh outbox, parser, none⟩, []⟩

namespace Server

variable (s : Server O) (T : Parser P)

/-- `af_llhttp_execute`: what stopped it, and how many bytes it had consumed. A parser
that has stopped makes no more callbacks; its position is then worth nothing, and the
feed drops what it offered. -/
def execute (r : Reader P O) (d : Bytes) : Reader P O × Option (Hpe × ℕ) :=
  match r.errno with
  | some e => (r, some (e, d.length))
  | none =>
    match perform s.call r.conn (joined Call.join (T.trace r.parser 0 d)) with
    | (conn, none) => ({ r with conn := conn, parser := T.after r.parser d }, none)
    | (conn, some (e, n)) =>
      (⟨conn, T.after r.parser (d.take n), some e⟩, some (e, n))

/-- The connection side of `af_http_count_header_bytes`. -/
def countHeaderBytes (c : Conn O) (consumed : ℕ) : Conn O :=
  if c.headersDone then c else { c with headerBytes := c.headerBytes + consumed }

/-- Whether `af_http_count_header_bytes` finds the section too large. -/
def headersLarge (c : Conn O) : Bool := !c.headersDone && decide (s.headerMax < c.headerBytes)

/-- `.refuse`: one response, unless one is queued already, and the connection ends. -/
def refuse (c : Conn O) (id : ErrorId) : Conn O :=
  let c := c.setFault id
  let c := if c.responded then c else (s.sendError c (c.fault.getD id)).1
  { c with closing := true }

/-- The fault of a parse that stopped without one. -/
def faultOf : Hpe → ErrorId
  | .bad .unexpectedContentLength => .smuggling
  | .bad .invalidContentLength => .smuggling
  | .bad .invalidChunkSize => .smuggling
  | .bad .invalidTransferEncoding => .smuggling
  | _ => .malformed

/-- `.stopped`. -/
def stopped (c : Conn O) (e : Hpe) (consumed : ℕ) : Conn O :=
  let c := countHeaderBytes c consumed
  if e = .paused then c
  else if c.closing then c
  else s.refuse c (faultOf e)

/-- The part of `af_http_conn_feed` from `.capped` on. -/
def offer (x : Client P O) (n : ℕ) : Client P O :=
  match s.execute T x.toReader (x.inbox.take n) with
  | (r, none) =>
    let c := countHeaderBytes r.conn n
    if s.headersLarge c then ⟨{ r with conn := s.refuse c .headersTooLarge }, x.inbox⟩
    else ⟨{ r with conn := c }, x.inbox.drop n⟩
  | (r, some (e, consumed)) =>
    ⟨{ r with conn := s.stopped r.conn e consumed }, x.inbox.drop consumed⟩

/-- How many of `len` bytes are offered to the parser: while the header section is
unfinished, what is left of its ceiling and one more. -/
def offered (c : Conn O) (len : ℕ) : ℕ :=
  if c.headersDone then len else min len (s.headerMax - c.headerBytes + 1)

/-- `af_http_conn_feed`. -/
def feed (x : Client P O) : Client P O :=
  if x.conn.upstream then x
  else if x.inbox = [] then x
  else if x.conn.headersDone = false ∧ s.headerMax ≤ x.conn.headerBytes then
    { x with conn := s.refuse x.conn .headersTooLarge }
  else s.offer T x (s.offered x.conn x.inbox.length)

/-- `af_http_conn_read` and the feed after it. A connection that drains reads its peer
away. -/
def readable (x : Client P O) (p : Bytes) : Client P O :=
  if x.conn.draining then x
  else if x.inbox.length + p.length ≤ s.headerMax + s.bodyMax + readChunk then
    s.feed T { x with inbox := x.inbox ++ p }
  else if x.conn.upstream then
    { x with conn := { x.conn with upstream := false, closing := true, draining := true } }
  else
    let c := x.conn.setFault .bodyTooLarge
    s.feed T { x with conn := { c with closing := true } }

/-- `af_llhttp_resume`. -/
def resumeErrno (e : Option Hpe) : Option Hpe := if e = some .paused then none else e

/-- `af_http_conn_resume`, up to the feed. -/
def resume (r : Reader P O) : Reader P O :=
  { r with conn := { r.conn with responded := false }, errno := resumeErrno r.errno }

/-- An exchange answers, and the connection goes on with what waits in the inbox. -/
def exchangeDone (x : Client P O) : Client P O :=
  if x.conn.upstream = false then x
  else
    let r := resume { x.toReader with conn := s.deliver x.conn }
    if r.conn.keepAlive then s.feed T ⟨r, x.inbox⟩
    else ⟨{ r with conn := { r.conn with draining := true } }, x.inbox⟩

/-- `.maybe_close`, once the outbox is empty. -/
def written (x : Client P O) : Client P O :=
  if x.conn.upstream = false ∧ x.conn.closing then
    { x with conn := { x.conn with draining := true } }
  else x

end Server
end AsmFlow.Http
