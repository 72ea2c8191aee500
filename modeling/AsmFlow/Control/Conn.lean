import AsmFlow.Json.Utf8
import AsmFlow.Mcp.Stdout
import AsmFlow.Memory.Appends

/-!
# A control connection and its frames

`control_frame.asm`, and the record of a client. A frame is one line; its ceiling
counts the line feed.
-/

namespace AsmFlow.Control

/-- The parts of `af_ctl_conn` that a request and its answer go through, with the
ceiling of the server it belongs to; `armed` is whether the loop is asked for
`EPOLLOUT`. -/
structure Conn where
  frameMax : ℕ
  inbox : Buffer
  outbox : Buffer
  cursor : ℕ
  closing : Bool
  armed : Bool

/-- A client as `af_ctl_on_accept` leaves it. -/
def Conn.accepted (frameMax : ℕ) : Conn :=
  { frameMax, inbox := Buffer.init frameMax, outbox := Buffer.init frameMax, cursor := 0
    closing := false, armed := false }

/-- `af_ctl_frame_next`: the frame at the front, without its line end. -/
def frameNext (inbox : Bytes) (frameMax : ℕ) : Except Status Bytes :=
  if inbox.length = 0 then .error Status.again
  else
    match inbox.findIdx? (· == 10) with
    | none => if frameMax ≤ inbox.length then .error Status.ctlFrameLarge else .error Status.again
    | some n =>
      if frameMax < n + 1 then .error Status.ctlFrameLarge
      else
        let frame := Mcp.trimCr (inbox.take n)
        if Json.utf8Validate frame then .ok frame else .error Status.mcpProtocol

/-- `af_ctl_frame_consume`. -/
def frameConsume (inbox : Buffer) (frameLen : ℕ) : Buffer × Status :=
  if inbox.len ≤ frameLen then (inbox, Status.range)
  else if inbox.data[frameLen]? = some 13 then
    if inbox.len ≤ frameLen + 1 then (inbox, Status.range)
    else if inbox.data[frameLen + 1]? ≠ some 10 then (inbox, Status.range)
    else inbox.consume (frameLen + 2)
  else if inbox.data[frameLen]? ≠ some 10 then (inbox, Status.range)
  else inbox.consume (frameLen + 1)

/-- `af_ctl_frame_finish`. -/
def frameFinish (alloc : ℕ → Bool) (outbox : Buffer) (start frameMax : ℕ) : Buffer × Status :=
  if frameMax < outbox.len - start + 1 then (outbox, Status.ctlFrameLarge)
  else outbox.appendByte alloc 10

/-- What the kernel answers to a write. -/
inductive WriteAnswer
  | wrote (n : ℕ)
  | again
  | intr
  | failed (f : Mcp.Fault)
  deriving DecidableEq

namespace Conn

/-- The bytes that have not been written to the socket. -/
def unwritten (c : Conn) : Bytes := c.outbox.data.drop c.cursor

/-- `.drained` of `af_ctl_conn_flush`. -/
def drained (c : Conn) : Conn := { c with outbox := c.outbox.clear, cursor := 0, armed := false }

/-- `af_ctl_conn_flush`. A kernel that has no more answers would block. -/
def flush (c : Conn) : List WriteAnswer → Conn × Status
  | [] =>
    if c.outbox.len ≤ c.cursor then (c.drained, Status.ok)
    else ({ c with armed := true }, Status.ok)
  | answer :: rest =>
    if c.outbox.len ≤ c.cursor then (c.drained, Status.ok)
    else
      match answer with
      | .wrote n => { c with cursor := c.cursor + min n (c.outbox.len - c.cursor) }.flush rest
      | .again => ({ c with armed := true }, Status.ok)
      | .intr => c.flush rest
      | .failed f => (c, f.val)

end Conn
end AsmFlow.Control
