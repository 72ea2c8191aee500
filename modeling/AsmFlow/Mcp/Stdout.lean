import AsmFlow.Mcp.Rpc

/-!
# Lines from the protocol pipe

`af_mcp_read_stdout` and `af_mcp_frame_lines`.
-/

namespace AsmFlow.Mcp

/-- What a read of a pipe returns. -/
inductive ReadAnswer
  | got (d : Bytes)
  | again
  | eof
  | failed (f : Fault)

/-- The first line feed at `i` or behind it. -/
def lineFeed (d : Bytes) (i : ℕ) : Option ℕ := ((d.drop i).findIdx? (· == 10)).map (i + ·)

/-- A line without its trailing carriage return. -/
def trimCr (l : Bytes) : Bytes := if l.getLast? = some 13 then l.dropLast else l

namespace Child

variable (J : JsonLibrary) (m : Memory) (c : Child)

/-- Where the scan goes on: a cursor behind the end starts again. -/
def scanFrom : ℕ := if c.scanCursor ≤ c.inbox.length then c.scanCursor else 0

/-- The inbox without its first line, which ends at `n`. -/
def consume (n : ℕ) : Child := { c with inbox := c.inbox.drop (n + 1) }

/-- A line over the ceiling is counted. -/
def overlong : Child := { c with oversized := c.oversized + 1 }

/-- A line goes to the message layer. -/
def handOver (line : Bytes) : Child :=
  { c with
    framesIn := c.framesIn + 1
    present := { c.present with lines := c.present.lines ++ [line] } }

/-- `.deliver`: one line, and the status it is rejected with. -/
def deliver (line : Bytes) : Child × Status :=
  if c.cfg.frameMax ≠ 0 ∧ c.cfg.frameMax < line.length then
    (c.overlong, Status.mcpProtocol)
  else (c.handOver line).onMessage J m line

/-- `.incomplete`. -/
def incomplete : Child × Status :=
  if c.cfg.frameMax ≠ 0 ∧ c.cfg.frameMax < c.inbox.length then
    ({ c.overlong with inbox := [], scanCursor := 0 }, Status.mcpProtocol)
  else ({ c with scanCursor := c.inbox.length }, Status.ok)

/-- `.found`: what happens to a line that ends at `n`. -/
def found (n : ℕ) : Child × Status :=
  if c.flags.discarding then
    ((({ c with scanCursor := 0 } : Child).withFlags ({ · with discarding := false })).consume n,
      Status.ok)
  else
    match ({ c with scanCursor := 0 } : Child).deliver J m (trimCr (c.inbox.take n)) with
    | (d, st) => (d.consume n, st)

/-- `af_mcp_frame_lines`, with as many turns as there may be lines. -/
def frameLines (c : Child) : ℕ → Child × Status
  | 0 => (c, Status.ok)
  | turns + 1 =>
    if c.inbox = [] then ({ c with scanCursor := 0 }, Status.ok)
    else
      match lineFeed c.inbox c.scanFrom with
      | none => c.incomplete
      | some n =>
        match c.found J m n with
        | (d, st) => if st < 0 then (d, st) else d.frameLines turns

/-- The process has written more. -/
def hear (d : Bytes) : Child :=
  { c with present := { c.present with heard := c.present.heard ++ d } }

/-- `af_mcp_read_stdout`. -/
def readStdout (r : ReadAnswer) : Child × Status :=
  if c.stdoutFd = false then (c, Status.invalid)
  else
    match r with
    | .again => (c, Status.ok)
    | .eof => (c, Status.eof)
    | .failed f => (c, f.val)
    | .got d =>
      let c := c.hear d
      if inboxMax < c.inbox.length + d.length then (c, Status.limit)
      else if m.alloc (c.inbox.length + d.length) = false then (c, Status.nomem)
      else
        ({ c with inbox := c.inbox ++ d } : Child).frameLines J m (c.inbox.length + d.length + 1)

end Child
end AsmFlow.Mcp
