import AsmFlow.Mcp.Child

/-!
# JSON-RPC over the pipes

`mcp_rpc.asm`: the table of calls, the requests and notifications that are sent, the
correlation of what the process answers, and the sweep of the deadlines.
-/

namespace AsmFlow.Mcp

/-- A negative status. -/
abbrev Fault := { st : Status // st < 0 }

/-- A write to the child's stdin takes all that is queued, not all of it, or fails. -/
inductive WriteAnswer
  | drained
  | blocked
  | failed (f : Fault)

/-- A frame finds no room in the outbox, or is queued and then written. -/
inductive SendAnswer
  | refused (f : Fault)
  | queued (w : WriteAnswer)

/-- What a request meets: the time that passed, whether its slot and its frame can be built,
and what becomes of the frame. -/
structure RequestAnswer where
  elapsed : ℕ
  slotOk : Bool
  built : Bool
  send : SendAnswer

/-- What a notification meets. `built` is what the register holds when the frame cannot be
built. -/
structure NotifyAnswer where
  built : Option Status
  send : SendAnswer

/-- What a cancellation meets. -/
structure EmitAnswer where
  built : Option Fault
  send : SendAnswer

/-- What the allocator grants the JSON library and the buffers. -/
structure Memory where
  parse : Bytes → Bool
  dump : Json → Bool
  alloc : ℕ → Bool

/-- What a line of the protocol pipe is. -/
def ServerConfig.readLine (cfg : ServerConfig) (J : JsonLibrary) (line : Bytes) : Message :=
  if line = [] then .contaminated
  else
    match J.parse (if cfg.frameMax = 0 then line.length else cfg.frameMax) line with
    | none => .contaminated
    | some v => .ofJson v

namespace Child

variable (c : Child)

/-- `af_mcp_write_stdin`. -/
def writeStdin (w : WriteAnswer) : Child × Status :=
  if c.stdinFd = false then (c, Status.ok)
  else if c.outbox = [] then (c, Status.ok)
  else
    match w with
    | .drained => ({ c with outbox := [] }, Status.ok)
    | .blocked => (c, Status.ok)
    | .failed f => (c, f.val)

/-- The frame in the outbox. -/
def enqueue (f : Frame) : Child :=
  ({ c with outbox := c.outbox ++ [f], framesOut := c.framesOut + 1 } : Child).say (.queued f)

/-- `af_mcp_send`. -/
def send (f : Frame) (a : SendAnswer) : Child × Status :=
  if c.flags.stdinOpen = false then (c, Status.closed)
  else
    match a with
    | .refused e => (c, e.val)
    | .queued w => (c.enqueue f).writeStdin w

/-! ## The table of calls -/

def freeSlot : Option (Fin maxCalls) :=
  (List.finRange maxCalls).find? fun i => (c.calls i).isNone

/-- The first call in the table that satisfies `p`, and its slot. -/
def findWhere (p : Call → Bool) : Option (Fin maxCalls × Call) :=
  (List.finRange maxCalls).findSome? fun i =>
    (c.calls i).bind fun k => if p k then some (i, k) else none

/-- `af_mcp_call_find`. -/
def callFind (id : ℤ) : Option (Fin maxCalls × Call) := c.findWhere fun k => (k.id : ℤ) == id

/-- `af_mcp_find_call`. -/
def findCall (kind : CallKind) : Option (Fin maxCalls × Call) :=
  c.findWhere fun k => k.kind == kind

/-- A call is given a slot and the next id. -/
def issue (i : Fin maxCalls) (kind : CallKind) (deadline : ℕ) : Child :=
  (({ c with nextId := c.nextId + 1 } : Child).setCall i
    (some ⟨c.nextId + 1, kind, deadline, false, Status.ok, [], 0⟩)).say
      (.issued (c.nextId + 1) kind)

/-- `af_mcp_call_alloc`. -/
def callAlloc (kind : CallKind) (deadline : ℕ) (slotOk : Bool) : Child × Option (Fin maxCalls) :=
  match c.freeSlot with
  | none => (c, none)
  | some i => if slotOk then (c.issue i kind deadline, some i) else (c, none)

/-- `af_mcp_call_release`. -/
def release (i : Fin maxCalls) : Child := c.setCall i none

/-- `af_mcp_calls_release`. -/
def releaseCalls : Child := { c with calls := fun _ => none }

/-- A call is done. -/
def complete (i : Fin maxCalls) (k : Call) (status : Status) (result : Bytes) (errorCode : ℤ)
    (cause : Cause) : Child :=
  (c.setCall i (some { k with done := true, status, result, errorCode })).say
    (.completed k.id k.kind status cause)

/-! ## Requests -/

/-- The deadline of a request, zero for none, unless it overflows. -/
def requestDeadline (now timeoutMs : ℕ) : Option ℕ :=
  if timeoutMs = 0 then some 0
  else if 2 ^ 64 ≤ timeoutMs * nsPerMs then none
  else if 2 ^ 64 ≤ now + timeoutMs * nsPerMs then none
  else some (now + timeoutMs * nsPerMs)

/-- A request carries the modern metadata: discovery always, `initialize` never, any other in
the modern era. -/
def wearsModern (kind : CallKind) : Bool :=
  match kind with
  | .discover => true
  | .legacyInitialize => false
  | _ => c.era == .modern

/-- The frame of a call that was given a slot. -/
def requestFrame (kind : CallKind) : Frame := .request c.nextId kind (c.wearsModern kind)

/-- `af_mcp_request`, behind the allocation of the call. -/
def dispatch (i : Fin maxCalls) (kind : CallKind) (a : RequestAnswer) :
    Child × Option (Fin maxCalls) :=
  if a.built = false then (c.release i, none)
  else
    match c.send (c.requestFrame kind) a.send with
    | (d, st) => if st < 0 then (d.release i, none) else (d, some i)

/-- `af_mcp_request`: the slot of the call, unless it fails. -/
def request (kind : CallKind) (timeoutMs : ℕ) (a : RequestAnswer) :
    Child × Option (Fin maxCalls) :=
  let c := c.read a.elapsed
  match requestDeadline c.clock timeoutMs with
  | none => (c, none)
  | some deadline =>
    match c.callAlloc kind deadline a.slotOk with
    | (d, none) => (d, none)
    | (d, some i) => d.dispatch i kind a

/-- `af_mcp_notify`. -/
def notify (f : Frame) (a : NotifyAnswer) : Child × Status :=
  match a.built with
  | some st => (c, st)
  | none => c.send f a.send

/-! ## What arrives -/

section Messages

variable (J : JsonLibrary) (m : Memory)

/-- `af_mcp_store_result`, into the result buffer of a pending call. -/
def storeResult (v : Json) : Buffer × Status :=
  match if m.dump v then J.dump v else none with
  | none => (Buffer.init inventoryMax, Status.nomem)
  | some t => (Buffer.init inventoryMax).append m.alloc t

/-- What a line is; without memory for it, it cannot be parsed. -/
def classify (line : Bytes) : Message :=
  if m.parse line = false then .contaminated else c.cfg.readLine J line

/-- `.correlate_response`, for a pending call. -/
def correlate (i : Fin maxCalls) (k : Call) (line : Bytes) (id : ℤ) (payload : Json)
    (error : Option ℤ) : Child :=
  let stored := storeResult J m payload
  let status := if stored.2 < 0 then stored.2
    else if error.isSome then Status.mcpProtocol else Status.ok
  c.complete i k status stored.1.data (error.getD k.errorCode)
    (.line line (.response id payload error))

/-- `.free_and_unmatched`. -/
def unmatch : Child := { c with unmatched := c.unmatched + 1 }

/-- `af_mcp_on_message`. -/
def onMessage (line : Bytes) : Child × Status :=
  match c.classify J m line with
  | .contaminated => ({ c with contaminated := c.contaminated + 1 }, Status.mcpProtocol)
  | .request => ({ c with notifications := c.notifications + 1 }, Status.ok)
  | .response id payload error =>
    match c.callFind id with
    | none => (c.unmatch, Status.ok)
    | some (i, k) =>
      if k.done then (c.unmatch, Status.ok)
      else (c.correlate J m i k line id payload error, Status.ok)

end Messages

/-! ## Deadlines -/

/-- `af_mcp_emit_cancelled`. -/
def emitCancelled (id : ℕ) (a : EmitAnswer) : Child × Status :=
  match a.built with
  | some f => (c, f.val)
  | none => c.send (.cancelled id) a.send

/-- `af_mcp_cancel_timed_out`. -/
def cancelTimedOut (k : Call) (a : EmitAnswer) : Child × Status :=
  match k.kind with
  | .legacyInitialize => (c, Status.ok)
  | .discover => c.emitCancelled k.id a
  | _ => if c.era = .unknown then (c, Status.mcpEra) else c.emitCancelled k.id a

/-- One slot of the sweep, with the error of the cancellation. -/
def expire (now : ℕ) (i : Fin maxCalls) (a : EmitAnswer) : Child × Option Status :=
  match c.calls i with
  | none => (c, none)
  | some k =>
    if k.done ∨ k.deadline = 0 ∨ now < k.deadline then (c, none)
    else
      match c.cancelTimedOut k a with
      | (d, st) =>
        (d.complete i k Status.mcpTimeout k.result k.errorCode .timeout,
          if st < 0 then some st else none)

/-- `af_mcp_sweep_calls`: the first error of a cancellation. -/
def sweepCalls (now : ℕ) (emit : Fin maxCalls → EmitAnswer) : Child × Option Status :=
  (List.finRange maxCalls).foldl
    (fun s i => ((s.1.expire now i (emit i)).1, s.2.or (s.1.expire now i (emit i)).2)) (c, none)

end Child
end AsmFlow.Mcp
