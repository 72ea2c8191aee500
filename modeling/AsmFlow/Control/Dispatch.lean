import AsmFlow.Control.Conn
import AsmFlow.Json.Plan
import AsmFlow.Library.Json
import AsmFlow.Mcp.Json

/-!
# One control request, one response

`control_dispatch.asm` and `af_ctl_method_invoke`. The envelope of a response is
written here, and a handler writes the value of its `result` member.
-/

namespace AsmFlow.Control

open Http Json Library

/-- `AF_CTLERR_*`. -/
inductive ErrorCode
  | invalidJson
  | frameTooLarge
  | unknownMethod
  | invalidParams
  | cursorStale
  | state
  | internal
  | notFound
  | unconfirmed
  | unsupported
  deriving DecidableEq, Repr

/-- `af_ctl_error_code_name`. -/
def ErrorCode.name : ErrorCode → String
  | .invalidJson => "invalid_json"
  | .frameTooLarge => "frame_too_large"
  | .unknownMethod => "unknown_method"
  | .invalidParams => "invalid_params"
  | .cursorStale => "cursor_stale"
  | .state => "invalid_state"
  | .internal => "internal_error"
  | .notFound => "not_found"
  | .unconfirmed => "confirmation_required"
  | .unsupported => "unsupported_in_this_build"

/-- `af_ctl_error_code_message`. -/
def ErrorCode.message : ErrorCode → String
  | .invalidJson => "The frame is not a JSON object."
  | .frameTooLarge => "The frame exceeds the configured maximum."
  | .unknownMethod => "No such method."
  | .invalidParams => "The parameters do not satisfy the method's contract."
  | .cursorStale => "The pagination cursor no longer matches a live snapshot."
  | .state => "The command is not valid in the current state."
  | .internal => "The daemon could not complete the command."
  | .notFound => "No object with that identifier."
  | .unconfirmed => "This command requires an explicit confirmation."
  | .unsupported => "The subsystem this method reports on is not wired in this build."

/-- `af_ctl_methods`: each name, and whether the method has a handler. -/
def methods : List (String × Bool) :=
  [("system.version", true), ("system.snapshot", true), ("providers.list", true),
    ("providers.get", true), ("routes.list", true), ("routes.get", true),
    ("config.current", true), ("mcp.list", true), ("provider.enable", true),
    ("provider.disable", true), ("requests.list", false), ("requests.get", false),
    ("mcp.get", true), ("mcp.inventory", true), ("logs.tail", false),
    ("config.validate", false), ("config.reload", false), ("provider.probe", false),
    ("mcp.start", true), ("mcp.stop", true), ("mcp.restart", true),
    ("mcp.reset_crash_loop", true), ("mcp.discover", true), ("mcp.tool_test", true),
    ("diagnostics.export", true)]

/-- `af_ctl_method_lookup`: whether the method found has a handler. -/
def methodLookup (name : String) : Option Bool := (methods.find? (·.1 == name)).map Prod.snd

/-- What a handler does with the writer, and what it returns. Its fragments are JSON
values on one line. -/
structure Answer where
  calls : List Json.Call
  status : Status
  fragments_ok : ∀ f ∈ fragments calls, Library.Json.WellFormed f ∧ 10 ∉ f

/-- `af_ctl_begin_envelope`, from the opening brace to the identifier. -/
def envelopeCalls (id : Option Bytes) : List Json.Call :=
  [.beginObject, .key (ascii "id"),
    match id with
    | none => .item .null
    | some id => .item (.stringN id)]

/-- The calls of `af_ctl_write_error`. -/
def errorCalls (id : Option Bytes) (code : ErrorCode) (field : Option String) : List Json.Call :=
  envelopeCalls id ++
    [.member (ascii "ok") (.bool false), .key (ascii "error"), .beginObject,
      .member (ascii "code") (.string (some (ascii code.name))),
      .member (ascii "message") (.string (some (ascii code.message)))] ++
    (match field with
      | none => []
      | some field => [.member (ascii "field") (.string (some (ascii field)))]) ++
    [.endObject, .endObject]

/-- The calls of `af_ctl_write_success_begin`. -/
def successCalls (id : Option Bytes) : List Json.Call :=
  envelopeCalls id ++ [.member (ascii "ok") (.bool true), .key (ascii "result")]

namespace Conn

variable (alloc : ℕ → Bool)

/-- `af_ctl_write_error`. -/
def writeError (c : Conn) (id : Option Bytes) (code : ErrorCode) (field : Option String) :
    Conn × Status :=
  match (run (Writer.step alloc) (Writer.init c.outbox) (errorCalls id code field)).finish with
  | (w, st) =>
    if st < 0 then ({ c with outbox := w.out }, st)
    else
      match frameFinish alloc w.out c.outbox.len c.frameMax with
      | (outbox, st) => ({ c with outbox }, st)

/-- `af_ctl_write_protocol_error`. -/
def writeProtocolError (c : Conn) (cause : Status) : Conn × Status :=
  c.writeError alloc none
    (if cause = Status.ctlFrameLarge then .frameTooLarge else .invalidJson) none

/-- `.protocol_error` of `af_ctl_conn_drain_frames`. -/
def protocolError (c : Conn) (cause : Status) : Conn :=
  { (c.writeProtocolError alloc cause).1 with closing := true, inbox := c.inbox.clear }

/-- Calls in order, up to the first that fails. -/
def callsInOrder (w : Writer) : List Json.Call → Writer × Status
  | [] => (w, Status.ok)
  | c :: cs => Writer.andThen (w.call alloc c) fun w => callsInOrder w cs

/-- `af_ctl_write_success_begin`: the writer, and where the frame starts. -/
def writeSuccessBegin (c : Conn) (id : Option Bytes) : Writer × ℕ × Status :=
  match callsInOrder alloc (Writer.init c.outbox) (successCalls id) with
  | (w, st) => (w, c.outbox.len, st)

/-- `.overflow` of `af_ctl_write_success_end`. -/
def replaceAnswer (c : Conn) (start : ℕ) : Conn × Status :=
  (({ c with outbox := c.outbox.truncate start }.writeError alloc none .internal none).1,
    Status.ok)

/-- `af_ctl_write_success_end`. -/
def writeSuccessEnd (c : Conn) (w : Writer) (start : ℕ) : Conn × Status :=
  match (w.call alloc .endObject).1.finish with
  | (w, st) =>
    if st < 0 then replaceAnswer alloc { c with outbox := w.out } start
    else
      match frameFinish alloc w.out start c.frameMax with
      | (outbox, st) =>
        if st < 0 then replaceAnswer alloc { c with outbox } start
        else ({ c with outbox }, Status.ok)

/-- The code a handler's failure is reported with. -/
def failureCode (status : Status) : ErrorCode :=
  if status = Status.notFound then .notFound
  else if status = Status.mcpUnconfirmed then .unconfirmed
  else if status = Status.mcpNotReady then .state
  else if status = Status.mcpCrashLoop then .state
  else if status = Status.closed then .state
  else if status = Status.ctlParams then .invalidParams
  else .internal

/-- `af_ctl_method_invoke`, on a method with or without a handler. -/
def methodInvoke (c : Conn) (handler : Bool) (answer : Answer) (id : Option Bytes) :
    Conn × Status :=
  if handler = false then c.writeError alloc id .unsupported none
  else
    match c.writeSuccessBegin alloc id with
    | (w, start, st) =>
      if st < 0 then ({ c with outbox := w.out }, st)
      else
        let w := run (Writer.step alloc) w answer.calls
        if answer.status < 0 then
          { c with outbox := w.out.truncate start }.writeError alloc id
            (failureCode answer.status) none
        else writeSuccessEnd alloc { c with outbox := w.out } w start

end Conn

/-- What the request is found to be. -/
inductive Request
  | unreadable
  | refused (id : Option Bytes) (code : ErrorCode) (field : String)
  | invoke (id : Option Bytes) (handler : Bool)
  deriving DecidableEq, Repr

/-- The depth limit of a control frame is the library's; the byte limit is the ceiling. -/
def readRequest (J : Mcp.JsonLibrary) (frameMax : ℕ) (frame : Bytes) : Request :=
  match J.parse frameMax frame with
  | none => .unreadable
  | some v =>
    if v.isObject = false then .unreadable
    else
      let id := (v.getString "id").map fun s => utf8Text s.toList
      match v.getString "method" with
      | none => .refused id .invalidParams "method"
      | some method =>
        let badParams : Bool :=
          match v.member "params" with
          | none => false
          | some params => !params.isObject
        if badParams then .refused id .invalidParams "params"
        else
          match methodLookup method with
          | none => .refused id .unknownMethod "method"
          | some handler => .invoke id handler

/-- The identifier that can be read from the request. -/
def Request.id : Request → Option Bytes
  | .unreadable => none
  | .refused id _ _ => id
  | .invoke id _ => id

/-- `af_ctl_dispatch_frame`, after the frame has been read. -/
def Conn.respond (alloc : ℕ → Bool) (c : Conn) (answer : Answer) : Request → Conn × Status
  | .unreadable => ((c.writeError alloc none .invalidJson none).1, Status.ok)
  | .refused id code field => ((c.writeError alloc id code (some field)).1, Status.ok)
  | .invoke id handler => c.methodInvoke alloc handler answer id

/-- `af_ctl_dispatch_frame`. -/
def Conn.dispatchFrame (J : Mcp.JsonLibrary) (alloc : ℕ → Bool) (c : Conn) (answer : Answer)
    (frame : Bytes) : Conn × Status :=
  c.respond alloc answer (readRequest J c.frameMax frame)

end AsmFlow.Control
