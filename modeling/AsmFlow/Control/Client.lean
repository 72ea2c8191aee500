import AsmFlow.Control.Responses
import AsmFlow.Json.Depth

/-!
# The control client

`control_client.asm`. A call writes one request and waits for the response with its identifier;
what it has read behind that, or read before it failed, stays in the inbox for the next call.
-/

namespace AsmFlow.Control

open Http Json Library

/-- `AF_CTL_FRAME_DEFAULT_MAX`. -/
def ctlFrameMax : ℕ := 1024 * 1024

/-- `AF_CTLC_METHOD_MAX`. -/
def methodMax : ℕ := 256

/-- `AF_CTLC_PARAMS_MAX`. -/
def paramsMax : ℕ := ctlFrameMax - 4096

/-- `AF_CTLC_READ_CHUNK`. -/
def clientChunk : ℕ := 4096

/-- `AF_CTLC_EVENT_SKIP_MAX`. -/
def eventSkipMax : ℕ := 1024

/-- The limits of a text, with `AF_CTLC_JSON_DEPTH` and `AF_CTLC_JSON_ELEMENTS`. -/
def clientLimits (text : Bytes) : Limits := ⟨text.length, 64, ctlFrameMax, 10000⟩

/-- `af_ctl_client`; `connected` is whether the descriptor is open. -/
structure Client where
  connected : Bool
  nextId : Word
  lastOk : Bool
  initialized : Bool
  inbox : Buffer
  outbox : Buffer
  id : Bytes

/-- A client as `af_ctl_client_init` leaves it. -/
def Client.init : Client :=
  { connected := true, nextId := 1, lastOk := false, initialized := true
    inbox := Buffer.init ctlFrameMax, outbox := Buffer.init ctlFrameMax, id := [] }

/-- What a caller asks for; without parameters their pointer is null. -/
structure ClientRequest where
  method : Bytes
  params : Option Bytes

/-- What the kernel answers to one `sendto`. -/
inductive SendAnswer
  | wrote (n : ℕ)
  | intr
  | failed (f : Mcp.Fault)

/-- What the kernel answers to one `read`. -/
inductive Arrival
  | got (p : Bytes)
  | intr
  | failed (f : Mcp.Fault)

/-- What one call meets. The allocator is asked for the error object of each parsed text, of the
frames by how many may still be skipped. -/
structure CallEnv where
  outboxAlloc : ℕ → Bool
  inboxAlloc : ℕ → Bool
  outAlloc : ℕ → Bool
  paramsGranted : Bool
  granted : ℕ → Bool
  sends : List SendAnswer
  arrivals : List Arrival

/-- `af_ctlc_make_id`: the identifier of a number, and the number after it. -/
def idOf (n : Word) : Bytes := ascii "ctl-" ++ decimal (if n = 0 then 1 else n).toNat

def idAfter (n : Word) : Word :=
  let next := (if n = 0 then 1 else n) + 1
  if next = 0 then 1 else next

/-- `af_ctlc_send_all`: the bytes that were sent. A socket that takes no more for the time of
`SO_SNDTIMEO` answers `EAGAIN`. -/
def sendAll : List SendAnswer → Bytes → Bytes × Status
  | _, [] => ([], .ok)
  | [], _ :: _ => ([], .again)
  | .intr :: answers, b :: bytes => sendAll answers (b :: bytes)
  | .failed f :: _, _ :: _ => ([], f.val)
  | .wrote n :: answers, b :: bytes =>
    if n = 0 then ([], .pipe)
    else
      ((b :: bytes).take n ++ (sendAll answers ((b :: bytes).drop n)).1,
        (sendAll answers ((b :: bytes).drop n)).2)

section Call

variable (loadb : Bytes → Option Mcp.Json)

/-- `af_ctlc_validate_params`. -/
def validateParams (granted : Bool) (json : Bytes) : Status :=
  if json = [] then .ctlParams
  else if paramsMax < json.length then .ctlParams
  else
    match parseDoc loadb granted (clientLimits json) json with
    | .error _ => .ctlParams
    | .ok v => if v.isObject then .ok else .ctlParams

/-- What a frame is to the call that waits for an identifier. -/
inductive FrameKind
  | event
  | response (ok : Bool)
  | foreign
  deriving DecidableEq

/-- The envelope checks of `.response`. -/
def responseKind (v : Mcp.Json) : FrameKind :=
  match v.getBool "ok" with
  | none => .foreign
  | some true => if (v.member "result").isSome then .response true else .foreign
  | some false => if (v.getObject "error").isSome then .response false else .foreign

/-- What `af_ctlc_next_response` takes a frame for. -/
def frameKind (granted : Bool) (id frame : Bytes) : FrameKind :=
  match parseDoc loadb granted (clientLimits frame) frame with
  | .error _ => .foreign
  | .ok v =>
    if v.isObject = false then .foreign
    else
      match v.member "id" with
      | none => if (v.getString "event").isSome then .event else .foreign
      | some (.string s) => if utf8Text s.toList = id then responseKind v else .foreign
      | some _ => .foreign

/-- What a scan of the inbox ends with: no status when it needs more bytes. -/
structure Scanned where
  client : Client
  out : Buffer
  budget : ℕ
  status : Option Status

/-- `.next_frame`, as long as there are frames, with so many events left to skip. -/
def scanFrames (env : CallEnv) (c : Client) (out : Buffer) (budget : ℕ) : Scanned :=
  match frameNext c.inbox.data ctlFrameMax with
  | .error st => if st = .again then ⟨c, out, budget, none⟩ else ⟨c, out, budget, some st⟩
  | .ok frame =>
    match frameKind loadb (env.granted budget) c.id frame with
    | .foreign => ⟨c, out, budget, some .invalid⟩
    | .response ok =>
      match out.clear.append env.outAlloc frame with
      | (out, st) =>
        if st < 0 then ⟨{ c with lastOk := ok }, out, budget, some st⟩
        else
          ⟨{ c with lastOk := ok, inbox := (frameConsume c.inbox frame.length).1 }, out, budget,
            some (frameConsume c.inbox frame.length).2⟩
    | .event =>
      match frameConsume c.inbox frame.length with
      | (inbox, st) =>
        if st < 0 then ⟨{ c with inbox }, out, budget, some st⟩
        else
          match budget with
          | 0 => ⟨{ c with inbox }, out, 0, some .limit⟩
          | left + 1 => scanFrames env { c with inbox } out left

/-- `.read_more` and the scan behind it. A socket that brings nothing for the time of
`SO_RCVTIMEO` answers `EAGAIN`. -/
def awaitFrames (env : CallEnv) (c : Client) (out : Buffer) (budget : ℕ) :
    List Arrival → Client × Buffer × Status
  | [] => (c, out, .again)
  | .intr :: arrivals => awaitFrames env c out budget arrivals
  | .failed f :: _ => (c, out, f.val)
  | .got p :: arrivals =>
    if p.take clientChunk = [] then (c, out, .eof)
    else
      match c.inbox.append env.inboxAlloc (p.take clientChunk) with
      | (inbox, st) =>
        if st < 0 then ({ c with inbox }, out, st)
        else
          match scanFrames loadb env { c with inbox } out budget with
          | ⟨c, out, _, some st⟩ => (c, out, st)
          | ⟨c, out, budget, none⟩ => awaitFrames env c out budget arrivals

/-- `af_ctlc_next_response`. -/
def nextResponse (env : CallEnv) (c : Client) (out : Buffer) : Client × Buffer × Status :=
  match scanFrames loadb env c out eventSkipMax with
  | ⟨c, out, _, some st⟩ => (c, out, st)
  | ⟨c, out, budget, none⟩ => awaitFrames loadb env c out budget env.arrivals

/-- The calls of the writer for a request. -/
def requestCalls (id : Bytes) (r : ClientRequest) : List Json.Call :=
  [.beginObject, .member (ascii "id") (.stringN id), .member (ascii "method") (.stringN r.method)] ++
    (match r.params with
      | none => []
      | some json => [.key (ascii "params"), .raw json]) ++
    [.endObject]

/-- The checks of `af_ctl_client_call`, up to `.params_valid`. -/
def Client.check (env : CallEnv) (c : Client) (r : ClientRequest) : Status :=
  if c.initialized = false then .closed
  else if c.connected = false then .closed
  else if r.method = [] then .ctlParams
  else if methodMax < r.method.length then .ctlParams
  else if utf8Validate r.method = false then .ctlParams
  else
    match r.params with
    | none => .ok
    | some json => validateParams loadb env.paramsGranted json

/-- From `.params_valid` to the frame in the outbox. -/
def Client.prepare (env : CallEnv) (c : Client) (r : ClientRequest) : Client × Status :=
  let c := { c with lastOk := false, id := idOf c.nextId, nextId := idAfter c.nextId }
  match (run (Writer.step env.outboxAlloc) (Writer.init c.outbox.clear)
      (requestCalls c.id r)).finish with
  | (w, st) =>
    if st < 0 then ({ c with outbox := w.out }, st)
    else
      ({ c with outbox := (frameFinish env.outboxAlloc w.out 0 ctlFrameMax).1 },
        (frameFinish env.outboxAlloc w.out 0 ctlFrameMax).2)

/-- What a call leaves: the client, the caller's buffer, the bytes it sent and its status. -/
structure Called where
  client : Client
  out : Buffer
  sent : Bytes
  status : Status

/-- `af_ctl_client_call`. -/
def Client.call (env : CallEnv) (c : Client) (out : Buffer) (r : ClientRequest) : Called :=
  if c.check loadb env r < 0 then ⟨c, out, [], c.check loadb env r⟩
  else
    match c.prepare env r with
    | (c, st) =>
      if st < 0 then ⟨c, out.clear, [], st⟩
      else
        match sendAll env.sends c.outbox.data with
        | (sent, st) =>
          if st < 0 then ⟨c, out.clear, sent, st⟩
          else
            match nextResponse loadb env c out.clear with
            | (c, out, st) => ⟨c, out, sent, st⟩

end Call

end AsmFlow.Control
