import AsmFlow.Mcp.Inventory

/-!
# The era of a server

`af_mcp_advance`: the probe for the modern protocol, the fallback to the legacy one, and the
lists once one of them is settled.
-/

namespace AsmFlow.Mcp

/-- `AF_MCP_MODERN_VERSION`. -/
def modernVersion : String := "2026-07-28"

/-- `AF_MCP_LEGACY_VERSION`. -/
def legacyVersion : String := "2025-11-25"

/-- `.version_loop`. -/
def advertises : List Json → Status
  | [] => Status.mcpVersion
  | .string v :: versions => if v = modernVersion then Status.ok else advertises versions
  | _ :: _ => Status.mcpProtocol

section Validate

variable (J : JsonLibrary) (m : Memory)

/-- The object that a result is. -/
def resultObject (result : Bytes) : Option Json :=
  if result = [] then none
  else if m.parse result = false then none
  else (J.parse result.length result).filter Json.isObject

/-- `af_mcp_validate_modern_discover`. -/
def validateModernDiscover (result : Bytes) : Status :=
  match resultObject J m result with
  | none => Status.mcpProtocol
  | some root =>
    match root.getArray "supportedVersions" with
    | none => Status.mcpVersion
    | some versions => advertises versions

/-- `af_mcp_validate_legacy_initialize`. -/
def validateLegacyInitialize (result : Bytes) : Status :=
  match resultObject J m result with
  | none => Status.mcpProtocol
  | some root =>
    if root.getString "protocolVersion" = some legacyVersion then Status.ok
    else Status.mcpVersion

end Validate

/-- The timeout of the requests that settle the era. -/
def ServerConfig.probeTimeoutMs (cfg : ServerConfig) : ℕ :=
  if cfg.startupTimeoutMs = 0 then 5000 else cfg.startupTimeoutMs

/-- What an advance meets. -/
structure AdvanceAnswer where
  /-- The version can be stored. -/
  versionOk : Bool
  /-- `AF_MCP_CL_F_BARE_REFUSAL` of the discovery. -/
  bareRefusal : Bool
  legacyRequest : ListAnswer
  initialized : NotifyAnswer
  transfer : Transfer
  lists : ListKind → ListAnswer
  /-- When the lists are asked for, and when each of them is collected. -/
  listed : ℕ
  collected : ListKind → ℕ
  /-- The next list over HTTP. -/
  next : ListAnswer
  fail : FailAnswer

namespace Server

variable (s : Server)

/-- `af_mcp_notify`, for the initialized notification. -/
def notifyInitialized (a : NotifyAnswer) (t : Transfer) : Server × Status :=
  if s.http = false then
    let r := s.child.notify .initialized a
    (s.withChild r.1, r.2)
  else
    match a.built with
    | some st => (s, st)
    | none =>
      if s.posting t then (s, Status.closed)
      else
        match a.send with
        | .refused f => (s.authorize t, f.val)
        | .queued _ => ({ s.authorize t with notifyPending := true }, Status.ok)

/-- The era is settled. -/
def settle (era : Era) : Server :=
  s.withChild (({ s.child with era := era } : Child).withFlags ({ · with probed := true }))

/-- The lists are asked for, and the server is ready. -/
def listThenReady (a : AdvanceAnswer) : Server :=
  match s.beginInventory a.lists a.listed with
  | (s, st) =>
    if st < 0 then s.childFailed st a.fail else s.withChild (s.child.setState .ready)

/-- `.same_process_legacy`. -/
def sendInitialize (a : AdvanceAnswer) : Server :=
  match s.request .legacyInitialize s.child.cfg.probeTimeoutMs a.legacyRequest with
  | (s, some _) => s
  | (s, none) => s.childFailed Status.mcpProtocol a.fail

/-- `.discover_fallback`. A discovery that timed out asks for a fresh process. -/
def discoverFallback (i : Fin maxCalls) (why : Status) (fresh : Bool) (a : AdvanceAnswer) :
    Server :=
  let s := s.release i
  if s.child.cfg.legacy = false then s.childFailed why a.fail
  else if fresh then
    (s.withChild (s.child.withFlags ({ · with legacyNext := true }))).childFailed
      Status.mcpTimeout a.fail
  else s.sendInitialize a

/-- `.discover_invalid`. -/
def discoverInvalid (i : Fin maxCalls) (st : Status) (a : AdvanceAnswer) : Server :=
  if s.http then (s.release i).childFailed st a.fail else s.discoverFallback i st false a

/-- `.discover_refused`. -/
def discoverRefused (i : Fin maxCalls) (k : Call) (a : AdvanceAnswer) : Server :=
  if s.http then
    if a.bareRefusal then s.discoverFallback i k.status false a
    else (s.release i).childFailed k.status a.fail
  else if k.status = Status.mcpTimeout then s.discoverFallback i Status.mcpTimeout true a
  else s.discoverFallback i Status.mcpEra false a

section Advance

variable (J : JsonLibrary) (m : Memory)

/-- The discovery is done. -/
def discovered (i : Fin maxCalls) (k : Call) (a : AdvanceAnswer) : Server :=
  if k.status ≠ Status.ok then s.discoverRefused i k a
  else
    let st := validateModernDiscover J m k.result
    if st < 0 then s.discoverInvalid i st a
    else if a.versionOk = false then s.childFailed Status.nomem a.fail
    else ((s.settle .modern).release i).listThenReady a

/-- The legacy handshake, behind the answer of the server. -/
def handshake (i : Fin maxCalls) (a : AdvanceAnswer) : Server :=
  match ((s.release i).settle .legacy).notifyInitialized a.initialized a.transfer with
  | (s, st) =>
    if st < 0 then s.childFailed st a.fail
    else if s.http then s.withChild (s.child.setState .ready)
    else s.listThenReady a

/-- `.check_initialize`. -/
def checkInitialize (a : AdvanceAnswer) : Server :=
  match s.child.findCall .legacyInitialize with
  | none => s.childFailed Status.mcpProtocol a.fail
  | some (i, k) =>
    if k.done = false then s
    else if k.status ≠ Status.ok then (s.release i).childFailed Status.mcpVersion a.fail
    else
      let st := validateLegacyInitialize J m k.result
      if st < 0 then (s.release i).childFailed st a.fail
      else if a.versionOk = false then s.childFailed Status.nomem a.fail
      else s.handshake i a

/-- `.probing`. -/
def probe (a : AdvanceAnswer) : Server :=
  match s.child.findCall .discover with
  | none => s.checkInitialize J m a
  | some (i, k) => if k.done = false then s else s.discovered J m i k a

/-- `.ready`. -/
def collectLists (a : AdvanceAnswer) : Server :=
  let s := (s.collectList J m .tools (a.collected .tools)).1
  let s := (s.collectList J m .resources (a.collected .resources)).1
  let s := (s.collectList J m .prompts (a.collected .prompts)).1
  s.httpAdvanceInventory a.next a.fail

/-- `af_mcp_advance`. -/
def advance (a : AdvanceAnswer) : Server :=
  match s.child.state with
  | .probing => s.probe J m a
  | .ready | .degraded => s.collectLists J m a
  | _ => s

end Advance
end Server
end AsmFlow.Mcp
