import AsmFlow.Config.Fields
import AsmFlow.Library.Loads

/-!
# Providers, routes and servers

`config_collections.asm`, and the part of `config_mcp.asm` that both transports share.
A collection is loaded entry by entry; an entry reads the ones before it for its
uniqueness. The loaders of the nested objects are parameters: what they store, the
snapshot below does not keep, except for the health record.
-/

namespace AsmFlow.Config

open Library

/-! ## Tables -/

/-- `tbl_adapter`. -/
def tblAdapter : List (String × Adapter) :=
  [("openai_responses", .openaiResponses), ("openai_chat", .openaiChat),
    ("openai_dual", .openaiDual)]

/-- `tbl_policy`. -/
def tblPolicy : List (String × Policy) :=
  [("priority", .priority), ("round_robin", .roundRobin), ("least_latency", .leastLatency)]

/-- `tbl_endpoint_family`. -/
def tblEndpointFamily : List (String × Word) :=
  [("responses", epfResponses), ("chat_completions", epfChatCompletions)]

/-- `tbl_retryable`. -/
def tblRetryable : List (String × Word) :=
  [("connect_failed", 1), ("dns_failed", 2), ("connect_timeout", 4), ("http_502", 8),
    ("http_503", 16), ("http_504", 32)]

/-- `AF_TRANSPORT_*`. -/
inductive Transport
  | stdio
  | streamableHttp
  deriving DecidableEq, Repr

/-- `tbl_transport`. -/
def tblTransport : List (String × Transport) :=
  [("stdio", .stdio), ("streamable_http", .streamableHttp)]

/-- `tbl_mcp_preferred`, whose one value is `AF_ERA_MODERN`. -/
def tblMcpPreferred : List (String × Word) := [("2026-07-28", 1)]

/-- `tbl_mcp_legacy`. -/
def tblMcpLegacy : List (String × Word) := [("2025-11-25", 1)]

def keysProvider : List String :=
  ["id", "display_name", "adapter", "base_url", "auth", "enabled", "required",
    "max_concurrency", "timeouts", "capabilities", "health", "allow_insecure_private_http"]

def keysCapabilities : List String :=
  ["responses", "chat_completions", "streaming", "tools", "vision", "json_schema"]

def keysRoute : List String :=
  ["id", "model_alias", "enabled", "endpoint_families", "policy", "fallback", "targets"]

def keysFallback : List String := ["enabled", "max_attempts", "retryable"]

def keysRouteTarget : List String := ["provider_id", "upstream_model", "priority", "weight"]

def keysMcpStdio : List String :=
  ["id", "display_name", "transport", "enabled", "required", "command", "args", "cwd",
    "env_allow", "env", "protocol", "restart", "startup_timeout_ms", "shutdown_grace_ms"]

def keysMcpHttp : List String :=
  ["id", "display_name", "transport", "enabled", "required", "url", "auth", "protocol",
    "timeouts", "allow_insecure_private_http"]

def keysProtocol : List String := ["preferred", "legacy"]

def mBadId : String := "identifier does not match the permitted pattern"
def mDupId : String := "identifier is already used by another entry"
def mBadEnumValue : String := "value is not one of the permitted choices"

/-! ## The snapshot -/

/-- A route with the alias a request selects it by. -/
structure LoadedRoute extends CfgRoute where
  modelAlias : Bytes
  deriving DecidableEq, Repr

/-- The `MCP_*` record, as far as both transports share it. -/
structure CfgMcp where
  id : Bytes
  transport : Transport
  enabled : Bool
  required : Bool
  protoPreferred : Word
  protoLegacy : Word
  deriving DecidableEq, Repr

/-- `af_config`. -/
structure Snapshot where
  providers : List CfgProvider
  routes : List LoadedRoute
  mcpServers : List CfgMcp
  limSseEventMax : Word
  hash : Word
  deriving DecidableEq, Repr

/-- What a request reads of it. -/
def Snapshot.config (s : Snapshot) : AsmFlow.Config :=
  ⟨s.providers, s.routes.map LoadedRoute.toCfgRoute, s.limSseEventMax⟩

/-- The loaders of the objects that a collection entry or the root holds. -/
structure Loaders where
  /-- `af_cfg_url_check`, with its permission for plain HTTP. -/
  urlCheck : String → Bool → Bool
  /-- `af_cfg_load_auth`. -/
  auth : Mcp.Json → Except Fail Unit
  /-- `af_cfg_load_timeouts`. -/
  timeouts : Mcp.Json → Except Fail Unit
  /-- `af_cfg_load_health`. -/
  health : Mcp.Json → Except Fail HealthConfig
  /-- `.stdio_fields` and `.http_fields`. -/
  mcpFields : Transport → Mcp.Json → Except Fail Unit
  /-- `af_cfg_load_listener`, `_control`, `_storage` and `_logging`, in this order. -/
  sections : Mcp.Json → Except Fail Unit
  /-- `af_cfg_load_limits`, with `LIM_SSE_EVENT_MAX`. -/
  limits : Mcp.Json → Except Fail Word

section Loaders

variable (L : Loaders)

theorem cfgSchema_neg : Status.cfgSchema < 0 := by decide

/-- The `id` of an entry, unlike the ids before it: `af_cfg_find_duplicate`. -/
def loadId (arena : Arena) (earlier : List Bytes) (v : Mcp.Json) : Except Fail Bytes := do
  let id ← reqStr v "id"
  check (idValid (text id)) (failHere "id" Status.cfgSchema mBadId cfgSchema_neg)
  keep (arena [.key "id"])
  check (!earlier.contains (text id)) (failHere "id" Status.cfgDuplicate mDupId)
  return text id

/-- A required string whose bytes number from one to `max`. -/
def loadText (arena : Arena) (key : String) (max : ℕ) (v : Mcp.Json) : Except Fail String := do
  let s ← reqStr v key
  check (decide (0 < (text s).length ∧ (text s).length ≤ max))
    (failHere key Status.cfgSchema mBadEnumValue cfgSchema_neg)
  keep (arena [.key key])
  return s

/-- The loop of `af_cfg_bitmask_from_array`, from an index and with the bits so far. -/
def bitmaskFrom (table : List (String × Word)) (i : ℕ) (bits : Word) :
    List Mcp.Json → Except Fail Word
  | [] => .ok bits
  | .string s :: vs =>
    match enumLookup table s with
    | none => under (.index i) (.error (failAt Status.cfgSchema mBadEnumValue))
    | some bit =>
      if bits &&& bit ≠ 0 then under (.index i) (.error (failAt Status.cfgSchema mBadEnumValue))
      else bitmaskFrom table (i + 1) (bits ||| bit) vs
  | _ :: _ => under (.index i) (.error (failAt Status.cfgSchema mBadEnumValue))

/-- `af_cfg_capability_bit`. -/
def capabilityBit (v : Mcp.Json) (key : String) (bit : Word) : Except Fail Word := do
  let set ← reqBool v key
  return if set then bit else 0

/-- `af_cfg_load_capabilities`. -/
def loadCapabilities (v : Mcp.Json) : Except Fail Word := do
  checkKeys v keysCapabilities
  let responses ← capabilityBit v "responses" capResponses
  let chatCompletions ← capabilityBit v "chat_completions" capChatCompletions
  let streaming ← capabilityBit v "streaming" capStreaming
  let tools ← capabilityBit v "tools" 8
  let vision ← capabilityBit v "vision" 16
  let jsonSchema ← capabilityBit v "json_schema" 32
  return responses ||| chatCompletions ||| streaming ||| tools ||| vision ||| jsonSchema

/-- An object behind a key, and its loader. -/
def loadObj {α : Type} (v : Mcp.Json) (key : String) (load : Mcp.Json → Except Fail α) :
    Except Fail α := do
  let x ← reqObj v key
  under (.key key) (load x)

/-- The loop body of `af_cfg_load_providers`. -/
def loadProvider (arena : Arena) (earlier : List CfgProvider) (v : Mcp.Json) :
    Except Fail CfgProvider := do
  checkKeys v keysProvider
  let id ← loadId arena (earlier.map CfgProvider.id) v
  let _ ← loadText arena "display_name" 128 v
  let adapter ← reqEnum v "adapter" tblAdapter
  let insecure ← optBool v "allow_insecure_private_http" false
  let url ← reqStr v "base_url"
  check (decide (0 < (text url).length ∧ (text url).length ≤ 2048) && L.urlCheck url insecure)
    (failHere "base_url" Status.cfgUrl "URL violates the outbound policy")
  keep (arena [.key "base_url"])
  let enabled ← reqBool v "enabled"
  let _ ← reqBool v "required"
  let maxConcurrency ← reqInt v "max_concurrency" 1 4096
  loadObj v "auth" L.auth
  loadObj v "timeouts" L.timeouts
  let capabilities ← loadObj v "capabilities" loadCapabilities
  let health ← loadObj v "health" L.health
  return ⟨id, adapter, enabled, UInt64.ofNat maxConcurrency.toNat, capabilities, health⟩

/-- The entries of a collection, each under its index. -/
def loadEntries {β : Type} (load : Arena → List β → Mcp.Json → Except Fail β) (arena : Arena)
    (vs : List Mcp.Json) : Except Fail (List β) :=
  loadAll (fun done v =>
    under (.index done.length) (load (arena.under (.index done.length)) done v)) [] vs

/-- A collection of the root: its array, the allocation of its records, its entries. -/
def loadCollection {β : Type} (arena : Arena) (root : Mcp.Json) (key : String) (max : ℕ)
    (load : Arena → List β → Mcp.Json → Except Fail β) : Except Fail (List β) := do
  let vs ← reqArr root key 0 max
  under (.key key) (do
    if vs.isEmpty then return []
    else
      keep (arena [.key key])
      loadEntries load (arena.under (.key key)) vs)

/-- `af_cfg_load_providers`. -/
def loadProviders (arena : Arena) (root : Mcp.Json) : Except Fail (List CfgProvider) :=
  loadCollection arena root "providers" 256 (loadProvider L)

/-- `af_cfg_resolve_provider`. -/
def resolveProvider (providers : List CfgProvider) (id : Bytes) : Option ℕ :=
  providers.findIdx? fun p => p.id == id

/-- The loop body of `af_cfg_load_targets`. -/
def loadTarget (providers : List CfgProvider) (arena : Arena) (v : Mcp.Json) :
    Except Fail RouteTarget := do
  checkKeys v keysRouteTarget
  let id ← reqStr v "provider_id"
  check (idValid (text id)) (failHere "provider_id" Status.cfgSchema mBadId cfgSchema_neg)
  keep (arena [.key "provider_id"])
  match resolveProvider providers (text id) with
  | none =>
    .error (failHere "provider_id" Status.cfgRef
      "route target names a provider that does not exist")
  | some index => do
    let model ← loadText arena "upstream_model" 256 v
    let priority ← reqInt v "priority" (-2147483648) 2147483647
    let weight ← reqInt v "weight" 1 1000000
    return ⟨index, text model, priority, UInt64.ofNat weight.toNat⟩

/-- `af_cfg_load_targets`. -/
def loadTargets (providers : List CfgProvider) (arena : Arena) (vs : List Mcp.Json) :
    Except Fail (List RouteTarget) := do
  keep (arena [])
  loadEntries (fun arena _ v => loadTarget providers arena v) arena vs

/-- The `RTE_FB_*` fields. -/
structure Fallback where
  enabled : Bool
  maxAttempts : Word
  retryable : Word
  deriving DecidableEq, Repr

/-- `af_cfg_load_fallback`, for a route with so many targets. -/
def loadFallback (targetCount : ℕ) (v : Mcp.Json) : Except Fail Fallback := do
  checkKeys v keysFallback
  let enabled ← reqBool v "enabled"
  let maxAttempts ← reqInt v "max_attempts" 1 16
  check (decide (maxAttempts.toNat ≤ targetCount))
    (failHere "max_attempts" Status.cfgSchema "max_attempts exceeds the number of targets"
      cfgSchema_neg)
  let retryable ← reqArr v "retryable" 0 32
  let bits ← under (.key "retryable") (bitmaskFrom tblRetryable 0 0 retryable)
  return ⟨enabled, UInt64.ofNat maxAttempts.toNat, bits⟩

/-- `af_cfg_route_has_capable_target`. -/
def routeHasCapableTarget (providers : List CfgProvider) (targets : List RouteTarget)
    (bit : Word) : Bool :=
  targets.any fun t =>
    decide (0 ≤ t.providerIndex) &&
      match providers[t.providerIndex.toNat]? with
      | none => false
      | some p => decide (p.capabilities &&& bit ≠ 0)

/-- The loop body of `af_cfg_load_routes`. -/
def loadRoute (providers : List CfgProvider) (arena : Arena) (earlier : List LoadedRoute)
    (v : Mcp.Json) : Except Fail LoadedRoute := do
  checkKeys v keysRoute
  let id ← loadId arena (earlier.map fun r => r.id) v
  let modelAlias ← reqStr v "model_alias"
  check (modelAliasValid (text modelAlias)) (failHere "model_alias" Status.cfgSchema
    "model alias does not match the permitted pattern" cfgSchema_neg)
  keep (arena [.key "model_alias"])
  check (!(earlier.map LoadedRoute.modelAlias).contains (text modelAlias))
    (failHere "model_alias" Status.cfgDuplicate "model alias is already used by another route")
  let enabled ← reqBool v "enabled"
  let families ← reqArr v "endpoint_families" 1 2
  let families ← under (.key "endpoint_families") (bitmaskFrom tblEndpointFamily 0 0 families)
  let policy ← reqEnum v "policy" tblPolicy
  let targets ← reqArr v "targets" 1 64
  let targets ← under (.key "targets")
    (loadTargets providers (arena.under (.key "targets")) targets)
  let fallback ← loadObj v "fallback" (loadFallback targets.length)
  check (decide (families &&& epfResponses = 0) ||
      routeHasCapableTarget providers targets capResponses)
    (failHere "targets" Status.cfgRef "a responses route needs a target that advertises responses")
  return { id := id, enabled := enabled, endpointFamilies := families, policy := policy,
           fbEnabled := fallback.enabled, fbMaxAttempts := fallback.maxAttempts,
           fbRetryable := fallback.retryable, targets := targets, modelAlias := text modelAlias }

/-- `af_cfg_load_routes`. -/
def loadRoutes (providers : List CfgProvider) (arena : Arena) (root : Mcp.Json) :
    Except Fail (List LoadedRoute) :=
  loadCollection arena root "routes" 256 (loadRoute providers)

/-- `af_cfg_load_protocol`. -/
def loadProtocol (v : Mcp.Json) : Except Fail (Word × Word) := do
  checkKeys v keysProtocol
  let preferred ← reqEnum v "preferred" tblMcpPreferred
  let legacy ← reqArr v "legacy" 0 8
  let bits ← under (.key "legacy") (bitmaskFrom tblMcpLegacy 0 0 legacy)
  return (preferred, bits)

/-- The loop body of `af_cfg_load_mcp_servers`. -/
def loadMcpServer (arena : Arena) (earlier : List CfgMcp) (v : Mcp.Json) :
    Except Fail CfgMcp := do
  let transport ← reqEnum v "transport" tblTransport
  checkKeys v (if transport = .stdio then keysMcpStdio else keysMcpHttp)
  let id ← loadId arena (earlier.map CfgMcp.id) v
  let _ ← loadText arena "display_name" 128 v
  let enabled ← reqBool v "enabled"
  let required ← reqBool v "required"
  let protocol ← loadObj v "protocol" loadProtocol
  L.mcpFields transport v
  return ⟨id, transport, enabled, required, protocol.1, protocol.2⟩

/-- `af_cfg_load_mcp_servers`. -/
def loadMcpServers (arena : Arena) (root : Mcp.Json) : Except Fail (List CfgMcp) :=
  loadCollection arena root "mcp_servers" 256 (loadMcpServer L)

end Loaders
end AsmFlow.Config
