import AsmFlow.Repo.Handle

/-!
# The configuration in the database

`af_repo_sync_config`. Every entry of the snapshot is written with the stamp of the
synchronisation, and what has an older stamp is deleted.
-/

namespace AsmFlow.Repo

open Http Library

/-- The `PRV_*` fields that are stored. -/
structure ProviderEntry where
  id : Bytes
  displayName : Bytes
  adapter : Adapter
  baseUrl : Bytes
  enabled : Bool
  required : Bool
  maxConcurrency : Word
  capabilities : Word
  deriving DecidableEq

/-- The `RTG_*` fields that are stored. -/
structure TargetEntry where
  providerId : Bytes
  upstreamModel : Bytes
  priority : ℤ
  weight : Word
  deriving DecidableEq

/-- The `RTE_*` fields that are stored. -/
structure RouteEntry where
  id : Bytes
  modelAlias : Bytes
  enabled : Bool
  endpointFamilies : Word
  policy : Policy
  fbEnabled : Bool
  fbMaxAttempts : Word
  fbRetryable : Word
  targets : List TargetEntry
  deriving DecidableEq

/-- The `MCP_*` fields that are stored. -/
structure McpEntry where
  id : Bytes
  displayName : Bytes
  transport : Transport
  enabled : Bool
  required : Bool
  deriving DecidableEq

/-- A configuration that has been validated: identifiers and aliases are unique, and a
target names a provider. -/
structure Snapshot where
  providers : List ProviderEntry
  routes : List RouteEntry
  mcpServers : List McpEntry
  provider_ids : (providers.map (·.id)).Nodup
  route_ids : (routes.map (·.id)).Nodup
  route_aliases : (routes.map (·.modelAlias)).Nodup
  target_ids : ∀ r ∈ routes, ∀ t ∈ r.targets, t.providerId ∈ providers.map (·.id)
  mcp_ids : (mcpServers.map (·.id)).Nodup

def ProviderEntry.row (p : ProviderEntry) (stamp : ℤ) : ProviderRow where
  id := p.id
  displayName := p.displayName
  adapter := adapterName p.adapter
  baseUrl := p.baseUrl
  enabled := p.enabled
  required := p.required
  maxConcurrency := p.maxConcurrency
  capabilities := p.capabilities
  updatedAtMs := stamp

/-- The health row of a provider that has none. -/
def ProviderEntry.healthRow (p : ProviderEntry) (stamp : ℤ) : HealthRow where
  providerId := p.id
  state := ascii "unknown"
  consecutiveFailures := 0
  consecutiveSuccesses := 0
  ewmaLatencyUs := none
  openedAtMs := none
  lastChangeMs := stamp
  operatorDisabled := false

def RouteEntry.row (r : RouteEntry) (stamp : ℤ) : RouteRow where
  id := r.id
  modelAlias := r.modelAlias
  enabled := r.enabled
  endpointFamilies := r.endpointFamilies
  policy := policyName r.policy
  fallbackEnabled := r.fbEnabled
  fallbackMaxAttempts := r.fbMaxAttempts
  fallbackRetryable := r.fbRetryable
  updatedAtMs := stamp

/-- The targets of a route, in the configured order. -/
def RouteEntry.targetRows (r : RouteEntry) : List TargetRow :=
  r.targets.mapIdx fun position t =>
    ⟨r.id, position, t.providerId, t.upstreamModel, t.priority, t.weight⟩

def McpEntry.columns (m : McpEntry) (stamp : ℤ) : McpColumns where
  id := m.id
  displayName := m.displayName
  transport := transportName m.transport
  enabled := m.enabled
  required := m.required
  updatedAtMs := stamp

/-- The row of a server that has none. -/
def McpEntry.row (m : McpEntry) (stamp : ℤ) : McpRow :=
  ⟨m.columns stamp, ascii "stopped", none, none, 0, false⟩

/-- A statement that is prepared or reset, bound and stepped. -/
def bound (binds : ℕ) (uses : List String) (f : Content → Content) : List Call :=
  List.replicate (binds + 1) .ready ++ [.sql (statement uses f)]

/-- `af_repo_write_providers`. -/
def writeProviders (cfg : Snapshot) (stamp : ℤ) : List Call :=
  [.sql (statement ["providers"] id), .sql (statement ["provider_health"] id)] ++
    cfg.providers.flatMap fun p =>
      bound 9 ["providers"] (Content.upsertProvider (p.row stamp)) ++
        bound 3 ["provider_health"] (Content.upsertHealth (p.healthRow stamp))

/-- `af_repo_write_route_targets`. -/
def writeRouteTargets (r : RouteEntry) : List Call :=
  bound 1 ["route_targets"] (Content.deleteRouteTargets r.id) ++
    .sql (statement ["route_targets"] id) ::
      r.targetRows.flatMap fun t => bound 6 ["route_targets"] (Content.insertRouteTarget t)

/-- `af_repo_write_routes`. -/
def writeRoutes (cfg : Snapshot) (stamp : ℤ) : List Call :=
  .sql (statement ["routes"] id) ::
    cfg.routes.flatMap fun r =>
      bound 9 ["routes"] (Content.upsertRoute (r.row stamp)) ++ writeRouteTargets r

/-- `af_repo_write_mcp_servers`. -/
def writeMcpServers (cfg : Snapshot) (stamp : ℤ) : List Call :=
  .sql (statement ["mcp_servers"] id) ::
    cfg.mcpServers.flatMap fun m => bound 6 ["mcp_servers"] (Content.upsertMcp (m.row stamp))

/-- The calls of a synchronisation. -/
def syncCalls (cfg : Snapshot) (stamp : ℤ) : List Call :=
  writeProviders cfg stamp ++ writeRoutes cfg stamp ++ writeMcpServers cfg stamp ++
    bound 1 ["routes"] (Content.deleteStaleRoutes stamp) ++
    bound 1 ["providers"] (Content.deleteStaleProviders stamp) ++
    bound 1 ["mcp_servers"] (Content.deleteStaleMcp stamp)

/-- `af_repo_sync_config`. -/
def Handle.syncConfig (h : Handle) (cfg : Snapshot) (clock : Except Mcp.Fault ℤ) (a : Answers) :
    Handle × Status :=
  if h.writesBlocked then (h, Status.db)
  else
    match clock with
    | .error f => (h, f.val)
    | .ok stamp => h.transact (syncCalls cfg stamp) a

/-- `af_repo_set_operator_disabled`. -/
def Handle.setOperatorDisabled (h : Handle) (id : Bytes) (disabled : Bool)
    (clock : Except Mcp.Fault ℤ) (replies : List SqlReply) : Handle × Status :=
  if h.writesBlocked then (h, Status.db)
  else
    match clock with
    | .error f => (h, f.val)
    | .ok now =>
      h.askAll (bound 3 ["provider_health"] (Content.setOperatorDisabled id disabled now)) replies

end AsmFlow.Repo
