import AsmFlow.Http.Response
import AsmFlow.Library.Tables

/-!
# The tables and their constraints

`migrations.asm` and the statements of `repo.asm`. A content of the database that
breaks a constraint cannot be built: a statement that would make one fails.
-/

namespace AsmFlow.Repo

open Http Library

/-- `af_repo_adapter_name`. -/
def adapterName : Adapter → Bytes
  | .openaiResponses => ascii "openai_responses"
  | .openaiChat => ascii "openai_chat"
  | .openaiDual => ascii "openai_dual"

/-- `af_repo_policy_name`. -/
def policyName : Policy → Bytes
  | .priority => ascii "priority"
  | .roundRobin => ascii "round_robin"
  | .leastLatency => ascii "least_latency"

inductive Transport
  | stdio
  | http
  deriving DecidableEq, Repr

/-- `af_repo_transport_name`. -/
def transportName : Transport → Bytes
  | .stdio => ascii "stdio"
  | .http => ascii "streamable_http"

/-- A row of `providers`. -/
structure ProviderRow where
  id : Bytes
  displayName : Bytes
  adapter : Bytes
  baseUrl : Bytes
  enabled : Bool
  required : Bool
  maxConcurrency : Word
  capabilities : Word
  updatedAtMs : ℤ
  deriving DecidableEq

/-- A row of `routes`. -/
structure RouteRow where
  id : Bytes
  modelAlias : Bytes
  enabled : Bool
  endpointFamilies : Word
  policy : Bytes
  fallbackEnabled : Bool
  fallbackMaxAttempts : Word
  fallbackRetryable : Word
  updatedAtMs : ℤ
  deriving DecidableEq

/-- A row of `route_targets`. -/
structure TargetRow where
  routeId : Bytes
  position : ℕ
  providerId : Bytes
  upstreamModel : Bytes
  priority : ℤ
  weight : Word
  deriving DecidableEq

/-- A row of `provider_health`. -/
structure HealthRow where
  providerId : Bytes
  state : Bytes
  consecutiveFailures : ℕ
  consecutiveSuccesses : ℕ
  ewmaLatencyUs : Option ℤ
  openedAtMs : Option ℤ
  lastChangeMs : ℤ
  operatorDisabled : Bool
  deriving DecidableEq

/-- The columns of `mcp_servers` that come from the configuration. -/
structure McpColumns where
  id : Bytes
  displayName : Bytes
  transport : Bytes
  enabled : Bool
  required : Bool
  updatedAtMs : ℤ
  deriving DecidableEq

/-- A row of `mcp_servers`. -/
structure McpRow where
  columns : McpColumns
  state : Bytes
  era : Option Bytes
  lastError : Option Bytes
  restartCount : ℕ
  crashLoop : Bool
  deriving DecidableEq

def TargetRow.key (t : TargetRow) : Bytes × ℕ := (t.routeId, t.position)

def McpRow.id (m : McpRow) : Bytes := m.columns.id

/-- The tables and indices that exist, and the rows of the tables that are modelled. -/
structure Content where
  objects : List String
  versions : List (ℤ × ℤ)
  providers : List ProviderRow
  routes : List RouteRow
  targets : List TargetRow
  health : List HealthRow
  mcpServers : List McpRow
  deriving DecidableEq

/-- The primary keys, `UNIQUE` and the references of the schema. -/
structure Content.Consistent (c : Content) : Prop where
  objects : c.objects.Nodup
  versions : (c.versions.map Prod.fst).Nodup
  versions_table : c.versions ≠ [] → "schema_migrations" ∈ c.objects
  providers : (c.providers.map (·.id)).Nodup
  routes : (c.routes.map (·.id)).Nodup
  aliases : (c.routes.map (·.modelAlias)).Nodup
  targets : (c.targets.map TargetRow.key).Nodup
  target_route : ∀ t ∈ c.targets, t.routeId ∈ c.routes.map (·.id)
  target_provider : ∀ t ∈ c.targets, t.providerId ∈ c.providers.map (·.id)
  health : (c.health.map (·.providerId)).Nodup
  health_provider : ∀ h ∈ c.health, h.providerId ∈ c.providers.map (·.id)
  mcpServers : (c.mcpServers.map McpRow.id).Nodup

theorem Content.consistent_iff (c : Content) :
    c.Consistent ↔ (c.objects.Nodup ∧ (c.versions.map Prod.fst).Nodup ∧
      (c.versions ≠ [] → "schema_migrations" ∈ c.objects)) ∧
      ((c.providers.map (·.id)).Nodup ∧ (c.routes.map (·.id)).Nodup ∧
        (c.routes.map (·.modelAlias)).Nodup ∧ (c.targets.map TargetRow.key).Nodup) ∧
      (∀ t ∈ c.targets, t.routeId ∈ c.routes.map (·.id)) ∧
      (∀ t ∈ c.targets, t.providerId ∈ c.providers.map (·.id)) ∧
      (c.health.map (·.providerId)).Nodup ∧
      (∀ h ∈ c.health, h.providerId ∈ c.providers.map (·.id)) ∧
      (c.mcpServers.map McpRow.id).Nodup := by
  constructor
  · rintro ⟨h1, h2, h3, h4, h5, h6, h7, h8, h9, h10, h11, h12⟩
    exact ⟨⟨h1, h2, h3⟩, ⟨h4, h5, h6, h7⟩, h8, h9, h10, h11, h12⟩
  · rintro ⟨⟨h1, h2, h3⟩, ⟨h4, h5, h6, h7⟩, h8, h9, h10, h11, h12⟩
    exact ⟨h1, h2, h3, h4, h5, h6, h7, h8, h9, h10, h11, h12⟩

instance : DecidablePred Content.Consistent := fun c =>
  decidable_of_iff _ c.consistent_iff.symm

/-- The contents that the schema allows. -/
abbrev Db := { c : Content // c.Consistent }

/-- A database before its first migration. -/
def Db.fresh : Db := ⟨⟨[], [], [], [], [], [], []⟩, by decide⟩

/-- The result codes of SQLite that the mapping tells apart, and the others. -/
inductive ResultCode
  | busy
  | locked
  | readonly
  | corrupt
  | notadb
  | other
  deriving DecidableEq, Repr

/-- A statement on these tables: it fails where a table is missing, or a constraint
would be broken. -/
def statement (uses : List String) (f : Content → Content) (d : Db) : Except ResultCode Db :=
  if ∀ name ∈ uses, name ∈ d.val.objects then
    if h : (f d.val).Consistent then .ok ⟨f d.val, h⟩ else .error .other
  else .error .other

namespace Content

/-- `sql_upsert_provider`. -/
def upsertProvider (r : ProviderRow) (c : Content) : Content :=
  { c with providers := upsert (·.id) replace r c.providers }

/-- `sql_upsert_health`. -/
def upsertHealth (r : HealthRow) (c : Content) : Content :=
  { c with health := upsert (·.providerId) retain r c.health }

/-- `sql_set_operator_disabled`. -/
def setOperatorDisabled (id : Bytes) (disabled : Bool) (now : ℤ) (c : Content) : Content :=
  { c with
    health := c.health.map fun x =>
      if x.providerId = id then { x with operatorDisabled := disabled, lastChangeMs := now } else x }

/-- `sql_upsert_route`. -/
def upsertRoute (r : RouteRow) (c : Content) : Content :=
  { c with routes := upsert (·.id) replace r c.routes }

/-- `sql_delete_route_targets`. -/
def deleteRouteTargets (id : Bytes) (c : Content) : Content :=
  { c with targets := c.targets.filter (·.routeId ≠ id) }

/-- `sql_insert_route_target`. -/
def insertRouteTarget (r : TargetRow) (c : Content) : Content :=
  { c with targets := c.targets ++ [r] }

/-- What a conflict leaves of a row of `mcp_servers`. -/
def mergeMcp (old r : McpRow) : McpRow := { old with columns := r.columns }

/-- `sql_upsert_mcp`. -/
def upsertMcp (r : McpRow) (c : Content) : Content :=
  { c with mcpServers := upsert McpRow.id mergeMcp r c.mcpServers }

/-- `sql_delete_stale_routes`, with the cascade. -/
def deleteStaleRoutes (stamp : ℤ) (c : Content) : Content :=
  let routes := c.routes.filter (¬ ·.updatedAtMs < stamp)
  { c with routes, targets := c.targets.filter (·.routeId ∈ routes.map (·.id)) }

/-- `sql_delete_stale_providers`, with its two cascades. -/
def deleteStaleProviders (stamp : ℤ) (c : Content) : Content :=
  let providers := c.providers.filter (¬ ·.updatedAtMs < stamp)
  { c with
    providers
    targets := c.targets.filter (·.providerId ∈ providers.map (·.id))
    health := c.health.filter (·.providerId ∈ providers.map (·.id)) }

/-- `sql_delete_stale_mcp`. -/
def deleteStaleMcp (stamp : ℤ) (c : Content) : Content :=
  { c with mcpServers := c.mcpServers.filter (¬ ·.columns.updatedAtMs < stamp) }

end Content
end AsmFlow.Repo
