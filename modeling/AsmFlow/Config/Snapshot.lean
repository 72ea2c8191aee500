import AsmFlow.Machine.Word

/-!
# The configuration snapshot, as routing and the provider engine read it

A snapshot is immutable once published. Only the fields that the modelled
functions read are kept; identifiers are the bytes of their C strings.
-/

namespace AsmFlow

abbrev Bytes := List UInt8

/-- `AF_ADAPTER_*`. -/
inductive Adapter
  | openaiResponses
  | openaiChat
  | openaiDual
  deriving DecidableEq, Repr

/-- `AF_POLICY_*`. -/
inductive Policy
  | priority
  | roundRobin
  | leastLatency
  deriving DecidableEq, Repr

/-- `AF_CAP_RESPONSES` and `AF_CAP_CHAT_COMPLETIONS`, bits of a capability mask. -/
def capResponses : Word := 1
def capChatCompletions : Word := 2
def capStreaming : Word := 4

/-- `AF_EPF_RESPONSES` and `AF_EPF_CHAT_COMPLETIONS`, bits of a family mask. -/
def epfResponses : Word := 1
def epfChatCompletions : Word := 2

/-- The `HLT_*` record of a provider. -/
structure HealthConfig where
  failThr : Word
  succThr : Word
  cooldownMs : Word
  deriving DecidableEq, Repr

/-- The `PRV_*` record. -/
structure CfgProvider where
  id : Bytes
  adapter : Adapter
  enabled : Bool
  maxConcurrency : Word
  capabilities : Word
  health : HealthConfig
  deriving DecidableEq, Repr

/-- The `RTG_*` record; an index that did not resolve is `-1`. -/
structure RouteTarget where
  providerIndex : ℤ
  upstreamModel : Bytes
  priority : ℤ
  weight : Word
  deriving DecidableEq, Repr

/-- The `RTE_*` record. -/
structure CfgRoute where
  id : Bytes
  enabled : Bool
  endpointFamilies : Word
  policy : Policy
  fbEnabled : Bool
  fbMaxAttempts : Word
  fbRetryable : Word
  targets : List RouteTarget
  deriving DecidableEq, Repr

/-- The parts of `af_config` that a request reads. -/
structure Config where
  providers : List CfgProvider
  routes : List CfgRoute
  limSseEventMax : Word
  deriving DecidableEq, Repr

end AsmFlow
