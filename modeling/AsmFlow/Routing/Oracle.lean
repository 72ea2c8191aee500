import AsmFlow.Routing.Walk

/-!
# The routing oracle

`tests/route_oracle.py`, and the corpus test's reading of a scenario as the
oracle's candidates. The oracle is the second statement of the routing rules;
it knows nothing of probes, which is the one point on which the code's filter
is deliberately stricter.
-/

namespace AsmFlow.Routing

open Library

namespace Oracle

/-- The endpoint families, `responses` and `chat_completions`. -/
inductive Family
  | responses
  | chatCompletions
  deriving DecidableEq, Repr

/-- `Candidate`. Capabilities are sets of names, one name for each mask bit. -/
structure Candidate where
  providerId : List ℕ
  configuredIndex : ℕ
  priority : ℤ
  weight : ℕ
  state : Health
  active : ℕ
  maxConcurrency : ℕ
  latencyUs : Option ℕ
  endpointFamilies : Family → Bool
  capabilities : Finset ℕ
  alreadyTried : Bool
  enabled : Bool

/-- `ELIGIBLE_STATES`. -/
def eligibleStates : List Health := [.healthy, .degraded, .halfOpen]

/-- The body of the loop in `eligible_candidates`. -/
def eligible (family : Family) (required : Finset ℕ) (c : Candidate) : Bool :=
  if c.enabled = false ∨ c.alreadyTried = true then false
  else if c.state ∉ eligibleStates then false
  else if c.maxConcurrency ≤ c.active then false
  else if c.endpointFamilies family = false then false
  else decide (required ⊆ c.capabilities)

def eligibleCandidates (family : Family) (required : Finset ℕ) (cs : List Candidate) :
    List Candidate :=
  cs.filter (eligible family required)

/-- Tuples compare lexicographically. Stated for `ℤ` because the order that
instance search finds there is a noncomputable one. -/
instance priorityKeyOrder : LinearOrder (ℤ ×ₗ ℕ ×ₗ List ℕ) :=
  @Prod.Lex.instLinearOrder ℤ (ℕ ×ₗ List ℕ) Int.instLinearOrder inferInstance

def priorityKey (c : Candidate) : ℤ ×ₗ ℕ ×ₗ List ℕ :=
  toLex (c.priority, toLex (c.configuredIndex, c.providerId))

def roundRobinKey (c : Candidate) : ℕ ×ₗ List ℕ := toLex (c.configuredIndex, c.providerId)

def latencyKey (c : Candidate) : ℕ ×ₗ ℕ ×ₗ ℕ ×ₗ ℕ ×ₗ List ℕ :=
  toLex (if c.state = .halfOpen then 1 else 0,
    toLex (if c.latencyUs = none then 1 else 0,
      toLex (c.latencyUs.getD (2 ^ 63 - 1), toLex (c.configuredIndex, c.providerId))))

/-- `min` under a key: the first candidate whose key is least. -/
def minBy {κ : Type} [LinearOrder κ] (key : Candidate → κ) (cs : List Candidate) :
    Option Candidate :=
  cs.argmin key

/-- `select`: the first candidate of least key, or the one under the cursor. -/
def select (policy : Policy) (cs : List Candidate) (cursor : ℕ) : Option Candidate :=
  match policy with
  | .priority => minBy priorityKey cs
  | .leastLatency => minBy latencyKey cs
  | .roundRobin =>
    if cs = [] then none
    else
      let ordered := cs.mergeSort fun a b => decide (roundRobinKey a ≤ roundRobinKey b)
      ordered[cursor % ordered.length]?

end Oracle

/-- The names of the bits set in a mask. -/
def maskNames (mask : Word) : Finset ℕ := (Finset.range 64).filter fun i => mask.toNat.testBit i

/-- `serves_family` of the corpus test. -/
def servesFamilyNames (adapter : Adapter) (capabilities : Finset ℕ) : Oracle.Family → Bool
  | .responses => decide (0 ∈ capabilities) &&
      (adapter == .openaiDual || adapter == .openaiResponses)
  | .chatCompletions => decide (1 ∈ capabilities) &&
      (adapter == .openaiDual || adapter == .openaiChat)

/-- `effective_state` of the corpus test. -/
def effectiveState (state : Health) (nowNs openUntilNs : Word) : Health :=
  if state = .opened ∧ openUntilNs ≤ nowNs then .halfOpen else state

/-- The oracle's view of a target, `to_oracle` of the corpus test. -/
def TargetView.oracle (rq : RouteRequest) (v : TargetView) : Oracle.Candidate where
  providerId := v.provider.id.map UInt8.toNat
  configuredIndex := v.index
  priority := v.target.priority
  weight := v.target.weight.toNat
  state := effectiveState v.state.health rq.nowNs v.state.openUntil
  active := v.state.active.toNat
  maxConcurrency := v.provider.maxConcurrency.toNat
  latencyUs := if v.state.ewma = latencyUnknown then none else some v.state.ewma.toNat
  endpointFamilies := servesFamilyNames v.provider.adapter (maskNames v.provider.capabilities)
  capabilities := maskNames v.provider.capabilities
  alreadyTried := triedBit rq.tried v.index
  enabled := v.provider.enabled

def toOracle (rq : RouteRequest) (t : Table) : List Oracle.Candidate :=
  (targetViewsFrom rq.config t 0 rq.route.targets).map (TargetView.oracle rq)

/-- A half-open target whose probe is in flight. -/
def TargetView.probing (rq : RouteRequest) (v : TargetView) : Bool :=
  let s := healthRefresh v.state rq.nowNs
  decide (s.health = .halfOpen) && decide (s.probes ≠ 0)

/-- The oracle's candidates, less the half-open targets whose probe is in flight. -/
def toOracleUnprobed (rq : RouteRequest) (t : Table) : List Oracle.Candidate :=
  ((targetViewsFrom rq.config t 0 rq.route.targets).filter fun v => !v.probing rq).map
    (TargetView.oracle rq)

/-- The family a request asks for, by name. -/
def familyName (family : Word) : Oracle.Family :=
  if family = epfResponses then .responses else .chatCompletions

end AsmFlow.Routing
