import AsmFlow.Library.FirstBest
import AsmFlow.Routing.Table

/-!
# Which target serves a request

`routing_select.asm`: the walk over a route's targets that yields the eligible
ones in configured order, and the choice among them under the route's policy.
The walk is not pure. It creates the runtime record of a provider it meets for
the first time, and a circuit whose cooldown has elapsed becomes half-open when
it is looked at.
-/

namespace AsmFlow.Routing

open Library

/-- `AF_ROUTING_MAX_TARGETS`, the width of the tried set. -/
def routingMaxTargets : ℕ := 64

/-- `af_route_request`, without the table. -/
structure RouteRequest where
  config : Config
  route : CfgRoute
  family : Word
  caps : Word
  tried : Word
  nowNs : Word
  deriving DecidableEq, Repr

/-- `af_route_candidate`. -/
structure Candidate where
  target : RouteTarget
  provider : CfgProvider
  state : ℕ
  index : ℕ
  priority : ℤ
  weight : Word
  health : Health
  latency : Word
  providerId : Bytes
  deriving DecidableEq, Repr

/-- Bit `i` of a tried set. -/
def triedBit (tried : Word) (i : ℕ) : Bool :=
  decide (tried &&& ((1 : Word) <<< UInt64.ofNat i) ≠ 0)

/-- The tried set with bit `i` set. -/
def setTried (tried : Word) (i : ℕ) : Word := tried ||| ((1 : Word) <<< UInt64.ofNat i)

theorem triedBit_eq_testBit (tried : Word) {i : ℕ} (hi : i < routingMaxTargets) :
    triedBit tried i = tried.toNat.testBit i := by
  rw [triedBit, Bool.eq_iff_iff, decide_eq_true_iff]
  exact Word.and_bit_ne_zero_iff tried i hi

theorem triedBit_setTried {tried : Word} {i j : ℕ} (hi : i < routingMaxTargets)
    (hj : j < routingMaxTargets) :
    triedBit (setTried tried i) j = (triedBit tried j || decide (i = j)) := by
  rw [triedBit_eq_testBit _ hj, triedBit_eq_testBit _ hj, setTried, UInt64.toNat_or,
    Word.toNat_bit hi, Nat.testBit_or, Nat.testBit_two_pow]

/-- The provider record a target names, unless its index is out of range. -/
def targetProvider (config : Config) (target : RouteTarget) : Option CfgProvider :=
  if target.providerIndex < 0 then none else config.providers[target.providerIndex.toNat]?

/-- Filter 2: the capability bit and the adapter for the family asked for. Any
family that is not `responses` is taken for `chat_completions`. -/
def servesFamily (family : Word) (p : CfgProvider) : Bool :=
  if family = epfResponses then
    decide (p.capabilities &&& capResponses ≠ 0) &&
      (p.adapter == .openaiDual || p.adapter == .openaiResponses)
  else
    decide (p.capabilities &&& capChatCompletions ≠ 0) &&
      (p.adapter == .openaiDual || p.adapter == .openaiChat)

/-- The filters that read only the snapshot and the tried set. -/
def servable (rq : RouteRequest) (i : ℕ) (target : RouteTarget) : Option CfgProvider :=
  if triedBit rq.tried i then none
  else
    match targetProvider rq.config target with
    | none => none
    | some p =>
      if p.enabled = false then none
      else if servesFamily rq.family p = false then none
      else if p.capabilities &&& rq.caps ≠ rq.caps then none
      else some p

/-- Filters 4 and 5, on the refreshed state. A zero ceiling is no ceiling. -/
def admissible (s : ProvState) (p : CfgProvider) : Bool :=
  healthAdmit s && (decide (p.maxConcurrency = 0) || decide (s.active < p.maxConcurrency))

def flatten (i : ℕ) (target : RouteTarget) (p : CfgProvider) (k : ℕ) (s : ProvState) : Candidate :=
  { target, provider := p, state := k, index := i, priority := target.priority
    weight := target.weight, health := s.health, latency := s.ewma, providerId := p.id }

/-- One pass of `.scan`: the table after it, and the candidate unless filtered. -/
def candidateAt (rq : RouteRequest) (alloc : Bool) (i : ℕ) (target : RouteTarget) (t : Table) :
    Table × Option Candidate :=
  match servable rq i target with
  | none => (t, none)
  | some p =>
    match routingProvider t p.id alloc with
    | (t, none) => (t, none)
    | (t, some k) =>
      let t := t.onProvider k (healthRefresh · rq.nowNs)
      match t.providers[k]? with
      | none => (t, none)
      | some s => if admissible s p then (t, some (flatten i target p k s)) else (t, none)

/-- The walk from target `i`, with the candidates written so far. -/
def candidatesFrom (rq : RouteRequest) (alloc : ℕ → Bool) (max : ℕ) :
    ℕ → List RouteTarget → Table → List Candidate → Table × List Candidate
  | _, [], t, out => (t, out)
  | i, target :: rest, t, out =>
    if routingMaxTargets ≤ i then (t, out)
    else
      match candidateAt rq (alloc i) i target t with
      | (t, none) => candidatesFrom rq alloc max (i + 1) rest t out
      | (t, some c) =>
        if max ≤ out.length then (t, out)
        else candidatesFrom rq alloc max (i + 1) rest t (out ++ [c])

/-- `af_route_candidates`; `alloc i` is whether creating the record of target
`i`'s provider finds memory. -/
def routeCandidates (rq : RouteRequest) (alloc : ℕ → Bool) (t : Table) (max : ℕ) :
    Table × List Candidate :=
  candidatesFrom rq alloc max 0 rq.route.targets t []

/-- The bytewise comparison of two C strings: negative, zero or positive. -/
def routeIdCompare : Bytes → Bytes → ℤ
  | [], [] => 0
  | [], b :: _ => 0 - b.toNat
  | a :: _, [] => a.toNat
  | a :: as, b :: bs => if a = b then routeIdCompare as bs else a.toNat - b.toNat

def beatsPriority (a b : Candidate) : Bool :=
  if a.priority < b.priority then true
  else if b.priority < a.priority then false
  else if a.index < b.index then true
  else if b.index < a.index then false
  else decide (routeIdCompare a.providerId b.providerId < 0)

def halfOpenRank (h : Health) : ℕ := if h = .halfOpen then 1 else 0
def unknownRank (latency : Word) : ℕ := if latency = latencyUnknown then 1 else 0

def beatsLatency (a b : Candidate) : Bool :=
  if halfOpenRank a.health < halfOpenRank b.health then true
  else if halfOpenRank b.health < halfOpenRank a.health then false
  else if unknownRank a.latency < unknownRank b.latency then true
  else if unknownRank b.latency < unknownRank a.latency then false
  else if a.latency < b.latency then true
  else if b.latency < a.latency then false
  else if a.index < b.index then true
  else if b.index < a.index then false
  else decide (routeIdCompare a.providerId b.providerId < 0)

/-- `af_route_select`: the position of the chosen candidate. -/
def routeSelect (policy : Policy) (cs : List Candidate) (cursor : Word) : Option ℕ :=
  match cs with
  | [] => none
  | _ :: _ =>
    match policy with
    | .roundRobin => some (cursor.toNat % cs.length)
    | .priority => bestAt beatsPriority cs
    | .leastLatency => bestAt beatsLatency cs

/-- What holds of every candidate of a walk that ends in table `t`. -/
structure Offered (rq : RouteRequest) (t : Table) (c : Candidate) : Prop where
  state_lt : c.state < t.providers.length
  index_lt : c.index < routingMaxTargets
  untried : triedBit rq.tried c.index = false

theorem untried_of_servable {rq : RouteRequest} {i : ℕ} {target : RouteTarget} {p : CfgProvider}
    (h : servable rq i target = some p) : triedBit rq.tried i = false := by
  unfold servable at h
  split_ifs at h with htried
  simpa using htried

/-- Everything one pass of the walk can do. -/
theorem candidateAt_cases (rq : RouteRequest) (alloc : Bool) (i : ℕ) (target : RouteTarget)
    (t : Table) :
    candidateAt rq alloc i target t = (t, none) ∨
      ∃ p, servable rq i target = some p ∧
        ((∃ t', routingProvider t p.id alloc = (t', none) ∧
            candidateAt rq alloc i target t = (t', none)) ∨
          ∃ t' k, routingProvider t p.id alloc = (t', some k) ∧
            ∃ found, (∀ c, found = some c → ∃ s, c = flatten i target p k s) ∧
              candidateAt rq alloc i target t =
                (t'.onProvider k (healthRefresh · rq.nowNs), found)) := by
  unfold candidateAt
  cases hp : servable rq i target with
  | none => exact Or.inl rfl
  | some p =>
    refine Or.inr ⟨p, rfl, ?_⟩
    cases hfound : routingProvider t p.id alloc with
    | mk t' slot =>
      cases slot with
      | none => exact Or.inl ⟨t', rfl, by simp [hfound]⟩
      | some k =>
        refine Or.inr ⟨t', k, rfl, ?_⟩
        simp only [hfound]
        cases (t'.onProvider k (healthRefresh · rq.nowNs)).providers[k]? with
        | none => exact ⟨none, by simp, rfl⟩
        | some s =>
          by_cases hadm : admissible s p = true
          · refine ⟨some (flatten i target p k s), fun c hc => ⟨s, ?_⟩, by simp [hadm]⟩
            exact (Option.some.inj hc).symm
          · exact ⟨none, by simp, by simp [hadm]⟩

/-- One pass keeps every count of transfers, and a candidate it yields is in
range and not tried. -/
theorem candidateAt_spec (rq : RouteRequest) (alloc : Bool) {i : ℕ} (hi : i < routingMaxTargets)
    (target : RouteTarget) (t : Table) :
    (∀ k, (candidateAt rq alloc i target t).1.activeOf k = t.activeOf k) ∧
      t.providers.length ≤ (candidateAt rq alloc i target t).1.providers.length ∧
      ∀ c, (candidateAt rq alloc i target t).2 = some c →
        Offered rq (candidateAt rq alloc i target t).1 c := by
  rcases candidateAt_cases rq alloc i target t with h | ⟨p, hp, ⟨t', hfound, h⟩ | ⟨t', k, hfound, h⟩⟩
  · rw [h]
    exact ⟨fun _ => rfl, le_rfl, by simp⟩
  · have hkeep := routingProvider_activeOf t p.id alloc
    have hlen := routingProvider_length_le t p.id alloc
    rw [hfound] at hkeep hlen
    rw [h]
    exact ⟨hkeep, hlen, by simp⟩
  · have hkeep := routingProvider_activeOf t p.id alloc
    have hlen := routingProvider_length_le t p.id alloc
    rw [hfound] at hkeep hlen
    obtain ⟨found, hflat, h⟩ := h
    rw [h]
    refine ⟨fun j => ?_, by simpa using hlen, fun c hc => ?_⟩
    · rw [onProvider_activeOf_of_eq fun s => healthRefresh_active s rq.nowNs]
      exact hkeep j
    · obtain ⟨s, rfl⟩ := hflat c hc
      exact ⟨by simpa [flatten] using routingProvider_lt hfound, hi, untried_of_servable hp⟩

/-- The walk keeps every count of transfers, and every candidate it yields is
in range and not tried. -/
theorem candidatesFrom_spec (rq : RouteRequest) (alloc : ℕ → Bool) (max i : ℕ)
    (targets : List RouteTarget) (t : Table) (out : List Candidate)
    (hout : ∀ c ∈ out, Offered rq t c) :
    (∀ k, (candidatesFrom rq alloc max i targets t out).1.activeOf k = t.activeOf k) ∧
      ∀ c ∈ (candidatesFrom rq alloc max i targets t out).2,
        Offered rq (candidatesFrom rq alloc max i targets t out).1 c := by
  induction targets generalizing i t out with
  | nil => exact ⟨fun _ => rfl, hout⟩
  | cons target targets ih =>
    rw [candidatesFrom]
    by_cases hwide : routingMaxTargets ≤ i
    · rw [if_pos hwide]
      exact ⟨fun _ => rfl, hout⟩
    · rw [if_neg hwide]
      obtain ⟨hactive, hlen, hoffer⟩ :=
        candidateAt_spec rq (alloc i) (not_le.mp hwide) target t
      generalize candidateAt rq (alloc i) i target t = step at hactive hlen hoffer
      obtain ⟨t', found⟩ := step
      have hout' : ∀ c ∈ out, Offered rq t' c := fun c hc =>
        ⟨lt_of_lt_of_le (hout c hc).state_lt hlen, (hout c hc).index_lt, (hout c hc).untried⟩
      cases found with
      | none =>
        obtain ⟨hkeep, hall⟩ := ih (i + 1) t' out hout'
        exact ⟨fun k => (hkeep k).trans (hactive k), hall⟩
      | some c =>
        dsimp only
        split_ifs
        · exact ⟨hactive, hout'⟩
        · have hnew : ∀ d ∈ out ++ [c], Offered rq t' d := by
            intro d hd
            rcases List.mem_append.mp hd with hd | hd
            · exact hout' d hd
            · rw [List.mem_singleton.mp hd]
              exact hoffer c rfl
          obtain ⟨hkeep, hall⟩ := ih (i + 1) t' (out ++ [c]) hnew
          exact ⟨fun k => (hkeep k).trans (hactive k), hall⟩

theorem routeCandidates_spec (rq : RouteRequest) (alloc : ℕ → Bool) (t : Table) (max : ℕ) :
    (∀ k, (routeCandidates rq alloc t max).1.activeOf k = t.activeOf k) ∧
      ∀ c ∈ (routeCandidates rq alloc t max).2, Offered rq (routeCandidates rq alloc t max).1 c :=
  candidatesFrom_spec rq alloc max 0 rq.route.targets t [] (by simp)

end AsmFlow.Routing
