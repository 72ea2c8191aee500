import AsmFlow.Routing.Oracle

/-!
# The code's routing against the oracle's

Both sides are images of one list of target views. Filter is compared with
filter and comparison with key, view by view.
-/

namespace AsmFlow.Routing

open Library

theorem healthRefresh_health (s : ProvState) (nowNs : Word) :
    (healthRefresh s nowNs).health = effectiveState s.health nowNs s.openUntil := by
  unfold healthRefresh effectiveState
  split_ifs <;> rfl

@[simp] theorem healthRefresh_ewma (s : ProvState) (nowNs : Word) :
    (healthRefresh s nowNs).ewma = s.ewma := by
  unfold healthRefresh
  split_ifs <;> rfl

section Filters

theorem mem_maskNames (mask : Word) (i : ℕ) (hi : i < 64) :
    i ∈ maskNames mask ↔ mask.toNat.testBit i = true := by
  simp [maskNames, hi]

theorem maskNames_subset_iff (m n : Word) : maskNames n ⊆ maskNames m ↔ m &&& n = n := by
  rw [Word.and_eq_right_iff]
  constructor
  · intro h i hi hn
    exact (mem_maskNames m i hi).mp (h ((mem_maskNames n i hi).mpr hn))
  · intro h i hn
    have hi : i < 64 := by
      simp only [maskNames, Finset.mem_filter, Finset.mem_range] at hn
      exact hn.1
    exact (mem_maskNames m i hi).mpr (h i hi ((mem_maskNames n i hi).mp hn))

/-- The family rule of the code is the corpus test's. -/
theorem servesFamily_eq (family : Word) (p : CfgProvider) :
    servesFamily family p =
      servesFamilyNames p.adapter (maskNames p.capabilities) (familyName family) := by
  have hresp : p.capabilities &&& capResponses ≠ 0 ↔ 0 ∈ maskNames p.capabilities := by
    rw [mem_maskNames _ 0 (by omega)]
    exact Word.and_bit_ne_zero_iff p.capabilities 0 (by omega)
  have hchat : p.capabilities &&& capChatCompletions ≠ 0 ↔ 1 ∈ maskNames p.capabilities := by
    rw [mem_maskNames _ 1 (by omega)]
    exact Word.and_bit_ne_zero_iff p.capabilities 1 (by omega)
  unfold servesFamily familyName
  split_ifs with hfam
  · simp only [servesFamilyNames, hresp]
  · simp only [servesFamilyNames, hchat]

/-- Admission is the oracle's state test, less the half-open targets that probe. -/
theorem healthAdmit_refresh (s : ProvState) (nowNs : Word) :
    healthAdmit (healthRefresh s nowNs) =
      (decide (effectiveState s.health nowNs s.openUntil ∈ Oracle.eligibleStates) &&
        !(decide ((healthRefresh s nowNs).health = .halfOpen) &&
          decide ((healthRefresh s nowNs).probes ≠ 0))) := by
  rw [← healthRefresh_health]
  generalize healthRefresh s nowNs = r
  have hone : r.probes < halfOpenProbes ↔ r.probes = 0 := by
    simp only [halfOpenProbes, UInt64.lt_iff_toNat_lt, UInt64.toNat_one, ← UInt64.toNat_inj,
      UInt64.toNat_zero]
    omega
  cases hr : r.health <;> simp [healthAdmit, hr, Oracle.eligibleStates, hone]

theorem eligible_iff (family : Oracle.Family) (required : Finset ℕ) (c : Oracle.Candidate) :
    Oracle.eligible family required c = true ↔
      c.enabled = true ∧ c.alreadyTried = false ∧ c.state ∈ Oracle.eligibleStates ∧
        c.active < c.maxConcurrency ∧ c.endpointFamilies family = true ∧
        required ⊆ c.capabilities := by
  unfold Oracle.eligible
  split_ifs with henabled hstate hfull hfamily
  · rcases henabled with h | h <;> simp [h]
  · simp [not_lt.mpr hfull]
  · simp [hfamily]
  · simp only [not_or, Bool.not_eq_false, Bool.not_eq_true] at henabled hfamily
    simp [henabled, hstate, not_le.mp hfull, hfamily]
  · simp [hstate]

/-- The six filters of a view are the oracle's filter, less the probing targets. -/
theorem admitted_eq (rq : RouteRequest) (v : TargetView) (hc : v.provider.maxConcurrency ≠ 0) :
    v.admitted rq =
      (!v.probing rq &&
        Oracle.eligible (familyName rq.family) (maskNames rq.caps) (v.oracle rq)) := by
  rw [Bool.eq_iff_iff, Bool.and_eq_true, eligible_iff]
  simp only [TargetView.admitted, TargetView.servable, admissible, healthAdmit_refresh,
    TargetView.probing, TargetView.oracle, servesFamily_eq, maskNames_subset_iff,
    healthRefresh_active, hc, decide_false, Bool.false_or, UInt64.lt_iff_toNat_lt,
    Bool.and_eq_true, Bool.not_eq_true', decide_eq_true_eq]
  tauto

end Filters

section Orders

/-- Bytes of a C string compare as the text they spell. -/
theorem routeIdCompare_neg_iff {a b : Bytes} (ha : (0 : UInt8) ∉ a) (hb : (0 : UInt8) ∉ b) :
    routeIdCompare a b < 0 ↔ a.map UInt8.toNat < b.map UInt8.toNat := by
  induction a generalizing b with
  | nil =>
    cases b with
    | nil => simp [routeIdCompare]
    | cons y b =>
      have hy : y ≠ 0 := fun h => hb (by simp [h])
      have hpos : 0 < y.toNat := Nat.pos_of_ne_zero fun h => hy (UInt8.toNat_inj.mp h)
      simp [routeIdCompare, hpos]
  | cons x a ih =>
    cases b with
    | nil => simp [routeIdCompare]
    | cons y b =>
      have ha' : (0 : UInt8) ∉ a := fun h => ha (List.mem_cons_of_mem x h)
      have hb' : (0 : UInt8) ∉ b := fun h => hb (List.mem_cons_of_mem y h)
      simp only [routeIdCompare, List.map_cons, List.cons_lt_cons_iff]
      by_cases hxy : x = y
      · simp [hxy, ih ha' hb']
      · have hne : x.toNat ≠ y.toNat := fun h => hxy (UInt8.toNat_inj.mp h)
        simp only [hxy, if_false, hne, false_and, or_false]
        omega

variable (rq : RouteRequest) {v w : TargetView}

theorem beatsPriority_eq (hv : (0 : UInt8) ∉ v.provider.id) (hw : (0 : UInt8) ∉ w.provider.id) :
    beatsPriority (v.candidate rq) (w.candidate rq) =
      decide (Oracle.priorityKey (v.oracle rq) < Oracle.priorityKey (w.oracle rq)) := by
  have hkey : Oracle.priorityKey (v.oracle rq) < Oracle.priorityKey (w.oracle rq) ↔
      v.target.priority < w.target.priority ∨ v.target.priority = w.target.priority ∧
        (v.index < w.index ∨ v.index = w.index ∧
          v.provider.id.map UInt8.toNat < w.provider.id.map UInt8.toNat) := by
    refine Prod.Lex.toLex_lt_toLex.trans ?_
    simp [TargetView.oracle, Prod.Lex.toLex_lt_toLex]
  rw [Bool.eq_iff_iff, decide_eq_true_iff, hkey, ← routeIdCompare_neg_iff hv hw]
  simp only [beatsPriority, tieBreak_eq_true, decide_eq_true_eq]
  simp only [TargetView.candidate, flatten]

/-- Among targets that agree on being measured, the oracle's latency key, its
sentinel included, orders as the raw reading does. -/
theorem latency_getD_lt_iff {a b : Word} (h : unknownRank a = unknownRank b) :
    ((if a = latencyUnknown then none else some a.toNat).getD (2 ^ 63 - 1) <
        (if b = latencyUnknown then none else some b.toNat).getD (2 ^ 63 - 1) ↔
      a.toNat < b.toNat) ∧
    ((if a = latencyUnknown then none else some a.toNat).getD (2 ^ 63 - 1) =
        (if b = latencyUnknown then none else some b.toNat).getD (2 ^ 63 - 1) ↔
      a.toNat = b.toNat) := by
  unfold unknownRank at h
  by_cases ha : a = latencyUnknown
  · by_cases hb : b = latencyUnknown
    · simp [ha, hb]
    · simp [ha, hb] at h
  · by_cases hb : b = latencyUnknown
    · simp [ha, hb] at h
    · simp [ha, hb]

theorem beatsLatency_eq (hv : (0 : UInt8) ∉ v.provider.id) (hw : (0 : UInt8) ∉ w.provider.id) :
    beatsLatency (v.candidate rq) (w.candidate rq) =
      decide (Oracle.latencyKey (v.oracle rq) < Oracle.latencyKey (w.oracle rq)) := by
  have hhalf (u : TargetView) : (if (u.oracle rq).state = .halfOpen then 1 else 0) =
      halfOpenRank (healthRefresh u.state rq.nowNs).health := by
    simp only [TargetView.oracle, ← healthRefresh_health, halfOpenRank]
  have hknown (u : TargetView) : (if (u.oracle rq).latencyUs = none then 1 else 0) =
      unknownRank u.state.ewma := by
    simp [TargetView.oracle, unknownRank]
  rw [Bool.eq_iff_iff, decide_eq_true_iff]
  simp only [Oracle.latencyKey, Prod.Lex.toLex_lt_toLex, hhalf, hknown]
  simp only [beatsLatency, TargetView.candidate, flatten, UInt64.lt_iff_toNat_lt,
    tieBreak_eq_true, decide_eq_true_eq, healthRefresh_ewma, TargetView.oracle,
    ← routeIdCompare_neg_iff hv hw]
  constructor
  · rintro (h | ⟨h, h' | ⟨hrank, h'⟩⟩)
    · exact Or.inl h
    · exact Or.inr ⟨h, Or.inl h'⟩
    · refine Or.inr ⟨h, Or.inr ⟨hrank, ?_⟩⟩
      rw [(latency_getD_lt_iff hrank).1, (latency_getD_lt_iff hrank).2]
      exact h'
  · rintro (h | ⟨h, h' | ⟨hrank, h'⟩⟩)
    · exact Or.inl h
    · exact Or.inr ⟨h, Or.inl h'⟩
    · refine Or.inr ⟨h, Or.inr ⟨hrank, ?_⟩⟩
      rw [(latency_getD_lt_iff hrank).1, (latency_getD_lt_iff hrank).2] at h'
      exact h'

end Orders

/-- A request over a published snapshot, with a runtime state assigned to every
provider. The bounds are those the configuration loader enforces. -/
structure Scenario where
  rq : RouteRequest
  table : Table
  targets_le : rq.route.targets.length ≤ routingMaxTargets
  concurrency_ne_zero : ∀ p ∈ rq.config.providers, p.maxConcurrency ≠ 0
  nul_free : ∀ p ∈ rq.config.providers, (0 : UInt8) ∉ p.id
  assigned : Assigned rq.config table

namespace Scenario

variable (sc : Scenario)

/-- What the code yields for the request. -/
def candidates (alloc : ℕ → Bool) : List Candidate :=
  (routeCandidates sc.rq alloc sc.table routingMaxTargets).2

/-- What the oracle's filter admits among `cs`. -/
def oracleAdmits (cs : List Oracle.Candidate) : List Oracle.Candidate :=
  Oracle.eligibleCandidates (familyName sc.rq.family) (maskNames sc.rq.caps) cs

/-- The views that pass all six filters. -/
def admittedViews : List TargetView :=
  (targetViewsFrom sc.rq.config sc.table 0 sc.rq.route.targets).filter
    (TargetView.admitted sc.rq)

theorem provider_mem {v : TargetView} (h : v ∈ sc.admittedViews) :
    v.provider ∈ sc.rq.config.providers :=
  (mem_targetViewsFrom (List.mem_of_mem_filter h)).2

theorem candidates_eq (alloc : ℕ → Bool) :
    sc.candidates alloc = sc.admittedViews.map (TargetView.candidate sc.rq) := by
  have hlen : 0 + sc.rq.route.targets.length ≤ routingMaxTargets := by
    simpa using sc.targets_le
  have h : sc.candidates alloc = [] ++ sc.admittedViews.map (TargetView.candidate sc.rq) :=
    candidatesFrom_eq sc.assigned (Refreshed.refl _ sc.table) hlen le_rfl
  exact h

theorem oracleAdmits_eq :
    sc.oracleAdmits (toOracleUnprobed sc.rq sc.table) =
      sc.admittedViews.map (TargetView.oracle sc.rq) := by
  unfold oracleAdmits Oracle.eligibleCandidates toOracleUnprobed admittedViews
  rw [List.filter_map, List.filter_filter]
  congr 1
  apply List.filter_congr
  intro v hv
  have hc := sc.concurrency_ne_zero v.provider (mem_targetViewsFrom hv).2
  rw [admitted_eq sc.rq v hc, Bool.and_comm]
  rfl

theorem admittedViews_pairwise :
    sc.admittedViews.Pairwise fun v w => v.index < w.index :=
  targetViewsFrom_pairwise.filter _

/-- Selecting by comparison is the oracle's minimum, when comparing candidates
is comparing keys. -/
theorem select_eq_minBy {κ : Type} [LinearOrder κ] (key : Oracle.Candidate → κ)
    (beats : Candidate → Candidate → Bool)
    (hbeats : ∀ v ∈ sc.admittedViews, ∀ w ∈ sc.admittedViews,
      beats (v.candidate sc.rq) (w.candidate sc.rq) =
        decide (key (v.oracle sc.rq) < key (w.oracle sc.rq))) :
    (bestAt beats (sc.admittedViews.map (TargetView.candidate sc.rq))).bind
        (fun j => (sc.admittedViews.map (TargetView.oracle sc.rq))[j]?) =
      Oracle.minBy key (sc.admittedViews.map (TargetView.oracle sc.rq)) := by
  have hcode := bestAt_map (TargetView.candidate sc.rq) hbeats
  have horacle : bestAt (fun a b => decide (key a < key b))
      (sc.admittedViews.map (TargetView.oracle sc.rq)) =
        bestAt (fun v w => decide (key (v.oracle sc.rq) < key (w.oracle sc.rq)))
          sc.admittedViews :=
    bestAt_map (TargetView.oracle sc.rq) fun v _ w _ => rfl
  rw [hcode, ← horacle]
  exact bestAt_eq_argmin key _

/-- Sorting by configured index leaves the admitted candidates as they stand. -/
theorem mergeSort_admitted :
    ((sc.admittedViews.map (TargetView.oracle sc.rq)).mergeSort fun a b =>
        decide (Oracle.roundRobinKey a ≤ Oracle.roundRobinKey b)) =
      sc.admittedViews.map (TargetView.oracle sc.rq) := by
  apply List.mergeSort_of_pairwise
  rw [List.pairwise_map]
  apply sc.admittedViews_pairwise.imp
  intro v w hlt
  have hkey : Oracle.roundRobinKey (v.oracle sc.rq) < Oracle.roundRobinKey (w.oracle sc.rq) :=
    Prod.Lex.toLex_lt_toLex.mpr (Or.inl hlt)
  simpa using hkey.le

/-- The code's choice is the oracle's, under every policy. -/
theorem routeSelect_eq (policy : Policy) (cursor : Word) :
    (routeSelect policy (sc.admittedViews.map (TargetView.candidate sc.rq)) cursor).bind
        (fun j => (sc.admittedViews.map (TargetView.oracle sc.rq))[j]?) =
      Oracle.select policy (sc.admittedViews.map (TargetView.oracle sc.rq)) cursor.toNat := by
  have hbyPriority := sc.select_eq_minBy Oracle.priorityKey beatsPriority
    fun v hv w hw => beatsPriority_eq sc.rq (sc.nul_free _ (sc.provider_mem hv))
      (sc.nul_free _ (sc.provider_mem hw))
  have hbyLatency := sc.select_eq_minBy Oracle.latencyKey beatsLatency
    fun v hv w hw => beatsLatency_eq sc.rq (sc.nul_free _ (sc.provider_mem hv))
      (sc.nul_free _ (sc.provider_mem hw))
  have hsort := sc.mergeSort_admitted
  generalize sc.admittedViews = views at hbyPriority hbyLatency hsort
  cases views with
  | nil => cases policy <;> rfl
  | cons v views =>
    cases policy with
    | priority => exact hbyPriority
    | leastLatency => exact hbyLatency
    | roundRobin =>
      have hne : (v :: views).map (TargetView.oracle sc.rq) ≠ [] := by simp
      simp only [Oracle.select, if_neg hne, hsort]
      simp [routeSelect]

end Scenario

/-- A candidate carries the oracle's fields, one for one. -/
structure Mirrors (c : Candidate) (o : Oracle.Candidate) : Prop where
  index : c.index = o.configuredIndex
  priority : c.priority = o.priority
  weight : c.weight.toNat = o.weight
  health : c.health = o.state
  latency : (if c.latency = latencyUnknown then none else some c.latency.toNat) = o.latencyUs
  providerId : c.providerId.map UInt8.toNat = o.providerId

theorem mirrors_view (rq : RouteRequest) (v : TargetView) :
    Mirrors (v.candidate rq) (v.oracle rq) where
  index := rfl
  priority := rfl
  weight := rfl
  health := healthRefresh_health v.state rq.nowNs
  latency := by simp [TargetView.candidate, flatten, TargetView.oracle]
  providerId := rfl

/-- The walk yields exactly what the oracle admits among the targets that are
not probing, field for field, in configured order and with strictly increasing
indices; and the selection is the oracle's under every policy. -/
theorem route_agrees_with_oracle (sc : Scenario) (alloc : ℕ → Bool) (cursor : Word) :
    List.Forall₂ Mirrors (sc.candidates alloc)
        (sc.oracleAdmits (toOracleUnprobed sc.rq sc.table)) ∧
      ((sc.candidates alloc).map Candidate.index).Pairwise (· < ·) ∧
      ∀ policy, (routeSelect policy (sc.candidates alloc) cursor).bind
          (fun j => (sc.oracleAdmits (toOracleUnprobed sc.rq sc.table))[j]?) =
        Oracle.select policy (sc.oracleAdmits (toOracleUnprobed sc.rq sc.table))
          cursor.toNat := by
  rw [sc.candidates_eq, sc.oracleAdmits_eq]
  refine ⟨?_, ?_, fun policy => sc.routeSelect_eq policy cursor⟩
  · rw [List.forall₂_map_left_iff, List.forall₂_map_right_iff]
    exact List.forall₂_same.mpr fun v _ => mirrors_view sc.rq v
  · rw [List.map_map, List.pairwise_map]
    exact sc.admittedViews_pairwise

/-- A provider whose one half-open probe is in flight, below its ceiling. -/
def probingScenario : Scenario where
  rq :=
    { config :=
        { providers :=
            [{ id := [97], adapter := .openaiDual, enabled := true, maxConcurrency := 4
               capabilities := 3, health := { failThr := 1, succThr := 1, cooldownMs := 1000 } }]
          routes := [], limSseEventMax := 1048576 }
      route :=
        { id := [114], enabled := true, endpointFamilies := 3, policy := .priority
          targets := [{ providerIndex := 0, upstreamModel := [109], priority := 0, weight := 1 }]
          fbEnabled := false, fbMaxAttempts := 1, fbRetryable := 0 }
      family := epfChatCompletions, caps := 0, tried := 0, nowNs := 5 }
  table :=
    { providers := [{ ProvState.fresh [97] with health := .halfOpen, active := 1, probes := 1 }]
      routes := [] }
  targets_le := by decide
  concurrency_ne_zero := by decide
  nul_free := by decide
  assigned := by decide

/-- The oracle, which counts no probes, admits the target that the code holds back. -/
theorem route_differs_while_probing :
    ¬ ∀ (sc : Scenario) (alloc : ℕ → Bool),
      (sc.candidates alloc).map Candidate.index =
        (sc.oracleAdmits (toOracle sc.rq sc.table)).map Oracle.Candidate.configuredIndex := by
  intro h
  have hcode : (probingScenario.candidates fun _ => true).map Candidate.index = [] := by decide
  have horacle : (probingScenario.oracleAdmits
      (toOracle probingScenario.rq probingScenario.table)).map
        Oracle.Candidate.configuredIndex = [0] := by decide
  have heq := h probingScenario fun _ => true
  rw [hcode, horacle] at heq
  cases heq

end AsmFlow.Routing
