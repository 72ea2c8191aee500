import AsmFlow.Config.Snapshot

/-!
# Provider health and the circuit breaker

What the runtime knows about a provider that the configuration does not. The
operations are those of `routing_health.asm`, one definition each; a state is
the `PS_*` record without its owned identifier pointer being null.
-/

namespace AsmFlow.Routing

/-- `AF_HEALTH_*`. -/
inductive Health
  | healthy
  | degraded
  | opened
  | halfOpen
  | disabled
  deriving DecidableEq, Repr

/-- `af_prov_state`. -/
structure ProvState where
  id : Bytes
  health : Health
  failures : Word
  successes : Word
  openUntil : Word
  active : Word
  ewma : Word
  backoffMs : Word
  probes : Word
  requests : Word
  failed : Word
  opened : Word
  deriving DecidableEq, Repr

/-- A record zeroed and named, as `af_routing_provider` leaves it. -/
def ProvState.fresh (id : Bytes) : ProvState :=
  { id, health := .healthy, failures := 0, successes := 0, openUntil := 0, active := 0,
    ewma := 0, backoffMs := 0, probes := 0, requests := 0, failed := 0, opened := 0 }

def halfOpenProbes : Word := 1
def healthMaxBackoff : Word := 16
def nsPerMs : Word := 1000000
def ewmaAlphaNum : Word := 1
def ewmaAlphaDen : Word := 4
def latencyUnknown : Word := 0

/-- The one transition time makes on its own. -/
def healthRefresh (s : ProvState) (nowNs : Word) : ProvState :=
  if s.health = .opened ∧ s.openUntil ≤ nowNs then
    { s with health := .halfOpen, probes := 0, successes := 0 }
  else s

def healthAdmit (s : ProvState) : Bool :=
  match s.health with
  | .healthy => true
  | .degraded => true
  | .halfOpen => decide (s.probes < halfOpenProbes)
  | .opened => false
  | .disabled => false

/-- Claims a slot; the flag says whether this attempt is a probe. -/
def healthBegin (s : ProvState) : ProvState × Bool :=
  let s := { s with active := s.active + 1, requests := s.requests + 1 }
  if s.health = .halfOpen then ({ s with probes := s.probes + 1 }, true) else (s, false)

/-- Releases a slot; neither counter is lowered below zero. -/
def healthEnd (s : ProvState) (wasProbe : Bool) : ProvState :=
  let s := if s.active = 0 then s else { s with active := s.active - 1 }
  if wasProbe = true ∧ s.probes ≠ 0 then { s with probes := s.probes - 1 } else s

/-- The moving average, or the clamped observation when nothing was measured
before or one of the three checked operations overflows. -/
def healthEwma (oldUs observedUs : Word) : Word :=
  let observed := if observedUs = 0 then 1 else observedUs
  if oldUs = 0 then observed
  else if Word.imulOverflows observed ewmaAlphaNum then observed
  else if Word.imulOverflows oldUs (ewmaAlphaDen - ewmaAlphaNum) then observed
  else
    let fresh := observed * ewmaAlphaNum
    let kept := oldUs * (ewmaAlphaDen - ewmaAlphaNum)
    if Word.addCarries fresh kept then observed
    else
      let average := (fresh + kept) / ewmaAlphaDen
      if average = 0 then 1 else average

/-- The success threshold in force; zero and a missing provider count as one. -/
def successThreshold (p : Option CfgProvider) : Word :=
  match p with
  | none => 1
  | some p => if p.health.succThr = 0 then 1 else p.health.succThr

/-- The failure threshold in force; zero and a missing provider count as one. -/
def failureThreshold (p : Option CfgProvider) : Word :=
  match p with
  | none => 1
  | some p => if p.health.failThr = 0 then 1 else p.health.failThr

/-- The cooldown in force, in milliseconds. -/
def failureCooldown (p : Option CfgProvider) : Word :=
  match p with
  | none => 1000
  | some p => if p.health.cooldownMs = 0 then 1000 else p.health.cooldownMs

def healthSuccess (s : ProvState) (p : Option CfgProvider) (latencyUs : Word) : ProvState :=
  let s := { s with
    failures := 0, successes := s.successes + 1, ewma := healthEwma s.ewma latencyUs }
  match s.health with
  | .healthy => s
  | .disabled => s
  | .opened => s
  | .degraded | .halfOpen =>
      if s.successes < successThreshold p then s
      else { s with health := .healthy, backoffMs := 0, successes := 0 }

/-- The cooldown after a failed probe: doubled, and capped at a multiple of the
configured one. Both the doubling and the cap fall back to the wrapped cap. -/
def probeBackoff (backoffMs cooldownMs : Word) : Word :=
  let base := if backoffMs = 0 then cooldownMs else backoffMs
  let cap := cooldownMs * healthMaxBackoff
  if Word.addCarries base base then cap
  else if Word.imulOverflows cooldownMs healthMaxBackoff then cap
  else if base + base ≤ cap then base + base
  else cap

/-- The `.open_it` tail of `af_health_failure`. -/
def openCircuit (s : ProvState) (nowNs : Word) : ProvState :=
  { s with
    health := .opened, probes := 0, opened := s.opened + 1
    openUntil := s.backoffMs * nsPerMs + nowNs }

def healthFailure (s : ProvState) (p : Option CfgProvider) (nowNs : Word) : ProvState :=
  let s := { s with
    successes := 0, failures := s.failures + 1, failed := s.failed + 1 }
  if s.health = .disabled then s
  else if s.health = .halfOpen then
    openCircuit { s with backoffMs := probeBackoff s.backoffMs (failureCooldown p) } nowNs
  else if failureThreshold p ≤ s.failures then
    openCircuit { s with backoffMs := failureCooldown p } nowNs
  else { s with health := .degraded }

/-- The failures that open the circuit: a failed probe, and a failure that
brings an enabled provider to its threshold. -/
def FailureTrips (s : ProvState) (p : Option CfgProvider) : Prop :=
  s.health = .halfOpen ∨ (s.health ≠ .disabled ∧ failureThreshold p ≤ s.failures + 1)

instance (s : ProvState) (p : Option CfgProvider) : Decidable (FailureTrips s p) :=
  inferInstanceAs (Decidable (_ ∨ _))

theorem healthRefresh_cases (s : ProvState) (nowNs : Word) :
    healthRefresh s nowNs = s ∨
      (s.health = .opened ∧ s.openUntil ≤ nowNs ∧
        healthRefresh s nowNs = { s with health := .halfOpen, probes := 0, successes := 0 }) := by
  unfold healthRefresh
  split_ifs with h
  · exact Or.inr ⟨h.1, h.2, rfl⟩
  · exact Or.inl rfl

theorem healthSuccess_of_opened {s : ProvState} (h : s.health = .opened)
    (p : Option CfgProvider) (latencyUs : Word) : (healthSuccess s p latencyUs).health = .opened := by
  simp [healthSuccess, h]

theorem healthSuccess_health_opened {s : ProvState} {p : Option CfgProvider} {latencyUs : Word}
    (h : (healthSuccess s p latencyUs).health = .opened) : s.health = .opened := by
  unfold healthSuccess at h
  dsimp only at h
  cases hs : s.health with
  | healthy => simp [hs] at h
  | opened => rfl
  | disabled => simp [hs] at h
  | degraded => simp only [hs] at h; split_ifs at h
  | halfOpen => simp only [hs] at h; split_ifs at h

/-- Everything a failure can do to the fields the circuit is judged by. -/
theorem healthFailure_cases (s : ProvState) (p : Option CfgProvider) (nowNs : Word) :
    (FailureTrips s p ∧ (healthFailure s p nowNs).health = .opened ∧
        (healthFailure s p nowNs).probes = 0) ∨
      (¬ FailureTrips s p ∧ s.health = .disabled ∧
        (healthFailure s p nowNs).health = .disabled ∧
        (healthFailure s p nowNs).probes = s.probes) ∨
      (¬ FailureTrips s p ∧ s.health ≠ .disabled ∧ s.health ≠ .halfOpen ∧
        (healthFailure s p nowNs).health = .degraded ∧
        (healthFailure s p nowNs).probes = s.probes) := by
  by_cases hd : s.health = .disabled
  · refine Or.inr (Or.inl ⟨?_, hd, ?_, ?_⟩)
    · simp [FailureTrips, hd]
    · simp [healthFailure, hd]
    · simp [healthFailure, hd]
  · by_cases hh : s.health = .halfOpen
    · refine Or.inl ⟨Or.inl hh, ?_, ?_⟩
      · simp [healthFailure, hh, openCircuit]
      · simp [healthFailure, hh, openCircuit]
    · by_cases ht : failureThreshold p ≤ s.failures + 1
      · refine Or.inl ⟨Or.inr ⟨hd, ht⟩, ?_, ?_⟩
        · simp [healthFailure, hd, hh, ht, openCircuit]
        · simp [healthFailure, hd, hh, ht, openCircuit]
      · refine Or.inr (Or.inr ⟨?_, hd, hh, ?_, ?_⟩)
        · simp [FailureTrips, hh, ht]
        · simp [healthFailure, hd, hh, ht]
        · simp [healthFailure, hd, hh, ht]

theorem healthFailure_health_opened_iff (s : ProvState) (p : Option CfgProvider) (nowNs : Word) :
    (healthFailure s p nowNs).health = .opened ↔ FailureTrips s p := by
  rcases healthFailure_cases s p nowNs with ⟨ht, hh, -⟩ | ⟨ht, -, hh, -⟩ | ⟨ht, -, -, hh, -⟩
  all_goals simp [hh, ht]

theorem healthFailure_probes (s : ProvState) (p : Option CfgProvider) (nowNs : Word) :
    (healthFailure s p nowNs).probes = if FailureTrips s p then 0 else s.probes := by
  rcases healthFailure_cases s p nowNs with ⟨ht, -, hp⟩ | ⟨ht, -, -, hp⟩ | ⟨ht, -, -, -, hp⟩
  all_goals simp [hp, ht]

section Frames

variable (s : ProvState) (p : Option CfgProvider) (nowNs latencyUs : Word) (wasProbe : Bool)

@[simp] theorem healthBegin_health : (healthBegin s).1.health = s.health := by
  unfold healthBegin
  dsimp only
  split_ifs <;> rfl

@[simp] theorem healthEnd_health : (healthEnd s wasProbe).health = s.health := by
  unfold healthEnd
  dsimp only
  split_ifs <;> rfl

@[simp] theorem healthSuccess_probes : (healthSuccess s p latencyUs).probes = s.probes := by
  unfold healthSuccess
  dsimp only
  split <;> (try split_ifs) <;> rfl

theorem healthBegin_flag : (healthBegin s).2 = decide (s.health = .halfOpen) := by
  unfold healthBegin
  dsimp only
  split_ifs with h <;> simp [h]

theorem healthBegin_probes :
    (healthBegin s).1.probes = if s.health = .halfOpen then s.probes + 1 else s.probes := by
  unfold healthBegin
  dsimp only
  split_ifs <;> rfl

@[simp] theorem healthBegin_active : (healthBegin s).1.active = s.active + 1 := by
  unfold healthBegin
  dsimp only
  split_ifs <;> rfl

@[simp] theorem healthRefresh_active : (healthRefresh s nowNs).active = s.active := by
  unfold healthRefresh
  split_ifs <;> rfl

@[simp] theorem healthSuccess_active : (healthSuccess s p latencyUs).active = s.active := by
  unfold healthSuccess
  dsimp only
  split <;> (try split_ifs) <;> rfl

@[simp] theorem healthFailure_active : (healthFailure s p nowNs).active = s.active := by
  unfold healthFailure openCircuit
  dsimp only
  split_ifs <;> rfl

theorem healthEnd_active :
    (healthEnd s wasProbe).active = if s.active = 0 then 0 else s.active - 1 := by
  unfold healthEnd
  dsimp only
  split_ifs <;> simp_all

theorem healthEnd_probes :
    (healthEnd s wasProbe).probes =
      if wasProbe = true ∧ s.probes ≠ 0 then s.probes - 1 else s.probes := by
  unfold healthEnd
  dsimp only
  by_cases ha : s.active = 0
  · simp only [ha, if_true]
    split_ifs <;> rfl
  · simp only [ha, if_false]
    split_ifs <;> rfl

@[simp] theorem healthRefresh_id : (healthRefresh s nowNs).id = s.id := by
  unfold healthRefresh
  split_ifs <;> rfl

@[simp] theorem healthBegin_id : (healthBegin s).1.id = s.id := by
  unfold healthBegin
  dsimp only
  split_ifs <;> rfl

@[simp] theorem healthEnd_id : (healthEnd s wasProbe).id = s.id := by
  unfold healthEnd
  dsimp only
  split_ifs <;> rfl

@[simp] theorem healthSuccess_id : (healthSuccess s p latencyUs).id = s.id := by
  unfold healthSuccess
  dsimp only
  split <;> (try split_ifs) <;> rfl

@[simp] theorem healthFailure_id : (healthFailure s p nowNs).id = s.id := by
  unfold healthFailure openCircuit
  dsimp only
  split_ifs <;> rfl

end Frames
end AsmFlow.Routing
