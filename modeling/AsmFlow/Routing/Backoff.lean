import AsmFlow.Routing.Circuit

/-!
# The back-off of the circuit breaker

A failed probe doubles the cooldown and every other failure that reaches the
threshold restarts it from the configured one. The second kind is meant for a
circuit that was closed; the verdict of an attempt that outlived the opening of
the circuit reaches it as well, and then shortens a window already in force.
-/

namespace AsmFlow.Routing

open Library

variable {p : CfgProvider} {s : ProvState} {call : HealthCall} {calls : List HealthCall}

/-- A cooldown the configuration accepts. -/
def ValidatedCooldown (p : CfgProvider) : Prop :=
  1000 ≤ p.health.cooldownMs.toNat ∧ p.health.cooldownMs.toNat ≤ 3600000

instance (p : CfgProvider) : Decidable (ValidatedCooldown p) :=
  inferInstanceAs (Decidable (_ ∧ _))

/-- The call that makes the provider healthy again. -/
def Closes (p : CfgProvider) (s : ProvState) (call : HealthCall) : Prop :=
  s.health ≠ .healthy ∧ (callStep (some p) s call).health = .healthy

/-- The deadline a failure sets is not reduced modulo the word size. -/
def DeadlineFits (p : CfgProvider) (s : ProvState) (call : HealthCall) : Prop :=
  ∀ nowNs, call = .failure nowNs → FailureTrips s (some p) →
    (callStep (some p) s call).backoffMs.toNat * 1000000 + nowNs.toNat < 2 ^ 64

/-- Back-off and deadline of one state against those of a later one. -/
def NoSooner (s t : ProvState) : Prop := s.backoffMs ≤ t.backoffMs ∧ s.openUntil ≤ t.openUntil

/-- The discipline of a run: the back-off is capped, no deadline wraps, and over any stretch
in which the provider does not become healthy neither back-off nor deadline is lowered. -/
def BackoffMonotone (p : CfgProvider) (s : ProvState) (calls : List HealthCall) : Prop :=
  Throughout (callStep (some p))
      (fun t => t.backoffMs.toNat ≤ 16 * p.health.cooldownMs.toNat) s calls ∧
    Along (callStep (some p)) (DeadlineFits p) s calls ∧
    ∀ pre mid post, calls = pre ++ (mid ++ post) →
      Along (callStep (some p)) (fun t c => ¬ Closes p t c) (run (callStep (some p)) s pre) mid →
      NoSooner (run (callStep (some p)) s pre) (run (callStep (some p)) s (pre ++ mid))

/-- A failure that trips the circuit finds the clock far enough from the wrap for the next
window and, unless it is the probe's, nothing in force beyond one configured cooldown. -/
def TripsInTime (p : CfgProvider) (s : ProvState) (call : HealthCall) : Prop :=
  ∀ nowNs, call = .failure nowNs → FailureTrips s (some p) →
    if s.health = .halfOpen then
      min (2 * s.backoffMs.toNat) (16 * p.health.cooldownMs.toNat) * 1000000 + nowNs.toNat < 2 ^ 64
    else
      p.health.cooldownMs.toNat * 1000000 + nowNs.toNat < 2 ^ 64 ∧
        s.backoffMs ≤ p.health.cooldownMs ∧
        s.openUntil.toNat ≤ p.health.cooldownMs.toNat * 1000000 + nowNs.toNat

/-- The invariant of a provider's record: an open window is at least the configured one and
at most sixteen times as long. -/
structure Paced (p : CfgProvider) (s : ProvState) : Prop where
  enabled : s.health ≠ .disabled
  capped : s.backoffMs.toNat ≤ 16 * p.health.cooldownMs.toNat
  opened : s.health = .opened → p.health.cooldownMs ≤ s.backoffMs
  halfOpen : s.health = .halfOpen → p.health.cooldownMs ≤ s.backoffMs

/-- The window a half-open circuit leaves behind ended before everything still to come. -/
def Elapsed (s : ProvState) (calls : List HealthCall) : Prop :=
  s.health = .halfOpen → ∀ reading ∈ clockReadings calls, s.openUntil ≤ reading

theorem paced_fresh (p : CfgProvider) (id : Bytes) : Paced p (.fresh id) where
  enabled := by simp [ProvState.fresh]
  capped := by simp [ProvState.fresh]
  opened := by simp [ProvState.fresh]
  halfOpen := by simp [ProvState.fresh]

theorem elapsed_fresh (id : Bytes) (calls : List HealthCall) : Elapsed (.fresh id) calls := by
  simp [Elapsed, ProvState.fresh]

theorem failureCooldown_validated (hp : ValidatedCooldown p) :
    failureCooldown (some p) = p.health.cooldownMs := by
  have hne : p.health.cooldownMs ≠ 0 := by
    intro h
    have := hp.1
    simp [h] at this
  simp [failureCooldown, hne]

theorem toInt_toInt64_of_lt {a : Word} (h : a.toNat < 2 ^ 63) : a.toInt64.toInt = a.toNat := by
  have htwice : 2 * a.toBitVec.toNat < 2 ^ 64 := by
    rw [UInt64.toNat_toBitVec]
    omega
  change a.toBitVec.toInt = a.toNat
  rw [BitVec.toInt_eq_toNat_of_lt htwice, UInt64.toNat_toBitVec]

/-- Sixteen validated cooldowns are far from the word size. -/
theorem toNat_mul_healthMaxBackoff (hp : ValidatedCooldown p) :
    (p.health.cooldownMs * healthMaxBackoff).toNat = 16 * p.health.cooldownMs.toNat := by
  have hfit : p.health.cooldownMs.toNat * 16 < 2 ^ 64 := by
    have := hp.2
    omega
  rw [UInt64.toNat_mul, show healthMaxBackoff.toNat = 16 from rfl, Nat.mod_eq_of_lt hfit,
    Nat.mul_comm]

theorem imulOverflows_healthMaxBackoff (hp : ValidatedCooldown p) :
    Word.imulOverflows p.health.cooldownMs healthMaxBackoff = false := by
  have hsmall := hp.2
  have hc := toInt_toInt64_of_lt (show p.health.cooldownMs.toNat < 2 ^ 63 by omega)
  have hm : healthMaxBackoff.toInt64.toInt = 16 := by decide
  simp only [Word.imulOverflows, hc, hm, decide_eq_false_iff_not, not_or, not_lt, not_le]
  omega

/-- A failed probe doubles the back-off up to the cap. -/
theorem toNat_probeBackoff (hp : ValidatedCooldown p) {b : Word}
    (hlow : p.health.cooldownMs ≤ b) (hcap : b.toNat ≤ 16 * p.health.cooldownMs.toNat) :
    (probeBackoff b p.health.cooldownMs).toNat =
      min (2 * b.toNat) (16 * p.health.cooldownMs.toNat) := by
  have hle : p.health.cooldownMs.toNat ≤ b.toNat := UInt64.le_iff_toNat_le.mp hlow
  have hsmall := hp.2
  have hlarge := hp.1
  have hne : b ≠ 0 := by
    rintro rfl
    simp at hle
    omega
  have hcarry : Word.addCarries b b = false := by
    simp only [Word.addCarries, decide_eq_false_iff_not, not_le]
    omega
  have hsum : (b + b).toNat = 2 * b.toNat := by
    rw [UInt64.toNat_add, Nat.mod_eq_of_lt (by omega)]
    omega
  have hmax := toNat_mul_healthMaxBackoff hp
  simp only [probeBackoff, hne, if_false, hcarry, imulOverflows_healthMaxBackoff hp,
    Bool.false_eq_true, UInt64.le_iff_toNat_le, hsum, hmax]
  split_ifs with h
  · rw [hsum, min_eq_left h]
  · rw [hmax, min_eq_right (by omega)]

section Steps

/-- What a failure does to the two fields, by the three ways through the code. -/
theorem healthFailure_window (p : CfgProvider) (s : ProvState) (nowNs : Word) :
    (s.health = .halfOpen ∧
        (healthFailure s (some p) nowNs).health = .opened ∧
        (healthFailure s (some p) nowNs).backoffMs =
          probeBackoff s.backoffMs (failureCooldown (some p)) ∧
        (healthFailure s (some p) nowNs).openUntil =
          probeBackoff s.backoffMs (failureCooldown (some p)) * nsPerMs + nowNs) ∨
      (FailureTrips s (some p) ∧ s.health ≠ .halfOpen ∧
        (healthFailure s (some p) nowNs).health = .opened ∧
        (healthFailure s (some p) nowNs).backoffMs = failureCooldown (some p) ∧
        (healthFailure s (some p) nowNs).openUntil =
          failureCooldown (some p) * nsPerMs + nowNs) ∨
      (¬ FailureTrips s (some p) ∧
        (healthFailure s (some p) nowNs).backoffMs = s.backoffMs ∧
        (healthFailure s (some p) nowNs).openUntil = s.openUntil ∧
        ((healthFailure s (some p) nowNs).health = .degraded ∨
          s.health = .disabled ∧ (healthFailure s (some p) nowNs).health = .disabled)) := by
  by_cases hd : s.health = .disabled
  · simp [healthFailure, FailureTrips, hd]
  · by_cases hh : s.health = .halfOpen
    · simp [healthFailure, openCircuit, hh]
    · by_cases ht : failureThreshold (some p) ≤ s.failures + 1
      · simp [healthFailure, openCircuit, FailureTrips, hd, hh, ht]
      · simp [healthFailure, FailureTrips, hd, hh, ht]

/-- A call other than a failure leaves the deadline alone, and the back-off too unless it
closes the circuit. -/
theorem callStep_window (p : CfgProvider) (s : ProvState) (call : HealthCall)
    (h : ∀ nowNs, call ≠ .failure nowNs) :
    (callStep (some p) s call).openUntil = s.openUntil ∧
      ((callStep (some p) s call).backoffMs = s.backoffMs ∨
        Closes p s call ∧ (callStep (some p) s call).backoffMs = 0) := by
  cases call with
  | refresh nowNs =>
    rcases healthRefresh_cases s nowNs with hr | ⟨-, -, hr⟩
    · simp [callStep, hr]
    · simp [callStep, hr]
  | askAdmit => simp [callStep]
  | beginAttempt =>
    simp only [callStep, healthBegin]
    split_ifs <;> simp
  | endAttempt wasProbe =>
    simp only [callStep, healthEnd]
    split_ifs <;> simp
  | success latencyUs =>
    unfold Closes callStep healthSuccess
    cases s.health with
    | healthy => simp
    | opened => simp
    | disabled => simp
    | degraded =>
      dsimp only
      split_ifs <;> simp
    | halfOpen =>
      dsimp only
      split_ifs <;> simp
  | failure nowNs => exact absurd rfl (h nowNs)

/-- Only a refresh at or after the deadline makes a circuit half-open. -/
theorem callStep_health (p : CfgProvider) (s : ProvState) (call : HealthCall)
    (h : ∀ nowNs, call ≠ .failure nowNs) :
    (callStep (some p) s call).health = s.health ∨
      (s.health = .opened ∧ (callStep (some p) s call).health = .halfOpen ∧
        ∃ nowNs, call = .refresh nowNs ∧ s.openUntil ≤ nowNs) ∨
      (callStep (some p) s call).health = .healthy := by
  cases call with
  | refresh nowNs =>
    rcases healthRefresh_cases s nowNs with hr | ⟨hopen, hle, hr⟩
    · exact Or.inl (by simp [callStep, hr])
    · exact Or.inr (Or.inl ⟨hopen, by simp [callStep, hr], nowNs, rfl, hle⟩)
  | askAdmit => exact Or.inl rfl
  | beginAttempt => exact Or.inl (healthBegin_health s)
  | endAttempt wasProbe => exact Or.inl (healthEnd_health s wasProbe)
  | success latencyUs =>
    simp only [callStep, healthSuccess]
    cases s.health with
    | healthy => simp
    | opened => simp
    | disabled => simp
    | degraded =>
      dsimp only
      split_ifs <;> simp
    | halfOpen =>
      dsimp only
      split_ifs <;> simp
  | failure nowNs => exact absurd rfl (h nowNs)

theorem paced_failure (hp : ValidatedCooldown p) (h : Paced p s) (nowNs : Word) :
    Paced p (healthFailure s (some p) nowNs) := by
  have hbase := failureCooldown_validated hp
  rcases healthFailure_window p s nowNs with ⟨hhalf, hopen, hback, -⟩ |
    ⟨-, -, hopen, hback, -⟩ | ⟨-, hback, -, hhealth⟩
  · have hlow := h.halfOpen hhalf
    have hnat : (healthFailure s (some p) nowNs).backoffMs.toNat =
        min (2 * s.backoffMs.toNat) (16 * p.health.cooldownMs.toNat) := by
      rw [hback, hbase]
      exact toNat_probeBackoff hp hlow h.capped
    have hraised : p.health.cooldownMs ≤ (healthFailure s (some p) nowNs).backoffMs := by
      have hle := UInt64.le_iff_toNat_le.mp hlow
      rw [UInt64.le_iff_toNat_le, hnat]
      omega
    exact ⟨by simp [hopen], by omega, fun _ => hraised, fun _ => hraised⟩
  · rw [hbase] at hback
    exact ⟨by simp [hopen], by rw [hback]; omega, fun _ => hback ▸ UInt64.le_refl _,
      fun _ => hback ▸ UInt64.le_refl _⟩
  · rcases hhealth with hdeg | ⟨hdis, -⟩
    · exact ⟨by simp [hdeg], by rw [hback]; exact h.capped, by simp [hdeg], by simp [hdeg]⟩
    · exact absurd hdis h.enabled

/-- Every call keeps the invariant. -/
theorem paced_callStep (hp : ValidatedCooldown p) (h : Paced p s) (call : HealthCall) :
    Paced p (callStep (some p) s call) := by
  by_cases hfail : ∃ nowNs, call = .failure nowNs
  · obtain ⟨nowNs, rfl⟩ := hfail
    exact paced_failure hp h nowNs
  · have hother : ∀ nowNs, call ≠ .failure nowNs := fun nowNs heq => hfail ⟨nowNs, heq⟩
    have hcap : (callStep (some p) s call).backoffMs.toNat ≤ 16 * p.health.cooldownMs.toNat := by
      rcases (callStep_window p s call hother).2 with hsame | ⟨-, hzero⟩
      · rw [hsame]
        exact h.capped
      · simp [hzero]
    have hkept (hne : (callStep (some p) s call).health ≠ .healthy) :
        (callStep (some p) s call).backoffMs = s.backoffMs := by
      rcases (callStep_window p s call hother).2 with hsame | ⟨hcloses, -⟩
      · exact hsame
      · exact absurd hcloses.2 hne
    rcases callStep_health p s call hother with hsame | ⟨hopen, hhalf, -⟩ | hhealthy
    · refine ⟨by rw [hsame]; exact h.enabled, hcap, fun ho => ?_, fun hh => ?_⟩
      · rw [hkept (by simp [ho])]
        exact h.opened (hsame ▸ ho)
      · rw [hkept (by simp [hh])]
        exact h.halfOpen (hsame ▸ hh)
    · refine ⟨by simp [hhalf], hcap, by simp [hhalf], fun _ => ?_⟩
      rw [hkept (by simp [hhalf])]
      exact h.opened hopen
    · exact ⟨by simp [hhealthy], hcap, by simp [hhealthy], by simp [hhealthy]⟩

theorem clockReadings_suffix_cons (call : HealthCall) (calls : List HealthCall) :
    clockReadings calls <:+ clockReadings (call :: calls) := by
  cases call <;> simp [clockReadings]

/-- On a clock that never runs backwards an ended window stays ended. -/
theorem elapsed_callStep (h : Elapsed s (call :: calls))
    (hclock : (clockReadings (call :: calls)).Pairwise (· ≤ ·)) :
    Elapsed (callStep (some p) s call) calls := by
  intro hhalf reading hreading
  have hlater := (clockReadings_suffix_cons call calls).subset hreading
  by_cases hfail : ∃ nowNs, call = .failure nowNs
  · obtain ⟨nowNs, rfl⟩ := hfail
    change (healthFailure s (some p) nowNs).health = .halfOpen at hhalf
    rcases healthFailure_window p s nowNs with ⟨-, hopen, -⟩ | ⟨-, -, hopen, -⟩ | ⟨-, -, -, hd⟩
    · simp [hopen] at hhalf
    · simp [hopen] at hhalf
    · rcases hd with hd | ⟨-, hd⟩ <;> simp [hd] at hhalf
  · have hother : ∀ nowNs, call ≠ .failure nowNs := fun nowNs heq => hfail ⟨nowNs, heq⟩
    rw [(callStep_window p s call hother).1]
    rcases callStep_health p s call hother with hsame | ⟨-, -, nowNs, rfl, hle⟩ | hhealthy
    · exact h (hsame ▸ hhalf) reading hlater
    · exact UInt64.le_trans hle ((List.pairwise_cons.mp hclock).1 reading hreading)
    · simp [hhealthy] at hhalf

/-- What the discipline asks of one call. -/
def BacksOff (p : CfgProvider) (s : ProvState) (call : HealthCall) : Prop :=
  DeadlineFits p s call ∧ (¬ Closes p s call → NoSooner s (callStep (some p) s call))

theorem toNat_deadline {b now : Word} (h : b.toNat * 1000000 + now.toNat < 2 ^ 64) :
    (b * nsPerMs + now).toNat = b.toNat * 1000000 + now.toNat := by
  have hmul : (b * nsPerMs).toNat = b.toNat * 1000000 := by
    rw [UInt64.toNat_mul]
    exact Nat.mod_eq_of_lt (lt_of_le_of_lt (Nat.le_add_right _ _) h)
  rw [UInt64.toNat_add, hmul, Nat.mod_eq_of_lt h]

/-- One failure backs off exactly if it trips the circuit in time. -/
theorem backsOff_failure_iff (hp : ValidatedCooldown p) (h : Paced p s) {nowNs : Word}
    (hended : s.health = .halfOpen → s.openUntil ≤ nowNs) :
    BacksOff p s (.failure nowNs) ↔ TripsInTime p s (.failure nowNs) := by
  have hbase := failureCooldown_validated hp
  rcases healthFailure_window p s nowNs with ⟨hhalf, hopen, hback, huntil⟩ |
    ⟨htrips, hhalf, hopen, hback, huntil⟩ | ⟨hquiet, hback, huntil, -⟩
  · have hlow := UInt64.le_iff_toNat_le.mp (h.halfOpen hhalf)
    have hcap := h.capped
    have hnat := toNat_probeBackoff hp (h.halfOpen hhalf) hcap
    rw [hbase] at hback huntil
    have htrips : FailureTrips s (some p) := Or.inl hhalf
    simp only [BacksOff, DeadlineFits, Closes, NoSooner, TripsInTime, callStep, hback, huntil,
      hopen, hhalf, htrips, hnat, HealthCall.failure.injEq, forall_eq', forall_const, if_true]
    constructor
    · exact fun hall => hall.1
    · intro hfits
      refine ⟨hfits, fun _ => ⟨?_, ?_⟩⟩
      · rw [UInt64.le_iff_toNat_le, hnat]
        omega
      · have := UInt64.le_iff_toNat_le.mp (hended hhalf)
        rw [UInt64.le_iff_toNat_le, toNat_deadline (by rw [hnat]; exact hfits)]
        omega
  · rw [hbase] at hback huntil
    simp only [BacksOff, DeadlineFits, Closes, NoSooner, TripsInTime, callStep, hback, huntil,
      hopen, hhalf, htrips, HealthCall.failure.injEq, forall_eq', forall_const, if_false]
    constructor
    · rintro ⟨hfits, hlater⟩
      obtain ⟨hlow, hdeadline⟩ := hlater (by simp)
      rw [UInt64.le_iff_toNat_le, toNat_deadline hfits] at hdeadline
      exact ⟨hfits, hlow, hdeadline⟩
    · rintro ⟨hfits, hlow, hdeadline⟩
      refine ⟨hfits, fun _ => ⟨hlow, ?_⟩⟩
      rw [UInt64.le_iff_toNat_le, toNat_deadline hfits]
      exact hdeadline
  · simp [BacksOff, DeadlineFits, NoSooner, TripsInTime, callStep, hback, huntil, hquiet]

/-- A call other than a failure always backs off. -/
theorem backsOff_other (h : ∀ nowNs, call ≠ .failure nowNs) : BacksOff p s call := by
  obtain ⟨huntil, hback⟩ := callStep_window p s call h
  refine ⟨fun nowNs heq => absurd heq (h nowNs), fun hstays => ?_⟩
  rcases hback with hsame | ⟨hcloses, -⟩
  · rw [NoSooner, hsame, huntil]
    exact ⟨UInt64.le_refl _, UInt64.le_refl _⟩
  · exact absurd hcloses hstays

theorem backsOff_iff_tripsInTime (hp : ValidatedCooldown p) (h : Paced p s)
    (hended : Elapsed s (call :: calls)) : BacksOff p s call ↔ TripsInTime p s call := by
  by_cases hfail : ∃ nowNs, call = .failure nowNs
  · obtain ⟨nowNs, rfl⟩ := hfail
    exact backsOff_failure_iff hp h fun hhalf => hended hhalf nowNs (by simp [clockReadings])
  · have hother : ∀ nowNs, call ≠ .failure nowNs := fun nowNs heq => hfail ⟨nowNs, heq⟩
    exact iff_of_true (backsOff_other hother) fun nowNs heq => absurd heq (hother nowNs)

end Steps

section Runs

theorem noSooner_refl (s : ProvState) : NoSooner s s :=
  ⟨UInt64.le_refl _, UInt64.le_refl _⟩

theorem NoSooner.trans {s t u : ProvState} (h : NoSooner s t) (h' : NoSooner t u) :
    NoSooner s u :=
  ⟨UInt64.le_trans h.1 h'.1, UInt64.le_trans h.2 h'.2⟩

/-- Calls that each back off do so together, over a stretch without a closing. -/
theorem noSooner_run (hback : Along (callStep (some p)) (BacksOff p) s calls)
    (hstays : Along (callStep (some p)) (fun t c => ¬ Closes p t c) s calls) :
    NoSooner s (run (callStep (some p)) s calls) := by
  induction calls generalizing s with
  | nil => exact noSooner_refl s
  | cons call calls ih =>
    have hfirst := hback.1.2 hstays.1
    exact hfirst.trans (ih hback.2 hstays.2)

/-- The discipline of a run is that of its calls. -/
theorem backoffMonotone_iff_along (hp : ValidatedCooldown p) (h : Paced p s) :
    BackoffMonotone p s calls ↔ Along (callStep (some p)) (BacksOff p) s calls := by
  constructor
  · rintro ⟨-, hfits, hmono⟩
    rw [along_iff_forall_split] at hfits ⊢
    intro pre call post heq
    refine ⟨hfits pre call post heq, fun hstays => ?_⟩
    have hone := hmono pre [call] post heq ⟨hstays, trivial⟩
    simpa [run_append] using hone
  · intro hback
    refine ⟨?_, hback.mono fun t c ht => ht.1, ?_⟩
    · have hpaced : Throughout (callStep (some p)) (Paced p) s calls :=
        throughout_of_invariant calls (fun t c ht => paced_callStep hp ht c) h
      exact hpaced.mono fun t ht => ht.capped
    · rintro pre mid post rfl hstays
      have hmid := ((along_append _ mid post).mp ((along_append _ _ _).mp hback).2).1
      rw [run_append]
      exact noSooner_run hmid hstays

theorem along_backsOff_iff (hp : ValidatedCooldown p) (h : Paced p s) (hended : Elapsed s calls)
    (hclock : (clockReadings calls).Pairwise (· ≤ ·)) :
    Along (callStep (some p)) (BacksOff p) s calls ↔
      Along (callStep (some p)) (TripsInTime p) s calls := by
  induction calls generalizing s with
  | nil => simp
  | cons call calls ih =>
    have hlater : (clockReadings calls).Pairwise (· ≤ ·) :=
      hclock.sublist (clockReadings_suffix_cons call calls).sublist
    have hnext := ih (paced_callStep hp h call) (elapsed_callStep hended hclock) hlater
    simp only [along_cons, backsOff_iff_tripsInTime hp h hended, hnext]

end Runs

/-- **Back-off and deadline of a provider are monotone between two closings exactly in the runs
whose circuit trips in time.** -/
theorem backoffMonotone_iff_tripsInTime (hp : ValidatedCooldown p) (id : Bytes)
    (hclock : (clockReadings calls).Pairwise (· ≤ ·)) :
    BackoffMonotone p (.fresh id) calls ↔
      Along (callStep (some p)) (TripsInTime p) (.fresh id) calls := by
  rw [backoffMonotone_iff_along hp (paced_fresh p id)]
  exact along_backsOff_iff hp (paced_fresh p id) (elapsed_fresh id calls) hclock

/-- A circuit that opens and whose probe fails one cooldown later. -/
theorem backoffMonotone_failed_probe :
    BackoffMonotone
      { id := [97], adapter := .openaiDual, enabled := true, maxConcurrency := 4
        capabilities := 3, health := { failThr := 1, succThr := 1, cooldownMs := 1000 } }
      (.fresh [97]) [.failure 0, .refresh 1000000000, .failure 1000000000] := by
  refine (backoffMonotone_iff_tripsInTime (by decide) [97] (by decide)).mpr ?_
  refine ⟨?_, ?_, ?_, trivial⟩
  · rintro nowNs hcall -
    cases hcall
    decide
  · rintro nowNs hcall
    cases hcall
  · rintro nowNs hcall -
    cases hcall
    decide

/-- Three attempts are out when the first failure opens the circuit. The probe after the cooldown
fails and doubles the window; the verdict of an attempt from before then halves it. -/
theorem backoffMonotone_fails_after_late_failure :
    ¬ ∀ (p : CfgProvider) (id : Bytes) (calls : List HealthCall), ValidatedCooldown p →
      (clockReadings calls).Pairwise (· ≤ ·) → BackoffMonotone p (.fresh id) calls := by
  intro h
  let p : CfgProvider :=
    { id := [97], adapter := .openaiDual, enabled := true, maxConcurrency := 4
      capabilities := 3, health := { failThr := 1, succThr := 1, cooldownMs := 1000 } }
  let probed : List HealthCall :=
    [.askAdmit, .beginAttempt, .askAdmit, .beginAttempt, .askAdmit, .beginAttempt,
      .endAttempt false, .failure 0, .refresh 1000000000, .askAdmit, .beginAttempt,
      .endAttempt true, .failure 1000000000]
  let late : List HealthCall := [.endAttempt false, .failure 1000000000]
  have hmono := (h p [97] (probed ++ (late ++ [])) (by decide) (by decide)).2.2 probed late [] rfl
  have hstays : Along (callStep (some p)) (fun t c => ¬ Closes p t c)
      (run (callStep (some p)) (.fresh [97]) probed) late := by
    refine ⟨?_, ?_, trivial⟩
    · rintro ⟨-, hclosed⟩
      exact absurd hclosed (by decide)
    · rintro ⟨-, hclosed⟩
      exact absurd hclosed (by decide)
  exact absurd (hmono hstays).1 (by decide)

end AsmFlow.Routing
