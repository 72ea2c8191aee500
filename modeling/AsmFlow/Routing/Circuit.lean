import AsmFlow.Library.Runs
import AsmFlow.Routing.Health

/-!
# The open window of the circuit breaker

Runs of one provider state under arbitrary interleavings of the six health
calls, late verdicts of older attempts included. The intended discipline is
that an open circuit is left by time alone. The code keeps it except for one
call: a failure that finds the circuit open but its failure counter, which a
late success has reset, below the threshold again.
-/

namespace AsmFlow.Routing

open Library

/-- One call on a provider's state, with its arguments. -/
inductive HealthCall
  | refresh (nowNs : Word)
  | askAdmit
  | beginAttempt
  | endAttempt (wasProbe : Bool)
  | success (latencyUs : Word)
  | failure (nowNs : Word)
  deriving DecidableEq, Repr

/-- The monotonic readings the calls of a run were made at. -/
def clockReadings : List HealthCall → List Word
  | [] => []
  | .refresh nowNs :: calls => nowNs :: clockReadings calls
  | .failure nowNs :: calls => nowNs :: clockReadings calls
  | _ :: calls => clockReadings calls

/-- The state after one call; `af_health_admit` only reads. -/
def callStep (p : Option CfgProvider) (s : ProvState) : HealthCall → ProvState
  | .refresh nowNs => healthRefresh s nowNs
  | .askAdmit => s
  | .beginAttempt => (healthBegin s).1
  | .endAttempt wasProbe => healthEnd s wasProbe
  | .success latencyUs => healthSuccess s p latencyUs
  | .failure nowNs => healthFailure s p nowNs

/-- A refresh that finds the cooldown elapsed. -/
def ExpiresCooldown (s : ProvState) (call : HealthCall) : Prop :=
  ∃ nowNs, call = .refresh nowNs ∧ s.openUntil ≤ nowNs

/-- An open circuit stays open, or an elapsed cooldown makes it half-open. -/
def LeavesOpenByTime (p : Option CfgProvider) (s : ProvState) (call : HealthCall) : Prop :=
  s.health = .opened → (callStep p s call).health = .opened ∨
    (ExpiresCooldown s call ∧ (callStep p s call).health = .halfOpen)

/-- The circuit-breaker discipline of a run: time alone ends an open window, and
from the failure that opened the circuit nothing is admitted until it does. -/
def StaysOpen (p : Option CfgProvider) (s : ProvState) (calls : List HealthCall) : Prop :=
  Along (callStep p) (LeavesOpenByTime p) s calls ∧
    ∀ pre nowNs mid post, calls = pre ++ .failure nowNs :: (mid ++ post) →
      (run (callStep p) s (pre ++ [.failure nowNs])).health = .opened →
      Along (callStep p) (fun t c => ¬ ExpiresCooldown t c)
        (run (callStep p) s (pre ++ [.failure nowNs])) mid →
      healthAdmit (run (callStep p) s (pre ++ .failure nowNs :: mid)) = false

/-- A failure that finds the circuit open also finds the counter at its threshold. -/
def FailsAtThreshold (p : Option CfgProvider) (s : ProvState) (call : HealthCall) : Prop :=
  ∀ nowNs, call = .failure nowNs → s.health = .opened → failureThreshold p ≤ s.failures + 1

theorem healthAdmit_of_opened {s : ProvState} (h : s.health = .opened) : healthAdmit s = false := by
  simp [healthAdmit, h]

/-- The one call that can leave an open circuit other than by time is a failure
below the threshold. -/
theorem leavesOpenByTime_iff (p : Option CfgProvider) (s : ProvState) (call : HealthCall) :
    LeavesOpenByTime p s call ↔ FailsAtThreshold p s call := by
  cases call with
  | refresh nowNs =>
    refine ⟨fun _ _ h => (nomatch h), fun _ hopen => ?_⟩
    rcases healthRefresh_cases s nowNs with h | ⟨-, hle, h⟩
    · exact Or.inl (by simp [callStep, h, hopen])
    · exact Or.inr ⟨⟨nowNs, rfl, hle⟩, by simp [callStep, h]⟩
  | askAdmit =>
    refine ⟨fun _ _ h => (nomatch h), fun _ hopen => ?_⟩
    exact Or.inl hopen
  | beginAttempt =>
    refine ⟨fun _ _ h => (nomatch h), fun _ hopen => ?_⟩
    exact Or.inl (by simpa [callStep] using hopen)
  | endAttempt wasProbe =>
    refine ⟨fun _ _ h => (nomatch h), fun _ hopen => ?_⟩
    exact Or.inl (by simpa [callStep] using hopen)
  | success latencyUs =>
    refine ⟨fun _ _ h => (nomatch h), fun _ hopen => ?_⟩
    exact Or.inl (healthSuccess_of_opened hopen p latencyUs)
  | failure nowNs =>
    constructor
    · intro h now _ hopen
      rcases h hopen with hstay | ⟨⟨now', hcall, -⟩, -⟩
      · have htrips : FailureTrips s p := (healthFailure_health_opened_iff s p nowNs).mp hstay
        rcases htrips with hhalf | ⟨-, hthr⟩
        · simp [hopen] at hhalf
        · exact hthr
      · cases hcall
    · intro h hopen
      have htrips : FailureTrips s p := Or.inr ⟨by simp [hopen], h nowNs rfl hopen⟩
      exact Or.inl ((healthFailure_health_opened_iff s p nowNs).mpr htrips)

/-- While no refresh finds the cooldown elapsed, an open circuit stays open. -/
theorem opened_of_leavesOpenByTime (p : Option CfgProvider) {s : ProvState}
    {calls : List HealthCall} (hopen : s.health = .opened)
    (hleave : Along (callStep p) (LeavesOpenByTime p) s calls)
    (hwait : Along (callStep p) (fun t c => ¬ ExpiresCooldown t c) s calls) :
    (run (callStep p) s calls).health = .opened := by
  induction calls generalizing s with
  | nil => exact hopen
  | cons c calls ih =>
    have hnext : (callStep p s c).health = .opened := by
      rcases hleave.1 hopen with h | ⟨hexp, -⟩
      · exact h
      · exact absurd hexp hwait.1
    exact ih hnext hleave.2 hwait.2

/-- The discipline holds of a run exactly when each of its late failures finds
the failure counter at the threshold. -/
theorem staysOpen_iff_failsAtThreshold (p : Option CfgProvider) (s : ProvState)
    (calls : List HealthCall) :
    StaysOpen p s calls ↔ Along (callStep p) (FailsAtThreshold p) s calls := by
  constructor
  · rintro ⟨hleave, -⟩
    exact hleave.mono fun t c => (leavesOpenByTime_iff p t c).mp
  · intro h
    have hleave : Along (callStep p) (LeavesOpenByTime p) s calls :=
      h.mono fun t c => (leavesOpenByTime_iff p t c).mpr
    refine ⟨hleave, ?_⟩
    rintro pre nowNs mid post rfl hopen hwait
    have hsplit : pre ++ HealthCall.failure nowNs :: (mid ++ post) =
        (pre ++ [.failure nowNs]) ++ (mid ++ post) := by simp
    rw [hsplit] at hleave
    have hmid := ((along_append _ mid post).mp ((along_append _ _ _).mp hleave).2).1
    have hend := opened_of_leavesOpenByTime p hopen hmid hwait
    rw [← run_append] at hend
    apply healthAdmit_of_opened
    simpa using hend

/-- Two failures trip the circuit; an older attempt's late success resets the
counter and the next late failure then closes the circuit it should keep open. -/
theorem staysOpen_fails_after_late_success :
    ¬ ∀ (p : Option CfgProvider) (id : Bytes) (calls : List HealthCall),
      (clockReadings calls).Pairwise (· ≤ ·) → StaysOpen p (.fresh id) calls := by
  intro h
  let p : CfgProvider :=
    { id := [97], adapter := .openaiDual, enabled := true, maxConcurrency := 4
      capabilities := 3, health := { failThr := 2, succThr := 1, cooldownMs := 1000 } }
  -- Four attempts are begun before the first of them reports.
  let started : List HealthCall :=
    [.refresh 5, .askAdmit, .beginAttempt, .askAdmit, .beginAttempt,
      .askAdmit, .beginAttempt, .askAdmit, .beginAttempt,
      .endAttempt false, .failure 10, .endAttempt false]
  let late : List HealthCall :=
    [.endAttempt false, .success 7, .endAttempt false, .failure 30]
  have hrun := (h (some p) [97] (started ++ .failure 20 :: (late ++ [.askAdmit])) (by decide)).2
    started 20 late [.askAdmit] rfl (by decide)
  have hwait : Along (callStep (some p)) (fun t c => ¬ ExpiresCooldown t c)
      (run (callStep (some p)) (.fresh [97]) (started ++ [.failure 20])) late := by
    refine ⟨?_, ?_, ?_, ?_, trivial⟩ <;> rintro ⟨nowNs, hcall, -⟩ <;> cases hcall
  exact absurd (hrun hwait) (by decide)

end AsmFlow.Routing
