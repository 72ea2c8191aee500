import AsmFlow.Library.Runs
import AsmFlow.Routing.Health

/-!
# Half-open probes

The attempts of one provider, each with the probe flag its `healthBegin`
returned, over the state they share. `probes` is meant to count the probes in
flight, at most one. Opening the circuit clears the counter, so the count is
kept exactly by those runs in which no failure trips the circuit while a probe
is out.
-/

namespace AsmFlow.Routing

open Library

/-- An attempt that has begun. -/
structure Attempt where
  probe : Bool
  ended : Bool
  reported : Bool
  deriving DecidableEq, Repr

/-- A probe that has not been ended. -/
def Attempt.outstanding (a : Attempt) : Bool := a.probe && !a.ended

/-- A provider's state, the admissions not yet followed by a begin, and the
attempts in the order they began. -/
structure Traffic where
  state : ProvState
  admitted : ℕ
  attempts : List Attempt
  deriving DecidableEq, Repr

def Traffic.start (id : Bytes) : Traffic := ⟨.fresh id, 0, []⟩

/-- One call, by the attempt that makes it. -/
inductive TrafficCall
  | refresh (nowNs : Word)
  | askAdmit
  | beginAttempt
  | endAttempt (i : ℕ)
  | success (i : ℕ) (latencyUs : Word)
  | failure (i : ℕ) (nowNs : Word)
  deriving DecidableEq, Repr

def Traffic.update (t : Traffic) (i : ℕ) (a : Attempt) : Traffic :=
  { t with attempts := t.attempts.set i a }

def trafficStep (p : Option CfgProvider) (t : Traffic) : TrafficCall → Traffic
  | .refresh nowNs => { t with state := healthRefresh t.state nowNs }
  | .askAdmit => if healthAdmit t.state then { t with admitted := t.admitted + 1 } else t
  | .beginAttempt =>
      { state := (healthBegin t.state).1
        admitted := t.admitted - 1
        attempts := t.attempts ++ [⟨(healthBegin t.state).2, false, false⟩] }
  | .endAttempt i =>
      match t.attempts[i]? with
      | none => t
      | some a =>
        { t with state := healthEnd t.state a.probe }.update i { a with ended := true }
  | .success i latencyUs =>
      match t.attempts[i]? with
      | none => t
      | some a =>
        { t with state := healthSuccess t.state p latencyUs }.update i { a with reported := true }
  | .failure i nowNs =>
      match t.attempts[i]? with
      | none => t
      | some a =>
        { t with state := healthFailure t.state p nowNs }.update i { a with reported := true }

/-- The callers' discipline: begin after an admission, end once with the flag
that begin returned, report at most once. -/
def Disciplined (t : Traffic) : TrafficCall → Prop
  | .refresh _ => True
  | .askAdmit => True
  | .beginAttempt => 0 < t.admitted
  | .endAttempt i => ∃ a ∈ t.attempts[i]?, a.ended = false
  | .success i _ => ∃ a ∈ t.attempts[i]?, a.reported = false
  | .failure i _ => ∃ a ∈ t.attempts[i]?, a.reported = false

instance (t : Traffic) (call : TrafficCall) : Decidable (Disciplined t call) :=
  match call with
  | .refresh _ | .askAdmit => inferInstanceAs (Decidable True)
  | .beginAttempt => inferInstanceAs (Decidable (_ < _))
  | .endAttempt i => inferInstanceAs (Decidable (∃ a ∈ t.attempts[i]?, a.ended = false))
  | .success i _ | .failure i _ =>
      inferInstanceAs (Decidable (∃ a ∈ t.attempts[i]?, a.reported = false))

/-- The number of probes out. -/
def Traffic.probesOut (t : Traffic) : ℕ := t.attempts.countP Attempt.outstanding

/-- The counter is the number of probes out, and that is at most one. -/
def OneProbe (t : Traffic) : Prop :=
  t.state.probes.toNat = t.probesOut ∧ t.probesOut ≤ 1

instance (t : Traffic) : Decidable (OneProbe t) := inferInstanceAs (Decidable (_ ∧ _))

/-- A probe begins only while none is out, and no failure trips the circuit
while one is. -/
def ProbeSafe (p : Option CfgProvider) (t : Traffic) : TrafficCall → Prop
  | .beginAttempt => t.state.health = .halfOpen → t.state.probes = 0
  | .failure _ _ => FailureTrips t.state p → t.probesOut = 0
  | _ => True

/-- An open circuit counts no probes. -/
def QuietWhenOpen (t : Traffic) : Prop := t.state.health = .opened → t.state.probes = 0

theorem healthRefresh_probes_of_quiet {s : ProvState} (h : s.health = .opened → s.probes = 0)
    (nowNs : Word) : (healthRefresh s nowNs).probes = s.probes := by
  rcases healthRefresh_cases s nowNs with hr | ⟨hopen, -, hr⟩
  · rw [hr]
  · rw [hr, h hopen]

theorem probesOut_update (t : Traffic) {i : ℕ} {a : Attempt} (b : Attempt)
    (ha : t.attempts[i]? = some a) :
    (t.update i b).probesOut + (if a.outstanding then 1 else 0) =
      t.probesOut + (if b.outstanding then 1 else 0) := by
  obtain ⟨hi, hget⟩ := List.getElem?_eq_some_iff.mp ha
  have hset : (t.attempts.set i b).countP Attempt.outstanding =
      t.attempts.countP Attempt.outstanding - (if a.outstanding then 1 else 0) +
        (if b.outstanding then 1 else 0) := by
    rw [List.countP_set hi, hget]
  have hpos : (if a.outstanding then 1 else 0) ≤ t.attempts.countP Attempt.outstanding := by
    split_ifs with hout
    · have hmem : a ∈ t.attempts := List.mem_of_getElem? ha
      exact List.countP_pos_iff.mpr ⟨a, hmem, hout⟩
    · exact Nat.zero_le _
  simp only [Traffic.probesOut, Traffic.update, hset]
  omega

theorem probesOut_report (t : Traffic) {i : ℕ} {a : Attempt} (ha : t.attempts[i]? = some a)
    (s : ProvState) :
    ({ t with state := s }.update i { a with reported := true }).probesOut = t.probesOut := by
  have h := probesOut_update { t with state := s } { a with reported := true } ha
  have hout : ({ a with reported := true } : Attempt).outstanding = a.outstanding := rfl
  rw [hout] at h
  exact Nat.add_right_cancel h

theorem quietWhenOpen_step (p : Option CfgProvider) (t : Traffic) (call : TrafficCall)
    (hq : QuietWhenOpen t) : QuietWhenOpen (trafficStep p t call) := by
  intro hopen
  cases call with
  | refresh nowNs =>
    simp only [trafficStep] at hopen ⊢
    rw [healthRefresh_probes_of_quiet hq]
    rcases healthRefresh_cases t.state nowNs with hr | ⟨-, -, hr⟩
    · exact hq (by simpa [hr] using hopen)
    · simp [hr] at hopen
  | askAdmit =>
    simp only [trafficStep] at hopen ⊢
    split_ifs at hopen ⊢ <;> exact hq hopen
  | beginAttempt =>
    have hwas : t.state.health = .opened := by simpa [trafficStep] using hopen
    simp [trafficStep, healthBegin_probes, hwas, hq hwas]
  | endAttempt i =>
    simp only [trafficStep] at hopen ⊢
    cases ha : t.attempts[i]? with
    | none =>
      simp only [ha] at hopen
      exact hq hopen
    | some a =>
      have hwas : t.state.health = .opened := by simpa [ha, Traffic.update] using hopen
      simp [Traffic.update, healthEnd_probes, hq hwas]
  | success i latencyUs =>
    simp only [trafficStep] at hopen ⊢
    cases ha : t.attempts[i]? with
    | none =>
      simp only [ha] at hopen
      exact hq hopen
    | some a =>
      simp only [ha, Traffic.update] at hopen
      have hwas : t.state.health = .opened := healthSuccess_health_opened hopen
      simp [Traffic.update, hq hwas]
  | failure i nowNs =>
    simp only [trafficStep] at hopen ⊢
    cases ha : t.attempts[i]? with
    | none =>
      simp only [ha] at hopen
      exact hq hopen
    | some a =>
      simp only [ha, Traffic.update] at hopen
      have htrips := (healthFailure_health_opened_iff t.state p nowNs).mp hopen
      simp [Traffic.update, healthFailure_probes, htrips]

/-- One disciplined call keeps the count exactly when it is safe. -/
theorem oneProbe_step_iff (p : Option CfgProvider) (t : Traffic) (call : TrafficCall)
    (hq : QuietWhenOpen t) (hd : Disciplined t call) (h : OneProbe t) :
    OneProbe (trafficStep p t call) ↔ ProbeSafe p t call := by
  obtain ⟨hcount, hone⟩ := h
  cases call with
  | refresh nowNs =>
    have hp := healthRefresh_probes_of_quiet hq nowNs
    simpa [OneProbe, trafficStep, ProbeSafe, hp] using ⟨hcount, hone⟩
  | askAdmit =>
    simp only [trafficStep, ProbeSafe, iff_true]
    split_ifs
    · exact ⟨hcount, hone⟩
    · exact ⟨hcount, hone⟩
  | beginAttempt =>
    have hout : (trafficStep p t .beginAttempt).probesOut =
        t.probesOut + if t.state.health = .halfOpen then 1 else 0 := by
      simp [trafficStep, Traffic.probesOut, Attempt.outstanding, healthBegin_flag,
        List.countP_singleton]
    simp only [OneProbe, hout, ProbeSafe]
    by_cases hhalf : t.state.health = .halfOpen
    · simp only [trafficStep, healthBegin_probes, hhalf, if_true, true_implies]
      constructor
      · rintro ⟨-, hle⟩
        exact Word.eq_zero_of_toNat_eq_zero (by omega)
      · intro hzero
        have hnone : t.probesOut = 0 := by rw [← hcount, hzero]; rfl
        simp [hzero, hnone]
    · simp [trafficStep, healthBegin_probes, hhalf, hcount, hone]
  | endAttempt i =>
    obtain ⟨a, ha, hlive⟩ : ∃ a, t.attempts[i]? = some a ∧ a.ended = false := hd
    have hout := probesOut_update { t with state := healthEnd t.state a.probe }
      { a with ended := true } ha
    simp only [Attempt.outstanding, hlive, Bool.not_false, Bool.and_true, Bool.not_true,
      Bool.and_false, Bool.false_eq_true, if_false, add_zero] at hout
    simp only [ProbeSafe, iff_true, OneProbe, trafficStep, ha]
    have hstate : ({ t with state := healthEnd t.state a.probe }.update i
        { a with ended := true }).state = healthEnd t.state a.probe := rfl
    have hsame : ({ t with state := healthEnd t.state a.probe } : Traffic).probesOut =
        t.probesOut := rfl
    rw [hstate, healthEnd_probes]
    rw [hsame] at hout
    cases hprobe : a.probe with
    | false =>
      simp only [hprobe, Bool.false_eq_true, if_false, false_and] at hout ⊢
      omega
    | true =>
      have hpos : 0 < t.state.probes.toNat := by
        simp only [hprobe, if_true] at hout
        omega
      have hne : t.state.probes ≠ 0 := by
        intro h0
        simp [h0] at hpos
      have hdec := Word.toNat_sub_one hpos
      simp only [hprobe, if_true, hne, ne_eq, not_false_eq_true, and_self, hdec] at hout ⊢
      omega
  | success i latencyUs =>
    obtain ⟨a, ha, -⟩ : ∃ a, t.attempts[i]? = some a ∧ a.reported = false := hd
    have hout := probesOut_report t ha (healthSuccess t.state p latencyUs)
    simp only [ProbeSafe, iff_true, OneProbe, trafficStep, ha, hout]
    simpa [Traffic.update] using ⟨hcount, hone⟩
  | failure i nowNs =>
    obtain ⟨a, ha, -⟩ : ∃ a, t.attempts[i]? = some a ∧ a.reported = false := hd
    have hout := probesOut_report t ha (healthFailure t.state p nowNs)
    simp only [ProbeSafe, OneProbe, trafficStep, ha, hout]
    have hstate : ({ t with state := healthFailure t.state p nowNs }.update i
        { a with reported := true }).state = healthFailure t.state p nowNs := rfl
    rw [hstate, healthFailure_probes]
    by_cases htrips : FailureTrips t.state p
    · simp only [htrips, if_true, true_implies, UInt64.toNat_zero]
      omega
    · simp [htrips, hcount, hone]

/-- A provider whose circuit opens at its first failure. -/
def fragileProvider : CfgProvider :=
  { id := [97], adapter := .openaiDual, enabled := true, maxConcurrency := 4
    capabilities := 3, health := { failThr := 1, succThr := 1, cooldownMs := 1000 } }

/-- Over every disciplined run of any number of attempts, the counter is right
and at most one probe is out, in every state, exactly when each call is safe. -/
theorem oneProbe_throughout_iff (p : Option CfgProvider) (id : Bytes) (calls : List TrafficCall)
    (hd : Along (trafficStep p) Disciplined (.start id) calls) :
    Throughout (trafficStep p) OneProbe (.start id) calls ↔
      Along (trafficStep p) (ProbeSafe p) (.start id) calls := by
  have hquiet : QuietWhenOpen (.start id) := fun h => by simp [Traffic.start, ProvState.fresh] at h
  have hone : OneProbe (.start id) := by
    simp [OneProbe, Traffic.start, ProvState.fresh, Traffic.probesOut]
  exact throughout_iff_along (fun t c hq _ _ _ => quietWhenOpen_step p t c hq)
    (fun t c hq hT hP => oneProbe_step_iff p t c hq hT hP) hquiet hone hd

/-- The same equivalence on a run of one probe that is claimed and released. -/
theorem oneProbe_throughout_iff_single :
    Throughout (trafficStep (some fragileProvider)) OneProbe (.start [97])
        [.refresh 5, .askAdmit, .beginAttempt, .endAttempt 0, .success 0 7] ↔
      Along (trafficStep (some fragileProvider)) (ProbeSafe (some fragileProvider)) (.start [97])
        [.refresh 5, .askAdmit, .beginAttempt, .endAttempt 0, .success 0 7] :=
  oneProbe_throughout_iff (some fragileProvider) [97] _
    ⟨trivial, trivial, Nat.one_pos, ⟨_, rfl, rfl⟩, ⟨_, rfl, rfl⟩, trivial⟩

/-- Two attempts begin; the first fails and opens the circuit; once the cooldown
has passed, attempt 2 is the probe, and the second attempt fails late. -/
def lateFailureCalls : List TrafficCall :=
  [.refresh 5, .askAdmit, .beginAttempt, .refresh 6, .askAdmit, .beginAttempt,
    .endAttempt 0, .failure 0 10,
    .refresh 1000000010, .askAdmit, .beginAttempt,
    .endAttempt 1, .failure 1 1000000011,
    .refresh 4000000000, .askAdmit, .beginAttempt]

/-- The late failure of an attempt older than the probe reopens the circuit,
and the next cooldown lets a second probe out beside the first. -/
theorem oneProbe_fails_after_late_failure :
    ¬ ∀ (p : Option CfgProvider) (id : Bytes) (calls : List TrafficCall),
      Along (trafficStep p) Disciplined (.start id) calls →
        Throughout (trafficStep p) OneProbe (.start id) calls := by
  intro h
  have hd : Along (trafficStep (some fragileProvider)) Disciplined (.start [97])
      lateFailureCalls := by
    decide
  have hlast := (h (some fragileProvider) [97] lateFailureCalls hd).last
  exact absurd hlast (by decide)

end AsmFlow.Routing
