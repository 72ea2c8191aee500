import AsmFlow.Library.Runs
import AsmFlow.Machine.Status
import AsmFlow.Routing.Walk

/-!
# The operator's switch and the routing filter

`provider.disable` writes a column of the database. The walk over a route's
targets reads the snapshot and the routing table, so a provider that is
switched off keeps its traffic until its circuit or its ceiling stops it.
-/

namespace AsmFlow.Control

open Library Routing

/-- The state of a provider by name, as a lookup would find or create it. -/
def stateOf (t : Table) (id : Bytes) : ProvState :=
  ((t.findProvider id).bind (t.providers[·]?)).getD (.fresh id)

section StateOf

variable (t : Table) (id : Bytes)

theorem stateOf_of_found {k : ℕ} {s : ProvState} (hk : t.findProvider id = some k)
    (hs : t.providers[k]? = some s) : stateOf t id = s := by
  simp [stateOf, hk, hs]

theorem stateOf_of_missing (h : t.findProvider id = none) : stateOf t id = .fresh id := by
  simp [stateOf, h]

theorem stateOf_append_fresh (new : Bytes) :
    stateOf { t with providers := t.providers ++ [.fresh new] } id = stateOf t id := by
  cases hk : t.findProvider id with
  | some k =>
    obtain ⟨s, hs, -⟩ := findProvider_isSome hk
    have hlt : k < t.providers.length := (List.getElem?_eq_some_iff.mp hs).1
    rw [stateOf_of_found t id hk hs]
    apply stateOf_of_found _ id (k := k)
    · simp only [Table.findProvider, List.findIdx?_append] at hk ⊢
      simp [hk]
    · simpa [List.getElem?_append_left hlt] using hs
  | none =>
    rw [stateOf_of_missing t id hk]
    by_cases hid : new = id
    · subst hid
      apply stateOf_of_found _ new (k := t.providers.length)
      · simp only [Table.findProvider, List.findIdx?_append] at hk ⊢
        simp [hk, ProvState.fresh]
      · simp
    · apply stateOf_of_missing
      simp only [Table.findProvider, List.findIdx?_append] at hk ⊢
      simp [hk, ProvState.fresh, hid]

theorem stateOf_routingProvider (new : Bytes) (alloc : Bool) :
    stateOf (routingProvider t new alloc).1 id = stateOf t id := by
  unfold routingProvider
  cases hnew : t.findProvider new with
  | some k => rfl
  | none =>
    dsimp only
    split_ifs
    · rfl
    · rfl
    · exact stateOf_append_fresh t id new

/-- The record a lookup returns is the state under that name. -/
theorem getElem?_routingProvider {t' : Table} {alloc : Bool} {k : ℕ}
    (h : routingProvider t id alloc = (t', some k)) :
    t'.providers[k]? = some (stateOf t id) := by
  have hsame : stateOf t' id = stateOf t id := by
    simpa [h] using stateOf_routingProvider t id id alloc
  rcases routingProvider_cases t id alloc with ⟨j, hj, heq⟩ | heq | heq
  · obtain ⟨rfl, hjk⟩ := Prod.mk.inj (heq.symm.trans h)
    obtain rfl : j = k := Option.some.inj hjk
    obtain ⟨s, hs, -⟩ := findProvider_isSome hj
    rw [hs, stateOf_of_found t id hj hs]
  · cases hnew : t.findProvider id with
    | some j =>
      obtain ⟨s, hs, -⟩ := findProvider_isSome hnew
      rw [routingProvider_of_found t hnew] at heq h
      obtain ⟨rfl, hjk⟩ := Prod.mk.inj h
      obtain rfl : j = k := Option.some.inj hjk
      rw [hs, stateOf_of_found t id hnew hs]
    | none =>
      obtain ⟨rfl, hk⟩ := Prod.mk.inj (heq.symm.trans h)
      obtain rfl : t.providers.length = k := Option.some.inj hk
      simp [stateOf_of_missing t id hnew]
  · simp [heq] at h

theorem refresh_stateOf_onProvider (k : ℕ) (nowNs : Word) :
    healthRefresh (stateOf (t.onProvider k (healthRefresh · nowNs)) id) nowNs =
      healthRefresh (stateOf t id) nowNs := by
  have hseen := (Refreshed.refl nowNs t).onProvider k
  have hfind := hseen.findProvider id
  cases hj : t.findProvider id with
  | none => rw [stateOf_of_missing t id hj, stateOf_of_missing _ id (hfind.trans hj)]
  | some j =>
    obtain ⟨s, hs, -⟩ := findProvider_isSome hj
    obtain ⟨s', hs', -⟩ := findProvider_isSome (hfind.trans hj)
    have hkeep := hseen.refresh_getElem? j
    rw [hs, hs'] at hkeep
    rw [stateOf_of_found t id hj hs, stateOf_of_found _ id (hfind.trans hj) hs']
    exact Option.some.inj hkeep

/-- One pass of the walk leaves every provider as a look at it would, and yields
only a provider that this look admits. -/
theorem candidateAt_offered (rq : RouteRequest) (alloc : Bool) (i : ℕ) (target : RouteTarget) :
    (∀ id, healthRefresh (stateOf (candidateAt rq alloc i target t).1 id) rq.nowNs =
      healthRefresh (stateOf t id) rq.nowNs) ∧
    ∀ c, (candidateAt rq alloc i target t).2 = some c →
      servable rq i target = some c.provider ∧
        admissible (healthRefresh (stateOf t c.provider.id) rq.nowNs) c.provider = true := by
  unfold candidateAt
  cases hp : servable rq i target with
  | none => exact ⟨fun _ => rfl, by simp⟩
  | some p =>
    dsimp only
    have hlook := fun id => stateOf_routingProvider t id p.id alloc
    cases hfound : routingProvider t p.id alloc with
    | mk t' slot =>
      rw [hfound] at hlook
      cases slot with
      | none => exact ⟨fun id => by rw [hlook id], by simp⟩
      | some k =>
        have hkeep (id : Bytes) := (refresh_stateOf_onProvider t' id k rq.nowNs).trans
          (congrArg (healthRefresh · rq.nowNs) (hlook id))
        have hget : (t'.onProvider k (healthRefresh · rq.nowNs)).providers[k]? =
            some (healthRefresh (stateOf t p.id) rq.nowNs) := by
          simp [onProvider_getElem?, getElem?_routingProvider t p.id hfound]
        simp only [hget]
        split_ifs with hadm
        · refine ⟨hkeep, fun c hc => ?_⟩
          obtain rfl := Option.some.inj hc
          exact ⟨rfl, hadm⟩
        · exact ⟨hkeep, by simp⟩

end StateOf

section Walk

variable {rq : RouteRequest} {alloc : ℕ → Bool}

/-- The first filters let the walk ask for the provider, and a look at it admits it. -/
def Offers (rq : RouteRequest) (t : Table) (i : ℕ) (target : RouteTarget) (p : CfgProvider) :
    Prop :=
  servable rq i target = some p ∧
    admissible (healthRefresh (stateOf t p.id) rq.nowNs) p = true

theorem candidatesFrom_offered (max i : ℕ) (targets : List RouteTarget) (t : Table)
    (out : List Candidate) :
    ∀ c ∈ (candidatesFrom rq alloc max i targets t out).2, c ∈ out ∨
      ∃ j target, targets[j]? = some target ∧ i + j < routingMaxTargets ∧
        Offers rq t (i + j) target c.provider := by
  induction targets generalizing i t out with
  | nil => exact fun c hc => Or.inl hc
  | cons target targets ih =>
    intro c hc
    rw [candidatesFrom] at hc
    by_cases hwide : routingMaxTargets ≤ i
    · rw [if_pos hwide] at hc
      exact Or.inl hc
    · rw [if_neg hwide] at hc
      obtain ⟨hkeep, hoffer⟩ := candidateAt_offered t rq (alloc i) i target
      generalize candidateAt rq (alloc i) i target t = pass at hkeep hoffer hc
      obtain ⟨t', found⟩ := pass
      have later (out' : List Candidate)
          (h : c ∈ (candidatesFrom rq alloc max (i + 1) targets t' out').2) :
          c ∈ out' ∨ ∃ j tgt, (target :: targets)[j]? = some tgt ∧
            i + j < routingMaxTargets ∧ Offers rq t (i + j) tgt c.provider := by
        rcases ih (i + 1) t' out' c h with hold | ⟨j, tgt, hj, hlt, hserve, hadm⟩
        · exact Or.inl hold
        · have hindex : i + (j + 1) = i + 1 + j := by omega
          refine Or.inr ⟨j + 1, tgt, by simpa using hj, by omega, ?_, ?_⟩
          · rw [hindex]
            exact hserve
          · rw [← hkeep]
            exact hadm
      cases found with
      | none => exact later out hc
      | some d =>
        dsimp only at hc
        split_ifs at hc
        · exact Or.inl hc
        · rcases later _ hc with hmem | hnew
          · rcases List.mem_append.mp hmem with hold | hd
            · exact Or.inl hold
            · obtain rfl := List.mem_singleton.mp hd
              obtain ⟨hserve, hadm⟩ := hoffer c rfl
              exact Or.inr ⟨0, target, rfl, by omega, hserve, hadm⟩
          · exact Or.inr hnew

/-- Every candidate is a target that the table at the start of the walk offers. -/
theorem routeCandidates_offered (t : Table) (max : ℕ) :
    ∀ c ∈ (routeCandidates rq alloc t max).2, ∃ i target,
      rq.route.targets[i]? = some target ∧ i < routingMaxTargets ∧
        Offers rq t i target c.provider := by
  intro c hc
  rcases candidatesFrom_offered max 0 rq.route.targets t [] c hc with hnil | ⟨i, target, hi, hlt, h⟩
  · cases hnil
  · rw [Nat.zero_add] at hlt h
    exact ⟨i, target, hi, hlt, h⟩

end Walk

/-- `af_ctl_find_provider`; a request without a string `provider_id` is `none`. -/
def findProvider (config : Config) (providerId : Option Bytes) : Except Status CfgProvider :=
  match providerId with
  | none => .error Status.ctlParams
  | some id =>
    match config.providers.find? (·.id == id) with
    | none => .error Status.notFound
    | some p => .ok p

/-- `provider_health.operator_disabled`, for the identifiers that have a row. -/
abbrev HealthRows := Bytes → Option Bool

/-- `af_repo_set_operator_disabled`: one `UPDATE`, which a failure leaves undone and
which an identifier without a row passes without effect. `outcome` is what the
guard, the clock or SQLite answered. -/
def repoSetOperatorDisabled (rows : HealthRows) (id : Bytes) (disabled : Bool)
    (outcome : Status) : HealthRows × Status :=
  if outcome < 0 ∧ outcome ≠ Status.eof then (rows, outcome)
  else (fun x => if x = id then (rows x).map (fun _ => disabled) else rows x, Status.ok)

/-- A lookup that refreshes what it finds, as `af_ctl_write_provider` does. -/
def look (t : Table) (id : Bytes) (alloc : Bool) (nowNs : Word) : Table :=
  match routingProvider t id alloc with
  | (t, none) => t
  | (t, some k) => t.onProvider k (healthRefresh · nowNs)

/-- The parts of `af_runtime` that the operator's switch and the walk read. -/
structure Daemon where
  config : Config
  table : Table
  rows : HealthRows

/-- `af_ctl_set_provider_state`. -/
def setProviderState (d : Daemon) (providerId : Option Bytes) (disabled : Bool)
    (outcome : Status) (alloc : Bool) (nowNs : Word) : Daemon × Status :=
  match findProvider d.config providerId with
  | .error e => (d, e)
  | .ok p =>
    match repoSetOperatorDisabled d.rows p.id disabled outcome with
    | (rows, status) =>
      if status < 0 then ({ d with rows }, Status.internal)
      else ({ d with rows, table := look d.table p.id alloc nowNs }, Status.ok)

/-- What moves the daemon: the two control methods, a walk, and what the data
plane reports about an attempt. -/
inductive Move
  | setState (providerId : Option Bytes) (disabled : Bool) (outcome : Status) (alloc : Bool)
      (nowNs : Word) (fits : Bool)
  | walk (rq : RouteRequest) (alloc : ℕ → Bool)
  | look (id : Bytes) (alloc : Bool) (nowNs : Word)
  | begin (state : ℕ)
  | finish (state : ℕ) (wasProbe : Bool)
  | success (state : ℕ) (provider : Option CfgProvider) (latencyUs : Word)
  | failure (state : ℕ) (provider : Option CfgProvider) (nowNs : Word)

def Daemon.step (d : Daemon) : Move → Daemon
  | .setState providerId disabled outcome alloc nowNs _ =>
    (setProviderState d providerId disabled outcome alloc nowNs).1
  | .walk rq alloc =>
    { d with table := (routeCandidates rq alloc d.table routingMaxTargets).1 }
  | .look id alloc nowNs => { d with table := Control.look d.table id alloc nowNs }
  | .begin k => { d with table := d.table.onProvider k (fun s => (healthBegin s).1) }
  | .finish k wasProbe => { d with table := d.table.onProvider k (healthEnd · wasProbe) }
  | .success k p latencyUs => { d with table := d.table.onProvider k (healthSuccess · p latencyUs) }
  | .failure k p nowNs => { d with table := d.table.onProvider k (healthFailure · p nowNs) }

/-- The daemon beside the providers that the operator has been told are off. -/
structure Watched where
  daemon : Daemon
  off : Bytes → Bool

/-- A disable counts once it is answered ok, so its answer must have fitted in
the outbox; an enable counts once it succeeds. -/
def Watched.told (w : Watched) : Move → Bytes → Bool
  | .setState (some id) disabled outcome alloc nowNs fits =>
    if (setProviderState w.daemon (some id) disabled outcome alloc nowNs).2 = Status.ok ∧
        (disabled = false ∨ fits = true) then
      fun x => if x = id then disabled else w.off x
    else w.off
  | _ => w.off

def Watched.step (w : Watched) (m : Move) : Watched := ⟨w.daemon.step m, w.told m⟩

/-- A walk returns no target of a provider that is off. -/
def Stopped (w : Watched) : Move → Prop
  | .walk rq alloc =>
    ∀ c ∈ (routeCandidates rq alloc w.daemon.table routingMaxTargets).2,
      w.off c.provider.id = false
  | _ => True

instance (w : Watched) (m : Move) : Decidable (Stopped w m) :=
  match m with
  | .walk .. => inferInstanceAs (Decidable (∀ c ∈ _, _))
  | .setState .. | .look .. | .begin .. | .finish .. | .success .. | .failure .. =>
    inferInstanceAs (Decidable True)

/-- Every provider that is off and that the snapshot would let serve the walk is
kept out by its circuit or its ceiling. -/
def KeptOut (w : Watched) : Move → Prop
  | .walk rq _ =>
    ∀ x ∈ rq.route.targets.zipIdx, x.2 < routingMaxTargets →
      ∀ p ∈ servable rq x.2 x.1, w.off p.id = true →
        admissible (healthRefresh (stateOf w.daemon.table p.id) rq.nowNs) p = false
  | _ => True

instance (w : Watched) (m : Move) : Decidable (KeptOut w m) :=
  match m with
  | .walk .. => inferInstanceAs (Decidable (∀ x ∈ _, _ → ∀ p ∈ _, _))
  | .setState .. | .look .. | .begin .. | .finish .. | .success .. | .failure .. =>
    inferInstanceAs (Decidable True)

/-- Every provider of a walk's snapshot has a record when the walk starts, and its
route is no wider than the tried set. -/
def Met (w : Watched) : Move → Prop
  | .walk rq _ =>
    Assigned rq.config w.daemon.table ∧ rq.route.targets.length ≤ routingMaxTargets
  | _ => True

instance (w : Watched) (m : Move) : Decidable (Met w m) :=
  match m with
  | .walk .. => inferInstanceAs (Decidable (_ ∧ _))
  | .setState .. | .look .. | .begin .. | .finish .. | .success .. | .failure .. =>
    inferInstanceAs (Decidable True)

theorem stopped_of_keptOut (w : Watched) (m : Move) (h : KeptOut w m) : Stopped w m := by
  cases m with
  | walk rq alloc =>
    intro c hc
    obtain ⟨i, target, hi, hlt, hserve, hadm⟩ := routeCandidates_offered w.daemon.table _ c hc
    by_contra hoff
    have hmem : (target, i) ∈ rq.route.targets.zipIdx := by
      simpa [List.mem_zipIdx_iff_getElem?] using hi
    have hshut := h (target, i) hmem hlt c.provider hserve (by simpa using hoff)
    exact Bool.false_ne_true (hshut.symm.trans hadm)
  | setState | look | begin | finish | success | failure => trivial

theorem mem_targetViewsFrom_of_getElem? {config : Config} {t : Table} {i j : ℕ}
    {targets : List RouteTarget} {target : RouteTarget} {v : TargetView}
    (hj : targets[j]? = some target) (hv : targetView config t (i + j) target = some v) :
    v ∈ targetViewsFrom config t i targets := by
  induction targets generalizing i j with
  | nil => simp at hj
  | cons head targets ih =>
    rw [targetViewsFrom, List.mem_append, Option.mem_toList]
    cases j with
    | zero =>
      obtain rfl : head = target := by simpa using hj
      exact Or.inl hv
    | succ j =>
      have hindex : i + (j + 1) = i + 1 + j := by omega
      rw [hindex] at hv
      exact Or.inr (ih (by simpa using hj) hv)

theorem targetProvider_of_servable {rq : RouteRequest} {i : ℕ} {target : RouteTarget}
    {p : CfgProvider} (h : servable rq i target = some p) :
    targetProvider rq.config target = some p := by
  unfold servable at h
  cases hp : targetProvider rq.config target with
  | none => simp [hp] at h
  | some q =>
    rw [hp] at h
    dsimp only at h
    split_ifs at h
    exact h

/-- With a record for every provider, a walk avoids the providers that are off
only where something else keeps each of them out. -/
theorem keptOut_of_stopped {w : Watched} {m : Move} (hmet : Met w m) (h : Stopped w m) :
    KeptOut w m := by
  cases m with
  | walk rq alloc =>
    obtain ⟨hassigned, hwide⟩ := hmet
    rintro ⟨target, i⟩ hmem hlt p hserve hoff
    have hi : rq.route.targets[i]? = some target := by
      simpa [List.mem_zipIdx_iff_getElem?] using hmem
    have htp := targetProvider_of_servable hserve
    obtain ⟨k, hk⟩ := Option.isSome_iff_exists.mp (hassigned p (mem_of_targetProvider htp))
    obtain ⟨s, hs, -⟩ := findProvider_isSome hk
    let v : TargetView := ⟨i, target, p, k, s⟩
    have hview : targetView rq.config w.daemon.table i target = some v := by
      simp [targetView, htp, hk, hs, v]
    have hin : v ∈ targetViewsFrom rq.config w.daemon.table 0 rq.route.targets :=
      mem_targetViewsFrom_of_getElem? hi (by simpa using hview)
    rw [stateOf_of_found _ _ hk hs]
    by_contra hadm
    have hshows : v.servable rq = true := by
      have heq := (servable_eq rq i target).1 p k s htp
      by_contra hno
      rw [if_neg hno, hserve] at heq
      exact Option.some_ne_none p heq
    have hadmitted : v.admitted rq = true := by
      simp only [TargetView.admitted, hshows, Bool.true_and]
      simpa using hadm
    have hcand : v.candidate rq ∈
        (routeCandidates rq alloc w.daemon.table routingMaxTargets).2 := by
      rw [routeCandidates, candidatesFrom_eq hassigned (Refreshed.refl _ _) (by omega) (by simp)]
      exact List.mem_append_right _ (List.mem_map_of_mem (List.mem_filter.mpr ⟨hin, hadmitted⟩))
    have hon := h _ hcand
    exact Bool.false_ne_true (hon.symm.trans hoff)
  | setState | look | begin | finish | success | failure => trivial

/-- In a run in which something else keeps out every provider that is off, no
walk returns a target of one. Where every provider of a walk's snapshot has its
record, these are the only such runs. -/
theorem disable_stops_traffic (w : Watched) (moves : List Move) :
    (Along Watched.step KeptOut w moves → Along Watched.step Stopped w moves) ∧
      (Along Watched.step Met w moves →
        (Along Watched.step Stopped w moves ↔ Along Watched.step KeptOut w moves)) := by
  have hsound (h : Along Watched.step KeptOut w moves) : Along Watched.step Stopped w moves :=
    h.mono stopped_of_keptOut
  refine ⟨hsound, fun hmet => ⟨fun h => ?_, hsound⟩⟩
  rw [along_iff_forall_split] at hmet h ⊢
  intro pre m post hsplit
  exact keptOut_of_stopped (hmet pre m post hsplit) (h pre m post hsplit)

section Examples

/-- A snapshot with one provider that serves every family, and a route to it. -/
private def soleProvider : CfgProvider :=
  { id := [112], adapter := .openaiDual, enabled := true, maxConcurrency := 1, capabilities := 3
    health := ⟨1, 1, 1000⟩ }

private def soleRoute : CfgRoute :=
  { id := [114], enabled := true, endpointFamilies := 3, policy := .priority, fbEnabled := false
    fbMaxAttempts := 1, fbRetryable := 0, targets := [⟨0, [109], 1, 1⟩] }

private def soleConfig : Config :=
  { providers := [soleProvider], routes := [soleRoute], limSseEventMax := 4096 }

private def soleDaemon (active : Word) : Watched :=
  { daemon :=
      { config := soleConfig
        table := ⟨[{ ProvState.fresh [112] with active }], []⟩
        rows := fun id => if id = [112] then some false else none }
    off := fun _ => false }

/-- The operator switches the provider off, and then a request arrives. -/
private def switchedOff : List Move :=
  [.setState (some [112]) true Status.eof true 0 true,
   .walk ⟨soleConfig, soleRoute, epfResponses, 0, 0, 1⟩ fun _ => true]

/-- A healthy provider is still offered after its disable was answered ok. -/
theorem disabled_provider_offered : ¬ Along Watched.step Stopped (soleDaemon 0) switchedOff := by
  decide

/-- At its ceiling the provider is not offered, switched off or not. -/
theorem disable_stops_traffic_full :
    Along Watched.step KeptOut (soleDaemon 1) switchedOff ∧
      Along Watched.step Stopped (soleDaemon 1) switchedOff ∧
      (Along Watched.step Stopped (soleDaemon 1) switchedOff ↔
        Along Watched.step KeptOut (soleDaemon 1) switchedOff) :=
  have hkept : Along Watched.step KeptOut (soleDaemon 1) switchedOff := by decide
  have hmet : Along Watched.step Met (soleDaemon 1) switchedOff := by decide
  ⟨hkept, (disable_stops_traffic (soleDaemon 1) switchedOff).1 hkept,
    (disable_stops_traffic (soleDaemon 1) switchedOff).2 hmet⟩

end Examples
end AsmFlow.Control
