import AsmFlow.Routing.Select

/-!
# The walk over a route's targets, without its side effects

Looking at a provider refreshes it, and refreshing is idempotent and keeps
names. So every target is judged as it would be in the table the walk started
from, and the candidates are the views of that table which pass the filters.
-/

namespace AsmFlow.Routing

/-- A target of the route with all it resolves to. -/
structure TargetView where
  index : ℕ
  target : RouteTarget
  provider : CfgProvider
  slot : ℕ
  state : ProvState

/-- What target `i` resolves to in the snapshot and in the routing table. -/
def targetView (config : Config) (t : Table) (i : ℕ) (target : RouteTarget) : Option TargetView :=
  (targetProvider config target).bind fun p =>
    (t.findProvider p.id).bind fun k =>
      (t.providers[k]?).map fun s => ⟨i, target, p, k, s⟩

def targetViewsFrom (config : Config) (t : Table) : ℕ → List RouteTarget → List TargetView
  | _, [] => []
  | i, target :: rest =>
    (targetView config t i target).toList ++ targetViewsFrom config t (i + 1) rest

theorem healthRefresh_idem (s : ProvState) (nowNs : Word) :
    healthRefresh (healthRefresh s nowNs) nowNs = healthRefresh s nowNs := by
  rcases healthRefresh_cases s nowNs with h | ⟨-, -, h⟩
  · rw [h, h]
  · rw [h]
    simp [healthRefresh]

/-- `t` is `t₀` after some of its providers have been looked at. -/
def Refreshed (nowNs : Word) (t₀ t : Table) : Prop :=
  ∀ k : ℕ, t.providers[k]? = t₀.providers[k]? ∨
    t.providers[k]? = (t₀.providers[k]?).map (healthRefresh · nowNs)

theorem Refreshed.refl (nowNs : Word) (t : Table) : Refreshed nowNs t t := fun _ => Or.inl rfl

theorem Refreshed.refresh_getElem? {nowNs : Word} {t₀ t : Table} (h : Refreshed nowNs t₀ t)
    (k : ℕ) : (t.providers[k]?).map (healthRefresh · nowNs) =
      (t₀.providers[k]?).map (healthRefresh · nowNs) := by
  rcases h k with hk | hk
  · rw [hk]
  · rw [hk, Option.map_map]
    congr 1
    funext s
    exact healthRefresh_idem s nowNs

theorem Refreshed.findProvider {nowNs : Word} {t₀ t : Table} (h : Refreshed nowNs t₀ t)
    (id : Bytes) : t.findProvider id = t₀.findProvider id := by
  have hids : t.providers.map ProvState.id = t₀.providers.map ProvState.id := by
    apply List.ext_getElem?
    intro k
    rw [List.getElem?_map, List.getElem?_map]
    rcases h k with hk | hk
    · rw [hk]
    · rw [hk, Option.map_map]
      congr 1
      funext s
      exact healthRefresh_id s nowNs
  have hmap (l : List ProvState) :
      l.findIdx? (fun s => s.id == id) = (l.map ProvState.id).findIdx? (fun x => x == id) := by
    rw [List.findIdx?_map]
    rfl
  unfold Table.findProvider
  rw [hmap, hmap, hids]

theorem Refreshed.onProvider {nowNs : Word} {t₀ t : Table} (h : Refreshed nowNs t₀ t) (k : ℕ) :
    Refreshed nowNs t₀ (t.onProvider k (healthRefresh · nowNs)) := by
  intro j
  rw [onProvider_getElem?]
  by_cases hkj : k = j
  · right
    rw [← h.refresh_getElem? j]
    simp [hkj]
  · simpa [hkj] using h j

/-- The snapshot filters of a view, those of `servable`. -/
def TargetView.servable (rq : RouteRequest) (v : TargetView) : Bool :=
  !triedBit rq.tried v.index && v.provider.enabled && servesFamily rq.family v.provider &&
    decide (v.provider.capabilities &&& rq.caps = rq.caps)

/-- All six filters, judged in the table the view was taken from. -/
def TargetView.admitted (rq : RouteRequest) (v : TargetView) : Bool :=
  v.servable rq && admissible (healthRefresh v.state rq.nowNs) v.provider

def TargetView.candidate (rq : RouteRequest) (v : TargetView) : Candidate :=
  flatten v.index v.target v.provider v.slot (healthRefresh v.state rq.nowNs)

/-- Every provider of the snapshot has a state in the table. -/
def Assigned (config : Config) (t : Table) : Prop :=
  ∀ p ∈ config.providers, (t.findProvider p.id).isSome

instance (config : Config) (t : Table) : Decidable (Assigned config t) :=
  inferInstanceAs (Decidable (∀ p ∈ config.providers, _))

theorem mem_of_targetProvider {config : Config} {target : RouteTarget} {p : CfgProvider}
    (h : targetProvider config target = some p) : p ∈ config.providers := by
  unfold targetProvider at h
  split_ifs at h
  exact List.mem_of_getElem? h

/-- A target that passes the snapshot filters names a provider, and the filters
are those of its view. -/
theorem servable_eq (rq : RouteRequest) (i : ℕ) (target : RouteTarget) :
    (∀ p k s, targetProvider rq.config target = some p →
      servable rq i target =
        if (TargetView.mk i target p k s).servable rq then some p else none) ∧
    (targetProvider rq.config target = none → servable rq i target = none) := by
  constructor
  · intro p k s hp
    simp only [servable, hp, TargetView.servable]
    by_cases htried : triedBit rq.tried i = true
    · simp [htried]
    · by_cases hserve : servesFamily rq.family p = true
      · by_cases hon : p.enabled = true
        · simp [htried, hserve, hon]
        · simp [htried, hon]
      · simp [htried, hserve]
  · intro hp
    simp [servable, hp]

/-- One pass of the walk, in any table reached by looking at providers, gives
what the view in the starting table says. -/
theorem candidateAt_of_refreshed {rq : RouteRequest} {t₀ t : Table} (alloc : Bool) (i : ℕ)
    (target : RouteTarget) (ha : Assigned rq.config t₀) (h : Refreshed rq.nowNs t₀ t) :
    Refreshed rq.nowNs t₀ (candidateAt rq alloc i target t).1 ∧
      (candidateAt rq alloc i target t).2 =
        ((targetView rq.config t₀ i target).filter (TargetView.admitted rq)).map
          (TargetView.candidate rq) := by
  cases hp : targetProvider rq.config target with
  | none =>
    have hs := (servable_eq rq i target).2 hp
    simp [candidateAt, targetView, hp, hs, h]
  | some p =>
    obtain ⟨k, hk⟩ := Option.isSome_iff_exists.mp (ha p (mem_of_targetProvider hp))
    obtain ⟨s, hget, -⟩ := findProvider_isSome hk
    have hview : targetView rq.config t₀ i target = some ⟨i, target, p, k, s⟩ := by
      simp [targetView, hp, hk, hget]
    have hs := (servable_eq rq i target).1 p k s hp
    have hfind : t.findProvider p.id = some k := by rw [h.findProvider, hk]
    have hstate : (t.onProvider k (healthRefresh · rq.nowNs)).providers[k]? =
        some (healthRefresh s rq.nowNs) := by
      rw [onProvider_getElem?]
      simpa [hget] using h.refresh_getElem? k
    rw [hview]
    by_cases hserve : (TargetView.mk i target p k s).servable rq = true
    · rw [if_pos hserve] at hs
      simp only [candidateAt, hs, routingProvider_of_found t hfind, hstate]
      by_cases hadm : admissible (healthRefresh s rq.nowNs) p = true
      · simp [hadm, TargetView.admitted, TargetView.candidate, hserve, h.onProvider k]
      · simp [hadm, TargetView.admitted, h.onProvider k]
    · rw [if_neg hserve] at hs
      simp [candidateAt, hs, TargetView.admitted, hserve, h]

/-- The walk yields the admitted views of the starting table, in order. -/
theorem candidatesFrom_eq {rq : RouteRequest} {t₀ t : Table} {alloc : ℕ → Bool} {i : ℕ}
    {targets : List RouteTarget} {out : List Candidate} (ha : Assigned rq.config t₀)
    (h : Refreshed rq.nowNs t₀ t) (hi : i + targets.length ≤ routingMaxTargets)
    (hout : out.length ≤ i) :
    (candidatesFrom rq alloc routingMaxTargets i targets t out).2 =
      out ++ ((targetViewsFrom rq.config t₀ i targets).filter (TargetView.admitted rq)).map
        (TargetView.candidate rq) := by
  induction targets generalizing i t out with
  | nil => simp [candidatesFrom, targetViewsFrom]
  | cons target targets ih =>
    simp only [List.length_cons] at hi
    obtain ⟨hnext, hcand⟩ := candidateAt_of_refreshed (alloc i) i target ha h
    have hwide : ¬ routingMaxTargets ≤ i := by omega
    have hroom : ¬ routingMaxTargets ≤ out.length := by omega
    rw [candidatesFrom, if_neg hwide, targetViewsFrom, List.filter_append, List.map_append]
    generalize candidateAt rq (alloc i) i target t = step at hnext hcand
    obtain ⟨t', found⟩ := step
    cases hview : targetView rq.config t₀ i target with
    | none =>
      rw [hview] at hcand
      obtain rfl : found = none := by simpa using hcand
      simpa using ih hnext (by omega) (by omega)
    | some v =>
      rw [hview] at hcand
      by_cases hadm : v.admitted rq = true
      · obtain rfl : found = some (v.candidate rq) := by simpa [Option.filter, hadm] using hcand
        have hlen : (out ++ [v.candidate rq]).length ≤ i + 1 := by simpa using hout
        simpa [hroom, hadm] using ih hnext (by omega) hlen
      · obtain rfl : found = none := by simpa [Option.filter, hadm] using hcand
        simpa [hadm] using ih hnext (by omega) (by omega)

section Views

variable {config : Config} {t : Table} {i : ℕ} {targets : List RouteTarget}

theorem targetView_spec {target : RouteTarget} {v : TargetView}
    (h : targetView config t i target = some v) :
    v.index = i ∧ v.provider ∈ config.providers := by
  simp only [targetView, Option.bind_eq_some_iff, Option.map_eq_some_iff] at h
  obtain ⟨p, hp, k, -, s, -, rfl⟩ := h
  exact ⟨rfl, mem_of_targetProvider hp⟩

theorem mem_targetViewsFrom {v : TargetView} (h : v ∈ targetViewsFrom config t i targets) :
    i ≤ v.index ∧ v.provider ∈ config.providers := by
  induction targets generalizing i with
  | nil => simp [targetViewsFrom] at h
  | cons target targets ih =>
    simp only [targetViewsFrom, List.mem_append, Option.mem_toList] at h
    rcases h with h | h
    · obtain ⟨hindex, hp⟩ := targetView_spec h
      exact ⟨hindex.ge, hp⟩
    · obtain ⟨hle, hp⟩ := ih h
      exact ⟨by omega, hp⟩

/-- The views stand in configured order. -/
theorem targetViewsFrom_pairwise :
    (targetViewsFrom config t i targets).Pairwise fun v w => v.index < w.index := by
  induction targets generalizing i with
  | nil => simp [targetViewsFrom]
  | cons target targets ih =>
    rw [targetViewsFrom, List.pairwise_append]
    refine ⟨?_, ih, ?_⟩
    · cases targetView config t i target <;> simp
    · intro v hv w hw
      have hvi := (targetView_spec (Option.mem_toList.mp hv)).1
      have hwi := (mem_targetViewsFrom hw).1
      omega

end Views

end AsmFlow.Routing
