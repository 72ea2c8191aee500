import AsmFlow.Routing.Health

/-!
# The routing table

Runtime state keyed by identifier. A provider or a route gets its record on
first sight and keeps its place for as long as the daemon runs, so a pointer to
a record is its position here.
-/

namespace AsmFlow.Routing

/-- `AF_ROUTING_MAX_PROVIDERS` and `AF_ROUTING_MAX_ROUTES`. -/
def routingMaxProviders : ℕ := 256
def routingMaxRoutes : ℕ := 256

/-- `af_route_state`. -/
structure RouteState where
  id : Bytes
  cursor : Word
  served : Word
  refused : Word
  deriving DecidableEq, Repr

/-- `af_routing`, without the clock a test may pin. -/
structure Table where
  providers : List ProvState
  routes : List RouteState
  deriving DecidableEq, Repr

namespace Table

def findProvider (t : Table) (id : Bytes) : Option ℕ :=
  t.providers.findIdx? (fun s => s.id == id)

def findRoute (t : Table) (id : Bytes) : Option ℕ :=
  t.routes.findIdx? (fun r => r.id == id)

/-- A write through a provider-state pointer. -/
def onProvider (t : Table) (k : ℕ) (f : ProvState → ProvState) : Table :=
  { t with providers := t.providers.modify k f }

/-- A write through a route-state pointer. -/
def onRoute (t : Table) (k : ℕ) (f : RouteState → RouteState) : Table :=
  { t with routes := t.routes.modify k f }

/-- The number of transfers in flight against provider state `k`. -/
def activeOf (t : Table) (k : ℕ) : ℕ := ((t.providers[k]?).map fun s => s.active.toNat).getD 0

end Table

/-- `af_routing_provider`; `alloc` is whether the copy of the name succeeds. -/
def routingProvider (t : Table) (id : Bytes) (alloc : Bool) : Table × Option ℕ :=
  match t.findProvider id with
  | some k => (t, some k)
  | none =>
    if routingMaxProviders ≤ t.providers.length then (t, none)
    else if alloc = false then (t, none)
    else ({ t with providers := t.providers ++ [.fresh id] }, some t.providers.length)

/-- `af_routing_route`, likewise. -/
def routingRoute (t : Table) (id : Bytes) (alloc : Bool) : Table × Option ℕ :=
  match t.findRoute id with
  | some k => (t, some k)
  | none =>
    if routingMaxRoutes ≤ t.routes.length then (t, none)
    else if alloc = false then (t, none)
    else ({ t with routes := t.routes ++ [⟨id, 0, 0, 0⟩] }, some t.routes.length)

section Lemmas

variable (t : Table)

@[simp] theorem onProvider_routes (k : ℕ) (f : ProvState → ProvState) :
    (t.onProvider k f).routes = t.routes := rfl

@[simp] theorem onRoute_providers (k : ℕ) (f : RouteState → RouteState) :
    (t.onRoute k f).providers = t.providers := rfl

theorem onProvider_getElem? (k j : ℕ) (f : ProvState → ProvState) :
    (t.onProvider k f).providers[j]? =
      (t.providers[j]?).map (fun s => if k = j then f s else s) := by
  simp [Table.onProvider, List.getElem?_modify]

theorem findProvider_isSome {t : Table} {id : Bytes} {k : ℕ} (h : t.findProvider id = some k) :
    ∃ s, t.providers[k]? = some s ∧ s.id = id := by
  obtain ⟨hk, hid, -⟩ := List.findIdx?_eq_some_iff_getElem.mp h
  refine ⟨t.providers[k], List.getElem?_eq_getElem hk, ?_⟩
  simpa using hid

/-- A name that is already in the table is found there, and nothing is added. -/
theorem routingProvider_of_found {id : Bytes} {k : ℕ} (h : t.findProvider id = some k)
    (alloc : Bool) : routingProvider t id alloc = (t, some k) := by
  simp [routingProvider, h]

/-- Everything a lookup by name can do: find, add at the end, or refuse. -/
theorem routingProvider_cases (id : Bytes) (alloc : Bool) :
    (∃ k, t.findProvider id = some k ∧ routingProvider t id alloc = (t, some k)) ∨
      routingProvider t id alloc =
        ({ t with providers := t.providers ++ [.fresh id] }, some t.providers.length) ∨
      routingProvider t id alloc = (t, none) := by
  unfold routingProvider
  cases h : t.findProvider id with
  | some k => exact Or.inl ⟨k, rfl, rfl⟩
  | none =>
    dsimp only
    split_ifs
    · exact Or.inr (Or.inr rfl)
    · exact Or.inr (Or.inr rfl)
    · exact Or.inr (Or.inl rfl)

@[simp] theorem routingRoute_providers (id : Bytes) (alloc : Bool) :
    (routingRoute t id alloc).1.providers = t.providers := by
  unfold routingRoute
  cases t.findRoute id with
  | some k => rfl
  | none =>
    dsimp only
    split_ifs <;> rfl

end Lemmas

section Active

variable {t : Table} {k j : ℕ}

@[simp] theorem onRoute_activeOf (r : ℕ) (f : RouteState → RouteState) (k : ℕ) :
    (t.onRoute r f).activeOf k = t.activeOf k := rfl

@[simp] theorem onProvider_length (f : ProvState → ProvState) :
    (t.onProvider k f).providers.length = t.providers.length := by
  simp [Table.onProvider]

/-- A write that keeps `PS_ACTIVE` keeps every count. -/
theorem onProvider_activeOf_of_eq {f : ProvState → ProvState} (hf : ∀ s, (f s).active = s.active)
    (j k : ℕ) : (t.onProvider j f).activeOf k = t.activeOf k := by
  simp only [Table.activeOf, onProvider_getElem?, Option.map_map]
  congr 2
  funext s
  simp only [Function.comp_apply]
  split_ifs
  · rw [hf]
  · rfl

theorem onProvider_activeOf_of_ne {f : ProvState → ProvState} (h : j ≠ k) :
    (t.onProvider j f).activeOf k = t.activeOf k := by
  simp [Table.activeOf, onProvider_getElem?, h]

theorem lt_length_of_activeOf_pos (h : 0 < t.activeOf k) : k < t.providers.length := by
  by_contra hge
  simp [Table.activeOf, List.getElem?_eq_none (not_lt.mp hge)] at h

theorem onProvider_activeOf_begin (hk : k < t.providers.length)
    (hroom : t.activeOf k + 1 < 2 ^ 64) :
    (t.onProvider k fun s => (healthBegin s).1).activeOf k = t.activeOf k + 1 := by
  obtain ⟨s, hs⟩ : ∃ s, t.providers[k]? = some s := ⟨_, List.getElem?_eq_getElem hk⟩
  simp only [Table.activeOf, onProvider_getElem?, hs, Option.map_some, Option.getD_some,
    if_true, healthBegin_active] at hroom ⊢
  exact Word.toNat_add_one hroom

theorem onProvider_activeOf_end (wasProbe : Bool) :
    (t.onProvider k (healthEnd · wasProbe)).activeOf k = t.activeOf k - 1 := by
  simp only [Table.activeOf, onProvider_getElem?]
  cases t.providers[k]? with
  | none => rfl
  | some s =>
    simp only [Option.map_some, Option.getD_some, if_true, healthEnd_active]
    split_ifs with hzero
    · simp [hzero]
    · exact Word.toNat_sub_one (Word.toNat_pos_of_ne_zero hzero)

theorem routingProvider_activeOf (t : Table) (id : Bytes) (alloc : Bool) (k : ℕ) :
    (routingProvider t id alloc).1.activeOf k = t.activeOf k := by
  rcases routingProvider_cases t id alloc with ⟨j, -, h⟩ | h | h
  · rw [h]
  · rw [h]
    simp only [Table.activeOf, List.getElem?_append, List.getElem?_singleton]
    split_ifs with hlt hlast
    · rfl
    · simp [ProvState.fresh, List.getElem?_eq_none (not_lt.mp hlt)]
    · simp [List.getElem?_eq_none (not_lt.mp hlt)]
  · rw [h]

/-- A pointer that a lookup returns is in range. -/
theorem routingProvider_lt {id : Bytes} {alloc : Bool} {t' : Table} {k : ℕ}
    (h : routingProvider t id alloc = (t', some k)) : k < t'.providers.length := by
  rcases routingProvider_cases t id alloc with ⟨j, hj, heq⟩ | heq | heq
  · obtain ⟨rfl, hjk⟩ := Prod.mk.inj (heq.symm.trans h)
    obtain ⟨s, hs, -⟩ := findProvider_isSome hj
    have hlt := (List.getElem?_eq_some_iff.mp hs).1
    have hk : j = k := Option.some.inj hjk
    omega
  · obtain ⟨rfl, hk⟩ := Prod.mk.inj (heq.symm.trans h)
    have hlen : t.providers.length = k := Option.some.inj hk
    simp only [List.length_append, List.length_singleton]
    omega
  · simp [heq] at h

theorem routingProvider_length_le (t : Table) (id : Bytes) (alloc : Bool) :
    t.providers.length ≤ (routingProvider t id alloc).1.providers.length := by
  rcases routingProvider_cases t id alloc with ⟨j, -, h⟩ | h | h
  · rw [h]
  · simp [h]
  · rw [h]

@[simp] theorem routingRoute_activeOf (id : Bytes) (alloc : Bool) (k : ℕ) :
    (routingRoute t id alloc).1.activeOf k = t.activeOf k := by
  simp [Table.activeOf]

end Active
end AsmFlow.Routing
