import AsmFlow.Repo.Migrations
import AsmFlow.Repo.Sync

/-!
# What a synchronisation leaves in the tables

Every statement but the upsert of a route succeeds. A row that is not written keeps
its stamp, so what becomes of it is decided by the clock.
-/

namespace AsmFlow.Repo

open Http Library

/-- The tables that a synchronisation writes exist. -/
def Content.Migrated (c : Content) : Prop :=
  ∀ name ∈ ["providers", "provider_health", "routes", "route_targets", "mcp_servers"],
    name ∈ c.objects

section Consistency

variable {c : Content}

theorem Content.Consistent.upsertProvider (h : c.Consistent) (r : ProviderRow) :
    (c.upsertProvider r).Consistent := by
  have hkey (k : Bytes) (hk : k ∈ c.providers.map (·.id)) :
      k ∈ (upsert (·.id) replace r c.providers).map (·.id) :=
    (mem_keys_upsert (fun _ _ => rfl) k).mpr (Or.inr hk)
  exact { h with
    providers := nodup_upsert (fun _ _ => rfl) h.providers
    target_provider := fun t ht => hkey _ (h.target_provider t ht)
    health_provider := fun x hx => hkey _ (h.health_provider x hx) }

theorem Content.Consistent.upsertHealth (h : c.Consistent) {r : HealthRow}
    (hr : r.providerId ∈ c.providers.map (·.id)) : (c.upsertHealth r).Consistent := by
  refine { h with
    health := nodup_upsert (fun _ hkey => hkey) h.health
    health_provider := fun x hx => ?_ }
  rcases mem_upsert_retain.mp hx with hx | ⟨rfl, -⟩
  · exact h.health_provider x hx
  · exact hr

/-- A route can be written exactly when no other route has its alias. -/
theorem Content.Consistent.upsertRoute_iff (h : c.Consistent) (r : RouteRow) :
    (c.upsertRoute r).Consistent ↔
      ∀ old ∈ c.routes, old.modelAlias = r.modelAlias → old.id = r.id := by
  constructor
  · intro hr old hold halias
    by_contra hid
    have hself : r ∈ (c.upsertRoute r).routes := mem_upsert_replace.mpr (Or.inl rfl)
    have hother : old ∈ (c.upsertRoute r).routes := mem_upsert_replace.mpr (Or.inr ⟨hold, hid⟩)
    exact hid (congrArg RouteRow.id (List.inj_on_of_nodup_map hr.aliases hother hself halias))
  · intro hfree
    have hkey (k : Bytes) (hk : k ∈ c.routes.map (·.id)) :
        k ∈ (upsert (·.id) replace r c.routes).map (·.id) :=
      (mem_keys_upsert (fun _ _ => rfl) k).mpr (Or.inr hk)
    exact { h with
      routes := nodup_upsert (fun _ _ => rfl) h.routes
      aliases := nodup_map_upsert_replace h.routes h.aliases hfree
      target_route := fun t ht => hkey _ (h.target_route t ht) }

theorem Content.Consistent.withTargets (h : c.Consistent) {targets : List TargetRow}
    (hsub : targets.Sublist c.targets) : ({ c with targets } : Content).Consistent where
  objects := h.objects
  versions := h.versions
  versions_table := h.versions_table
  providers := h.providers
  routes := h.routes
  aliases := h.aliases
  targets := h.targets.sublist (hsub.map _)
  target_route := fun t ht => h.target_route t (hsub.mem ht)
  target_provider := fun t ht => h.target_provider t (hsub.mem ht)
  health := h.health
  health_provider := h.health_provider
  mcpServers := h.mcpServers

theorem Content.Consistent.insertRouteTarget (h : c.Consistent) {t : TargetRow}
    (hkey : t.key ∉ c.targets.map TargetRow.key) (hroute : t.routeId ∈ c.routes.map (·.id))
    (hprovider : t.providerId ∈ c.providers.map (·.id)) : (c.insertRouteTarget t).Consistent := by
  refine { h with
    targets := ?_
    target_route := fun x hx => ?_
    target_provider := fun x hx => ?_ }
  · rw [Content.insertRouteTarget, List.map_append]
    refine List.Nodup.append h.targets (List.nodup_singleton _) ?_
    rw [List.map_singleton, List.disjoint_singleton]
    exact hkey
  · rcases List.mem_append.mp hx with hx | hx
    · exact h.target_route x hx
    · rwa [List.mem_singleton.mp hx]
  · rcases List.mem_append.mp hx with hx | hx
    · exact h.target_provider x hx
    · rwa [List.mem_singleton.mp hx]

theorem Content.Consistent.upsertMcp (h : c.Consistent) (r : McpRow) : (c.upsertMcp r).Consistent :=
  { h with mcpServers := nodup_upsert (fun _ _ => rfl) h.mcpServers }

theorem Content.Consistent.deleteStaleRoutes (h : c.Consistent) (stamp : ℤ) :
    (c.deleteStaleRoutes stamp).Consistent where
  objects := h.objects
  versions := h.versions
  versions_table := h.versions_table
  providers := h.providers
  routes := h.routes.sublist (List.filter_sublist.map _)
  aliases := h.aliases.sublist (List.filter_sublist.map _)
  targets := h.targets.sublist (List.filter_sublist.map _)
  target_route := fun _ ht => of_decide_eq_true (List.mem_filter.mp ht).2
  target_provider := fun t ht => h.target_provider t (List.mem_filter.mp ht).1
  health := h.health
  health_provider := h.health_provider
  mcpServers := h.mcpServers

theorem Content.Consistent.deleteStaleProviders (h : c.Consistent) (stamp : ℤ) :
    (c.deleteStaleProviders stamp).Consistent where
  objects := h.objects
  versions := h.versions
  versions_table := h.versions_table
  providers := h.providers.sublist (List.filter_sublist.map _)
  routes := h.routes
  aliases := h.aliases
  targets := h.targets.sublist (List.filter_sublist.map _)
  target_route := fun t ht => h.target_route t (List.mem_filter.mp ht).1
  target_provider := fun _ ht => of_decide_eq_true (List.mem_filter.mp ht).2
  health := h.health.sublist (List.filter_sublist.map _)
  health_provider := fun _ hx => of_decide_eq_true (List.mem_filter.mp hx).2
  mcpServers := h.mcpServers

theorem Content.Consistent.deleteStaleMcp (h : c.Consistent) (stamp : ℤ) :
    (c.deleteStaleMcp stamp).Consistent :=
  { h with mcpServers := h.mcpServers.sublist (List.filter_sublist.map _) }

end Consistency

/-- The calls can be carried out on this content, and make that one of it. -/
def Leads (cs : List Call) (c c' : Content) : Prop :=
  ∃ (h : c.Consistent) (h' : c'.Consistent), carryOut cs ⟨c, h⟩ = .ok ⟨c', h'⟩

/-- A content that a synchronisation can start from. -/
structure Content.Sound (c : Content) : Prop where
  consistent : c.Consistent
  migrated : c.Migrated

theorem Content.Sound.uses {c : Content} (h : c.Sound) {table : String}
    (htable : table ∈ ["providers", "provider_health", "routes", "route_targets", "mcp_servers"]) :
    ∀ name ∈ [table], name ∈ c.objects := by
  intro name hname
  rw [List.mem_singleton.mp hname]
  exact h.migrated table htable

section Sequences

variable {c c' c'' : Content} {cs cs' : List Call}

theorem Leads.consistent (h : Leads cs c c') : c'.Consistent := h.choose_spec.choose

theorem leads_nil (h : c.Consistent) : Leads [] c c' ↔ c' = c := by
  constructor
  · rintro ⟨_, _, heq⟩
    exact (congrArg Subtype.val (Except.ok.inj heq)).symm
  · rintro rfl
    exact ⟨h, h, rfl⟩

theorem leads_append : Leads (cs ++ cs') c c'' ↔ ∃ c', Leads cs c c' ∧ Leads cs' c' c'' := by
  constructor
  · rintro ⟨h, h'', heq⟩
    rw [carryOut_append] at heq
    cases hfirst : carryOut cs ⟨c, h⟩ with
    | error code =>
      rw [hfirst] at heq
      cases heq
    | ok d =>
      rw [hfirst] at heq
      exact ⟨d.val, ⟨h, d.property, hfirst⟩, d.property, h'', heq⟩
  · rintro ⟨c', ⟨h, h', hfirst⟩, _, h'', hrest⟩
    refine ⟨h, h'', ?_⟩
    rw [carryOut_append, hfirst]
    exact hrest

/-- Calls whose outcome is known, before others. -/
theorem leads_append_of (hfirst : ∀ x, Leads cs c x ↔ x = c') :
    Leads (cs ++ cs') c c'' ↔ Leads cs' c' c'' := by
  rw [leads_append]
  constructor
  · rintro ⟨x, hx, hrest⟩
    rwa [(hfirst x).mp hx] at hrest
  · exact fun hrest => ⟨c', (hfirst c').mpr rfl, hrest⟩

theorem statement_ok {uses : List String} {f : Content → Content} {d d' : Db}
    (h : statement uses f d = .ok d') : d'.val = f d.val := by
  unfold statement at h
  split_ifs at h
  exact (congrArg Subtype.val (Except.ok.inj h)).symm

theorem leads_statement (h : c.Consistent) {uses : List String} (f : Content → Content)
    (huses : ∀ name ∈ uses, name ∈ c.objects) :
    Leads [.sql (statement uses f)] c c' ↔ c' = f c ∧ (f c).Consistent := by
  have hrun : carryOut [.sql (statement uses f)] ⟨c, h⟩ = statement uses f ⟨c, h⟩ :=
    carryOut_single _
  have hstatement : statement uses f ⟨c, h⟩ =
      if hf : (f c).Consistent then .ok ⟨f c, hf⟩ else .error .other := if_pos huses
  rw [hstatement] at hrun
  constructor
  · rintro ⟨_, h', heq⟩
    rw [hrun] at heq
    split_ifs at heq with hf
    exact ⟨(congrArg Subtype.val (Except.ok.inj heq)).symm, hf⟩
  · rintro ⟨rfl, hf⟩
    exact ⟨h, hf, hrun.trans (dif_pos hf)⟩

theorem leads_ready (h : c.Consistent) (n : ℕ) : Leads (List.replicate n .ready) c c' ↔ c' = c := by
  induction n with
  | zero => exact leads_nil h
  | succ n ih =>
    have hready (x : Content) : Leads [.ready] c x ↔ x = c := by
      constructor
      · rintro ⟨_, _, heq⟩
        exact (congrArg Subtype.val (Except.ok.inj heq)).symm
      · rintro rfl
        exact ⟨h, h, rfl⟩
    rw [List.replicate_succ, ← List.singleton_append, leads_append_of hready]
    exact ih

/-- A bound statement is carried out exactly when its constraints hold afterwards. -/
theorem leads_bound (h : c.Consistent) (binds : ℕ) {uses : List String} (f : Content → Content)
    (huses : ∀ name ∈ uses, name ∈ c.objects) :
    Leads (bound binds uses f) c c' ↔ c' = f c ∧ (f c).Consistent :=
  (leads_append_of fun _ => leads_ready h _).trans (leads_statement h f huses)

/-- Preparing a statement only needs its tables. -/
theorem leads_prepare (h : c.Consistent) {uses : List String}
    (huses : ∀ name ∈ uses, name ∈ c.objects) (x : Content) :
    Leads [.sql (statement uses id)] c x ↔ x = c :=
  (leads_statement h id huses).trans (and_iff_left h)

end Sequences

section Phases

variable {c c' : Content} {stamp : ℤ}

/-- The content after these providers have been written. -/
def Content.withProviders (ps : List ProviderEntry) (stamp : ℤ) (c : Content) : Content :=
  { c with
    providers := upsertAll (·.id) replace (ps.map (·.row stamp)) c.providers
    health := upsertAll (·.providerId) retain (ps.map (·.healthRow stamp)) c.health }

theorem Content.Sound.upsertProvider (h : c.Sound) (p : ProviderEntry) :
    ((c.upsertProvider (p.row stamp)).upsertHealth (p.healthRow stamp)).Sound where
  consistent := (h.consistent.upsertProvider _).upsertHealth
    ((mem_keys_upsert (fun _ _ => rfl) _).mpr (Or.inl rfl))
  migrated := h.migrated

theorem leads_providers (h : c.Sound) (ps : List ProviderEntry) :
    Leads (ps.flatMap fun p =>
      bound 9 ["providers"] (Content.upsertProvider (p.row stamp)) ++
        bound 3 ["provider_health"] (Content.upsertHealth (p.healthRow stamp))) c c' ↔
      c' = c.withProviders ps stamp := by
  induction ps generalizing c with
  | nil => exact leads_nil h.consistent
  | cons p ps ih =>
    have hprovider (x : Content) :
        Leads (bound 9 ["providers"] (Content.upsertProvider (p.row stamp))) c x ↔
          x = c.upsertProvider (p.row stamp) :=
      (leads_bound h.consistent 9 _ (h.uses (by decide))).trans
        (and_iff_left (h.consistent.upsertProvider _))
    have hhealth (x : Content) :
        Leads (bound 3 ["provider_health"] (Content.upsertHealth (p.healthRow stamp)))
            (c.upsertProvider (p.row stamp)) x ↔
          x = (c.upsertProvider (p.row stamp)).upsertHealth (p.healthRow stamp) :=
      (leads_bound (h.consistent.upsertProvider _) 3 _
        (h.uses (by decide))).trans
        (and_iff_left (h.upsertProvider p).consistent)
    rw [List.flatMap_cons, List.append_assoc, leads_append_of hprovider, leads_append_of hhealth]
    exact ih (h.upsertProvider p)

/-- The targets of a route, added to the others. -/
theorem leads_targets (h : c.Sound) {ts : List TargetRow}
    (hkeys : (ts.map TargetRow.key).Nodup)
    (hnew : ∀ t ∈ ts, t.key ∉ c.targets.map TargetRow.key)
    (hroute : ∀ t ∈ ts, t.routeId ∈ c.routes.map (·.id))
    (hprovider : ∀ t ∈ ts, t.providerId ∈ c.providers.map (·.id)) :
    Leads (ts.flatMap fun t => bound 6 ["route_targets"] (Content.insertRouteTarget t)) c c' ↔
      c' = { c with targets := c.targets ++ ts } := by
  induction ts generalizing c with
  | nil =>
    rw [List.append_nil]
    exact leads_nil h.consistent
  | cons t ts ih =>
    obtain ⟨ht, hts⟩ := List.nodup_cons.mp hkeys
    have hnext : (c.insertRouteTarget t).Sound :=
      ⟨h.consistent.insertRouteTarget (hnew t List.mem_cons_self) (hroute t List.mem_cons_self)
        (hprovider t List.mem_cons_self), h.migrated⟩
    have hinsert (x : Content) :
        Leads (bound 6 ["route_targets"] (Content.insertRouteTarget t)) c x ↔
          x = c.insertRouteTarget t :=
      (leads_bound h.consistent 6 _ (h.uses (by decide))).trans
        (and_iff_left hnext.consistent)
    have hfresh : ∀ u ∈ ts, u.key ∉ (c.insertRouteTarget t).targets.map TargetRow.key := by
      intro u hu hmem
      rw [Content.insertRouteTarget, List.map_append, List.mem_append, List.map_singleton,
        List.mem_singleton] at hmem
      rcases hmem with hmem | hmem
      · exact hnew u (List.mem_cons_of_mem _ hu) hmem
      · exact ht (hmem ▸ List.mem_map_of_mem hu)
    have hrest := ih (c := c.insertRouteTarget t) hnext hts hfresh
      (fun u hu => hroute u (List.mem_cons_of_mem _ hu))
      (fun u hu => hprovider u (List.mem_cons_of_mem _ hu))
    have happend : c.targets ++ t :: ts = (c.targets ++ [t]) ++ ts := List.append_cons ..
    rw [List.flatMap_cons, leads_append_of hinsert, hrest, happend]
    rfl

/-- The target table after the targets of these routes have been replaced. -/
def replaceTargets (rs : List RouteEntry) (ts : List TargetRow) : List TargetRow :=
  rs.foldl (fun ts r => ts.filter (·.routeId ≠ r.id) ++ r.targetRows) ts

theorem routeId_of_mem_targetRows {r : RouteEntry} {t : TargetRow} (ht : t ∈ r.targetRows) :
    t.routeId = r.id := by
  obtain ⟨i, _, rfl⟩ := List.mem_mapIdx.mp ht
  rfl

theorem providerId_of_mem_targetRows {r : RouteEntry} {t : TargetRow} (ht : t ∈ r.targetRows) :
    ∃ e ∈ r.targets, t.providerId = e.providerId := by
  obtain ⟨i, hi, rfl⟩ := List.mem_mapIdx.mp ht
  exact ⟨r.targets[i], List.getElem_mem hi, rfl⟩

theorem nodup_targetRows (r : RouteEntry) : (r.targetRows.map TargetRow.key).Nodup := by
  have hkeys : r.targetRows.map TargetRow.key =
      (List.range r.targets.length).map fun i => (r.id, i) := by
    apply List.ext_getElem
    · simp [RouteEntry.targetRows]
    · intro i _ _
      simp [RouteEntry.targetRows, TargetRow.key]
  rw [hkeys]
  exact List.nodup_range.map fun i j hij => (Prod.mk.inj hij).2

/-- The targets are those of the routes, and those of other routes. -/
theorem mem_replaceTargets {rs : List RouteEntry} (hids : (rs.map (·.id)).Nodup)
    (ts : List TargetRow) (t : TargetRow) :
    t ∈ replaceTargets rs ts ↔
      (∃ r ∈ rs, t ∈ r.targetRows) ∨ t ∈ ts ∧ t.routeId ∉ rs.map (·.id) := by
  induction rs generalizing ts with
  | nil => simp [replaceTargets]
  | cons r rs ih =>
    obtain ⟨hr, hrs⟩ := List.nodup_cons.mp hids
    refine (ih hrs (ts.filter (·.routeId ≠ r.id) ++ r.targetRows)).trans ?_
    rw [List.mem_append, List.mem_filter, decide_eq_true_eq, List.map_cons, List.mem_cons, not_or]
    constructor
    · rintro (⟨s, hs, ht⟩ | ⟨⟨ht, hne⟩ | ht, hrest⟩)
      · exact Or.inl ⟨s, List.mem_cons_of_mem _ hs, ht⟩
      · exact Or.inr ⟨ht, hne, hrest⟩
      · exact Or.inl ⟨r, List.mem_cons_self, ht⟩
    · rintro (⟨s, hs, ht⟩ | ⟨ht, hne, hrest⟩)
      · rcases List.mem_cons.mp hs with rfl | hs
        · exact Or.inr ⟨Or.inr ht, by rwa [routeId_of_mem_targetRows ht]⟩
        · exact Or.inl ⟨s, hs, ht⟩
      · exact Or.inr ⟨Or.inl ⟨ht, hne⟩, hrest⟩

/-- The content after these routes have been written. -/
def Content.withRoutes (rs : List RouteEntry) (stamp : ℤ) (c : Content) : Content :=
  { c with
    routes := upsertAll (·.id) replace (rs.map (·.row stamp)) c.routes
    targets := replaceTargets rs c.targets }

/-- When a route is written, a row that has its alias is its own, or that of a route
that has been written before it. -/
def AliasesFree (rs : List RouteEntry) (t : List RouteRow) : Prop :=
  ∀ before r after, rs = before ++ r :: after →
    ∀ old ∈ t, old.modelAlias = r.modelAlias → old.id = r.id ∨ old.id ∈ before.map (·.id)

theorem aliasesFree_cons {r : RouteEntry} {rs : List RouteEntry} {t : List RouteRow}
    (haliases : ((r :: rs).map (·.modelAlias)).Nodup) :
    AliasesFree (r :: rs) t ↔
      (∀ old ∈ t, old.modelAlias = r.modelAlias → old.id = r.id) ∧
        AliasesFree rs (upsert (·.id) replace (r.row stamp) t) := by
  have hother : ∀ s ∈ rs, r.modelAlias ≠ s.modelAlias := by
    intro s hs halias
    exact (List.nodup_cons.mp haliases).1 (List.mem_map.mpr ⟨s, hs, halias.symm⟩)
  constructor
  · intro hfree
    constructor
    · intro old hold halias
      rcases hfree [] r rs rfl old hold halias with hid | hid
      · exact hid
      · cases hid
    · intro before s after hrs old hold halias
      rcases mem_upsert_replace.mp hold with rfl | ⟨hold, hid⟩
      · exact absurd halias (hother s (by rw [hrs]; simp))
      · rcases hfree (r :: before) s after (by rw [hrs]; rfl) old hold halias with hself | hmem
        · exact Or.inl hself
        · rcases List.mem_cons.mp hmem with hr | hmem
          · exact absurd hr hid
          · exact Or.inr hmem
  · rintro ⟨hhead, htail⟩ before s after hrs old hold halias
    cases before with
    | nil =>
      obtain ⟨rfl, -⟩ := List.cons.inj hrs
      exact Or.inl (hhead old hold halias)
    | cons first before =>
      obtain ⟨rfl, htail_eq⟩ := List.cons.inj hrs
      by_cases hid : old.id = r.id
      · exact Or.inr (List.mem_cons.mpr (Or.inl hid))
      · have hkept : old ∈ upsert (·.id) replace (r.row stamp) t :=
          mem_upsert_replace.mpr (Or.inr ⟨hold, hid⟩)
        exact (htail before s after htail_eq old hkept halias).imp_right (List.mem_cons_of_mem _)

/-- The targets of a route that is there replace what it had. -/
theorem leads_writeRouteTargets (h : c.Sound) {r : RouteEntry} (hroute : r.id ∈ c.routes.map (·.id))
    (hproviders : ∀ e ∈ r.targets, e.providerId ∈ c.providers.map (·.id)) :
    Leads (writeRouteTargets r) c c' ↔ c' = { c with targets := replaceTargets [r] c.targets } := by
  have hcleared : (c.deleteRouteTargets r.id).Sound :=
    ⟨h.consistent.withTargets List.filter_sublist, h.migrated⟩
  have hdelete (x : Content) :
      Leads (bound 1 ["route_targets"] (Content.deleteRouteTargets r.id)) c x ↔
        x = c.deleteRouteTargets r.id :=
    (leads_bound h.consistent 1 _ (h.uses (by decide))).trans (and_iff_left hcleared.consistent)
  rw [writeRouteTargets, leads_append_of hdelete, ← List.singleton_append,
    leads_append_of (leads_prepare hcleared.consistent (hcleared.uses (by decide))),
    leads_targets hcleared (nodup_targetRows r)]
  · rfl
  · intro t ht hmem
    obtain ⟨old, hold, hkey⟩ := List.mem_map.mp hmem
    have hne : old.routeId ≠ r.id := of_decide_eq_true (List.mem_filter.mp hold).2
    exact hne ((congrArg Prod.fst hkey).trans (routeId_of_mem_targetRows ht))
  · intro t ht
    rwa [routeId_of_mem_targetRows ht]
  · intro t ht
    obtain ⟨e, he, hid⟩ := providerId_of_mem_targetRows ht
    rw [hid]
    exact hproviders e he

theorem leads_routes (h : c.Sound) {rs : List RouteEntry}
    (haliases : (rs.map (·.modelAlias)).Nodup)
    (hproviders : ∀ r ∈ rs, ∀ e ∈ r.targets, e.providerId ∈ c.providers.map (·.id)) :
    Leads (rs.flatMap fun r =>
      bound 9 ["routes"] (Content.upsertRoute (r.row stamp)) ++ writeRouteTargets r) c c' ↔
      AliasesFree rs c.routes ∧ c' = c.withRoutes rs stamp := by
  induction rs generalizing c with
  | nil =>
    refine (leads_nil h.consistent).trans (and_iff_right ?_).symm
    intro before r after hnil
    simp at hnil
  | cons r rs ih =>
    rw [List.flatMap_cons, List.append_assoc, leads_append, aliasesFree_cons haliases]
    have hupsert (x : Content) :
        Leads (bound 9 ["routes"] (Content.upsertRoute (r.row stamp))) c x ↔
          x = c.upsertRoute (r.row stamp) ∧
            ∀ old ∈ c.routes, old.modelAlias = r.modelAlias → old.id = r.id := by
      rw [leads_bound h.consistent 9 _ (h.uses (by decide)), h.consistent.upsertRoute_iff]
      rfl
    have hrest (hhead : ∀ old ∈ c.routes, old.modelAlias = r.modelAlias → old.id = r.id) :
        Leads (writeRouteTargets r ++ rs.flatMap fun r =>
            bound 9 ["routes"] (Content.upsertRoute (r.row stamp)) ++ writeRouteTargets r)
          (c.upsertRoute (r.row stamp)) c' ↔
        AliasesFree rs (c.upsertRoute (r.row stamp)).routes ∧
          c' = c.withRoutes (r :: rs) stamp := by
      have hwritten : (c.upsertRoute (r.row stamp)).Sound :=
        ⟨(h.consistent.upsertRoute_iff _).mpr hhead, h.migrated⟩
      have htargets (x : Content) :
          Leads (writeRouteTargets r) (c.upsertRoute (r.row stamp)) x ↔
            x = { c.upsertRoute (r.row stamp) with targets := replaceTargets [r] c.targets } :=
        leads_writeRouteTargets hwritten ((mem_keys_upsert (fun _ _ => rfl) _).mpr (Or.inl rfl))
          (hproviders r List.mem_cons_self)
      rw [leads_append_of htargets]
      exact ih ⟨((htargets _).mpr rfl).consistent, h.migrated⟩ (List.nodup_cons.mp haliases).2
        fun s hs => hproviders s (List.mem_cons_of_mem _ hs)
    constructor
    · rintro ⟨x, hx, htail⟩
      obtain ⟨rfl, hhead⟩ := (hupsert x).mp hx
      obtain ⟨hfree, heq⟩ := (hrest hhead).mp htail
      exact ⟨⟨hhead, hfree⟩, heq⟩
    · rintro ⟨⟨hhead, hfree⟩, heq⟩
      exact ⟨_, (hupsert _).mpr ⟨rfl, hhead⟩, (hrest hhead).mpr ⟨hfree, heq⟩⟩

/-- The content after these servers have been written. -/
def Content.withMcpServers (ms : List McpEntry) (stamp : ℤ) (c : Content) : Content :=
  { c with mcpServers := upsertAll McpRow.id Content.mergeMcp (ms.map (·.row stamp)) c.mcpServers }

theorem leads_mcpServers (h : c.Sound) (ms : List McpEntry) :
    Leads (ms.flatMap fun m => bound 6 ["mcp_servers"] (Content.upsertMcp (m.row stamp))) c c' ↔
      c' = c.withMcpServers ms stamp := by
  induction ms generalizing c with
  | nil => exact leads_nil h.consistent
  | cons m ms ih =>
    have hnext : (c.upsertMcp (m.row stamp)).Sound := ⟨h.consistent.upsertMcp _, h.migrated⟩
    have hupsert (x : Content) :
        Leads (bound 6 ["mcp_servers"] (Content.upsertMcp (m.row stamp))) c x ↔
          x = c.upsertMcp (m.row stamp) :=
      (leads_bound h.consistent 6 _ (h.uses (by decide))).trans (and_iff_left hnext.consistent)
    rw [List.flatMap_cons, leads_append_of hupsert]
    exact ih hnext

/-- What is left of a content when the entries with an older stamp are deleted. -/
def Content.deleteStale (stamp : ℤ) (c : Content) : Content :=
  ((c.deleteStaleRoutes stamp).deleteStaleProviders stamp).deleteStaleMcp stamp

theorem leads_deleteStale (h : c.Sound) :
    Leads (bound 1 ["routes"] (Content.deleteStaleRoutes stamp) ++
      (bound 1 ["providers"] (Content.deleteStaleProviders stamp) ++
        bound 1 ["mcp_servers"] (Content.deleteStaleMcp stamp))) c c' ↔
      c' = c.deleteStale stamp := by
  have h₁ : (c.deleteStaleRoutes stamp).Sound := ⟨h.consistent.deleteStaleRoutes stamp, h.migrated⟩
  have h₂ : ((c.deleteStaleRoutes stamp).deleteStaleProviders stamp).Sound :=
    ⟨h₁.consistent.deleteStaleProviders stamp, h.migrated⟩
  have hroutes (x : Content) :
      Leads (bound 1 ["routes"] (Content.deleteStaleRoutes stamp)) c x ↔
        x = c.deleteStaleRoutes stamp :=
    (leads_bound h.consistent 1 _ (h.uses (by decide))).trans (and_iff_left h₁.consistent)
  have hproviders (x : Content) :
      Leads (bound 1 ["providers"] (Content.deleteStaleProviders stamp))
          (c.deleteStaleRoutes stamp) x ↔
        x = (c.deleteStaleRoutes stamp).deleteStaleProviders stamp :=
    (leads_bound h₁.consistent 1 _ (h₁.uses (by decide))).trans (and_iff_left h₂.consistent)
  rw [leads_append_of hroutes, leads_append_of hproviders]
  exact (leads_bound h₂.consistent 1 _ (h₂.uses (by decide))).trans
    (and_iff_left (h₂.consistent.deleteStaleMcp stamp))

/-- The content after a synchronisation. -/
def Content.synced (cfg : Snapshot) (stamp : ℤ) (c : Content) : Content :=
  (((c.withProviders cfg.providers stamp).withRoutes cfg.routes stamp).withMcpServers
    cfg.mcpServers stamp).deleteStale stamp

/-- A synchronisation can be carried out exactly when no alias is in the way. -/
theorem leads_syncCalls (h : c.Sound) (cfg : Snapshot) :
    Leads (syncCalls cfg stamp) c c' ↔
      AliasesFree cfg.routes c.routes ∧ c' = c.synced cfg stamp := by
  set c₁ := c.withProviders cfg.providers stamp with hc₁
  set c₂ := c₁.withRoutes cfg.routes stamp with hc₂
  have hproviders (x : Content) : Leads (writeProviders cfg stamp) c x ↔ x = c₁ := by
    rw [writeProviders, ← List.singleton_append, List.append_assoc,
      leads_append_of (leads_prepare h.consistent (h.uses (by decide))),
      leads_append_of (leads_prepare h.consistent (h.uses (by decide)))]
    exact leads_providers h cfg.providers
  have h₁ : c₁.Sound := ⟨((hproviders _).mpr rfl).consistent, h.migrated⟩
  have hroutes (x : Content) :
      Leads (writeRoutes cfg stamp) c₁ x ↔ AliasesFree cfg.routes c.routes ∧ x = c₂ := by
    rw [writeRoutes, ← List.singleton_append,
      leads_append_of (leads_prepare h₁.consistent (h₁.uses (by decide)))]
    refine leads_routes h₁ cfg.route_aliases fun r hr e he => ?_
    refine (mem_keys_upsertAll (fun _ _ _ => rfl) _).mpr (Or.inl ?_)
    obtain ⟨p, hp, hid⟩ := List.mem_map.mp (cfg.target_ids r hr e he)
    exact List.mem_map.mpr ⟨p.row stamp, List.mem_map_of_mem hp, hid⟩
  have hrest (h₂ : c₂.Sound) :
      Leads (writeMcpServers cfg stamp ++ (bound 1 ["routes"] (Content.deleteStaleRoutes stamp) ++
        (bound 1 ["providers"] (Content.deleteStaleProviders stamp) ++
          bound 1 ["mcp_servers"] (Content.deleteStaleMcp stamp)))) c₂ c' ↔
        c' = c.synced cfg stamp := by
    have hservers (x : Content) :
        Leads (writeMcpServers cfg stamp) c₂ x ↔ x = c₂.withMcpServers cfg.mcpServers stamp := by
      rw [writeMcpServers, ← List.singleton_append,
        leads_append_of (leads_prepare h₂.consistent (h₂.uses (by decide)))]
      exact leads_mcpServers h₂ cfg.mcpServers
    rw [leads_append_of hservers]
    exact leads_deleteStale ⟨((hservers _).mpr rfl).consistent, h.migrated⟩
  rw [syncCalls, List.append_assoc, List.append_assoc, List.append_assoc, List.append_assoc,
    leads_append_of hproviders, leads_append]
  constructor
  · rintro ⟨x, hx, htail⟩
    obtain ⟨hfree, rfl⟩ := (hroutes x).mp hx
    exact ⟨hfree, (hrest ⟨hx.consistent, h.migrated⟩).mp htail⟩
  · rintro ⟨hfree, rfl⟩
    have hwritten := (hroutes c₂).mpr ⟨hfree, rfl⟩
    exact ⟨c₂, hwritten, (hrest ⟨hwritten.consistent, h.migrated⟩).mpr rfl⟩

end Phases

/-- The tables hold what the configuration says, and nothing else. -/
structure Exact (cfg : Snapshot) (stamp : ℤ) (c : Content) : Prop where
  providers : ∀ x, x ∈ c.providers ↔ x ∈ cfg.providers.map (·.row stamp)
  routes : ∀ x, x ∈ c.routes ↔ x ∈ cfg.routes.map (·.row stamp)
  targets : ∀ x, x ∈ c.targets ↔ ∃ r ∈ cfg.routes, x ∈ r.targetRows
  mcpServers : ∀ x, x ∈ c.mcpServers.map (·.columns) ↔ x ∈ cfg.mcpServers.map (·.columns stamp)

/-- A provider that stays keeps its health row, with what the operator has set in it. -/
def OperatorKept (before after : Content) : Prop :=
  ∀ x ∈ before.health, x.providerId ∈ after.providers.map (·.id) → x ∈ after.health

/-- What the configuration does not name has an older stamp. -/
structure Outdated (cfg : Snapshot) (stamp : ℤ) (c : Content) : Prop where
  providers : ∀ x ∈ c.providers, x.id ∉ cfg.providers.map (·.id) → x.updatedAtMs < stamp
  routes : ∀ x ∈ c.routes, x.id ∉ cfg.routes.map (·.id) → x.updatedAtMs < stamp
  mcpServers : ∀ x ∈ c.mcpServers, x.id ∉ cfg.mcpServers.map (·.id) → x.columns.updatedAtMs < stamp

section Exactness

variable {c : Content} {stamp : ℤ} (cfg : Snapshot)

/-- In a table whose rows are stamped, what is left is exactly what was written, where
the rest has an older stamp. -/
theorem mem_stamped_iff {ρ : Type} {key : ρ → Bytes} {stampOf : ρ → ℤ} {rs t : List ρ}
    (hkeys : (rs.map key).Nodup) (hstamp : ∀ r ∈ rs, stampOf r = stamp) :
    (∀ x, x ∈ (upsertAll key replace rs t).filter (¬ stampOf · < stamp) ↔ x ∈ rs) ↔
      ∀ x ∈ t, key x ∉ rs.map key → stampOf x < stamp := by
  have hpass : ∀ r ∈ rs, decide (¬ stampOf r < stamp) = true := by
    intro r hr
    rw [hstamp r hr, decide_eq_true_eq]
    exact lt_irrefl stamp
  have hiff := mem_filter_upsertAll_iff (t := t) hkeys hpass
  simp only [decide_eq_false_iff_not, not_not] at hiff
  exact hiff

theorem providers_exact_iff :
    (∀ x, x ∈ (c.synced cfg stamp).providers ↔ x ∈ cfg.providers.map (·.row stamp)) ↔
      ∀ x ∈ c.providers, x.id ∉ cfg.providers.map (·.id) → x.updatedAtMs < stamp := by
  have hids : cfg.providers.map (·.id) = (cfg.providers.map (·.row stamp)).map (·.id) := by
    rw [List.map_map]
    rfl
  rw [hids]
  refine mem_stamped_iff (hids ▸ cfg.provider_ids) fun r hr => ?_
  obtain ⟨p, -, rfl⟩ := List.mem_map.mp hr
  rfl

theorem routes_exact_iff :
    (∀ x, x ∈ (c.synced cfg stamp).routes ↔ x ∈ cfg.routes.map (·.row stamp)) ↔
      ∀ x ∈ c.routes, x.id ∉ cfg.routes.map (·.id) → x.updatedAtMs < stamp := by
  have hids : cfg.routes.map (·.id) = (cfg.routes.map (·.row stamp)).map (·.id) := by
    rw [List.map_map]
    rfl
  rw [hids]
  refine mem_stamped_iff (hids ▸ cfg.route_ids) fun r hr => ?_
  obtain ⟨p, -, rfl⟩ := List.mem_map.mp hr
  rfl

theorem mcpServers_exact_iff :
    (∀ x, x ∈ (c.synced cfg stamp).mcpServers.map (·.columns) ↔
        x ∈ cfg.mcpServers.map (·.columns stamp)) ↔
      ∀ x ∈ c.mcpServers, x.id ∉ cfg.mcpServers.map (·.id) → x.columns.updatedAtMs < stamp := by
  have hids : cfg.mcpServers.map (·.id) = (cfg.mcpServers.map (·.columns stamp)).map (·.id) := by
    rw [List.map_map]
    rfl
  have hcolumns : (c.synced cfg stamp).mcpServers.map (·.columns) =
      (upsertAll (·.id) replace (cfg.mcpServers.map (·.columns stamp))
        (c.mcpServers.map (·.columns))).filter (¬ ·.updatedAtMs < stamp) := by
    have hmerge : (upsertAll McpRow.id Content.mergeMcp (cfg.mcpServers.map (·.row stamp))
        c.mcpServers).map McpRow.columns =
        upsertAll McpColumns.id replace ((cfg.mcpServers.map (·.row stamp)).map McpRow.columns)
          (c.mcpServers.map McpRow.columns) :=
      @map_upsertAll _ _ _ _ McpRow.id Content.mergeMcp McpRow.columns McpColumns.id (fun _ => rfl)
        (fun _ _ _ => rfl) _ _
    rw [List.map_map] at hmerge
    calc (c.synced cfg stamp).mcpServers.map McpRow.columns
      _ = ((upsertAll McpRow.id Content.mergeMcp (cfg.mcpServers.map (·.row stamp))
          c.mcpServers).map McpRow.columns).filter (¬ ·.updatedAtMs < stamp) := by
        rw [List.filter_map]
        rfl
      _ = _ := by
        rw [hmerge]
        rfl
  have hstamp : ∀ r ∈ cfg.mcpServers.map (·.columns stamp), r.updatedAtMs = stamp := by
    intro r hr
    obtain ⟨m, -, rfl⟩ := List.mem_map.mp hr
    rfl
  rw [hcolumns, hids]
  refine (mem_stamped_iff (hids ▸ cfg.mcp_ids) hstamp).trans ?_
  rw [List.forall_mem_map]
  rfl

/-- With the routes and the providers exact, so are the targets. -/
theorem targets_exact
    (hroutes : ∀ x, x ∈ (c.synced cfg stamp).routes ↔ x ∈ cfg.routes.map (·.row stamp))
    (hproviders : ∀ x, x ∈ (c.synced cfg stamp).providers ↔ x ∈ cfg.providers.map (·.row stamp))
    (x : TargetRow) : x ∈ (c.synced cfg stamp).targets ↔ ∃ r ∈ cfg.routes, x ∈ r.targetRows := by
  have hrouteIds : ∀ id, id ∈ (c.synced cfg stamp).routes.map (·.id) ↔ id ∈ cfg.routes.map (·.id) := by
    intro id
    rw [List.mem_map, List.mem_map]
    simp only [hroutes, List.mem_map]
    constructor
    · rintro ⟨_, ⟨r, hr, rfl⟩, rfl⟩
      exact ⟨r, hr, rfl⟩
    · rintro ⟨r, hr, rfl⟩
      exact ⟨_, ⟨r, hr, rfl⟩, rfl⟩
  have hproviderIds : ∀ id,
      id ∈ (c.synced cfg stamp).providers.map (·.id) ↔ id ∈ cfg.providers.map (·.id) := by
    intro id
    rw [List.mem_map, List.mem_map]
    simp only [hproviders, List.mem_map]
    constructor
    · rintro ⟨_, ⟨r, hr, rfl⟩, rfl⟩
      exact ⟨r, hr, rfl⟩
    · rintro ⟨r, hr, rfl⟩
      exact ⟨_, ⟨r, hr, rfl⟩, rfl⟩
  have hmem : x ∈ (c.synced cfg stamp).targets ↔ x ∈ replaceTargets cfg.routes c.targets ∧
      x.routeId ∈ (c.synced cfg stamp).routes.map (·.id) ∧
        x.providerId ∈ (c.synced cfg stamp).providers.map (·.id) := by
    refine List.mem_filter.trans ?_
    rw [decide_eq_true_eq]
    refine (and_congr_left' (List.mem_filter.trans ?_)).trans and_assoc
    rw [decide_eq_true_eq]
    rfl
  rw [hmem, mem_replaceTargets cfg.route_ids, hrouteIds, hproviderIds]
  constructor
  · rintro ⟨hx | ⟨-, hother⟩, hroute, -⟩
    · exact hx
    · exact absurd hroute hother
  · rintro ⟨r, hr, hx⟩
    obtain ⟨e, he, hid⟩ := providerId_of_mem_targetRows hx
    refine ⟨Or.inl ⟨r, hr, hx⟩, ?_, ?_⟩
    · rw [routeId_of_mem_targetRows hx]
      exact List.mem_map_of_mem hr
    · rw [hid]
      exact cfg.target_ids r hr e he

theorem exact_synced_iff : Exact cfg stamp (c.synced cfg stamp) ↔ Outdated cfg stamp c := by
  constructor
  · intro h
    exact ⟨(providers_exact_iff cfg).mp h.providers, (routes_exact_iff cfg).mp h.routes,
      (mcpServers_exact_iff cfg).mp h.mcpServers⟩
  · intro h
    have hproviders := (providers_exact_iff cfg).mpr h.providers
    have hroutes := (routes_exact_iff cfg).mpr h.routes
    exact ⟨hproviders, hroutes, targets_exact cfg hroutes hproviders,
      (mcpServers_exact_iff cfg).mpr h.mcpServers⟩

theorem operatorKept_synced : OperatorKept c (c.synced cfg stamp) := by
  intro x hx hstays
  exact List.mem_filter.mpr ⟨mem_upsertAll_retain hx, decide_eq_true hstays⟩

end Exactness

/-- A handle on a database whose tables exist, after synchronisations and updates of the
operator. -/
inductive Reached : Handle → Prop
  | migrated {d : Db} : d.val.Migrated → Reached (.opened d)
  | sync {h : Handle} (cfg : Snapshot) (clock : Except Mcp.Fault ℤ) :
    Reached h → Reached (h.syncConfig cfg clock .none).1
  | operator {h : Handle} (id : Bytes) (disabled : Bool) (clock : Except Mcp.Fault ℤ) :
    Reached h → Reached (h.setOperatorDisabled id disabled clock []).1

section Runs

variable {h : Handle}

theorem carryOut_syncCalls {d d' : Db} (hd : d.val.Migrated) {cfg : Snapshot} {stamp : ℤ}
    (hcarry : carryOut (syncCalls cfg stamp) d = .ok d') :
    AliasesFree cfg.routes d.val.routes ∧ d'.val = d.val.synced cfg stamp :=
  (leads_syncCalls ⟨d.property, hd⟩ cfg).mp ⟨d.property, d'.property, hcarry⟩

/-- In any run the handle is idle between the calls, and the tables stay. -/
theorem Reached.ready (hrun : Reached h) :
    h.Idle ∧ h.writesBlocked = false ∧ h.engine.committed.val.Migrated := by
  induction hrun with
  | migrated hd => exact ⟨⟨rfl, rfl⟩, rfl, hd⟩
  | @sync h cfg clock hrun ih =>
    obtain ⟨hidle, hopen, hmigrated⟩ := ih
    cases clock with
    | error f =>
      have hstays : (h.syncConfig cfg (.error f) .none).1 = h := by
        rw [Handle.syncConfig, hopen]
        rfl
      rw [hstays]
      exact ⟨hidle, hopen, hmigrated⟩
    | ok stamp =>
      have hcall : h.syncConfig cfg (.ok stamp) .none = h.transact (syncCalls cfg stamp) .none := by
        rw [Handle.syncConfig, hopen]
        rfl
      obtain ⟨hidle', hblocked, ⟨-, hsame⟩ | ⟨-, hcarry⟩⟩ :=
        transact_spec hidle (syncCalls cfg stamp) (a := .none) trivial
      · rw [hcall]
        exact ⟨hidle', hblocked.trans hopen, hsame ▸ hmigrated⟩
      · rw [hcall]
        refine ⟨hidle', hblocked.trans hopen, ?_⟩
        rw [(carryOut_syncCalls hmigrated hcarry).2]
        exact hmigrated
  | @operator h id disabled clock hrun ih =>
    obtain ⟨hidle, hopen, hmigrated⟩ := ih
    cases clock with
    | error f =>
      have hstays : (h.setOperatorDisabled id disabled (.error f) []).1 = h := by
        rw [Handle.setOperatorDisabled, hopen]
        rfl
      rw [hstays]
      exact ⟨hidle, hopen, hmigrated⟩
    | ok now =>
      have hcall : h.setOperatorDisabled id disabled (.ok now) [] = h.askAll
          (bound 3 ["provider_health"] (Content.setOperatorDisabled id disabled now)) [] := by
        rw [Handle.setOperatorDisabled, hopen]
        rfl
      have hkeep : ∀ c ∈ bound 3 ["provider_health"] (Content.setOperatorDisabled id disabled now),
          ∀ d d', c.effect d = .ok d' → d.val.Migrated → d'.val.Migrated := by
        intro c hc d d' heffect hd
        rcases List.mem_append.mp hc with hc | hc
        · rw [(List.mem_replicate.mp hc).2] at heffect
          rwa [← Except.ok.inj heffect]
        · rw [List.mem_singleton.mp hc] at heffect
          rw [statement_ok heffect]
          exact hd
      obtain ⟨hidle', hblocked, hkept⟩ := askAll_idle hidle hmigrated hkeep []
      rw [hcall]
      exact ⟨hidle', hblocked.trans hopen, hkept⟩

/-- Where nothing fails, a synchronisation does what it is for exactly when every row
that is not configured has an older stamp, and no alias is in the way. -/
theorem syncConfig_exact_iff (hrun : Reached h) (cfg : Snapshot) (stamp : ℤ) :
    let r := h.syncConfig cfg (.ok stamp) .none
    (r.2 = Status.ok ∧ Exact cfg stamp r.1.engine.committed.val ∧
        OperatorKept h.engine.committed.val r.1.engine.committed.val) ↔
      Outdated cfg stamp h.engine.committed.val ∧
        AliasesFree cfg.routes h.engine.committed.val.routes := by
  obtain ⟨hidle, hopen, hmigrated⟩ := hrun.ready
  have hcall : h.syncConfig cfg (.ok stamp) .none = h.transact (syncCalls cfg stamp) .none := by
    rw [Handle.syncConfig, hopen]
    rfl
  obtain ⟨-, -, hend⟩ := transact_spec hidle (syncCalls cfg stamp) (a := .none) trivial
  have hdone := transact_none hidle (syncCalls cfg stamp)
  rw [← hcall] at hend hdone
  intro r
  constructor
  · rintro ⟨hok, hexact, -⟩
    obtain ⟨d, hcarry⟩ := hdone.mp hok
    obtain ⟨hneg, -⟩ | ⟨-, hcommitted⟩ := hend
    · rw [hok] at hneg
      exact absurd hneg (by decide : ¬ Status.ok < 0)
    · obtain ⟨hfree, hsynced⟩ := carryOut_syncCalls hmigrated hcommitted
      rw [hsynced] at hexact
      exact ⟨(exact_synced_iff cfg).mp hexact, hfree⟩
  · rintro ⟨houtdated, hfree⟩
    obtain ⟨_, hd, hcarry⟩ :=
      (leads_syncCalls ⟨h.engine.committed.property, hmigrated⟩ cfg).mpr ⟨hfree, rfl⟩
    have hok := hdone.mpr ⟨_, hcarry⟩
    obtain ⟨hneg, -⟩ | ⟨-, hcommitted⟩ := hend
    · rw [hok] at hneg
      exact absurd hneg (by decide : ¬ Status.ok < 0)
    · rw [(carryOut_syncCalls hmigrated hcommitted).2]
      exact ⟨hok, (exact_synced_iff cfg).mpr houtdated, operatorKept_synced cfg⟩

/-- A configuration of one provider and one route to it. -/
def oneRoute (id modelAlias : String) : Snapshot where
  providers := [⟨ascii "p", ascii "P", .openaiChat, ascii "http://p", true, true, 1, 0⟩]
  routes := [⟨ascii id, ascii modelAlias, true, 1, .priority, false, 1, 0,
    [⟨ascii "p", ascii "m", 0, 1⟩]⟩]
  mcpServers := []
  provider_ids := List.nodup_singleton _
  route_ids := List.nodup_singleton _
  route_aliases := List.nodup_singleton _
  target_ids := by simp
  mcp_ids := List.nodup_nil

theorem migrated_reached : Reached (.opened .migrated) :=
  .migrated (by
    unfold Content.Migrated
    decide)

theorem syncConfig_exact_iff_first :
    let r := (Handle.opened .migrated).syncConfig (oneRoute "r" "fast") (.ok 2000) .none
    r.2 = Status.ok ∧ Exact (oneRoute "r" "fast") 2000 r.1.engine.committed.val ∧
      OperatorKept Db.migrated.val r.1.engine.committed.val :=
  (syncConfig_exact_iff migrated_reached (oneRoute "r" "fast") 2000).mpr
    ⟨⟨List.forall_mem_nil _, List.forall_mem_nil _, List.forall_mem_nil _⟩,
      fun _ _ _ _ => List.forall_mem_nil _⟩

/-- The handle after the first configuration. -/
def firstSync : Handle :=
  ((Handle.opened .migrated).syncConfig (oneRoute "r" "fast") (.ok 2000) .none).1

/-- A route that takes over the alias of one that is gone cannot be written; a route that
is gone stays, if the clock has not advanced. -/
theorem syncConfig_not_exact :
    Reached firstSync ∧
      (firstSync.syncConfig (oneRoute "s" "fast") (.ok 3000) .none).2 = Status.db ∧
        let r := firstSync.syncConfig (oneRoute "s" "slow") (.ok 2000) .none
        r.2 = Status.ok ∧ ¬ Exact (oneRoute "s" "slow") 2000 r.1.engine.committed.val := by
  refine ⟨.sync _ _ migrated_reached, by decide, by decide, fun hexact => ?_⟩
  have hkept : ∀ x ∈ (oneRoute "r" "fast").routes.map (·.row 2000),
      x ∈ (firstSync.syncConfig (oneRoute "s" "slow") (.ok 2000) .none).1.engine.committed.val.routes := by
    decide
  have hnew : ∀ x ∈ (oneRoute "r" "fast").routes.map (·.row 2000),
      x ∈ (oneRoute "s" "slow").routes.map (·.row 2000) :=
    fun x hx => (hexact.routes x).mp (hkept x hx)
  revert hnew
  decide

end Runs
end AsmFlow.Repo
