import AsmFlow.Config.Collections
import AsmFlow.Json.Depth

/-!
# Parsing a configuration

`af_config_parse`: what becomes of the document and of the snapshot at every exit, and
what the snapshot that it publishes guarantees to the code that routes by it.
-/

namespace AsmFlow.Config

open Json Library

def keysRoot : List String :=
  ["schema_version", "listener", "control", "storage", "logging", "limits", "providers",
    "routes", "mcp_servers"]

/-- The ceilings of the first parse. -/
def bootstrapLimits : Limits := ⟨4 * 1024 * 1024, 256, 4 * 1024 * 1024, 4096⟩

/-- `af_config_hash_bytes`. -/
def hashBytes (buf : Bytes) : Word :=
  buf.foldl (fun h b => (h ^^^ b.toUInt64) * 0x00000100000001B3) 0xcbf29ce484222325

/-- What `af_config_parse` takes and gives back. -/
inductive Event
  | docTaken
  | docFreed
  | configTaken
  | configDropped
  | outWritten
  deriving DecidableEq, Repr

/-- A return of `af_config_parse`. -/
structure Parsed where
  status : Status
  fail : Option Fail
  events : List Event
  out : Option Snapshot

/-- `.release_doc`. -/
def releaseDoc (f : Fail) : Parsed := ⟨f.code, some f, [.docTaken, .docFreed], none⟩

/-- `.release_config`. -/
def releaseConfig (f : Fail) : Parsed :=
  ⟨f.code, some f, [.docTaken, .configTaken, .configDropped, .docFreed], none⟩

/-- `.parse_failed`. -/
def parseFailed (e : Status) (neg : e < 0) : Parsed :=
  let message :=
    if e = Status.jsonDepth then "JSON nesting exceeds the permitted depth"
    else if e = Status.jsonSize then "the file or one of its strings exceeds the permitted size"
    else "the file is not valid JSON"
  ⟨e, some (failAt e message neg), [], none⟩

/-- The checks before there is a snapshot. -/
def checkRoot (root : Mcp.Json) : Except Fail Unit := do
  rejectPlaintext root
  checkKeys root keysRoot
  let _ ← reqInt root "schema_version" 1 1
  return ()

/-- The sections, in their order; routes come after the providers they name. -/
def loadSnapshot (L : Loaders) (arena : Arena) (root : Mcp.Json) (hash : Word) :
    Except Fail Snapshot := do
  L.sections root
  let limSseEventMax ← L.limits root
  let providers ← loadProviders L arena root
  let routes ← loadRoutes providers arena root
  let mcpServers ← loadMcpServers L arena root
  return ⟨providers, routes, mcpServers, limSseEventMax, hash⟩

/-- `af_config_parse`; `configNew` is what `af_config_new` answers. -/
def configParse (L : Loaders) (arena : Arena) (configNew : Except Fail Unit)
    (loadb : Bytes → Option Mcp.Json) (granted : Bool) (buf : Bytes) : Parsed :=
  match hdoc : parseDoc loadb granted bootstrapLimits buf with
  | .error e => parseFailed e (parseDoc_neg hdoc)
  | .ok root =>
    if root.isObject = false then
      releaseDoc (failAt Status.cfgSchema "value must be a JSON object" cfgSchema_neg)
    else
      match checkRoot root with
      | .error f => releaseDoc f
      | .ok () =>
        match configNew with
        | .error f => releaseDoc f
        | .ok () =>
          match loadSnapshot L arena root (hashBytes buf) with
          | .error f => releaseConfig f
          | .ok cfg =>
            ⟨Status.ok, none, [.docTaken, .configTaken, .docFreed, .outWritten], some cfg⟩

/-! ## What the accessors return -/

section Accessors

variable {v : Mcp.Json} {key : String}

theorem require_ok {x : Mcp.Json} (h : require v key = .ok x) : v.member key = some x := by
  unfold require at h
  split_ifs at h
  cases hmember : v.member key with
  | none =>
    rw [hmember] at h
    cases h
  | some y =>
    rw [hmember] at h
    exact congrArg some (Except.ok.inj h)

theorem reqStr_ok {s : String} (h : reqStr v key = .ok s) : v.getString key = some s := by
  obtain ⟨x, hx, hs⟩ := of_bind_ok h
  rw [Mcp.Json.getString, require_ok hx]
  cases x with
  | string t => exact congrArg some (Except.ok.inj hs)
  | _ => cases hs

theorem reqArr_ok {min max : ℕ} {xs : List Mcp.Json} (h : reqArr v key min max = .ok xs) :
    v.getArray key = some xs ∧ min ≤ xs.length := by
  obtain ⟨x, hx, hxs⟩ := of_bind_ok h
  rw [Mcp.Json.getArray, require_ok hx]
  cases x with
  | array ys =>
    dsimp only at hxs
    split_ifs at hxs with hmin hmax
    obtain rfl := Except.ok.inj hxs
    exact ⟨rfl, not_lt.mp hmin⟩
  | _ => cases hxs

theorem reqInt_ok {min max n : ℤ} (h : reqInt v key min max = .ok n) : min ≤ n ∧ n ≤ max := by
  obtain ⟨x, -, hn⟩ := of_bind_ok h
  cases x with
  | integer m =>
    dsimp only at hn
    split_ifs at hn with hmin hmax
    obtain rfl := Except.ok.inj hn
    exact ⟨not_lt.mp hmin, not_lt.mp hmax⟩
  | _ => cases hn

theorem check_ok {ok : Bool} {f : Fail} {u : Unit} (h : check ok f = .ok u) : ok = true := by
  unfold check at h
  split_ifs at h with hok
  exact hok

theorem under_ok {α : Type} {seg : Seg} {r : Except Fail α} {a : α} (h : under seg r = .ok a) :
    r = .ok a := of_mapError_ok h

theorem loadObj_ok {α : Type} {load : Mcp.Json → Except Fail α} {a : α}
    (h : loadObj v key load = .ok a) : ∃ x, load x = .ok a := by
  obtain ⟨x, -, hx⟩ := of_bind_ok h
  exact ⟨x, under_ok hx⟩

end Accessors

/-! ## What an entry guarantees -/

/-- The entry has the `id` of its source. -/
def Identified (v : Mcp.Json) (id : Bytes) : Prop := ∃ s, v.getString "id" = some s ∧ id = text s

theorem loadId_ok {arena : Arena} {earlier : List Bytes} {v : Mcp.Json} {id : Bytes}
    (h : loadId arena earlier v = .ok id) : Identified v id ∧ id ∉ earlier := by
  obtain ⟨s, hs, h⟩ := of_bind_ok h
  obtain ⟨_, -, h⟩ := of_bind_ok h
  obtain ⟨_, -, h⟩ := of_bind_ok h
  obtain ⟨_, hfresh, h⟩ := of_bind_ok h
  obtain rfl := Except.ok.inj h
  have hnot := check_ok hfresh
  rw [Bool.not_eq_true'] at hnot
  exact ⟨⟨s, reqStr_ok hs, rfl⟩, by simpa using hnot⟩

theorem loadProvider_ok {L : Loaders} {arena : Arena} {earlier : List CfgProvider}
    {v : Mcp.Json} {p : CfgProvider} (h : loadProvider L arena earlier v = .ok p) :
    Identified v p.id ∧ p.id ∉ earlier.map CfgProvider.id := by
  obtain ⟨_, -, h⟩ := of_bind_ok h
  obtain ⟨id, hid, h⟩ := of_bind_ok h
  have hp : p.id = id := by
    iterate 13 obtain ⟨_, -, h⟩ := of_bind_ok h
    exact congrArg CfgProvider.id (Except.ok.inj h).symm
  rw [hp]
  exact loadId_ok hid

theorem loadMcpServer_ok {L : Loaders} {arena : Arena} {earlier : List CfgMcp}
    {v : Mcp.Json} {m : CfgMcp} (h : loadMcpServer L arena earlier v = .ok m) :
    Identified v m.id ∧ m.id ∉ earlier.map CfgMcp.id := by
  obtain ⟨_, -, h⟩ := of_bind_ok h
  obtain ⟨_, -, h⟩ := of_bind_ok h
  obtain ⟨id, hid, h⟩ := of_bind_ok h
  have hm : m.id = id := by
    iterate 5 obtain ⟨_, -, h⟩ := of_bind_ok h
    exact congrArg CfgMcp.id (Except.ok.inj h).symm
  rw [hm]
  exact loadId_ok hid

/-- The target's index is that of the provider whose id its source names. -/
def Resolved (providers : List CfgProvider) (v : Mcp.Json) (t : RouteTarget) : Prop :=
  ∃ (s : String) (i : ℕ) (p : CfgProvider), v.getString "provider_id" = some s ∧
    t.providerIndex = i ∧ providers[i]? = some p ∧ p.id = text s

theorem resolveProvider_some {providers : List CfgProvider} {id : Bytes} {i : ℕ}
    (h : resolveProvider providers id = some i) : ∃ p, providers[i]? = some p ∧ p.id = id := by
  obtain ⟨hi, hid, -⟩ := List.findIdx?_eq_some_iff_getElem.mp h
  exact ⟨providers[i], List.getElem?_eq_getElem hi, by simpa using hid⟩

theorem loadTarget_ok {providers : List CfgProvider} {arena : Arena} {v : Mcp.Json}
    {t : RouteTarget} (h : loadTarget providers arena v = .ok t) : Resolved providers v t := by
  obtain ⟨_, -, h⟩ := of_bind_ok h
  obtain ⟨s, hs, h⟩ := of_bind_ok h
  obtain ⟨_, -, h⟩ := of_bind_ok h
  obtain ⟨_, -, h⟩ := of_bind_ok h
  cases hi : resolveProvider providers (text s) with
  | none =>
    rw [hi] at h
    cases h
  | some i =>
    rw [hi] at h
    obtain ⟨p, hp, hid⟩ := resolveProvider_some hi
    obtain ⟨_, -, h⟩ := of_bind_ok h
    obtain ⟨_, -, h⟩ := of_bind_ok h
    obtain ⟨_, -, h⟩ := of_bind_ok h
    exact ⟨s, i, p, reqStr_ok hs, congrArg RouteTarget.providerIndex (Except.ok.inj h).symm, hp, hid⟩

/-- Entries of a list, each from its own source. -/
theorem loadEntries_ok {β : Type} (load : Arena → List β → Mcp.Json → Except Fail β)
    {R : Mcp.Json → β → Prop} (hload : ∀ arena done v b, load arena done v = .ok b → R v b)
    {arena : Arena} {vs : List Mcp.Json} {bs : List β} (h : loadEntries load arena vs = .ok bs) :
    List.Forall₂ R vs bs := by
  obtain ⟨new, rfl, hnew⟩ :=
    forall₂_of_loadAll (fun done v b hb => hload _ done v b (under_ok hb)) h
  exact hnew

theorem loadTargets_ok {providers : List CfgProvider} {arena : Arena} {vs : List Mcp.Json}
    {ts : List RouteTarget} (h : loadTargets providers arena vs = .ok ts) :
    List.Forall₂ (Resolved providers) vs ts := by
  obtain ⟨_, -, h⟩ := of_bind_ok h
  exact loadEntries_ok (fun arena _ v => loadTarget providers arena v)
    (fun _ _ _ _ hb => loadTarget_ok hb) h

theorem loadFallback_ok {targetCount : ℕ} {v : Mcp.Json} {f : Fallback}
    (h : loadFallback targetCount v = .ok f) :
    1 ≤ f.maxAttempts.toNat ∧ f.maxAttempts.toNat ≤ targetCount := by
  obtain ⟨_, -, h⟩ := of_bind_ok h
  obtain ⟨_, -, h⟩ := of_bind_ok h
  obtain ⟨n, hn, h⟩ := of_bind_ok h
  obtain ⟨_, hcount, h⟩ := of_bind_ok h
  obtain ⟨_, -, h⟩ := of_bind_ok h
  obtain ⟨_, -, h⟩ := of_bind_ok h
  obtain ⟨hlow, hhigh⟩ := reqInt_ok hn
  have hle := of_decide_eq_true (check_ok hcount)
  have hvalue : f.maxAttempts.toNat = n.toNat := by
    rw [← Except.ok.inj h]
    exact UInt64.toNat_ofNat_of_lt' (by rw [UInt64.size]; omega)
  omega

/-- A route of the snapshot, over its source: its targets denote the providers that the
document names, its attempts are within its targets, and a Responses route can be
served. -/
structure RouteWhole (providers : List CfgProvider) (v : Mcp.Json) (r : LoadedRoute) : Prop where
  id : Identified v r.id
  targets : ∃ vs, v.getArray "targets" = some vs ∧ List.Forall₂ (Resolved providers) vs r.targets
  attempts : 1 ≤ r.fbMaxAttempts.toNat ∧ r.fbMaxAttempts.toNat ≤ r.targets.length
  responses : r.endpointFamilies &&& epfResponses ≠ 0 → ∃ t ∈ r.targets,
    ∃ (i : ℕ) (p : CfgProvider), t.providerIndex = i ∧ providers[i]? = some p ∧
      p.capabilities &&& capResponses ≠ 0

theorem routeHasCapableTarget_true {providers : List CfgProvider} {targets : List RouteTarget}
    {bit : Word} (h : routeHasCapableTarget providers targets bit = true) :
    ∃ t ∈ targets, ∃ (i : ℕ) (p : CfgProvider), t.providerIndex = i ∧ providers[i]? = some p ∧
      p.capabilities &&& bit ≠ 0 := by
  obtain ⟨t, ht, hcapable⟩ := List.any_eq_true.mp h
  rw [Bool.and_eq_true, decide_eq_true_iff] at hcapable
  obtain ⟨hindex, hcapable⟩ := hcapable
  cases hp : providers[t.providerIndex.toNat]? with
  | none =>
    rw [hp] at hcapable
    cases hcapable
  | some p =>
    rw [hp] at hcapable
    exact ⟨t, ht, t.providerIndex.toNat, p, (Int.toNat_of_nonneg hindex).symm, hp,
      of_decide_eq_true hcapable⟩

theorem loadRoute_ok {providers : List CfgProvider} {arena : Arena} {earlier : List LoadedRoute}
    {v : Mcp.Json} {r : LoadedRoute} (h : loadRoute providers arena earlier v = .ok r) :
    RouteWhole providers v r ∧ r.id ∉ (earlier.map fun r => r.id) ∧
      r.modelAlias ∉ earlier.map LoadedRoute.modelAlias := by
  obtain ⟨_, -, h⟩ := of_bind_ok h
  obtain ⟨id, hid, h⟩ := of_bind_ok h
  obtain ⟨_, -, h⟩ := of_bind_ok h
  obtain ⟨_, -, h⟩ := of_bind_ok h
  obtain ⟨_, -, h⟩ := of_bind_ok h
  obtain ⟨_, halias, h⟩ := of_bind_ok h
  obtain ⟨_, -, h⟩ := of_bind_ok h
  obtain ⟨_, -, h⟩ := of_bind_ok h
  obtain ⟨families, -, h⟩ := of_bind_ok h
  obtain ⟨_, -, h⟩ := of_bind_ok h
  obtain ⟨vs, hvs, h⟩ := of_bind_ok h
  obtain ⟨targets, htargets, h⟩ := of_bind_ok h
  obtain ⟨fallback, hfallback, h⟩ := of_bind_ok h
  obtain ⟨_, hcapable, h⟩ := of_bind_ok h
  obtain rfl := Except.ok.inj h
  obtain ⟨hidentified, hfresh⟩ := loadId_ok hid
  obtain ⟨x, hx⟩ := loadObj_ok hfallback
  have hfreshAlias := check_ok halias
  rw [Bool.not_eq_true'] at hfreshAlias
  refine ⟨⟨hidentified, ⟨vs, (reqArr_ok hvs).1, loadTargets_ok (under_ok htargets)⟩,
    loadFallback_ok hx, fun hresponses => ?_⟩, hfresh, by simpa using hfreshAlias⟩
  apply routeHasCapableTarget_true
  have hok := check_ok hcapable
  rw [Bool.or_eq_true, decide_eq_true_iff] at hok
  exact hok.resolve_left hresponses

/-! ## What the snapshot guarantees -/

/-- The entries of a collection of the root, each from its source, with distinct keys. -/
theorem loadCollection_ok {β γ : Type} (load : Arena → List β → Mcp.Json → Except Fail β)
    (key : β → γ) {R : Mcp.Json → β → Prop}
    (hload : ∀ arena done v b, load arena done v = .ok b → R v b ∧ key b ∉ done.map key)
    {arena : Arena} {root : Mcp.Json} {name : String} {max : ℕ} {bs : List β}
    (h : loadCollection arena root name max load = .ok bs) :
    (∃ vs, root.getArray name = some vs ∧ List.Forall₂ R vs bs) ∧ (bs.map key).Nodup := by
  obtain ⟨vs, hvs, h⟩ := of_bind_ok h
  replace h := under_ok h
  cases vs with
  | nil =>
    obtain rfl := Except.ok.inj h
    exact ⟨⟨[], (reqArr_ok hvs).1, .nil⟩, List.nodup_nil⟩
  | cons v vs =>
    obtain ⟨_, -, h⟩ := of_bind_ok h
    refine ⟨⟨v :: vs, (reqArr_ok hvs).1,
      loadEntries_ok load (fun arena done v b hb => (hload arena done v b hb).1) h⟩, ?_⟩
    exact nodup_of_loadAll (fun done v b hb => (hload _ done v b (under_ok hb)).2) h

/-- A snapshot in which every reference denotes what the document names. -/
structure Whole (root : Mcp.Json) (cfg : Snapshot) : Prop where
  providers : ∃ vs, root.getArray "providers" = some vs ∧
    List.Forall₂ (fun v p => Identified v p.id) vs cfg.providers
  providerIds : (cfg.providers.map CfgProvider.id).Nodup
  routes : ∃ vs, root.getArray "routes" = some vs ∧
    List.Forall₂ (RouteWhole cfg.providers) vs cfg.routes
  routeIds : (cfg.routes.map fun r => r.id).Nodup
  aliases : (cfg.routes.map LoadedRoute.modelAlias).Nodup
  mcpServers : ∃ vs, root.getArray "mcp_servers" = some vs ∧
    List.Forall₂ (fun v m => Identified v m.id) vs cfg.mcpServers
  mcpIds : (cfg.mcpServers.map CfgMcp.id).Nodup

theorem loadSnapshot_whole {L : Loaders} {arena : Arena} {root : Mcp.Json} {hash : Word}
    {cfg : Snapshot} (h : loadSnapshot L arena root hash = .ok cfg) : Whole root cfg := by
  obtain ⟨_, -, h⟩ := of_bind_ok h
  obtain ⟨_, -, h⟩ := of_bind_ok h
  obtain ⟨providers, hproviders, h⟩ := of_bind_ok h
  obtain ⟨routes, hroutes, h⟩ := of_bind_ok h
  obtain ⟨mcpServers, hmcp, h⟩ := of_bind_ok h
  obtain rfl := Except.ok.inj h
  obtain ⟨hp, hpIds⟩ := loadCollection_ok (loadProvider L) CfgProvider.id
    (fun _ _ _ _ hb => loadProvider_ok hb) hproviders
  obtain ⟨hr, hrIds⟩ := loadCollection_ok (loadRoute providers) (fun r : LoadedRoute => r.id)
    (fun _ _ _ _ hb => ⟨(loadRoute_ok hb).1, (loadRoute_ok hb).2.1⟩) hroutes
  obtain ⟨-, hrAliases⟩ := loadCollection_ok (loadRoute providers) LoadedRoute.modelAlias
    (fun _ _ _ _ hb => ⟨(loadRoute_ok hb).1, (loadRoute_ok hb).2.2⟩) hroutes
  obtain ⟨hm, hmIds⟩ := loadCollection_ok (loadMcpServer L) CfgMcp.id
    (fun _ _ _ _ hb => loadMcpServer_ok hb) hmcp
  exact ⟨hp, hpIds, hr, hrIds, hrAliases, hm, hmIds⟩

/-- Nothing is left behind: the document is freed as often as it was taken, a snapshot
that is not given out is dropped as often as it was taken, and only a snapshot that is
given out is written. -/
structure Settled (r : Parsed) : Prop where
  doc : r.events.count .docFreed = r.events.count .docTaken
  dropped : r.out = none → r.events.count .configDropped = r.events.count .configTaken
  kept : r.out ≠ none → .configDropped ∉ r.events
  written : .outWritten ∈ r.events ↔ r.out ≠ none

theorem settled_parseFailed {e : Status} (neg : e < 0) : Settled (parseFailed e neg) :=
  ⟨rfl, fun _ => rfl, fun h => absurd rfl h, by simp [parseFailed]⟩

theorem settled_releaseDoc (f : Fail) : Settled (releaseDoc f) :=
  ⟨rfl, fun _ => rfl, fun h => absurd rfl h, by simp [releaseDoc]⟩

theorem settled_releaseConfig (f : Fail) : Settled (releaseConfig f) :=
  ⟨rfl, fun _ => rfl, fun h => absurd rfl h, by simp [releaseConfig]⟩

section Parse

variable (L : Loaders) (arena : Arena) (configNew : Except Fail Unit)
  (loadb : Bytes → Option Mcp.Json) (granted : Bool) (buf : Bytes)

/-- The exits of `af_config_parse`. -/
theorem configParse_cases :
    (∃ e neg, parseDoc loadb granted bootstrapLimits buf = .error e ∧
        configParse L arena configNew loadb granted buf = parseFailed e neg) ∨
      ∃ root, parseDoc loadb granted bootstrapLimits buf = .ok root ∧
        ((∃ f, configParse L arena configNew loadb granted buf = releaseDoc f) ∨
          (∃ f, configParse L arena configNew loadb granted buf = releaseConfig f) ∨
          ∃ cfg, loadSnapshot L arena root (hashBytes buf) = .ok cfg ∧
            configParse L arena configNew loadb granted buf =
              ⟨Status.ok, none, [.docTaken, .configTaken, .docFreed, .outWritten], some cfg⟩) := by
  unfold configParse
  split
  · rename_i e hdoc
    exact Or.inl ⟨e, parseDoc_neg hdoc, hdoc, rfl⟩
  · rename_i root hdoc
    refine Or.inr ⟨root, hdoc, ?_⟩
    split_ifs
    · exact Or.inl ⟨_, rfl⟩
    · cases checkRoot root with
      | error f => exact Or.inl ⟨f, rfl⟩
      | ok u =>
        cases configNew with
        | error f => exact Or.inl ⟨f, rfl⟩
        | ok u =>
          cases hcfg : loadSnapshot L arena root (hashBytes buf) with
          | error f => exact Or.inr (Or.inl ⟨f, rfl⟩)
          | ok cfg => exact Or.inr (Or.inr ⟨cfg, rfl, rfl⟩)

/-- A snapshot that is published is whole, and every other exit leaves nothing behind. -/
theorem configParse_whole :
    (∀ cfg, (configParse L arena configNew loadb granted buf).out = some cfg →
        ∃ root, parseDoc loadb granted bootstrapLimits buf = .ok root ∧ Whole root cfg) ∧
      ((configParse L arena configNew loadb granted buf).status < 0 ↔
        (configParse L arena configNew loadb granted buf).out = none) ∧
      ((configParse L arena configNew loadb granted buf).events.count .docFreed =
        if (parseDoc loadb granted bootstrapLimits buf).toOption.isSome then 1 else 0) ∧
      Settled (configParse L arena configNew loadb granted buf) := by
  rcases configParse_cases L arena configNew loadb granted buf with
    ⟨e, neg, hdoc, heq⟩ | ⟨root, hdoc, ⟨f, heq⟩ | ⟨f, heq⟩ | ⟨cfg, hcfg, heq⟩⟩
  · rw [heq, hdoc]
    exact ⟨nofun, iff_of_true neg rfl, rfl, settled_parseFailed neg⟩
  · rw [heq, hdoc]
    exact ⟨nofun, iff_of_true f.neg rfl, rfl, settled_releaseDoc f⟩
  · rw [heq, hdoc]
    exact ⟨nofun, iff_of_true f.neg rfl, rfl, settled_releaseConfig f⟩
  · rw [heq, hdoc]
    refine ⟨fun cfg' h => ⟨root, rfl, ?_⟩, iff_of_false (by decide : ¬ Status.ok < 0) nofun, rfl,
      rfl, nofun, fun _ => by simp, by simp⟩
    rw [← Option.some.inj h]
    exact loadSnapshot_whole hcfg

end Parse
end AsmFlow.Config
