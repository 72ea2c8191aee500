import AsmFlow.Mcp.Failure

/-!
# The lists of a server

`af_mcp_begin_inventory`, `af_mcp_collect_list` and what else touches the cached lists of
tools, resources and prompts. The lists a server was asked for last make up a batch; beside
the record stands what became of them.
-/

namespace AsmFlow.Mcp

/-- The three lists. -/
inductive ListKind
  | tools
  | resources
  | prompts
  deriving DecidableEq, Repr

def ListKind.call : ListKind → CallKind
  | .tools => .tools
  | .resources => .resources
  | .prompts => .prompts

/-- The member of the result that holds the list. -/
def ListKind.key : ListKind → String
  | .tools => "tools"
  | .resources => "resources"
  | .prompts => "prompts"

/-- `AF_MCP_CACHE_*`. -/
inductive CacheScope
  | absent
  | shared
  | own
  deriving DecidableEq, Repr

/-- `AF_MCP_CACHE_TTL_MAX_MS`. -/
def cacheTtlMaxMs : ℕ := 300000

/-- A cached list: its text and how many items it has. -/
structure Cache where
  bytes : Buffer
  count : ℕ

def Cache.empty : Cache := ⟨Buffer.init inventoryMax, 0⟩

def Cache.clear (c : Cache) : Cache := ⟨c.bytes.clear, 0⟩

/-- What happened to the lists. -/
inductive BatchEvent
  /-- A new batch is asked for. -/
  | begun
  | committed (kind : ListKind) (items : List Json)
  | failed (kind : ListKind)
  /-- The lists are forgotten, with the process or the credentials they belong to. -/
  | dropped

/-- The tools of the last batch were committed and not dropped since. -/
def toolsCommitted : List BatchEvent → Bool
  | [] => false
  | .begun :: _ => false
  | .dropped :: _ => false
  | .committed .tools _ :: _ => true
  | _ :: before => toolsCommitted before

/-- A server with its lists, over stdio or Streamable HTTP. -/
structure Server where
  child : Child
  http : Bool
  /-- `MC_ADAPTER` is there. -/
  adapter : Bool
  cache : ListKind → Cache
  fetchedNs : ℕ
  expiresNs : ℕ
  scope : CacheScope
  /-- `AF_MC_F_HTTP_RESOURCES_ISSUED`, `AF_MC_F_HTTP_PROMPTS_ISSUED` and
  `AF_MC_F_HTTP_NOTIFY_PENDING`. -/
  resourcesIssued : Bool
  promptsIssued : Bool
  notifyPending : Bool
  /-- The latest first. -/
  log : List BatchEvent

/-- What a transfer over HTTP meets: another one may be under way, and the credentials may
not be those of the one before. -/
structure Transfer where
  busy : Bool
  rotated : Bool

/-- What a request meets, over either transport. -/
structure ListAnswer where
  request : RequestAnswer
  transfer : Transfer

/-- What became of a list. -/
inductive Collected
  | waiting
  | failed
  | replaced (items : List Json)

/-! ## The items -/

/-- `af_mcp_require_nonempty_string`. -/
def Json.nonemptyString (v : Json) (key : String) : Bool :=
  match v.getString key with
  | some s => s != ""
  | none => false

/-- `.validate_item`. -/
def ListKind.valid (kind : ListKind) (item : Json) : Bool :=
  item.isObject &&
    match kind with
    | .tools => item.nonemptyString "name" && (item.member "inputSchema").any Json.isObject
    | .resources => item.nonemptyString "name" && item.nonemptyString "uri"
    | .prompts => item.nonemptyString "name"

/-- `ttlMs`, within its bounds. -/
def ttlOf (era : Era) (root : Json) : Option ℕ :=
  match root.member "ttlMs" with
  | none => some (if era = .legacy then 60000 else 0)
  | some (.integer n) => some (if n ≤ 0 then 0 else min n.toNat cacheTtlMaxMs)
  | some _ => none

/-- `cacheScope`. -/
def scopeOf (root : Json) : Option CacheScope :=
  match root.member "cacheScope" with
  | none => some .own
  | some (.string "public") => some .shared
  | some (.string "private") => some .own
  | some _ => none

/-- What a list is to be replaced by. -/
structure Replacement where
  items : List Json
  bytes : Buffer
  ttlMs : ℕ
  scope : CacheScope

section Read

variable (J : JsonLibrary) (m : Memory)

/-- The text of a list, in a buffer of its own. -/
def scratchOf (items : List Json) : Option Buffer := do
  let text ← (if m.dump (.array items) then J.dump (.array items) else none)
  guard (text.length ≤ inventoryMax)
  let scratch := (Buffer.init inventoryMax).append m.alloc text
  guard (¬scratch.2 < 0)
  return scratch.1

/-- `af_mcp_collect_list`, up to the commit. -/
def ListKind.replacement (kind : ListKind) (http : Bool) (era : Era) (result : Bytes) :
    Option Replacement := do
  guard (result ≠ [])
  guard (m.parse result)
  let root ← J.parse inventoryMax result
  guard root.isObject
  let ttlMs ← (if http then ttlOf era root else some 0)
  let scope ← (if http then scopeOf root else some .own)
  let items ← root.getArray kind.key
  guard (items.all kind.valid)
  let bytes ← scratchOf J m items
  return ⟨items, bytes, ttlMs, scope⟩

end Read

namespace ServerConfig

/-- The timeout of a list request. -/
def listTimeoutMs (cfg : ServerConfig) : ℕ :=
  if cfg.requestTimeoutMs = 0 then 10000 else cfg.requestTimeoutMs

end ServerConfig

namespace Server

/-- `af_mcp_child_init`. -/
def init (http : Bool) (cfg : ServerConfig) : Server where
  child := Child.init cfg
  http := http
  adapter := false
  cache := fun _ => Cache.empty
  fetchedNs := 0
  expiresNs := 0
  scope := .absent
  resourcesIssued := false
  promptsIssued := false
  notifyPending := false
  log := []

variable (s : Server)

def record (e : BatchEvent) : Server := { s with log := e :: s.log }

def withChild (c : Child) : Server := { s with child := c }

def release (i : Fin maxCalls) : Server := s.withChild (s.child.release i)

def setCurrent (b : Bool) : Server :=
  s.withChild (s.child.withFlags ({ · with toolsCurrent := b }))

/-! ## What is forgotten -/

/-- The lists, when they were fetched and until when they hold. -/
def clearCaches : Server :=
  { s with cache := fun kind => (s.cache kind).clear, fetchedNs := 0, expiresNs := 0 }

/-- `af_mcp_http_stop`: the adapter is freed and the flags are taken back. -/
def httpStop : Server :=
  { s with
    adapter := false, resourcesIssued := false, promptsIssued := false, notifyPending := false }

/-- What `af_mcp_invalidate_process_view` forgets of the lists. -/
def dropView : Server := ((if s.http then s.httpStop else s).clearCaches).record .dropped

/-- `af_mcp_invalidate_process_view`. -/
def invalidate : Server := (s.withChild s.child.invalidate).dropView

/-- `af_mcp_child_failed`. -/
def childFailed (why : Status) (a : FailAnswer) : Server :=
  let failed := s.withChild (s.child.childFailed why a)
  if s.child.state = .crashLoop ∨ s.child.state = .disabled ∨ s.child.flags.stopping then failed
  else failed.dropView

/-- What `af_mcp_start` forgets of the process before. -/
def renew (manual : Bool) : Server :=
  ({ s.clearCaches with
      child := s.child.renew manual
      resourcesIssued := false
      promptsIssued := false
      notifyPending := false } : Server).record .dropped

/-- `af_mcp_http_cache_auth_update`, for credentials that are not those before. -/
def rotate : Server :=
  ({ s.clearCaches with
      child := s.child.withFlags ({ · with listed := false, toolsCurrent := false })
      resourcesIssued := false
      promptsIssued := false } : Server).record .dropped

/-! ## Asking for a batch -/

/-- `MC_HTTP_POST` is in use: the initialized notification is under way, or another
transfer. -/
def posting (a : Transfer) : Bool := s.notifyPending || a.busy

/-- The credentials of a transfer are read. -/
def authorize (a : Transfer) : Server := if a.rotated then s.rotate else s

/-- `af_mcp_request`, over HTTP and behind the allocation of the call. -/
def post (i : Fin maxCalls) (a : ListAnswer) : Server × Option (Fin maxCalls) :=
  if a.request.built = false then (s.release i, none)
  else if s.posting a.transfer then (s.release i, none)
  else
    match a.request.send with
    | .refused _ => ((s.authorize a.transfer).release i, none)
    | .queued _ => (s.authorize a.transfer, some i)

/-- `af_mcp_request`. -/
def request (kind : CallKind) (timeoutMs : ℕ) (a : ListAnswer) :
    Server × Option (Fin maxCalls) :=
  if s.http = false then
    let r := s.child.request kind timeoutMs a.request
    (s.withChild r.1, r.2)
  else
    let c := s.child.read a.request.elapsed
    match Child.requestDeadline c.clock timeoutMs with
    | none => (s.withChild c, none)
    | some deadline =>
      match c.callAlloc kind deadline a.request.slotOk with
      | (c, none) => (s.withChild c, none)
      | (c, some i) => (s.withChild c).post i a

/-- A batch begins without what there was of the one before. -/
def newBatch : Server :=
  (({ s with resourcesIssued := false, promptsIssued := false } : Server).setCurrent
    false).record .begun

/-- `.mark_issued`. -/
def markIssued (now : ℕ) : Server :=
  { s with child := s.child.withFlags ({ · with listed := true }), fetchedNs := now }

/-- The requests of a batch. -/
def askLists (a : ListKind → ListAnswer) (now : ℕ) : Server × Status :=
  match s.request .tools s.child.cfg.listTimeoutMs (a .tools) with
  | (s, none) => (s, Status.mcpProtocol)
  | (s, some i) =>
    if s.http then (s.markIssued now, Status.ok)
    else
      match s.request .resources s.child.cfg.listTimeoutMs (a .resources) with
      | (s, none) => (s.release i, Status.mcpProtocol)
      | (s, some j) =>
        match s.request .prompts s.child.cfg.listTimeoutMs (a .prompts) with
        | (s, none) => ((s.release j).release i, Status.mcpProtocol)
        | (s, some _) => (s.markIssued now, Status.ok)

/-- `af_mcp_begin_inventory`. -/
def beginInventory (a : ListKind → ListAnswer) (now : ℕ) : Server × Status :=
  if s.child.flags.listed then (s, Status.ok)
  else if s.child.era = .unknown then (s.newBatch, Status.mcpProtocol)
  else s.newBatch.askLists a now

/-- An inventory request is pending. -/
def awaitsList : Bool :=
  (List.finRange maxCalls).any fun i => (s.child.calls i).any fun k => k.kind.isInventory && !k.done

/-- `.release_inventory`. -/
def releaseInventory : Server :=
  s.withChild
    { s.child with calls := fun i => (s.child.calls i).filter fun k => !k.kind.isInventory }

/-- `af_mcp_refresh_inventory`. -/
def refreshInventory (a : ListKind → ListAnswer) (now : ℕ) : Server × Status :=
  if s.child.state ≠ .ready ∧ s.child.state ≠ .degraded then (s, Status.mcpNotReady)
  else if s.awaitsList then (s, Status.mcpNotReady)
  else
    let s := s.releaseInventory
    let s := s.withChild (s.child.withFlags ({ · with listed := false }))
    match s.beginInventory a now with
    | (s, st) =>
      if ¬st < 0 then (s, st)
      else if s.child.state ≠ .ready then (s, st)
      else (s.withChild (s.child.setState .degraded), st)

/-! ## Collecting a list -/

/-- `.failed_release`. -/
def refuseList (kind : ListKind) : Server :=
  let s := s.record (.failed kind)
  if kind = .tools then
    let s := s.setCurrent false
    s.withChild (s.child.setState .degraded)
  else s

/-- `.commit_readiness`. -/
def markReady (kind : ListKind) : Server :=
  if kind = .tools then
    let s := s.setCurrent true
    s.withChild (s.child.setState .ready)
  else s

/-- The list is replaced. -/
def replaceList (kind : ListKind) (r : Replacement) : Server :=
  { s with cache := Function.update s.cache kind ⟨r.bytes, r.items.length⟩ }.record
    (.committed kind r.items)

/-- The commit. Over HTTP the time until which the list holds is computed behind it. -/
def commitList (kind : ListKind) (now : ℕ) (r : Replacement) : Server × Collected :=
  let s := s.replaceList kind r
  if s.http = false then (s.markReady kind, .replaced r.items)
  else
    let s := { s with fetchedNs := now, scope := r.scope }
    if 2 ^ 64 ≤ r.ttlMs * nsPerMs then (s.refuseList kind, .failed)
    else if 2 ^ 64 ≤ now + r.ttlMs * nsPerMs then (s.refuseList kind, .failed)
    else
      (({ s with expiresNs := now + r.ttlMs * nsPerMs } : Server).markReady kind,
        .replaced r.items)

section Collect

variable (J : JsonLibrary) (m : Memory)

/-- The replacement that a call that is done brings. -/
def replacementOf (kind : ListKind) (k : Call) : Option Replacement :=
  if k.status ≠ Status.ok then none else kind.replacement J m s.http s.child.era k.result

/-- `af_mcp_collect_list`. -/
def collectList (kind : ListKind) (now : ℕ) : Server × Collected :=
  match s.child.findCall kind.call with
  | none => (s, .waiting)
  | some (i, k) =>
    if k.done = false then (s, .waiting)
    else
      match s.replacementOf J m kind k with
      | none => ((s.refuseList kind).release i, .failed)
      | some r =>
        let t := s.commitList kind now r
        (t.1.release i, t.2)

end Collect

/-- The request for a list that follows over HTTP. -/
def askNext (kind : ListKind) (a : ListAnswer) (f : FailAnswer) (unmark : Server → Server) :
    Server :=
  match s.request kind.call s.child.cfg.listTimeoutMs a with
  | (s, some _) => s
  | (s, none) => (unmark s).childFailed Status.mcpProtocol f

/-- `af_mcp_http_advance_inventory`. -/
def httpAdvanceInventory (a : ListAnswer) (f : FailAnswer) : Server :=
  if s.http = false then s
  else if s.posting a.transfer then s
  else if s.child.flags.toolsCurrent = false then s
  else if s.resourcesIssued = false then
    ({ s with resourcesIssued := true } : Server).askNext .resources a f
      ({ · with resourcesIssued := false })
  else if s.promptsIssued then s
  else if (s.child.findCall .resources).isSome then s
  else
    ({ s with promptsIssued := true } : Server).askNext .prompts a f
      ({ · with promptsIssued := false })

end Server

/-! ## One list -/

section Collected

variable {J : JsonLibrary} {m : Memory}

namespace Server

variable (s : Server)

@[simp] theorem cache_record (e : BatchEvent) : (s.record e).cache = s.cache := rfl

@[simp] theorem cache_withChild (c : Child) : (s.withChild c).cache = s.cache := rfl

end Server
end Collected
end AsmFlow.Mcp
