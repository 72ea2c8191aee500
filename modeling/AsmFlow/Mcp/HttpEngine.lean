import AsmFlow.Library.Ledger
import AsmFlow.Library.Slots
import AsmFlow.Machine.Status

/-!
# Transfers to MCP servers over HTTP

`mcp_http_engine.asm` and the part of `mcp_http_adapter.asm` that starts and ends a
transfer: the table of slots, what a slot owns, and the two pointers of a server to its
POST and its GET. Beside the engine stand two ledgers, of what the slots own and of the
completions of the transfers that were activated. What a completion reads of a response,
and what it then does to the protocol, is not here: it may start the next transfer, which
is an operation of its own behind it.
-/

namespace AsmFlow.McpHttp

open Library

/-- `AF_MCP_HTTP_MAX_TRANSFERS`. -/
def maxTransfers : ℕ := 256 * 2

/-- A slot of `HE_TRANSFERS`. -/
abbrev SlotId := Fin maxTransfers

/-- `AF_MCP_HTTP_METHOD_*`. -/
inductive Method
  | post
  | get
  deriving DecidableEq, Repr

/-- `AF_MCP_HTTP_X_*`, of a slot that is not free. -/
inductive XState
  | building
  | active
  | completing
  deriving DecidableEq, Repr

/-- What a slot owns: its easy handle, its header list, its buffers and the retained
configuration. -/
inductive Resource
  | easy
  | slist
  | buffers
  | config
  deriving DecidableEq, Repr

/-- `HX_*`, of a slot that is not free. The serial tells the transfers of a slot apart; it
is also the identity of its easy handle. `easy`, `slist` and `config` say that the pointer
is not null. -/
structure Transfer (κ : Type) where
  serial : ℕ
  state : XState
  easy : Bool
  slist : Bool
  config : Bool
  child : Option κ
  call : Option ℕ
  method : Method
  added : Bool
  cancelled : Bool
  inCallback : Bool
  cancelPending : Bool
  cause : Status
  curlResult : ℤ
  deriving DecidableEq, Repr

/-- `AF_MCP_HTTP_CURL_CANCELLED`. -/
def curlCancelled : ℤ := -1

namespace Transfer

variable {κ : Type}

/-- A slot that was just taken: zero, but for what `af_mcp_http_slot_alloc` writes. -/
def fresh (serial : ℕ) : Transfer κ where
  serial := serial
  state := .building
  easy := false
  slist := false
  config := false
  child := none
  call := none
  method := .post
  added := false
  cancelled := false
  inCallback := false
  cancelPending := false
  cause := Status.ok
  curlResult := 0

def holds (x : Transfer κ) : Resource → Bool
  | .easy => x.easy
  | .slist => x.slist
  | .buffers => true
  | .config => x.config

end Transfer

/-- `MC_HTTP_POST` and `MC_HTTP_GET`. -/
structure Links where
  post : Option SlotId
  get : Option SlotId
  deriving DecidableEq, Repr

/-- The link of the method. -/
def Links.of (l : Links) : Method → Option SlotId
  | .post => l.post
  | .get => l.get

def Links.set (l : Links) (m : Method) (i : Option SlotId) : Links :=
  match m with
  | .post => { l with post := i }
  | .get => { l with get := i }

/-- `HE_*`, the links of the servers, and the ledgers. `multi` has the handles that libcurl
works on. -/
structure Engine (κ : Type) where
  slots : SlotId → Option (Transfer κ)
  links : κ → Links
  active : ℕ
  maxActive : ℕ
  started : Bool
  multi : List ℕ
  total : ℕ
  completed : ℕ
  failed : ℕ
  cancelled : ℕ
  serials : ℕ
  owned : Ledger (ℕ × Resource)
  hooks : Ledger ℕ

/-- How the allocation of a slot ends: a buffer or the easy handle is not to be had. -/
inductive AllocAnswer
  | bufferFails
  | easyFails
  | ok
  deriving DecidableEq, Repr

/-- How `af_mcp_http_prepare_common` ends: it fails before the configuration is retained,
behind that, or not at all. -/
inductive PrepareAnswer
  | early
  | late
  | ok
  deriving DecidableEq, Repr

/-- What the construction of a transfer meets: whether the header list has an entry and is
whole, whether libcurl takes the options, and whether it takes the handle. -/
structure BuildAnswer where
  alloc : AllocAnswer
  prepare : PrepareAnswer
  slist : Bool
  headers : Bool
  options : Bool
  add : Bool
  deriving DecidableEq, Repr

namespace Engine

variable {κ : Type} [DecidableEq κ] (e : Engine κ)

/-- `af_mcp_http_engine_init`, where it succeeds. -/
def init : Engine κ where
  slots _ := none
  links _ := ⟨none, none⟩
  active := 0
  maxActive := maxTransfers
  started := true
  multi := []
  total := 0
  completed := 0
  failed := 0
  cancelled := 0
  serials := 0
  owned := .empty
  hooks := .empty

def setSlot (i : SlotId) (x : Option (Transfer κ)) : Engine κ :=
  { e with slots := Function.update e.slots i x }

def setLink (c : κ) (m : Method) (i : Option SlotId) : Engine κ :=
  { e with links := Function.update e.links c ((e.links c).set m i) }

/-- What the transfer in a slot is given to own. -/
def takeOwned (i : SlotId) (x : Transfer κ) (r : Resource) : Engine κ :=
  { e.setSlot i (some x) with owned := e.owned.take fun k => decide (k = (x.serial, r)) }

/-- `af_mcp_http_slot_release`. -/
def slotRelease (i : SlotId) : Engine κ :=
  match e.slots i with
  | none => e
  | some x =>
    { e with
      slots := Function.update e.slots i none
      multi := if x.added then e.multi.filter (fun h => h ≠ x.serial) else e.multi
      owned := e.owned.free fun k => decide (k.1 = x.serial) && x.holds k.2
      active := e.active - 1 }

/-- `.found` of `af_mcp_http_slot_alloc`. -/
def occupy (i : SlotId) : Engine κ :=
  { e.takeOwned i (.fresh e.serials) .buffers with
    active := e.active + 1
    serials := e.serials + 1 }

/-- `af_mcp_http_slot_alloc`. -/
def slotAlloc (a : AllocAnswer) : Engine κ × Option SlotId :=
  if e.started = false ∨ e.maxActive ≤ e.active then (e, none)
  else
    match (List.finRange maxTransfers).find? fun i => (e.slots i).isNone with
    | none => (e, none)
    | some i =>
      let x : Transfer κ := .fresh e.serials
      let e := e.occupy i
      if a = .ok then
        ({ e.takeOwned i { x with easy := true } .easy with total := e.total + 1 }, some i)
      else (e.slotRelease i, none)

/-- `af_mcp_http_prepare_common`: whether it succeeds. -/
def prepareCommon (i : SlotId) (c : κ) (a : PrepareAnswer) : Engine κ × Bool :=
  match e.slots i with
  | none => (e, false)
  | some x =>
    let x := { x with child := some c }
    match a with
    | .early => (e.setSlot i (some x), false)
    | .late => (e.takeOwned i { x with config := true } .config, false)
    | .ok => (e.takeOwned i { x with config := true } .config, true)

/-- The headers of a transfer. -/
def addHeaders (i : SlotId) (slist : Bool) : Engine κ :=
  match e.slots i with
  | none => e
  | some x => if slist then e.takeOwned i { x with slist := true } .slist else e

/-- `af_mcp_http_activate`: whether it succeeds. -/
def activate (i : SlotId) (c : κ) (add : Bool) : Engine κ × Bool :=
  match e.slots i with
  | none => (e, false)
  | some x =>
    if (e.links c).of x.method ≠ none then (e, false)
    else
      let e := e.setLink c x.method (some i)
      if add = false then
        (if (e.links c).of x.method = some i then e.setLink c x.method none else e, false)
      else
        ({ e.setSlot i (some { x with added := true, state := .active }) with
            multi := x.serial :: e.multi
            hooks := e.hooks.take fun s => decide (s = x.serial) }, true)

/-- A transfer, from the preparation of its slot on; what fails releases the slot. -/
def construct (i : SlotId) (c : κ) (a : BuildAnswer) : Engine κ × Bool :=
  match e.prepareCommon i c a.prepare with
  | (e, false) => (e.slotRelease i, false)
  | (e, true) =>
    let e := e.addHeaders i a.slist
    if a.headers = false ∨ a.options = false then (e.slotRelease i, false)
    else
      match e.activate i c a.add with
      | (e, false) => (e.slotRelease i, false)
      | (e, true) => (e, true)

/-- A slot for a transfer, and the transfer in it. -/
def build (c : κ) (m : Method) (call : Option ℕ) (a : BuildAnswer) : Engine κ × Bool :=
  match e.slotAlloc a.alloc with
  | (e, none) => (e, false)
  | (e, some i) =>
    match e.slots i with
    | none => (e, false)
    | some x => (e.setSlot i (some { x with method := m, call := call })).construct i c a

/-- `af_mcp_http_request`. `adapter` says that the adapter is there, switched or not. -/
def request (c : κ) (call : ℕ) (adapter : Bool) (a : BuildAnswer) : Engine κ × Bool :=
  if (e.links c).post ≠ none then (e, false)
  else if adapter = false then (e, false)
  else e.build c .post (some call) a

/-- `af_mcp_http_notify`. -/
def notify (c : κ) (a : BuildAnswer) : Engine κ × Bool :=
  if (e.links c).post ≠ none then (e, false) else e.build c .post none a

/-- `af_mcp_http_legacy_start_get`, for a server with the legacy adapter. -/
def legacyStartGet (c : κ) (a : BuildAnswer) : Engine κ × Bool :=
  if (e.links c).get ≠ none then (e, true) else e.build c .get none a

/-- A link that points to the slot is cleared. -/
def unlink (c : κ) (m : Method) (i : SlotId) : Engine κ :=
  if (e.links c).of m = some i then e.setLink c m none else e

/-- `af_mcp_http_complete`, up to the release of the slot. -/
def complete (i : SlotId) : Engine κ :=
  match e.slots i with
  | none => e
  | some x =>
    let e := { e with hooks := e.hooks.free fun s => decide (s = x.serial) }
    match x.child with
    | none => e.slotRelease i
    | some c => ((e.unlink c .post i).unlink c .get i).slotRelease i

/-- `af_mcp_http_transfer_cancel`. -/
def transferCancel (i : SlotId) (cause : Status) : Engine κ :=
  match e.slots i with
  | none => e
  | some x =>
    if x.state = .completing ∨ x.cancelled = true then e
    else
      let e := { e with cancelled := e.cancelled + 1 }
      let x := { x with cancelled := true, cause := cause, curlResult := curlCancelled }
      if x.inCallback then e.setSlot i (some { x with cancelPending := true })
      else (e.setSlot i (some { x with state := .completing })).complete i

/-- `af_mcp_http_cancel_call`, up to the notification. -/
def cancelCall (c : κ) (call : ℕ) (cause : Status) : Engine κ :=
  match (e.links c).post with
  | none => e
  | some i =>
    if (e.slots i).bind Transfer.call = some call then e.transferCancel i cause else e

/-- One link of `af_mcp_http_stop`. -/
def dropLink (c : κ) (m : Method) (cause : Status) : Engine κ :=
  match (e.links c).of m with
  | none => e
  | some i => (e.setLink c m none).transferCancel i cause

/-- `af_mcp_http_stop`. -/
def stop (c : κ) (cause : Status) : Engine κ :=
  let cause := if cause = Status.ok then Status.closed else cause
  (e.dropLink c .post cause).dropLink c .get cause

/-- A callback of libcurl on the handle of a slot begins. -/
def enterCallback (i : SlotId) : Engine κ :=
  match e.slots i with
  | none => e
  | some x => if x.state = .active then e.setSlot i (some { x with inCallback := true }) else e

/-- A callback ends, with what failed in it. A cancelled transfer is aborted as it is. -/
def leaveCallback (i : SlotId) (failure : Status) : Engine κ :=
  match e.slots i with
  | none => e
  | some x =>
    let cause := if x.cancelled = false ∧ x.cause = Status.ok then failure else x.cause
    if x.inCallback then e.setSlot i (some { x with cause := cause, inCallback := false }) else e

/-- A transfer that has ended is completed with the result. -/
def finish (i : SlotId) (x : Transfer κ) (result : ℤ) : Engine κ :=
  (e.setSlot i (some { x with curlResult := result, state := .completing })).complete i

/-- The slot of a handle, found by the handle. -/
def slotOf (h : ℕ) : Option SlotId :=
  (List.finRange maxTransfers).find? fun i =>
    match e.slots i with
    | none => false
    | some x => x.easy && x.serial == h

/-- `.orphan` of `af_mcp_http_reap`. -/
def orphan (h : ℕ) (result : ℤ) : Engine κ :=
  let e := { e with failed := e.failed + 1 }
  match e.slotOf h with
  | none =>
    { e with
      multi := e.multi.filter (fun h' => h' ≠ h)
      owned := e.owned.free fun k => decide (k = (h, .easy)) }
  | some i =>
    match e.slots i with
    | none => e
    | some x =>
      let x := { x with cause := if x.cause = Status.ok then Status.internal else x.cause }
      e.finish i x (if x.cancelled then curlCancelled else result)

/-- One turn of `af_mcp_http_reap`: libcurl reports that a handle is done, with the pointer
it was given; only a pointer to a slot counts as one. -/
def reapOne (h : ℕ) (pointer : Option SlotId) (result : ℤ) : Engine κ :=
  match pointer.bind fun i => (e.slots i).map fun x => (i, x) with
  | none => e.orphan h result
  | some (i, x) =>
    if x.easy = false ∨ x.serial ≠ h then e.orphan h result
    else
      let e := if x.cancelled then e
        else if result ≠ 0 then { e with failed := e.failed + 1 }
        else { e with completed := e.completed + 1 }
      e.finish i x (if x.cancelled then curlCancelled else result)

/-- One turn of `.cancel_loop` of the shutdown. -/
def shutdownSlot (i : SlotId) : Engine κ := (e.transferCancel i Status.closed).slotRelease i

/-- `af_mcp_http_engine_shutdown`. -/
def shutdown : Engine κ :=
  if e.started = false then e
  else
    let e := (List.finRange maxTransfers).foldl shutdownSlot { e with started := false }
    { e with multi := [], active := 0 }

end Engine

/-- What is done to the engine. A server that starts, and one that switches its adapter,
writes neither a slot nor a link. -/
inductive Op (κ : Type)
  | request (c : κ) (call : ℕ) (adapter : Bool) (a : BuildAnswer)
  | notify (c : κ) (a : BuildAnswer)
  | startGet (c : κ) (a : BuildAnswer)
  | cancelCall (c : κ) (call : ℕ) (cause : Status)
  | stop (c : κ) (cause : Status)
  | enterCallback (i : SlotId)
  | leaveCallback (i : SlotId) (failure : Status)
  | reap (h : ℕ) (pointer : Option SlotId) (result : ℤ)
  | shutdown

/-- One operation. -/
def step {κ : Type} [DecidableEq κ] (e : Engine κ) : Op κ → Engine κ
  | .request c call adapter a => (e.request c call adapter a).1
  | .notify c a => (e.notify c a).1
  | .startGet c a => (e.legacyStartGet c a).1
  | .cancelCall c call cause => e.cancelCall c call cause
  | .stop c cause => e.stop c cause
  | .enterCallback i => e.enterCallback i
  | .leaveCallback i failure => e.leaveCallback i failure
  | .reap h pointer result => e.reapOne h pointer result
  | .shutdown => e.shutdown

end AsmFlow.McpHttp
