import AsmFlow.Tui.TableOutput
import Mathlib.Logic.Function.Basic

/-!
# The model of the console

`model.asm`: the documents the console was given, the rows a screen shows of them, and
the selection that a screen keeps by identity. Only the three screens with a selection
are kept: providers, routes and MCP servers.
-/

namespace AsmFlow.Console

open Http Json Tui

/-- `AF_TUI_MODEL_KIND_*`. -/
inductive Kind
  | version
  | snapshot
  | providers
  | routes
  | requests
  | mcp
  | logs
  | config
  deriving DecidableEq, Repr

/-- The screens whose rows have an identity. -/
inductive ListScreen
  | providers
  | routes
  | mcp
  deriving DecidableEq, Repr

def ListScreen.kind : ListScreen → Kind
  | .providers => .providers
  | .routes => .routes
  | .mcp => .mcp

/-- `AF_TUI_MODEL_MAX_ROWS`. -/
def maxRows : ℕ := 64

/-- `AF_TUI_TEXT_MAX_BYTES`. -/
def textMax : ℕ := 1024 * 1024

/-- `AF_TUI_MODEL_FRAME_MAX`. -/
def frameMax : ℕ := 1024 * 1024

/-- `AF_CTL_ID_MAX`. -/
def ctlIdMax : ℕ := 128

/-! ## Sanitised text -/

/-- `.hex_value`. -/
def hexEscape (b : UInt8) : Bytes :=
  [0x5C, 0x78, hexDigit (b >>> 4 &&& 15), hexDigit (b &&& 15)]

/-- What `af_tm_tt_sanitize` writes for the byte at the front, and how many bytes it
takes. -/
def piece (b : UInt8) (rest : Bytes) : Bytes × ℕ :=
  if b = 0x1B then (ascii "[ESC]", 1)
  else if b = 9 then (ascii "\\t", 1)
  else if b = 10 then (ascii "\\n", 1)
  else if b = 13 then (ascii "\\r", 1)
  else if b < 0x20 ∨ b = 0x7F then (hexEscape b, 1)
  else if b < 0x80 then ([b], 1)
  else if b = 0xC2 ∧ rest.head?.any (fun c => decide (0x80 ≤ c ∧ c ≤ 0x9F)) = true then
    (hexEscape (rest.headD 0), 2)
  else
    let n := if b < 0xE0 then 2 else if b < 0xF0 then 3 else 4
    if rest.length + 1 < n then (hexEscape b, 1) else (b :: rest.take (n - 1), n)

/-- `.truncate`, with so many bytes of the pool left for the item. -/
def truncate (room : ℕ) (out : Bytes) : Bytes :=
  if out.length + 3 ≤ room then out ++ ascii "..." else out

/-- The loop of `af_tm_tt_sanitize`; `skip` bytes at the front have been taken with the
piece before. -/
def sanitizeFrom (room : ℕ) : Bytes → ℕ → Bytes → Bytes
  | out, _, [] => out
  | out, skip + 1, _ :: rest => sanitizeFrom room out skip rest
  | out, 0, b :: rest =>
    if 4096 - 6 ≤ out.length then truncate room out
    else if room < out.length + (piece b rest).1.length then truncate room out
    else sanitizeFrom room (out ++ (piece b rest).1) ((piece b rest).2 - 1) rest

/-- `af_tm_tt_sanitize`, behind `used` bytes of the screen's pool. -/
def sanitize (used : ℕ) (text : Bytes) : Bytes := sanitizeFrom (textMax - used) [] 0 text

/-! ## Rows -/

/-- A byte of a stable ID. -/
def idByte (b : UInt8) : Bool :=
  (0x61 ≤ b && b ≤ 0x7A) || (0x41 ≤ b && b ≤ 0x5A) || (0x30 ≤ b && b ≤ 0x39) ||
    b == 0x2D || b == 0x5F || b == 0x2E

/-- `af_tm_id_span_valid`. -/
def idSpanValid (id : Bytes) : Bool :=
  !id.isEmpty && decide (id.length ≤ ctlIdMax) && id.all idByte

/-- The `id` member of an element, where it is a valid one. -/
def stableId (v : Mcp.Json) : Option Bytes :=
  match v.getString "id" with
  | none => none
  | some s => if idSpanValid (utf8Text s.toList) then some (utf8Text s.toList) else none

/-- A cell: text of the console's own, or text that goes through the pool. -/
inductive Cell
  | static (text : Bytes)
  | pooled (text : Bytes)
  deriving DecidableEq, Repr

def Cell.dash : Cell := .static (ascii "-")

/-- `af_tm_cell_string`. -/
def cellString (v : Mcp.Json) (key : String) : Cell :=
  match v.getString key with
  | none => .dash
  | some s => .pooled (utf8Text s.toList)

/-- `af_tm_cell_int_member`. -/
def cellIntMember (v : Mcp.Json) (key : String) : Cell :=
  match v.getInteger key with
  | none => .dash
  | some n => if n < 0 then .dash else .pooled (decimal n.toNat)

/-- `AF_TUI_STATUS_*`. -/
inductive TuiStatus
  | ok
  | warn
  | opened
  | fail
  | off
  | run
  deriving DecidableEq, Repr

/-- `af_tui_status_label`. -/
def TuiStatus.label : TuiStatus → Bytes
  | ok => ascii "[OK]"
  | warn => ascii "[WARN]"
  | opened => ascii "[OPEN]"
  | fail => ascii "[FAIL]"
  | off => ascii "[OFF]"
  | run => ascii "[RUN]"

/-- `af_tm_provider_status`. -/
def providerStatus (v : Mcp.Json) : TuiStatus :=
  if v.getBool "enabled" = some false then .off
  else if v.getBool "operator_disabled" = some true then .off
  else
    match v.getString "health" with
    | none => .warn
    | some health =>
      if health = "healthy" then .ok
      else if health = "degraded" then .warn
      else if health = "half_open" then .warn
      else if health = "open" then .opened
      else if health = "disabled" then .off
      else .warn

/-- `af_tm_mcp_status`. -/
def mcpStatus (v : Mcp.Json) : TuiStatus :=
  match v.getString "state" with
  | none => .fail
  | some state =>
    if state = "ready" then .ok
    else if state = "starting" then .run
    else if state = "in_flight" then .run
    else if state = "crash_loop" then .fail
    else if state = "failed" then .fail
    else if state = "stopped" then .off
    else if state = "disabled" then .off
    else .warn

/-- `af_tm_provider_circuit_cell`. -/
def providerCircuitCell (v : Mcp.Json) : Cell :=
  if providerStatus v = .off then .static (ascii "disabled")
  else
    match v.getString "health" with
    | none => .dash
    | some health =>
      if health = "healthy" then .static (ascii "closed")
      else if health = "half_open" then .static (ascii "half-open")
      else .pooled (utf8Text health.toList)

/-- `af_tm_cell_pair`, or a dash. -/
def loadCell (v : Mcp.Json) : Cell :=
  match v.getInteger "active_requests", v.getInteger "max_concurrency" with
  | some active, some max =>
    if active < 0 ∨ max < 0 then .dash
    else .pooled (decimal active.toNat ++ ascii "/" ++ decimal max.toNat)
  | _, _ => .dash

/-- `af_tm_cell_latency`. -/
def latencyCell (v : Mcp.Json) : Cell :=
  match v.getInteger "observed_latency_us" with
  | none => .dash
  | some us =>
    if us ≤ 0 then .dash
    else if us.toNat % 1000 = 0 then .pooled (decimal (us.toNat / 1000) ++ ascii " ms")
    else
      .pooled (decimal (us.toNat / 1000) ++ ascii "." ++ fraction (us.toNat % 1000) ++
        ascii " ms")

/-- `af_tm_route_values`, as three cells. -/
def routeValueCells (v : Mcp.Json) : List Cell :=
  match v.getInteger "target_count", v.getInteger "eligible_count",
    v.getInteger "active_requests" with
  | some targets, some eligible, some active =>
    if targets < 0 ∨ eligible < 0 ∨ active < 0 then [.dash, .dash, .dash]
    else
      [.pooled (decimal targets.toNat), .pooled (decimal eligible.toNat),
        .pooled (decimal active.toNat)]
  | _, _, _ => [.dash, .dash, .dash]

/-- The cells of a row, in the order they are built. -/
def ListScreen.cells : ListScreen → Mcp.Json → List Cell
  | .providers, v =>
    [.static (providerStatus v).label, cellString v "display_name", cellString v "adapter",
      loadCell v, latencyCell v, providerCircuitCell v, cellString v "last_error"]
  | .routes, v =>
    [cellString v "model_alias", cellString v "policy"] ++ routeValueCells v ++
      [match v.getObject "fallback" with
        | none => .dash
        | some fallback => cellIntMember fallback "max_attempts",
        cellString v "last_selected"]
  | .mcp, v =>
    [.static (mcpStatus v).label, cellString v "display_name", cellString v "transport",
      cellString v "era", cellString v "protocol_version", cellIntMember v "tool_count",
      cellIntMember v "resource_count", cellIntMember v "restarts"]

/-- The cell whose text is the title of the inspector. -/
def ListScreen.titleCell : ListScreen → ℕ
  | .providers => 1
  | .routes => 0
  | .mcp => 1

/-- The `TR_*` record. -/
structure Row where
  id : Bytes
  cells : List Bytes
  deriving DecidableEq, Repr

/-- Cells one after the other into the pool, and what is used of it then. -/
def buildCells (used : ℕ) : List Cell → List Bytes × ℕ
  | [] => ([], used)
  | .static text :: cells => (text :: (buildCells used cells).1, (buildCells used cells).2)
  | .pooled text :: cells =>
    let out := sanitize used text
    (out :: (buildCells (used + out.length) cells).1, (buildCells (used + out.length) cells).2)

/-- `af_tm_row_id`: an ID that is not valid is left empty. -/
def rowId (used : ℕ) (v : Mcp.Json) : Bytes :=
  match stableId v with
  | none => []
  | some id => sanitize used id

/-- A row: its ID, then its cells. -/
def buildRow (k : ListScreen) (used : ℕ) (v : Mcp.Json) : Row × ℕ :=
  let id := rowId used v
  let built := buildCells (used + id.length) (k.cells v)
  (⟨id, built.1⟩, built.2)

/-- `.row`, over the elements that are shown. -/
def buildRows (k : ListScreen) (used : ℕ) : List Mcp.Json → List Row × ℕ
  | [] => ([], used)
  | v :: vs =>
    ((buildRow k used v).1 :: (buildRows k (buildRow k used v).2 vs).1,
      (buildRows k (buildRow k used v).2 vs).2)

/-! ## Selection -/

/-- What a screen keeps: the rows it was built with, the row it marks, the title of the
inspector, and the selection. An empty ID is none. -/
structure Screen where
  rows : List Row
  marked : Option ℕ
  title : Bytes
  selectedId : Bytes
  selectedIndex : ℕ
  dirty : Bool
  deriving DecidableEq, Repr

namespace Screen

/-- `af_tm_selection_store`. -/
def selectionStore (s : Screen) (i : ℕ) (r : Row) : Screen × Status :=
  if r.id = [] then ({ s with selectedId := [] }, Status.notFound)
  else if ctlIdMax < r.id.length then (s, Status.limit)
  else ({ s with selectedId := r.id, selectedIndex := i }, Status.ok)

/-- `.clear` of `af_tm_sync_selection_array`. -/
def clearSelection (s : Screen) : Screen := { s with selectedId := [], selectedIndex := 0 }

/-- An index, or the last one there is. -/
def clamp (i n : ℕ) : ℕ := if i < n then i else n - 1

/-- `af_tm_sync_selection_array`. -/
def sync (s : Screen) (elements : List Mcp.Json) : Screen :=
  let shown := elements.take maxRows
  if shown = [] then s.clearSelection
  else
    let found := if s.selectedId = [] then none
      else shown.findIdx? fun v => decide (stableId v = some s.selectedId)
    match found with
    | some i => { s with selectedIndex := i }
    | none =>
      match (shown[clamp s.selectedIndex shown.length]?).bind stableId with
      | none => s.clearSelection
      | some id => { s with selectedId := id, selectedIndex := clamp s.selectedIndex shown.length }

/-- `af_tm_rebind_detail`. -/
def rebindDetail (k : ListScreen) (s : Screen) : Screen :=
  match s.marked.bind fun i => s.rows[i]? with
  | none => s
  | some r =>
    match r.cells[k.titleCell]? with
    | none => s
    | some title => { s with title := title }

/-- `af_tm_resolve_selection`. -/
def resolve (k : ListScreen) (s : Screen) : Screen :=
  if s.rows = [] then { s with selectedId := [], marked := none }
  else
    let found := if s.selectedId = [] then none
      else s.rows.findIdx? fun r => decide (r.id = s.selectedId)
    match found with
    | some i => rebindDetail k { s with selectedIndex := i, marked := some i }
    | none =>
      let i := clamp s.selectedIndex s.rows.length
      match s.rows[i]? with
      | none => s
      | some r =>
        match s.selectionStore i r with
        | (s, st) =>
          if st < 0 then { s with marked := none } else rebindDetail k { s with marked := some i }

/-- The move of `af_tui_model_select_next` and `_prev` to a row. -/
def moveTo (k : ListScreen) (s : Screen) (i : ℕ) : Screen × Status :=
  match s.rows[i]? with
  | none => (s, Status.notFound)
  | some r =>
    match s.selectionStore i r with
    | (s, st) => if st < 0 then (s, st) else (rebindDetail k { s with marked := some i }, Status.ok)

/-- The row below the selection; the first one below the last. -/
def nextIndex (s : Screen) : ℕ :=
  if s.selectedIndex + 1 < s.rows.length then s.selectedIndex + 1 else 0

/-- The row above the selection; the last one above the first. -/
def prevIndex (s : Screen) : ℕ :=
  let i := if s.selectedIndex < s.rows.length then s.selectedIndex else 0
  if i = 0 then s.rows.length - 1 else i - 1

/-- `af_tui_model_select_next`. -/
def selectNext (k : ListScreen) (s : Screen) : Screen × Status := s.moveTo k s.nextIndex

/-- `af_tui_model_select_prev`. -/
def selectPrev (k : ListScreen) (s : Screen) : Screen × Status := s.moveTo k s.prevIndex

/-- `af_tm_build_invalid`. -/
def buildInvalid (s : Screen) : Screen :=
  { s with rows := [], marked := none, title := ascii "Control response unavailable" }

/-- `af_tm_build_providers`, `_routes` and `_mcp`, on the elements of the document. -/
def buildList (k : ListScreen) (s : Screen) (elements : List Mcp.Json) : Screen :=
  let rows := (buildRows k 0 (elements.take maxRows)).1
  match rows with
  | [] => { s with rows := [], marked := none, title := [] }
  | r :: rs =>
    { s with rows := r :: rs, marked := some 0, title := (r.cells[k.titleCell]?).getD [] }

end Screen

/-! ## Documents -/

/-- A document slot: `TM_SLOT_*`. -/
inductive Slot
  | empty
  | valid (root : Mcp.Json)
  | invalid

/-- The result of a valid document, where it is no error: `af_tm_slot_result`. -/
def Slot.result : Slot → Option Mcp.Json
  | .valid root => if root.getBool "ok" = some true then root.member "result" else none
  | _ => none

/-- The elements that a list screen is built from. -/
def Slot.elements (slot : Slot) : Option (List Mcp.Json) :=
  match slot.result with
  | some (.array elements) => some elements
  | _ => none

/-- `af_tm_kind_type_ok`. -/
def kindTypeOk (k : Kind) (result : Mcp.Json) : Bool :=
  match k with
  | .version | .snapshot | .config => result.isObject
  | .providers | .routes | .requests | .mcp | .logs =>
    match result with
    | .array _ => true
    | _ => false

/-- The checks of `af_tui_model_set_frame` on a parsed frame: its result, or an error
envelope, as `none`. -/
def frameResult (k : Kind) (root : Mcp.Json) : Except Status (Option Mcp.Json) :=
  match root.getBool "ok" with
  | none => .error Status.invalid
  | some false =>
    match root.getObject "error" with
    | none => .error Status.invalid
    | some _ => .ok none
  | some true =>
    match root.member "result" with
    | none => .error Status.invalid
    | some result => if kindTypeOk k result then .ok (some result) else .error Status.invalid

/-- The model: a document for every kind, and the list screens. -/
structure Model where
  docs : Kind → Slot
  screens : ListScreen → Screen

namespace Model

/-- `af_tm_mark_dirty`. -/
def markDirty (m : Model) : Model :=
  { m with screens := fun k => { m.screens k with dirty := true } }

def setDoc (m : Model) (k : Kind) (slot : Slot) : Model :=
  { m with docs := Function.update m.docs k slot }

def onScreen (m : Model) (k : ListScreen) (f : Screen → Screen) : Model :=
  { m with screens := Function.update m.screens k (f (m.screens k)) }

/-- The selection of a screen, at the commit of a frame: providers and MCP servers are
synchronised with the new list, and lose their selection to an error envelope. -/
def syncSelection (m : Model) (k : ListScreen) (result : Option Mcp.Json) : Model :=
  match result with
  | some (.array elements) => m.onScreen k fun s => s.sync elements
  | some _ => m
  | none => m.onScreen k fun s => { s with selectedId := [] }

/-- `.commit`. -/
def commit (m : Model) (k : Kind) (root : Mcp.Json) (result : Option Mcp.Json) : Model :=
  let m := m.setDoc k (.valid root)
  match k with
  | .providers => (m.syncSelection .providers result).markDirty
  | .mcp => (m.syncSelection .mcp result).markDirty
  | _ => m.markDirty

/-- `.invalidate`. -/
def invalidate (m : Model) (k : Kind) : Model := (m.setDoc k .invalid).markDirty

/-- `json_limits` of `af_tui_model_set_frame`. -/
def frameLimits (bytes : Bytes) : Limits := ⟨bytes.length, 64, frameMax, 10000⟩

/-- What `af_tui_model_set_frame` makes of the bytes. -/
def readFrame (loadb : Bytes → Option Mcp.Json) (granted : Bool) (k : Kind) (bytes : Bytes) :
    Except Status (Mcp.Json × Option Mcp.Json) :=
  if bytes = [] then .error Status.invalid
  else if frameMax < bytes.length then .error Status.jsonSize
  else
    match parseDoc loadb granted (frameLimits bytes) bytes with
    | .error e => .error e
    | .ok root =>
      match frameResult k root with
      | .error e => .error e
      | .ok result => .ok (root, result)

/-- `af_tui_model_set_frame`. -/
def setFrame (loadb : Bytes → Option Mcp.Json) (granted : Bool) (m : Model) (k : Kind)
    (bytes : Bytes) : Model × Status :=
  match readFrame loadb granted k bytes with
  | .error e => (m.invalidate k, e)
  | .ok (root, result) => (m.commit k root result, Status.ok)

/-- `af_tui_model_build`, for a list screen. -/
def build (m : Model) (k : ListScreen) : Model :=
  m.onScreen k fun s =>
    if s.dirty = false then s
    else
      let s := match (m.docs k.kind).elements with
        | none => s.buildInvalid
        | some elements => s.buildList k elements
      { s.resolve k with dirty := false }

/-- `af_tui_model_select_next`. -/
def selectNext (m : Model) (k : ListScreen) : Model × Status :=
  (m.onScreen k fun s => (s.selectNext k).1, ((m.screens k).selectNext k).2)

/-- `af_tui_model_select_prev`. -/
def selectPrev (m : Model) (k : ListScreen) : Model × Status :=
  (m.onScreen k fun s => (s.selectPrev k).1, ((m.screens k).selectPrev k).2)

/-- `af_tui_model_selected_id`. -/
def selectedId (m : Model) (k : ListScreen) : Option Bytes :=
  if (m.screens k).selectedId = [] then none else some (m.screens k).selectedId

/-- `af_tui_model_reset`: the rows of the last build stay where they are. -/
def reset (m : Model) : Model :=
  { docs := fun _ => .empty
    screens := fun k =>
      { m.screens k with selectedId := [], selectedIndex := 0, dirty := true } }

end Model

end AsmFlow.Console
