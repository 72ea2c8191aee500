import AsmFlow.Json.Depth
import AsmFlow.Json.Writer
import AsmFlow.Library.Lines
import AsmFlow.Memory.Appends
import Mathlib.Data.List.DropRight

/-!
# Tables for the terminal

`table_output.asm`: a control response as rows for a terminal. Strings are escaped
byte by byte; what is no known table is written as the frame it came in.
-/

namespace AsmFlow.Tui

open Http Json Library

/-- `tbl_tab` and `tbl_lf`. -/
def tab : UInt8 := 9

def lf : UInt8 := 10

/-- `AF_CTLC_TABLE_OUTPUT_MAX`. -/
def tableOutputMax : ℕ := 4 * 1024 * 1024

/-- What `af_tbl_escape` appends for a byte. -/
def escapeByte (b : UInt8) : Bytes :=
  if b = 10 then ascii "\\n"
  else if b = 13 then ascii "\\r"
  else if b = 9 then ascii "\\t"
  else if b = 0x5C then ascii "\\\\"
  else if b < 0x20 ∨ b = 0x7F then
    [0x5C, 0x78, Json.hexDigit (b >>> 4 &&& 15), Json.hexDigit (b &&& 15)]
  else [b]

/-- `af_tbl_escape`, as its appends. -/
def escape (t : Bytes) : List Bytes := t.map escapeByte

/-! ## Cells -/

def dash : List Bytes := [ascii "-"]

/-- `af_tbl_member_string`. -/
def memberString (v : Mcp.Json) (key : String) : List Bytes :=
  match v.getString key with
  | none => dash
  | some s => escape (utf8Text s.toList)

/-- `af_tbl_append_i64`. -/
def appendI64 (n : ℤ) : List Bytes :=
  if n < 0 then [ascii "-", decimal n.natAbs] else [decimal n.natAbs]

/-- `af_tbl_member_int`. -/
def memberInt (v : Mcp.Json) (key : String) : List Bytes :=
  match v.getInteger key with
  | none => dash
  | some n => appendI64 n

/-- `af_tbl_member_bool`. -/
def memberBool (v : Mcp.Json) (key : String) : List Bytes :=
  match v.getBool key with
  | none => dash
  | some b => if b then [ascii "true"] else [ascii "false"]

/-- `af_tbl_member_array_count`. -/
def memberArrayCount (v : Mcp.Json) (key : String) : List Bytes :=
  match v.getArray key with
  | none => dash
  | some xs => [decimal xs.length]

/-! ## Rows -/

/-- A label with its tab, and the value. -/
def fieldRow (label : String) (value : List Bytes) : List Bytes :=
  (ascii label ++ [tab]) :: (value ++ [[lf]])

/-- Cells with tabs between them. -/
def tabbedRow : List (List Bytes) → List Bytes
  | [] => [[lf]]
  | [cell] => cell ++ [[lf]]
  | cell :: cells => cell ++ [tab] :: tabbedRow cells

/-- `TBL_HEALTH_*`. -/
inductive HealthCode
  | unknown
  | healthy
  | degraded
  | circuitOpen
  | halfOpen
  | disabled
  deriving DecidableEq, Repr

/-- `af_tbl_health_code`. -/
def healthCode (text : String) : HealthCode :=
  if text = "healthy" then .healthy
  else if text = "degraded" then .degraded
  else if text = "open" then .circuitOpen
  else if text = "half_open" then .halfOpen
  else if text = "disabled" then .disabled
  else .unknown

/-- The health of a row: `.health_ready` where it has none. -/
def rowHealth (provider : Mcp.Json) : HealthCode :=
  match provider.getString "health" with
  | none => .unknown
  | some text => healthCode text

/-- `af_tbl_provider_off`. -/
def providerOff (provider : Mcp.Json) : Bool :=
  if provider.getBool "enabled" = some false then true
  else decide (provider.getBool "operator_disabled" = some true)

/-- `af_tbl_provider_status`. -/
def providerStatus (health : HealthCode) (off : Bool) : List Bytes :=
  if off then [ascii "[OFF]"]
  else
    match health with
    | .disabled => [ascii "[OFF]"]
    | .healthy => [ascii "[OK]"]
    | .circuitOpen => [ascii "[OPEN]"]
    | .degraded => [ascii "[WARN]"]
    | .halfOpen => [ascii "[WARN]"]
    | .unknown => [ascii "[?]"]

/-- `af_tbl_pad_column`, behind the row so far. -/
def padColumn (row : List Bytes) (column : ℕ) : List Bytes :=
  if row.flatten.length = column then []
  else if column < row.flatten.length then [[0x20]]
  else List.replicate (column - row.flatten.length) [0x20]

/-- A row goes on in a column. -/
def atColumn (row : List Bytes) (column : ℕ) (cell : List Bytes) : List Bytes :=
  row ++ padColumn row column ++ cell

/-- The three digits behind the point, without the zeros at their end. -/
def fraction (rest : ℕ) : Bytes :=
  ([rest / 100, rest % 100 / 10, rest % 10].map fun d => UInt8.ofNat (48 + d)).rdropWhile (· == 48)

/-- `af_tbl_provider_latency`. -/
def providerLatency (provider : Mcp.Json) : List Bytes :=
  match provider.getInteger "observed_latency_us" with
  | none => dash
  | some us =>
    if us ≤ 0 then dash
    else if us.toNat % 1000 = 0 then [decimal (us.toNat / 1000), ascii " ms"]
    else [decimal (us.toNat / 1000), ascii ".", fraction (us.toNat % 1000), ascii " ms"]

/-- `af_tbl_provider_circuit`. -/
def providerCircuit (provider : Mcp.Json) (health : HealthCode) (off : Bool) : List Bytes :=
  if off then [ascii "disabled"]
  else
    match health with
    | .disabled => [ascii "disabled"]
    | .healthy => [ascii "closed"]
    | .degraded => [ascii "degraded"]
    | .circuitOpen => [ascii "open"]
    | .halfOpen => [ascii "half-open"]
    | .unknown => memberString provider "health"

/-- The loop body of `af_tbl_build_providers`, without the line feed. -/
def providerCells (p : Mcp.Json) : List Bytes :=
  let row := providerStatus (rowHealth p) (providerOff p)
  let row := atColumn row 7 (memberString p "display_name")
  let row := atColumn row 23 (memberString p "adapter")
  let row := atColumn row 41 (memberInt p "active_requests" ++
    [ascii "/"] ++ memberInt p "max_concurrency")
  let row := atColumn row 52 (providerLatency p)
  atColumn row 61 (providerCircuit p (rowHealth p) (providerOff p))

/-- The loop body of `af_tbl_build_routes`. -/
def routeRow (route : Mcp.Json) : List Bytes :=
  tabbedRow [memberString route "model_alias", memberString route "policy",
    memberArrayCount route "targets", memberBool route "enabled",
    match route.getObject "fallback" with
    | none => dash
    | some fallback => memberInt fallback "max_attempts"]

/-- The loop body of `af_tbl_build_mcp`. -/
def mcpRow (server : Mcp.Json) : List Bytes :=
  tabbedRow [memberString server "state", memberString server "id",
    memberString server "display_name", memberString server "transport",
    memberString server "era", memberString server "protocol_version",
    memberInt server "tool_count", memberInt server "resource_count",
    memberInt server "restarts"]

/-! ## Tables -/

/-- What a response is written as. -/
inductive Sheet
  | version (result : Mcp.Json)
  | snapshot (result : Mcp.Json)
  | providers (items : List Mcp.Json)
  | routes (items : List Mcp.Json)
  | mcp (items : List Mcp.Json)
  | error (error : Mcp.Json)
  /-- The frame itself. -/
  | generic

namespace Sheet

/-- The header, with its line feed. -/
def header : Sheet → Bytes
  | version _ | snapshot _ => ascii "FIELD\tVALUE\n"
  | providers _ => ascii "STATUS NAME            ADAPTER           ACTIVE/MAX LATENCY  CIRCUIT\n"
  | routes _ => ascii "ALIAS\tPOLICY\tTARGETS\tENABLED\tMAX_ATTEMPTS\n"
  | mcp _ =>
    ascii "STATUS\tID\tNAME\tTRANSPORT\tERA\tVERSION\tTOOLS\tRESOURCES\tRESTARTS\n"
  | error _ => ascii "STATUS\tCODE\tMESSAGE\tFIELD\n"
  | generic => []

/-- The part of `af_tbl_build_snapshot` from `counts` on. -/
def countRows (result : Mcp.Json) : List (List Bytes) :=
  match result.getObject "counts" with
  | none => []
  | some counts =>
    [fieldRow "providers" (memberInt counts "providers"),
      fieldRow "routes" (memberInt counts "routes"),
      fieldRow "mcp_servers" (memberInt counts "mcp_servers"),
      fieldRow "connections" (memberInt counts "connections")]

/-- The rows that `af_tbl_build_*` appends below the header. -/
def rows : Sheet → List (List Bytes)
  | version r =>
    [fieldRow "version" (memberString r "version"), fieldRow "target" (memberString r "target"),
      fieldRow "build" (memberString r "build"),
      fieldRow "protocol_version" (memberInt r "protocol_version")]
  | snapshot r =>
    [fieldRow "revision" (memberInt r "revision"), fieldRow "ready" (memberBool r "ready"),
      fieldRow "database" (memberString r "database"),
      fieldRow "uptime_ms" (memberInt r "uptime_ms"),
      fieldRow "started_at_ms" (memberInt r "started_at_ms"),
      fieldRow "reload_count" (memberInt r "reload_count")] ++ countRows r
  | providers items => items.map fun p => providerCells p ++ [[lf]]
  | routes items => items.map routeRow
  | mcp items => items.map mcpRow
  | error e =>
    [tabbedRow [[ascii "false"], memberString e "code", memberString e "message",
      memberString e "field"]]
  | generic => []

/-- `af_tbl_build_*`. -/
def build (s : Sheet) : List Bytes := s.header :: s.rows.flatten

end Sheet

/-- The table of a successful response, by its method. -/
def resultSheet (method : Bytes) (result : Mcp.Json) : Sheet :=
  if method = ascii "system.version" then
    if result.isObject then .version result else .generic
  else if method = ascii "system.snapshot" then
    if result.isObject then .snapshot result else .generic
  else
    match result with
    | .array items =>
      if method = ascii "providers.list" then .providers items
      else if method = ascii "routes.list" then .routes items
      else if method = ascii "mcp.list" then .mcp items
      else .generic
    | _ => .generic

/-- The table of a response. -/
def responseSheet (method : Bytes) (root : Mcp.Json) : Except Status Sheet :=
  match root.getBool "ok" with
  | none => .error Status.invalid
  | some false =>
    match root.getObject "error" with
    | none => .error Status.invalid
    | some e => .ok (.error e)
  | some true =>
    match root.member "result" with
    | none => .error Status.invalid
    | some result => .ok (resultSheet method result)

/-- `json_limits` of `af_ctl_table_response`. -/
def tableLimits (frame : Bytes) : Limits := ⟨frame.length, 64, 1024 * 1024, 10000⟩

/-- `af_ctl_table_response`: the bytes it gives to the descriptor. -/
def tableResponse (alloc : ℕ → Bool) (loadb : Bytes → Option Mcp.Json) (granted : Bool)
    (frame method : Bytes) : Except Status Bytes :=
  if frame = [] then .error Status.invalid
  else
    match parseDoc loadb granted (tableLimits frame) frame with
    | .error e => .error e
    | .ok root =>
      match responseSheet method root with
      | .error e => .error e
      | .ok .generic => .ok (frame ++ [lf])
      | .ok sheet =>
        match (Buffer.init tableOutputMax).appendAll alloc sheet.build with
        | (b, st) => if st < 0 then .error st else .ok b.data

end AsmFlow.Tui
