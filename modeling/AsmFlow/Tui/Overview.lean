import AsmFlow.Machine.Word
import AsmFlow.Tui.Drawing

/-!
# The overview

`overview.asm`: what `af_tui_render_overview` draws, and where. Only its routes, its events,
the line of commands and the borders come near the last row of a console.
-/

namespace AsmFlow.Tui

open Http Json Library

/-- The numbers of `TOR_*`. -/
structure RouteCounts where
  targets : Word
  eligible : Word
  active : Word

/-- The rest of `TM_*`, `TO_*` and `TOE_*`; the counts of the routes and the statuses of the
events are by their index. -/
structure Model extends ScreenModel where
  revision : Word
  activeRequests : Word
  mcpRunning : Word
  mcpTotal : Word
  selected : ℕ
  providerCounts : List Word
  mcpCounts : List Word
  routeCounts : ℕ → RouteCounts
  eventStatus : ℕ → ℕ

/-- `af_tui_status_label` -/
def statusLabel : ℕ → Option Bytes
  | 0 => some (ascii "[OK]")
  | 1 => some (ascii "[WARN]")
  | 2 => some (ascii "[OPEN]")
  | 3 => some (ascii "[FAIL]")
  | 4 => some (ascii "[OFF]")
  | 5 => some (ascii "[RUN]")
  | _ => none

/-- `_o_put_u64` -/
def number (n : Word) : Bytes := decimal n.toNat

/-- `_o_append`, `_o_append_u64`: pieces, each where the last one ended. -/
def pieces (width y : ℕ) : ℕ → List Bytes → List Draw
  | _, [] => []
  | x, p :: ps =>
    .ascii x y p :: pieces width y (if width ≤ x then x else x + min p.length (width - x)) ps

/-- Rows one below the other. -/
def stacked {α : Type} (f : ℕ → α → List Draw) : ℕ → List α → List Draw
  | _, [] => []
  | i, a :: as => f i a ++ stacked f (i + 1) as

/-- A label, when there is one for the status. -/
def labelDraws (x y status : ℕ) : List Draw :=
  (statusLabel status).elim [] fun label => [.ascii x y label]

/-- The label of the gateway, and a word behind it. -/
def gatewayDraws (x y status : ℕ) (word : Bytes) : List Draw :=
  (statusLabel status).elim [] fun label =>
    [.ascii x y label, .ascii (x + label.length + 1) y word]

section Overview

variable (width : ℕ)

/-- `_o_route` -/
def routeDraws (mode : Mode) (y : ℕ) (c : RouteCounts) (r : OverviewRoute) : List Draw :=
  let last (x : ℕ) : Draw :=
    if r.last = [] then .ascii x y (ascii "-") else .text ⟨r.last, some 16, x, y⟩
  if 6 ≤ r.status then []
  else
    match mode with
    | .compact =>
      labelDraws 0 y r.status ++ [.text ⟨r.name, some 11, 7, y⟩, .text ⟨r.policy, some 15, 18, y⟩] ++
        pieces width y 32
          [number c.eligible, ascii "/", number c.targets, ascii " eligible"]
    | .wide =>
      labelDraws 21 y r.status ++ [.text ⟨r.name, some 11, 28, y⟩, .text ⟨r.policy, some 15, 40, y⟩,
        .ascii 56 y (number c.targets), .ascii 64 y (number c.eligible),
        .ascii 73 y (number c.active), last 80]
    | _ =>
      labelDraws 0 y r.status ++ [.text ⟨r.name, some 11, 7, y⟩, .text ⟨r.policy, some 15, 19, y⟩] ++
        pieces width y 35 [number c.eligible, ascii "/", number c.targets] ++
        [.ascii 44 y (number c.active), last 51]

/-- The top bar. -/
def overviewTop (mode : Mode) (m : Model) : List Draw :=
  let connection :=
    match m.connection with
    | 0 => ascii "[CONNECTED]"
    | 1 => ascii "[STALE]"
    | _ => ascii "[DISCONNECTED]"
  let gap := if mode = .compact then ascii " " else ascii "  "
  let clock : List Draw :=
    if mode = .compact ∨ m.utc = [] then []
    else [.text ⟨m.utc, none, if width = 140 then 118 else 82, 0⟩]
  pieces width 0 0
    [ascii "AsmFlow ", connection, gap, ascii "cfg:", number m.revision, gap, ascii "req:",
      number m.activeRequests, gap, ascii "mcp:", number m.mcpRunning, ascii "/",
      number m.mcpTotal] ++ clock

/-- A number of a group, in the order of `TO_*`. -/
def countAt (counts : List Word) (i : ℕ) : Bytes := number (counts.getD i 0)

/-- `_o_compact_provider_summary` -/
def compactSummary (y : ℕ) (m : Model) (mcp : Bool) : List Draw :=
  let counts := if mcp then m.mcpCounts else m.providerCounts
  pieces width y 0
    ([if mcp then ascii "MCP        " else ascii "Providers  ",
      ascii "[OK]", ascii " ", countAt counts 0, ascii "  ",
      if mcp then ascii "[RUN]" else ascii "[WARN]", ascii " ", countAt counts 1, ascii "  "] ++
      (if mcp then [ascii " "] else []) ++
      [if mcp then ascii "[FAIL]" else ascii "[OPEN]", ascii " ", countAt counts 2, ascii "  ",
        ascii "[OFF]", ascii " ", countAt counts 3])

/-- `_o_summary_counts` -/
def summaryCounts (x y : ℕ) (m : Model) (mcp : Bool) : List Draw :=
  let counts := if mcp then m.mcpCounts else m.providerCounts
  pieces width y x
    [countAt counts 0, if mcp then ascii " ready / " else ascii " healthy / ",
      countAt counts 1, if mcp then ascii " starting / " else ascii " warning / ",
      countAt counts 2, if mcp then ascii " crash-loop / " else ascii " open / ",
      countAt counts 3, if mcp then ascii " stopped" else ascii " disabled"]

/-- The rows of the routes. -/
def routeRows (mode : Mode) (y : ℕ) (m : Model) (o : Overview) : List Draw :=
  stacked (fun i r => routeDraws width mode (y + i) (m.routeCounts i) r) 0 o.routes

/-- The rows of the events: a label, and the text behind it. -/
def eventRows (limit : Option ℕ) (x y : ℕ) (m : Model) (o : Overview) : List Draw :=
  stacked (fun i text =>
    labelDraws x (y + i) (m.eventStatus i) ++ [.text ⟨text, limit, x + 7, y + i⟩]) 0 o.events

/-- `.compact`, up to the routes. -/
def compactHead (m : Model) (o : Overview) : List Draw :=
  List.flatten [
    [.ascii 0 1 (ascii "[Overview] Providers Routes Requests MCP Logs Settings"),
      .ascii 0 2 (ascii "OVERVIEW")],
    (statusLabel o.gatewayStatus).elim [] fun label =>
      [.ascii 0 3 label, .ascii label.length 3 (ascii " Gateway ready")],
    compactSummary width 4 m false, compactSummary width 5 m true,
    [.ascii 0 6 (ascii "Routes")]]

/-- `.compact` -/
def compactDraws (m : Model) (o : Overview) : List Draw :=
  let routes := o.routes.length
  let events := o.events.length
  compactHead width m o ++ routeRows width .compact 7 m o ++
    [.ascii 0 (routes + 7) (ascii "Recent events")] ++
    eventRows (some 37) 0 (routes + 8) m o ++
    [.ascii 0 (routes + 8 + events) (ascii "r refresh  : commands  ? help  q quit")]

/-- `.standard`, up to the routes. -/
def standardHead (m : Model) (o : Overview) : List Draw :=
  List.flatten [
    [.ascii 0 1 (ascii "Overview  Providers  Routes  Requests  MCP  Logs  Settings"),
      .ascii 0 2 (ascii "OVERVIEW"), .ascii 0 3 (ascii "Gateway")],
    gatewayDraws 14 3 o.gatewayStatus
      (if o.gatewayStatus = 0 then ascii "READY" else ascii "NOT READY"),
    [.ascii 0 4 (ascii "Providers")], summaryCounts width 14 4 m false,
    [.ascii 0 5 (ascii "MCP servers")], summaryCounts width 14 5 m true,
    [.ascii 0 7 (ascii "ROUTES"),
      .ascii 0 8 (ascii "STATUS ALIAS       POLICY          ELIGIBLE ACTIVE LAST SELECTED")]]

/-- `.standard` -/
def standardDraws (m : Model) (o : Overview) : List Draw :=
  let routes := o.routes.length
  let events := o.events.length
  standardHead width m o ++ routeRows width .standard 9 m o ++
    [.ascii 0 (routes + 10) (ascii "RECENT EVENTS")] ++
    eventRows none 0 (routes + 11) m o ++
    [.ascii 0 (routes + 12 + events) (ascii "r refresh   : commands   ? help   q quit")]

/-- The bars of a row. Where the lines of the goldens are shorter, they stand further left. -/
def barDraw (routes y : ℕ) : Draw :=
  let route := 10 ≤ y ∧ y < routes + 10
  let shift := if y = 5 ∨ y = 6 ∨ route then 1 else 0
  .vbars y (width - 40 - shift) (width - 1 - shift - if route ∧ y = 10 then 1 else 0)

/-- `.wide`, its borders. -/
def wideBorders (routes events : ℕ) : List Draw :=
  [.hborder 1] ++
    stacked (fun i (_ : ℕ) => [barDraw width routes (2 + i)]) 0
      (List.range (10 + routes + events)) ++
    [.hborder (12 + routes + events)]

/-- `.wide`, between the borders and the routes. -/
def wideHead (m : Model) (o : Overview) : List Draw :=
  List.flatten [
    [.ascii 2 2 (ascii ">"), .ascii 4 2 (ascii "Overview"), .ascii 4 3 (ascii "Providers"),
      .ascii 4 4 (ascii "Routes"), .ascii 4 5 (ascii "Requests"), .ascii 4 6 (ascii "MCP"),
      .ascii 4 7 (ascii "Logs"), .ascii 4 8 (ascii "Settings"), .ascii 21 2 (ascii "OVERVIEW"),
      .ascii 102 2 (ascii "DETAIL"), .ascii 102 3 (ascii "Gateway"),
      .ascii 21 4 (ascii "Gateway")],
    gatewayDraws 35 4 o.gatewayStatus (ascii "READY"),
    [.ascii 21 5 (ascii "Providers")], summaryCounts width 35 5 m false,
    [.ascii 21 6 (ascii "MCP servers")], summaryCounts width 35 6 m true,
    [.ascii 102 4 (ascii "State       ")],
    gatewayDraws 114 4 o.gatewayStatus (ascii "ready"),
    [.ascii 101 5 (ascii "Revision    "), .ascii 113 5 (number m.revision),
      .ascii 101 6 (ascii "Requests    ")],
    pieces width 6 113 [number m.activeRequests, ascii " active"],
    [.ascii 102 7 (ascii "Control     ")], gatewayDraws 114 7 0 (ascii "connected"),
    [.ascii 21 8 (ascii "ROUTES"),
      .ascii 21 9 (ascii
        "STATUS ALIAS       POLICY          TARGETS ELIGIBLE ACTIVE LAST SELECTED"),
      .ascii 102 9 (ascii "Next action")]]

/-- `.wide_route`: the first route has a hint beside it. -/
def wideRoutes (m : Model) (o : Overview) : List Draw :=
  stacked (fun i r => routeDraws width .wide (10 + i) (m.routeCounts i) r ++
    if i = 0 then [.ascii 101 10 (ascii "Use 2-7 to inspect component state.")] else []) 0 o.routes

/-- `.wide` -/
def wideDraws (m : Model) (o : Overview) : List Draw :=
  let routes := o.routes.length
  let events := o.events.length
  wideBorders width routes events ++ wideHead width m o ++ wideRoutes width m o ++
    [.ascii 21 (routes + 11) (ascii "RECENT EVENTS")] ++
    eventRows (some (width - 40 - 28)) 21 (routes + 12) m o ++
    [.ascii 0 (13 + routes + events) (ascii "r refresh   : commands   ? help   q quit")]

/-- `af_tui_render_overview` -/
def overviewDraws (mode : Mode) (m : Model) (o : Overview) : Except Status (List Draw) :=
  if 6 ≤ o.gatewayStatus then .error .invalid
  else if 8 < o.routes.length then .error .limit
  else if 8 < o.events.length then .error .limit
  else
    .ok (overviewTop width mode m ++
      match mode with
      | .compact => compactDraws width m o
      | .wide => wideDraws width m o
      | _ => standardDraws width m o)

end Overview

/-! ## In which rows the overview is -/

/-- Draws of one row. -/
def InRow (y : ℕ) (ds : List Draw) : Prop := ∀ d ∈ ds, d.row = y

/-- Draws above a row. -/
def Above (n : ℕ) (ds : List Draw) : Prop := ∀ d ∈ ds, d.row < n

section Where

variable {width y n : ℕ} {ds es : List Draw}

theorem InRow.append (h : InRow y ds) (h' : InRow y es) : InRow y (ds ++ es) :=
  fun d hd => (List.mem_append.mp hd).elim (h d) (h' d)

theorem Above.append (h : Above n ds) (h' : Above n es) : Above n (ds ++ es) :=
  fun d hd => (List.mem_append.mp hd).elim (h d) (h' d)

theorem Above.mono {k : ℕ} (h : Above n ds) (hk : n ≤ k) : Above k ds :=
  fun d hd => lt_of_lt_of_le (h d hd) hk

theorem Above.drawnIn (h : Above n ds) (hy : n ≤ y) : drawnIn y ds = [] :=
  drawnIn_none fun d hd => ne_of_lt (lt_of_lt_of_le (h d hd) hy)

end Where

/-! ## The last column of the last row -/

section Free

variable {l : Locale} {z : Size}

end Free

end AsmFlow.Tui
