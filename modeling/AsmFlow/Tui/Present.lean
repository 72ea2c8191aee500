import AsmFlow.Json.Depth
import AsmFlow.Library.Lines
import AsmFlow.Tui.Overview

/-!
# Presenting the canvas

`_af_tuir_present`: the canvas is dumped and its lines are given to `waddnstr`, without the
blanks at their end; then comes the overlay.
-/

namespace AsmFlow.Tui

open Http Json Library

/-! ## The other screens -/

/-- `TSD_TITLE` -/
def screenTitle : ℕ → Bytes
  | 1 => ascii "OVERVIEW"
  | 2 => ascii "PROVIDERS"
  | 3 => ascii "ROUTES"
  | 4 => ascii "REQUESTS"
  | 5 => ascii "MCP"
  | 6 => ascii "LOGS"
  | _ => ascii "SETTINGS"

/-- `TSD_KEY` -/
def screenKey (screen : ℕ) : UInt8 := UInt8.ofNat (48 + screen)

/-- The labels of the columns of a screen. -/
def columnLabels : ℕ → List String
  | 1 => ["STATUS", "NAME", "VALUE", "DETAIL"]
  | 2 => ["STATUS", "NAME", "ADAPTER", "ACTIVE/MAX", "LATENCY", "CIRCUIT", "LAST_ERROR"]
  | 3 => ["ALIAS", "POLICY", "TARGETS", "ELIGIBLE", "ACTIVE", "FALLBACK", "LAST_SELECTED"]
  | 4 => ["TIME", "ID", "ENDPOINT", "MODEL", "PROVIDER", "STATE", "STATUS", "TTFB", "TOTAL"]
  | 5 => ["STATUS", "NAME", "TRANSPORT", "ERA", "VERSION", "TOOLS", "RESOURCES", "RESTARTS"]
  | 6 => ["LEVEL", "COMPONENT", "EVENT", "ID", "TIME"]
  | _ => ["KEY", "VALUE", "STATE"]

section Generic

variable (width : ℕ) (layout : Layout) (screen : ℕ)

/-- The top bar. -/
def topDraws (m : Option Model) : List Draw :=
  let connection :=
    match m.elim 2 fun m => m.connection with
    | 0 => ascii "CONNECTED"
    | 1 => ascii "STALE"
    | _ => ascii "DISCONNECTED"
  let count (f : Model → Word) : Bytes := number (m.elim 0 f)
  let clock : List Draw :=
    match m with
    | none => []
    | some m =>
      if width < 100 ∨ m.utc = [] then []
      else [.text ⟨m.utc, some 24, width - min m.utc.length 24, 0⟩]
  pieces width 0 0
    ([ascii "AsmFlow ", connection, ascii " cfg:", count Model.revision] ++
      if width < 80 then []
      else [ascii " req:", count Model.activeRequests, ascii " mcp:", count Model.mcpRunning,
        ascii "/", count Model.mcpTotal]) ++ clock

/-- `.screen`, as tabs in a row, from a screen on. -/
def tabDraws (right y : ℕ) : ℕ → List ℕ → List Draw
  | _, [] => []
  | x, s :: ss =>
    if right ≤ x then []
    else
      let marker : List Draw := [.ascii x y (if s = screen then ascii ">" else ascii " "),
        .ascii (x + 1) y [screenKey s], .ascii (x + 2) y (ascii ":")]
      if x + 3 = right then marker
      else
        let room := if x + 3 ≤ right then right - (x + 3) else (screenTitle s).length
        marker ++ .text ⟨screenTitle s, some room, x + 3, y⟩ ::
          tabDraws right y (x + ((screenTitle s).length + 4)) ss

/-- `.screen`, one below the other. -/
def sideDraws (nav : Rect) : List Draw :=
  stacked (fun i s =>
    if nav.h ≤ i then []
    else
      [.ascii nav.x (nav.y + i) (if s = screen then ascii ">" else ascii " "),
        .ascii (nav.x + 2) (nav.y + i) [screenKey s]] ++
        if nav.w ≤ 4 then []
        else [.text ⟨screenTitle s, some (nav.w - 4), nav.x + 4, nav.y + i⟩]) 0
    [1, 2, 3, 4, 5, 6, 7]

/-- `_af_tui_render_navigation` -/
def navigationDraws : List Draw :=
  if layout.navTabs then
    tabDraws screen (layout.nav.x + layout.nav.w) layout.nav.y layout.nav.x [1, 2, 3, 4, 5, 6, 7]
  else sideDraws screen layout.nav

/-- `.header_column` -/
def headerDraws (mask : Word) (y : ℕ) : ℕ → ℕ → List (ScreenColumn × String) → List Draw
  | _, _, [] => []
  | x, i, (c, label) :: cs =>
    if mask &&& (1 <<< UInt64.ofNat i) = 0 then headerDraws mask y x (i + 1) cs
    else
      .ascii x y ((ascii label).take c.fit.minWidth.toNat) ::
        headerDraws mask y (x + c.fit.minWidth.toNat + 1) (i + 1) cs

/-- `.row`: a marker, and the cells. -/
def tableDraws (mask : Word) (columns : List ScreenColumn) (selected x y : ℕ)
    (rows : List (List Bytes)) : List Draw :=
  stacked (fun i row =>
    .ascii x (y + i) (if i = selected then ascii ">" else ascii " ") ::
      (cellPuts mask row (y + i) (x + 2) 0 columns).1.map .text) 0 rows

/-- `.generic_render` -/
def genericDraws (columns : List ScreenColumn) (m : Option Model) : Except Status (List Draw) :=
  if layout.main.w ≤ 2 then .error .invalid
  else
    match columnsFit (columns.map ScreenColumn.fit) (UInt64.ofNat (layout.main.w - 2)) 1 with
    | .error e => .error e
    | .ok fit =>
      let mask := if screen = 2 ∧ layout.mode ≠ .wide then fit.mask &&& ~~~((1 : Word) <<< 6)
        else fit.mask
      let main := layout.main
      let shown := (m.elim [] fun m => m.rows).take (main.h - 3)
      let table := rowPuts mask columns main.x (main.y + 3) shown
      if table.2 ≠ .ok then .error table.2
      else
        .ok (List.flatten [
          topDraws width m,
          navigationDraws layout screen,
          [.ascii main.x main.y (screenTitle screen)],
          headerDraws mask (main.y + 2) (main.x + 2) 0 (columns.zip (columnLabels screen)),
          if m.elim [] (fun m => m.rows) = [] then
            [.ascii (main.x + 2) (main.y + 3) (ascii "No data in the current snapshot.")]
          else tableDraws mask columns (m.elim 0 Model.selected) main.x (main.y + 3) shown,
          if layout.inspect.w = 0 then []
          else [.ascii (layout.inspect.x + 1) layout.inspect.y (ascii "DETAIL")],
          (detailPuts layout.inspect (m.map Model.toScreenModel)).map .text,
          [.text (eventPut layout.event (m.map Model.toScreenModel))],
          [.ascii layout.command.x layout.command.y
            ((ascii "j/k rows  r refresh  : commands  ? help  q quit").take layout.command.w)]])

end Generic

/-- `.too_small`: a line of the notice. -/
def smallLine : ℕ → Bytes
  | 0 => ascii "AsmFlow: terminal enlargement required (minimum 60x16)."
  | 1 => ascii "Use asmflowctl --json while the TUI is unavailable."
  | _ => []

def smallDraws (z : Size) : List Draw :=
  .ascii 0 0 (smallLine 0) :: if z.height ≤ 1 then [] else [.ascii 0 1 (smallLine 1)]

/-- `af_tui_render_screen` -/
def screenDraws (z : Size) (screen : ℕ) (m : Option Model) : Except Status (List Draw) :=
  match screenColumns screen with
  | none => .error .notFound
  | some columns =>
    match layoutCompute z.width z.height with
    | .error e => .error e
    | .ok layout =>
      if layout.mode = .tooSmall then .ok (smallDraws z)
      else
        match m with
        | none => genericDraws z.width layout screen columns none
        | some m =>
          if m.check ≠ .ok then .error m.check
          else
            match m.overview with
            | some o =>
              if screen = 1 then overviewDraws z.width layout.mode m o
              else genericDraws z.width layout screen columns (some m)
            | none => genericDraws z.width layout screen columns (some m)

/-! ## The console -/

/-- A canvas that `af_tui_canvas_clear` filled with blanks. -/
def blankCanvas (z : Size) : Canvas z where
  rows := List.replicate z.height (List.replicate z.width blank)
  rows_length := List.length_replicate ..
  row_length := fun r hr => by
    rw [List.eq_of_mem_replicate hr]
    exact List.length_replicate ..

theorem clear_blank {z : Size} (c : Canvas z) : c.clear 0x20 = .ok (blankCanvas z) := by
  have hrow : c.rows.map (List.map fun _ => Cell.scalar (safeScalar 0x20)) =
      List.replicate z.height (List.replicate z.width blank) := by
    rw [List.eq_replicate_iff]
    refine ⟨by rw [List.length_map, c.rows_length], fun r hr => ?_⟩
    obtain ⟨r', hr', rfl⟩ := List.mem_map.mp hr
    rw [List.map_const', c.row_length r' hr']
    rfl
  have hsafe : ¬ (safeScalar 0x20).val.toNat ≠ 0x20 := by decide
  simp only [Canvas.clear, hsafe, if_false, hrow, blankCanvas]

/-- `TUI_DUMP_CAPACITY` -/
def dumpCapacity : ℕ := maxColumns * maxRows * 4 + maxRows

/-- `_af_tuir_render`: the part of `tui_dump_buffer` that is written. -/
def renderDump (l : Locale) (z : Size) (screen : ℕ) (m : Option Model) : Except Status Bytes :=
  match screenDraws z screen m with
  | .error e => .error e
  | .ok draws =>
    let canvas := draws.foldl (Canvas.draw l) (blankCanvas z)
    let len := requiredLen canvas.rows
    if dumpCapacity < len then .error .limit
    else
      let dump := canvas.dump (some (List.replicate len 0)) len 0
      if dump.status < 0 then .error dump.status else .ok (dump.dst.getD [])

/-- What lies over the screen, in the order in which it is looked for. -/
structure Overlays where
  confirmation : Option Bytes
  help : Bool
  command : Bool

def Overlays.text (o : Overlays) : Option Bytes :=
  match o.confirmation with
  | some text => some text
  | none =>
    if o.help then
      some (ascii "HELP  1..7 screens  j/k rows  r refresh  : commands  Esc close  q quit")
    else if o.command then some (ascii "COMMAND  mcp-restart  Enter submit  Esc cancel")
    else none

/-- `.overlay_utf8_boundary` -/
def boundary (text : Bytes) : ℕ → ℕ
  | 0 => 0
  | n + 1 => if continues (text.getD (n + 1) 0) then boundary text n else n + 1

/-- The bytes of an overlay that are shown. -/
def overlayPrefix (width : ℕ) (text : Bytes) : Bytes :=
  if text.length ≤ width then text else text.take (boundary text width)

/-- A call of `waddnstr` that begins a row. -/
structure RowWrite where
  y : ℕ
  bytes : Bytes
  deriving DecidableEq

/-- `.line` -/
def lineWrites (height : ℕ) (dump : Bytes) : List RowWrite :=
  let split := lines 10 dump
  let all := split.1 ++ if split.2 = [] then [] else [split.2]
  (all.take height).zipIdx.filterMap fun p =>
    let shown := p.1.rdropWhile fun b => b == 0x20
    if shown = [] then none else some ⟨p.2, shown⟩

/-- `.put_overlay` -/
def overlayWrites (z : Size) (o : Overlays) : List RowWrite :=
  o.text.elim [] fun text =>
    [⟨if z.height < 3 then 0 else z.height - 2, overlayPrefix z.width text⟩]

/-- `_af_tuir_present`: its calls of `waddnstr`, as long as none of them fails. -/
def present (l : Locale) (z : Size) (screen : ℕ) (m : Option Model) (o : Overlays) :
    List RowWrite × Status :=
  match renderDump l z screen m with
  | .error e => ([], e)
  | .ok dump => (lineWrites z.height dump ++ overlayWrites z o, .ok)

section Console

variable {l : Locale} {z : Size} {screen : ℕ} {m : Option Model}

end Console

end AsmFlow.Tui
