import AsmFlow.Http.Response
import AsmFlow.Tui.Canvas

/-!
# Texts on the screen

The texts of a model that `af_tui_render_screen` puts on the canvas: the cells of a table, the
detail and the event line. Each is clipped to a number of bytes before it is put.
-/

namespace AsmFlow.Tui

open Http Json Library

/-- The part of a column of a screen that the renderer reads. -/
structure ScreenColumn where
  fit : Column
  alignRight : Bool
  deriving DecidableEq, Repr

private def left (priority minWidth maxWidth : Word) : ScreenColumn :=
  ⟨⟨priority, minWidth, maxWidth⟩, false⟩

private def right (priority minWidth maxWidth : Word) : ScreenColumn :=
  ⟨⟨priority, minWidth, maxWidth⟩, true⟩

def overviewColumns : List ScreenColumn := [left 0 7 7, left 0 18 28, right 1 12 18, left 2 20 40]

def providersColumns : List ScreenColumn :=
  [left 0 7 7, left 0 14 24, left 2 9 16, right 1 10 12, right 1 9 12, left 1 7 10, left 3 14 32]

def routesColumns : List ScreenColumn :=
  [left 0 16 24, left 1 14 16, right 2 8 10, right 0 10 12, right 2 8 10, left 2 10 12,
    left 3 16 24]

def requestsColumns : List ScreenColumn :=
  [left 1 10 12, left 0 18 26, left 2 10 12, left 0 12 18, left 1 14 20, left 0 10 12,
    right 1 8 10, right 2 8 10, right 2 8 10]

def mcpColumns : List ScreenColumn :=
  [left 0 7 7, left 0 16 24, left 1 10 12, left 1 12 14, left 2 12 14, right 1 7 9, right 2 10 12,
    right 1 8 10]

def logsColumns : List ScreenColumn :=
  [left 0 7 8, left 1 12 16, left 0 24 40, left 2 16 24, left 1 10 12]

def settingsColumns : List ScreenColumn := [left 0 22 28, left 0 24 40, left 1 10 14]

/-- `af_tui_screen_descriptor`: the columns of a screen. -/
def screenColumns : ℕ → Option (List ScreenColumn)
  | 1 => some overviewColumns
  | 2 => some providersColumns
  | 3 => some routesColumns
  | 4 => some requestsColumns
  | 5 => some mcpColumns
  | 6 => some logsColumns
  | 7 => some settingsColumns
  | _ => none

/-- The texts of `TOR_*`, and the status that `_o_route` looks up first. -/
structure OverviewRoute where
  status : ℕ
  name : Bytes
  policy : Bytes
  last : Bytes

/-- The part of `TO_*` that decides on texts. -/
structure Overview where
  gatewayStatus : ℕ
  routes : List OverviewRoute
  events : List Bytes

/-- The part of `TM_*` that decides on texts. -/
structure ScreenModel where
  connection : ℕ
  utc : Bytes
  rows : List (List Bytes)
  detailTitle : Bytes
  detailBody : Bytes
  event : Bytes
  overview : Option Overview

/-- The checks of the model in front of `.model_ready`. -/
def ScreenModel.check (m : ScreenModel) : Status :=
  if 2 < m.connection then .invalid
  else if textMaxBytes < m.utc.length then .limit
  else if textMaxBytes < m.detailTitle.length then .limit
  else if textMaxBytes < m.detailBody.length then .limit
  else if textMaxBytes < m.event.length then .limit
  else if 64 < m.rows.length then .limit
  else .ok

/-- A text, the bytes of it that are put at most, and where. -/
structure TextPut where
  text : Bytes
  limit : Option ℕ
  x : ℕ
  y : ℕ
  deriving DecidableEq

section Table

variable (mask : Word) (columns : List ScreenColumn)

/-- `.row_column`: the cells of a row from a column on, and the status at their end. -/
def cellPuts (cells : List Bytes) (y : ℕ) : ℕ → ℕ → List ScreenColumn → List TextPut × Status
  | _, _, [] => ([], .ok)
  | x, i, c :: cs =>
    if mask &&& (1 <<< UInt64.ofNat i) = 0 then cellPuts cells y x (i + 1) cs
    else
      let text := cells.getD i (ascii "-")
      if textMaxBytes < text.length then ([], .limit)
      else
        let width := c.fit.minWidth.toNat
        let start := if c.alignRight then x + (width - min text.length width) else x
        let behind := cellPuts cells y (x + width + 1) (i + 1) cs
        (⟨text, some width, start, y⟩ :: behind.1, behind.2)

/-- `.row` -/
def rowPuts (x : ℕ) : ℕ → List (List Bytes) → List TextPut × Status
  | _, [] => ([], .ok)
  | y, row :: rows =>
    if 16 < row.length then ([], .limit)
    else
      let here := cellPuts mask row y (x + 2) 0 columns
      if here.2 ≠ .ok then here
      else
        let below := rowPuts x (y + 1) rows
        (here.1 ++ below.1, below.2)

end Table

/-- `.detail` -/
def detailPuts (inspect : Rect) (m : Option ScreenModel) : List TextPut :=
  if inspect.w ≤ 2 then []
  else
    let title := match m with
      | none => ascii "No selection."
      | some m => if m.detailTitle = [] then ascii "No selection." else m.detailTitle
    let body := match m with
      | none => []
      | some m => m.detailBody
    ⟨title, some (inspect.w - 2), inspect.x + 1, inspect.y + 2⟩ ::
      if body = [] then [] else [⟨body, some (inspect.w - 2), inspect.x + 1, inspect.y + 4⟩]

/-- `.event_line` -/
def eventPut (event : Rect) (m : Option ScreenModel) : TextPut :=
  let standing :=
    match m.elim 2 ScreenModel.connection with
    | 1 => ascii "Snapshot is stale. Press r to retry."
    | 2 => ascii "Disconnected. Press r to retry or q to exit."
    | _ => ascii "Ready."
  let text := match m with
    | none => standing
    | some m => if m.event = [] then standing else m.event
  ⟨text, some event.w, event.x, event.y⟩

/-- `.generic_render` -/
def genericPuts (layout : Layout) (screen : ℕ) (columns : List ScreenColumn)
    (m : Option ScreenModel) : List TextPut × Status :=
  if layout.main.w ≤ 2 then ([], .invalid)
  else
    match columnsFit (columns.map ScreenColumn.fit) (UInt64.ofNat (layout.main.w - 2)) 1 with
    | .error e => ([], e)
    | .ok fit =>
      let mask := if screen = 2 ∧ layout.mode ≠ .wide then fit.mask &&& ~~~((1 : Word) <<< 6) else fit.mask
      let rows := m.elim [] ScreenModel.rows
      let table := rowPuts mask columns layout.main.x (layout.main.y + 3)
        (rows.take (layout.main.h - 3))
      if table.2 ≠ .ok then table
      else (table.1 ++ detailPuts layout.inspect m ++ [eventPut layout.event m], .ok)

/-- The texts of `_o_route`. -/
def routePuts (mode : Mode) (y : ℕ) (r : OverviewRoute) : List TextPut :=
  if 6 ≤ r.status then []
  else
    let (nameX, policyX) := match mode with
      | .compact => (7, 18)
      | .standard => (7, 19)
      | _ => (28, 40)
    let last := match mode with
      | .compact => []
      | .standard => [⟨r.last, some 16, 51, y⟩]
      | _ => [⟨r.last, some 16, 80, y⟩]
    ⟨r.name, some 11, nameX, y⟩ :: ⟨r.policy, some 15, policyX, y⟩ :: if r.last = [] then [] else last

/-- The routes and the events of `af_tui_render_overview`. -/
def overviewPuts (layout : Layout) (width : ℕ) (o : Overview) : List TextPut × Status :=
  if 6 ≤ o.gatewayStatus then ([], .invalid)
  else if 8 < o.routes.length then ([], .limit)
  else if 8 < o.events.length then ([], .limit)
  else
    let routes (mode : Mode) (y : ℕ) := o.routes.zipIdx.flatMap fun r => routePuts mode (y + r.2) r.1
    let events (limit : Option ℕ) (x y : ℕ) :=
      o.events.zipIdx.map fun e => ⟨e.1, limit, x, y + o.routes.length + e.2⟩
    match layout.mode with
    | .compact => (routes .compact 7 ++ events (some 37) 7 8, .ok)
    | .wide => (routes .wide 10 ++ events (some (width - 40 - 28)) 28 12, .ok)
    | _ => (routes .standard 9 ++ events none 7 11, .ok)

/-- `af_tui_render_screen`: the texts it puts, in their order, and its status. -/
def screenPuts (z : Size) (screen : ℕ) (m : Option ScreenModel) : List TextPut × Status :=
  match screenColumns screen with
  | none => ([], .notFound)
  | some columns =>
    match layoutCompute z.width z.height with
    | .error e => ([], e)
    | .ok layout =>
      if layout.mode = .tooSmall then ([], .ok)
      else if m.elim .ok ScreenModel.check ≠ .ok then ([], m.elim .ok ScreenModel.check)
      else
        match screen, m.bind ScreenModel.overview with
        | 1, some o => overviewPuts layout z.width o
        | _, _ => genericPuts layout screen columns m

/-- The bytes that are put of a text. -/
def TextPut.bytes (p : TextPut) : Bytes := p.text.take (p.limit.getD p.text.length)

/-- The cells that are written for it. -/
def TextPut.cells (l : Locale) (z : Size) (p : TextPut) : List Cell :=
  if textMaxBytes < p.bytes.length then []
  else if z.width ≤ p.x then []
  else if z.height ≤ p.y then []
  else decodeCells l (z.width - p.x) p.bytes

/-- The characters that lie whole within so many bytes of a text. -/
def wholeChars (n : ℕ) (cs : List Char) : List Char :=
  greedy (fun ds => (utf8Text ds).length ≤ n) cs

/-- The bytes behind them, which belong to a character that is cut. -/
def leftover (n : ℕ) (cs : List Char) : ℕ :=
  min n (utf8Text cs).length - (utf8Text (wholeChars n cs)).length

theorem continuation_of_tail (c : Char) {b : UInt8} {tail : Bytes}
    (h : String.utf8EncodeChar c = b :: tail) : ∀ t ∈ tail, continues t = true := by
  have hnums := utf8EncodeChar_toNat c
  rw [h, List.map_cons] at hnums
  intro t ht
  have hmem : t.toNat ∈ tail.map UInt8.toNat := List.mem_map_of_mem ht
  rw [continues_iff]
  split_ifs at hnums
  all_goals
    rw [List.cons.injEq] at hnums
    rw [hnums.2] at hmem
  · simp at hmem
  all_goals
    simp only [List.mem_cons, List.not_mem_nil, or_false] at hmem
    omega

theorem not_prefix_continuation {b : UInt8} (hb : continues b = true) (rest : Bytes) (c : Char) :
    ¬ String.utf8EncodeChar c <+: b :: rest := by
  rintro ⟨t, ht⟩
  have hchar := decodeOne_char c t
  rw [ht] at hchar
  rw [continues_iff] at hb
  have hinvalid : decodeOne (b :: rest) = .invalid := by
    unfold decodeOne
    dsimp only
    rw [if_neg, if_pos]
    · rw [UInt8.lt_iff_toNat_lt]
      exact lt_of_lt_of_le hb.2 (by decide)
    · rw [UInt8.lt_iff_toNat_lt]
      exact not_lt.mpr hb.1
  rw [hinvalid] at hchar
  cases congrArg Decoded.valid hchar

theorem decodes_continuations {p : Bytes} (h : ∀ t ∈ p, continues t = true) :
    Decodes p (p.map .bad) := by
  induction p with
  | nil => exact .nil
  | cons b p ih =>
    have hb := h b List.mem_cons_self
    exact .bad b (not_prefix_continuation hb p) (ih fun t ht => h t (List.mem_cons_of_mem b ht))

/-- What is left of a character that is cut decodes byte by byte. -/
theorem decodes_cut {c : Char} {p : Bytes} (h : p <+: String.utf8EncodeChar c)
    (hlen : p.length < (String.utf8EncodeChar c).length) : Decodes p (p.map .bad) := by
  cases p with
  | nil => exact .nil
  | cons b p =>
    obtain ⟨rest, hrest⟩ := h
    have htail := continuation_of_tail c hrest.symm
    refine .bad b ?_ (decodes_continuations fun t ht => htail t (List.mem_append_left rest ht))
    rintro d ⟨t, ht⟩
    have hc := decodeOne_char c []
    have hd := decodeOne_char d (t ++ rest)
    rw [← List.append_assoc, ht, hrest, ← List.append_nil (String.utf8EncodeChar c), hc] at hd
    have hsame := congrArg Decoded.consumed hd
    have hshort := congrArg List.length ht
    simp only [List.length_append] at hshort hsame
    omega

theorem Decodes.append_text {p : Bytes} {ps : List Piece} (h : Decodes p ps) (ds : List Char) :
    Decodes (utf8Text ds ++ p) (ds.map .char ++ ps) := by
  induction ds with
  | nil => exact h
  | cons d ds ih =>
    have hsplit : utf8Text (d :: ds) ++ p = String.utf8EncodeChar d ++ (utf8Text ds ++ p) := by
      simp [utf8Text]
    rw [hsplit]
    exact .char d ih

/-- A clip of bytes is whole characters, and the bytes left over each by itself. -/
theorem decodes_take (n : ℕ) (cs : List Char) :
    ∃ part : Bytes, part.length = leftover n cs ∧
      Decodes ((utf8Text cs).take n) ((wholeChars n cs).map .char ++ part.map .bad) := by
  obtain ⟨ds, hds⟩ : wholeChars n cs <+: cs := greedy_isPrefix cs
  have hfits : (utf8Text (wholeChars n cs)).length ≤ n :=
    greedy_fits (P := fun ds => (utf8Text ds).length ≤ n) cs (Nat.zero_le n)
  have hsplit : utf8Text cs = utf8Text (wholeChars n cs) ++ utf8Text ds := by
    rw [← utf8Text_append, hds]
  rw [leftover, hsplit, List.take_append, List.take_of_length_le hfits, List.length_append]
  generalize hk : n - (utf8Text (wholeChars n cs)).length = k
  cases ds with
  | nil =>
    refine ⟨[], by simp [utf8Text], ?_⟩
    simpa [utf8Text] using (decodes_text (wholeChars n cs))
  | cons c ds =>
    have hover : n < (utf8Text (wholeChars n cs ++ [c])).length := by
      by_contra hle
      have hlong := greedy_longest (P := fun ds => (utf8Text ds).length ≤ n) ?_
        (?_ : wholeChars n cs ++ [c] <+: cs) (not_lt.mp hle)
      · have := hlong.length_le
        rw [List.length_append] at this
        change _ ≤ (wholeChars n cs).length at this
        simp at this
      · rintro p q ⟨t, rfl⟩ hq
        rw [utf8Text_append, List.length_append] at hq
        omega
      · exact ⟨ds, by rw [List.append_assoc]; exact hds⟩
    have hcut : k < (String.utf8EncodeChar c).length := by
      have hone : utf8Text [c] = String.utf8EncodeChar c := by simp [utf8Text]
      rw [utf8Text_append, hone, List.length_append] at hover
      omega
    have htext : utf8Text (c :: ds) = String.utf8EncodeChar c ++ utf8Text ds := by
      simp [utf8Text]
    rw [htext, List.take_append_of_le_length hcut.le]
    refine ⟨(String.utf8EncodeChar c).take k, ?_, ?_⟩
    · rw [List.length_take, List.length_append]
      omega
    · refine Decodes.append_text (decodes_cut (List.take_prefix k _) ?_) _
      rw [List.length_take]
      omega

section Shown

variable {l : Locale}

theorem columns_mono {p q : List Piece} {a : ℕ} (h : p <+: q) (hq : columns l q ≤ a) :
    columns l p ≤ a := by
  obtain ⟨t, rfl⟩ := h
  simp only [columns, List.map_append, List.sum_append] at hq ⊢
  omega

/-- The replacement character as a put stores it. -/
def mark (l : Locale) : Char × ℕ := glyph l '\uFFFD'

theorem glyph_bad (b : UInt8) : (Piece.bad b).glyph l = mark l := by
  have hsafe : safeScalar 0xFFFD = '\uFFFD' := by decide
  simp [Piece.glyph, Piece.scalar, mark, hsafe]

theorem columns_bad (part : Bytes) : columns l (part.map .bad) = part.length * (mark l).2 := by
  induction part with
  | nil => simp [columns]
  | cons b part ih =>
    simp only [columns, List.map_cons, List.sum_cons, glyph_bad, List.length_cons] at ih ⊢
    rw [ih, Nat.add_mul, Nat.one_mul, Nat.add_comm]

theorem rowText_unitCells (ps : List Piece) :
    rowText (unitCells l ps) = ps.map fun q => (q.glyph l).1 := by
  induction ps with
  | nil => rfl
  | cons q ps ih =>
    have hhead (rest : List Cell) :
        rowText (glyphCells (q.glyph l) ++ rest) = (q.glyph l).1 :: rowText rest := by
      unfold glyphCells
      split_ifs <;> rfl
    rw [List.map_cons, ← ih]
    exact hhead _

/-- What is stored is stored as it is. -/
theorem glyph_glyph (c : Char) : glyph l (glyph l c).1 = glyph l c := by
  have hmark : l.wcwidth '?' = 1 := l.ascii '?' (by decide) (by decide)
  by_cases hone : l.wcwidth c = 1
  · simp [glyph, hone]
  · by_cases htwo : l.wcwidth c = 2
    · simp [glyph, htwo]
    · simp [glyph, hone, htwo, hmark]

theorem unitCells_eq_iff {ps qs : List Piece} :
    unitCells l ps = unitCells l qs ↔ ps.map (Piece.glyph l) = qs.map (Piece.glyph l) := by
  constructor
  · intro h
    have htext := congrArg rowText h
    rw [rowText_unitCells, rowText_unitCells] at htext
    have hpairs (rs : List Piece) : rs.map (Piece.glyph l) =
        (rs.map fun q => (q.glyph l).1).map (glyph l) := by
      rw [List.map_map]
      exact List.map_congr_left fun q _ => (glyph_glyph _).symm
    rw [hpairs ps, hpairs qs, htext]
  · intro h
    have hcells (rs : List Piece) :
        unitCells l rs = (rs.map (Piece.glyph l)).flatMap glyphCells := by
      rw [List.flatMap_map]
      rfl
    rw [hcells, hcells, h]

/-- The cells are those of the first characters of a text. -/
def ShowsPrefix (l : Locale) (cs : List Char) (cells : List Cell) : Prop :=
  ∃ n, cells = unitCells l ((cs.take n).map .char)

/-- Every byte of a cut character that finds a column stands where the text itself shows the
replacement character. -/
def KeepsShown (l : Locale) (available n : ℕ) (cs : List Char) : Prop :=
  ∀ i < leftover n cs,
    columns l ((wholeChars n cs).map .char) + (i + 1) * (mark l).2 ≤ available →
      ∃ c, cs[(wholeChars n cs).length + i]? = some c ∧ (Piece.char c).glyph l = mark l

theorem decodeCells_take_iff (available n : ℕ) (cs : List Char) :
    ShowsPrefix l cs (decodeCells l available ((utf8Text cs).take n)) ↔
      KeepsShown l available n cs := by
  obtain ⟨part, hpart, hdecodes⟩ := decodes_take n cs
  have hwhole : wholeChars n cs <+: cs := greedy_isPrefix cs
  rw [decodeCells_eq available hdecodes, KeepsShown, ← hpart]
  generalize wholeChars n cs = ds at hdecodes hwhole
  generalize hps : ds.map Piece.char ++ part.map .bad = ps
  have hpre : shownUnits l available ps <+: ps := greedy_isPrefix ps
  have hfits : columns l (shownUnits l available ps) ≤ available :=
    greedy_fits (P := fun qs => columns l qs ≤ available) ps (Nat.zero_le _)
  -- the whole characters and the first bytes left over
  have hfirst (i : ℕ) : ds.map Piece.char ++ (part.take i).map .bad <+: ps := by
    rw [← hps, List.prefix_append_right_inj]
    exact (List.take_prefix i part).map _
  have hcolumns {i : ℕ} (hi : i < part.length) :
      columns l (ds.map Piece.char ++ (part.take (i + 1)).map .bad) =
        columns l (ds.map .char) + (i + 1) * (mark l).2 := by
    have hmarks := columns_bad (l := l) (part.take (i + 1))
    rw [List.length_take, Nat.min_eq_left hi] at hmarks
    rw [← hmarks]
    simp [columns]
  have hbad {i : ℕ} (hi : i < part.length) :
      (ps[ds.length + i]?).map (Piece.glyph l) = some (mark l) := by
    rw [← hps, List.getElem?_append_right (by simp)]
    simp [hi, glyph_bad]
  have hlongest {qs : List Piece} (hqs : qs <+: ps) (hroom : columns l qs ≤ available) :
      qs <+: shownUnits l available ps :=
    greedy_longest (P := fun qs => columns l qs ≤ available) columns_mono hqs hroom
  generalize shownUnits l available ps = shown at *
  have hshown {k : ℕ} (hk : k < shown.length) : shown[k]? = ps[k]? := by
    obtain ⟨t, rfl⟩ := hpre
    exact (List.getElem?_append_left hk).symm
  have hlen {i : ℕ} (hi : i < part.length) :
      (ds.map Piece.char ++ (part.take (i + 1)).map Piece.bad).length = ds.length + (i + 1) := by
    simp
    omega
  constructor
  · rintro ⟨m, hm⟩ i hi hroom
    rw [unitCells_eq_iff] at hm
    have hreach := (hlongest (hfirst (i + 1)) (by rwa [hcolumns hi])).length_le
    rw [hlen hi] at hreach
    have hhere := congrArg (fun gs => gs[ds.length + i]?) hm
    simp only [List.getElem?_map] at hhere
    rw [hshown (by omega), hbad hi] at hhere
    cases hc : (cs.take m)[ds.length + i]? with
    | none =>
      rw [hc] at hhere
      cases hhere
    | some c =>
      rw [hc] at hhere
      refine ⟨c, ?_, (Option.some.inj hhere).symm⟩
      rw [List.getElem?_take] at hc
      split_ifs at hc
      exact hc
  · intro h
    refine ⟨shown.length, unitCells_eq_iff.mpr (List.ext_getElem? fun k => ?_)⟩
    simp only [List.getElem?_map, List.getElem?_take]
    by_cases hk : k < shown.length
    · rw [if_pos hk, hshown hk]
      by_cases hin : k < ds.length
      · obtain ⟨t, rfl⟩ := hwhole
        rw [← hps, List.getElem?_append_left (by simpa using hin), List.getElem?_append_left hin,
          List.getElem?_map]
      · obtain ⟨i, rfl⟩ := Nat.exists_eq_add_of_le (not_lt.mp hin)
        have hi : i < part.length := by
          have := hpre.length_le
          rw [← hps] at this
          simp only [List.length_append, List.length_map] at this
          omega
        have hinside := List.prefix_of_prefix_length_le (hfirst (i + 1)) hpre
          (by rw [hlen hi]; omega)
        have hroom := columns_mono hinside hfits
        rw [hcolumns hi] at hroom
        obtain ⟨c, hc, hmark⟩ := h i hi hroom
        rw [hbad hi, hc, Option.map_some, Option.map_some, hmark]
    · rw [if_neg hk, List.getElem?_eq_none (not_lt.mp hk)]
      rfl

/-- The cells written for a text are those of its first characters. -/
def TextPut.Shown (l : Locale) (z : Size) (p : TextPut) : Prop :=
  ∃ cs, p.text = utf8Text cs ∧ ShowsPrefix l cs (p.cells l z)

/-- The clip of a text that is put on the canvas keeps what it shows. -/
def TextPut.Kept (l : Locale) (z : Size) (p : TextPut) : Prop :=
  p.bytes.length ≤ textMaxBytes → p.x < z.width → p.y < z.height → ∀ cs, p.text = utf8Text cs →
    KeepsShown l (z.width - p.x) (p.limit.getD p.text.length) cs

theorem TextPut.shown_iff {z : Size} {p : TextPut} (hvalid : ∃ cs, p.text = utf8Text cs) :
    p.Shown l z ↔ p.Kept l z := by
  obtain ⟨cs, hcs⟩ := hvalid
  have honly : p.Shown l z ↔ ShowsPrefix l cs (p.cells l z) := by
    constructor
    · rintro ⟨ds, hds, hshown⟩
      rwa [utf8Text_inj (hcs.symm.trans hds)]
    · intro h
      exact ⟨cs, hcs, h⟩
  have hkept : p.Kept l z ↔ (p.bytes.length ≤ textMaxBytes → p.x < z.width → p.y < z.height →
      KeepsShown l (z.width - p.x) (p.limit.getD p.text.length) cs) := by
    constructor
    · intro h hlen hx hy
      exact h hlen hx hy cs hcs
    · intro h hlen hx hy ds hds
      rw [utf8Text_inj (hds.symm.trans hcs)]
      exact h hlen hx hy
  have hnothing : ShowsPrefix l cs [] := ⟨0, rfl⟩
  rw [honly, hkept, TextPut.cells]
  split_ifs with hlong hx hy
  · exact iff_of_true hnothing fun hlen => absurd hlong (not_lt.mpr hlen)
  · exact iff_of_true hnothing fun _ hlt => absurd hx (not_le.mpr hlt)
  · exact iff_of_true hnothing fun _ _ hlt => absurd hy (not_le.mpr hlt)
  · rw [TextPut.bytes, hcs, decodeCells_take_iff]
    exact ⟨fun h _ _ _ => h, fun h => h (not_lt.mp (by rwa [TextPut.bytes, hcs] at hlong))
      (not_le.mp hx) (not_le.mp hy)⟩

end Shown

/-! ## The texts of a model -/

/-- A text that is UTF-8. -/
def ValidUtf8 (p : Bytes) : Prop := ∃ cs, p = utf8Text cs

/-- The texts of a model are UTF-8. -/
structure ScreenModel.Valid (m : ScreenModel) : Prop where
  rows : ∀ row ∈ m.rows, ∀ t ∈ row, ValidUtf8 t
  detailTitle : ValidUtf8 m.detailTitle
  detailBody : ValidUtf8 m.detailBody
  event : ValidUtf8 m.event
  routes : ∀ o ∈ m.overview, ∀ r ∈ o.routes,
    ValidUtf8 r.name ∧ ValidUtf8 r.policy ∧ ValidUtf8 r.last
  events : ∀ o ∈ m.overview, ∀ e ∈ o.events, ValidUtf8 e

theorem validUtf8_of_validate {p : Bytes} (h : utf8Validate p = true) : ValidUtf8 p :=
  (utf8Validate_iff p).mp h

/-- Puts of texts that are UTF-8. -/
def ValidPuts (ps : List TextPut) : Prop := ∀ p ∈ ps, ValidUtf8 p.text

theorem validPuts_append {ps qs : List TextPut} (hp : ValidPuts ps) (hq : ValidPuts qs) :
    ValidPuts (ps ++ qs) := by
  intro p h
  rcases List.mem_append.mp h with h | h
  · exact hp p h
  · exact hq p h

theorem validPuts_cons {p : TextPut} {ps : List TextPut} (hp : ValidUtf8 p.text)
    (hps : ValidPuts ps) : ValidPuts (p :: ps) :=
  validPuts_append (by simpa [ValidPuts] using hp : ValidPuts [p]) hps

theorem validPuts_nil : ValidPuts [] := by simp [ValidPuts]

theorem cellPuts_valid (mask : Word) {cells : List Bytes} (h : ∀ t ∈ cells, ValidUtf8 t)
    (y x i : ℕ) (columns : List ScreenColumn) :
    ValidPuts (cellPuts mask cells y x i columns).1 := by
  induction columns generalizing x i with
  | nil => exact validPuts_nil
  | cons c columns ih =>
    simp only [cellPuts]
    split_ifs
    · exact ih x (i + 1)
    · exact validPuts_nil
    all_goals
      refine validPuts_cons ?_ (ih _ (i + 1))
      rcases lt_or_ge i cells.length with hi | hi
      · simp only [List.getD_eq_getElem _ _ hi]
        exact h _ (List.getElem_mem hi)
      · simp only [List.getD_eq_default _ _ hi]
        exact validUtf8_of_validate (by decide)

theorem rowPuts_valid (mask : Word) (columns : List ScreenColumn) {rows : List (List Bytes)}
    (h : ∀ row ∈ rows, ∀ t ∈ row, ValidUtf8 t) (x y : ℕ) :
    ValidPuts (rowPuts mask columns x y rows).1 := by
  induction rows generalizing y with
  | nil => exact validPuts_nil
  | cons row rows ih =>
    have hhere := cellPuts_valid mask (h row List.mem_cons_self) y (x + 2) 0 columns
    have hbelow := ih (fun r hr => h r (List.mem_cons_of_mem row hr)) (y + 1)
    simp only [rowPuts]
    split_ifs
    · exact validPuts_nil
    · exact hhere
    · exact validPuts_append hhere hbelow

theorem detailPuts_valid {m : Option ScreenModel} (hm : ∀ t ∈ m, t.Valid) (inspect : Rect) :
    ValidPuts (detailPuts inspect m) := by
  have hnone : ValidUtf8 (ascii "No selection.") := validUtf8_of_validate (by decide)
  unfold detailPuts
  cases m with
  | none =>
    dsimp only
    rw [if_pos rfl]
    split_ifs
    · exact validPuts_nil
    · exact validPuts_cons hnone validPuts_nil
  | some m =>
    have hvalid := hm m rfl
    have htitle : ValidUtf8 (if m.detailTitle = [] then ascii "No selection."
        else m.detailTitle) := by
      split_ifs
      · exact hnone
      · exact hvalid.detailTitle
    dsimp only
    by_cases hwide : inspect.w ≤ 2
    · rw [if_pos hwide]
      exact validPuts_nil
    · rw [if_neg hwide]
      refine validPuts_cons htitle ?_
      by_cases hbody : m.detailBody = []
      · rw [if_pos hbody]
        exact validPuts_nil
      · rw [if_neg hbody]
        exact validPuts_cons hvalid.detailBody validPuts_nil

theorem eventPut_valid {m : Option ScreenModel} (hm : ∀ t ∈ m, t.Valid) (event : Rect) :
    ValidUtf8 (eventPut event m).text := by
  have hstanding : ∀ s ∈ ["Snapshot is stale. Press r to retry.",
      "Disconnected. Press r to retry or q to exit.", "Ready."], utf8Validate (ascii s) = true := by
    decide
  simp only [List.forall_mem_cons, List.not_mem_nil, false_implies, implies_true,
    and_true] at hstanding
  obtain ⟨hstale, hgone, hready⟩ := hstanding
  have hstatic (n : ℕ) : ValidUtf8 (match n with
      | 1 => ascii "Snapshot is stale. Press r to retry."
      | 2 => ascii "Disconnected. Press r to retry or q to exit."
      | _ => ascii "Ready.") := by
    split
    · exact validUtf8_of_validate hstale
    · exact validUtf8_of_validate hgone
    · exact validUtf8_of_validate hready
  unfold eventPut
  cases m with
  | none => exact hstatic 2
  | some m =>
    dsimp only
    split_ifs
    · exact hstatic m.connection
    · exact (hm m rfl).event

theorem genericPuts_valid {m : Option ScreenModel} (hm : ∀ t ∈ m, t.Valid) (layout : Layout)
    (screen : ℕ) (columns : List ScreenColumn) :
    ValidPuts (genericPuts layout screen columns m).1 := by
  have hrows : ∀ row ∈ (m.elim [] ScreenModel.rows).take (layout.main.h - 3), ∀ t ∈ row,
      ValidUtf8 t := by
    intro row hrow
    have hmem := List.mem_of_mem_take hrow
    cases m with
    | none => cases hmem
    | some m => exact (hm m rfl).rows row hmem
  unfold genericPuts
  by_cases hwide : layout.main.w ≤ 2
  · rw [if_pos hwide]
    exact validPuts_nil
  · rw [if_neg hwide]
    cases columnsFit (columns.map ScreenColumn.fit) (UInt64.ofNat (layout.main.w - 2)) 1 with
    | error e => exact validPuts_nil
    | ok fit =>
      dsimp only
      have htable (mask : Word) := rowPuts_valid mask columns hrows
        layout.main.x (layout.main.y + 3)
      have hevent := validPuts_cons (eventPut_valid hm layout.event) validPuts_nil
      split_ifs
      all_goals first
        | exact htable _
        | exact validPuts_append (validPuts_append (htable _) (detailPuts_valid hm _)) hevent

theorem overviewPuts_valid {m : ScreenModel} (hm : m.Valid) {o : Overview} (ho : o ∈ m.overview)
    (layout : Layout) (width : ℕ) : ValidPuts (overviewPuts layout width o).1 := by
  have hroutes (mode : Mode) (y : ℕ) :
      ValidPuts (o.routes.zipIdx.flatMap fun r => routePuts mode (y + r.2) r.1) := by
    intro p hp
    obtain ⟨r, hr, hp⟩ := List.mem_flatMap.mp hp
    obtain ⟨hname, hpolicy, hlast⟩ := hm.routes o ho r.1 (List.fst_mem_of_mem_zipIdx hr)
    have htwo (mode : Mode) (y a b : ℕ) {rest : List TextPut} (hrest : ValidPuts rest) :
        ValidPuts (⟨r.1.name, some 11, a, y⟩ :: ⟨r.1.policy, some 15, b, y⟩ :: rest) :=
      validPuts_cons hname (validPuts_cons hpolicy hrest)
    have hone (x y : ℕ) : ValidPuts [⟨r.1.last, some 16, x, y⟩] :=
      validPuts_cons hlast validPuts_nil
    have hput : ValidPuts (routePuts mode (y + r.2) r.1) := by
      unfold routePuts
      split_ifs
      · exact validPuts_nil
      · exact htwo mode _ _ _ validPuts_nil
      · refine htwo mode _ _ _ ?_
        cases mode
        · exact hone _ _
        · exact hone _ _
        · exact validPuts_nil
        · exact hone _ _
        · exact hone _ _
    exact hput p hp
  have hevents (limit : Option ℕ) (x y : ℕ) :
      ValidPuts (o.events.zipIdx.map fun e => ⟨e.1, limit, x, y + o.routes.length + e.2⟩) := by
    intro p hp
    obtain ⟨e, he, rfl⟩ := List.mem_map.mp hp
    exact hm.events o ho e.1 (List.fst_mem_of_mem_zipIdx he)
  unfold overviewPuts
  split_ifs
  · exact validPuts_nil
  · exact validPuts_nil
  · exact validPuts_nil
  · cases layout.mode <;> exact validPuts_append (hroutes _ _) (hevents _ _ _)

theorem screenPuts_valid {m : Option ScreenModel} (hm : ∀ t ∈ m, t.Valid) (z : Size)
    (screen : ℕ) : ValidPuts (screenPuts z screen m).1 := by
  unfold screenPuts
  cases screenColumns screen with
  | none => exact validPuts_nil
  | some columns =>
    cases layoutCompute z.width z.height with
    | error e => exact validPuts_nil
    | ok layout =>
      dsimp only
      split_ifs
      · exact validPuts_nil
      · exact validPuts_nil
      · split
        · rename_i o ho
          obtain ⟨t, ht, hto⟩ := Option.bind_eq_some_iff.mp ho
          exact overviewPuts_valid (hm t ht) hto layout z.width
        · exact genericPuts_valid hm layout _ columns

/-- The cells of every text on a screen are those of its first characters exactly when every
clip keeps what the text shows. -/
theorem screenPuts_shown_iff (l : Locale) (z : Size) (screen : ℕ) {m : Option ScreenModel}
    (hm : ∀ t ∈ m, t.Valid) :
    (∀ p ∈ (screenPuts z screen m).1, p.Shown l z) ↔
      ∀ p ∈ (screenPuts z screen m).1, p.Kept l z := by
  have hvalid := screenPuts_valid hm z screen
  constructor
  · intro h p hp
    exact (TextPut.shown_iff (hvalid p hp)).mp (h p hp)
  · intro h p hp
    exact (TextPut.shown_iff (hvalid p hp)).mpr (h p hp)

/-- A locale in which every character takes one column. -/
private def narrowLocale : Locale := ⟨fun _ => 1, fun _ _ _ => rfl⟩

private def sixtyBySixteen : Size := ⟨60, 16, by decide, by decide, by decide, by decide⟩

/-- A table of one provider of a given name. -/
private def namedProvider (name : Bytes) : ScreenModel :=
  ⟨0, [], [[ascii "[OK]", name]], [], [], [], none⟩

private def accents (n : ℕ) : List Char := List.replicate n 'é'

theorem namedProvider_valid (cs : List Char) : (namedProvider (utf8Text cs)).Valid := by
  have hempty : ValidUtf8 [] := ⟨[], rfl⟩
  refine ⟨?_, hempty, hempty, hempty, by simp [namedProvider], by simp [namedProvider]⟩
  intro row hrow t ht
  simp only [namedProvider, List.mem_singleton] at hrow
  subst hrow
  simp only [List.mem_cons, List.not_mem_nil, or_false] at ht
  rcases ht with rfl | rfl
  · exact validUtf8_of_validate (by decide)
  · exact ⟨cs, rfl⟩

/-- A name of seven accented letters, as long as the column. -/
theorem screenPuts_shown_accents :
    (∀ p ∈ (screenPuts sixtyBySixteen 2 (some (namedProvider (utf8Text (accents 7))))).1,
        p.Shown narrowLocale sixtyBySixteen) ↔
      ∀ p ∈ (screenPuts sixtyBySixteen 2 (some (namedProvider (utf8Text (accents 7))))).1,
        p.Kept narrowLocale sixtyBySixteen :=
  screenPuts_shown_iff narrowLocale sixtyBySixteen 2 fun t ht => by
    obtain rfl := Option.some.inj ht
    exact namedProvider_valid (accents 7)

/-- With a letter in front, the column ends within an accented letter. -/
theorem screenPuts_cut :
    ¬ ∀ (l : Locale) (z : Size) (screen : ℕ) (m : Option ScreenModel), (∀ t ∈ m, t.Valid) →
      ∀ p ∈ (screenPuts z screen m).1, p.Shown l z := by
  intro h
  have hshown := h narrowLocale sixtyBySixteen 2 (some (namedProvider (utf8Text ('a' :: accents 7))))
    (fun t ht => by
      obtain rfl := Option.some.inj ht
      exact namedProvider_valid ('a' :: accents 7))
    ⟨utf8Text ('a' :: accents 7), some 14, 10, 5⟩ (by decide)
  rw [TextPut.shown_iff ⟨'a' :: accents 7, rfl⟩] at hshown
  obtain ⟨c, hc, hmark⟩ := hshown (by decide) (by decide) (by decide) _ rfl 0
    (by decide) (by decide)
  have hnext : ('a' :: accents 7)[(wholeChars 14 ('a' :: accents 7)).length + 0]? = some 'é' := by
    decide
  obtain rfl := Option.some.inj (hnext.symm.trans hc)
  revert hmark
  decide

end AsmFlow.Tui
