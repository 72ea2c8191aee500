import AsmFlow.Library.Greedy
import AsmFlow.Library.Runs
import AsmFlow.Tui.Layout
import AsmFlow.Tui.Text

/-!
# The canvas

`canvas.asm`: rows of cells, into which texts are put. A character of width two takes a cell
and a continuation cell. `wcwidth` of the C library is a parameter.
-/

namespace AsmFlow.Tui

open Json Library

/-- `wcwidth`, and that printable ASCII takes one column in every locale. -/
structure Locale where
  wcwidth : Char → ℤ
  ascii : ∀ c : Char, 0x20 ≤ c.val.toNat → c.val.toNat ≤ 0x7E → wcwidth c = 1

/-- A cell. `AF_TUI_CELL_CONTINUATION` is no scalar. -/
inductive Cell
  | scalar (c : Char)
  | continuation
  deriving DecidableEq, Repr

/-- The dimensions `af_tui_canvas_init` accepts. -/
structure Size where
  width : ℕ
  height : ℕ
  width_pos : 0 < width
  height_pos : 0 < height
  width_le : width ≤ maxColumns
  height_le : height ≤ maxRows

/-- `af_tui_canvas`. -/
structure Canvas (z : Size) where
  rows : List (List Cell)
  rows_length : rows.length = z.height
  row_length : ∀ r ∈ rows, r.length = z.width

/-- `_af_tui_safe_scalar` -/
def safeScalar (v : ℕ) : Char :=
  if 0x10FFFF < v then '\uFFFD'
  else if ¬ v < 0xD800 ∧ v ≤ 0xDFFF then '\uFFFD'
  else if v < 0x20 then '?'
  else if v < 0x7F then Char.ofNat v
  else if v ≤ 0x9F then '?'
  else Char.ofNat v

variable {z : Size}

/-- The cells of a row from a position on, overwritten. -/
def Canvas.put (c : Canvas z) (x y : ℕ) (p : List Cell) (h : x + p.length ≤ z.width) :
    Canvas z where
  rows := c.rows.set y (store (c.rows.getD y []) x p)
  rows_length := by rw [List.length_set, c.rows_length]
  row_length := by
    intro r hr
    by_cases hy : y < c.rows.length
    · rcases List.mem_or_eq_of_mem_set hr with hr | rfl
      · exact c.row_length r hr
      · have hrow : (c.rows.getD y []).length = z.width := by
          rw [List.getD_eq_getElem _ _ hy]
          exact c.row_length _ (List.getElem_mem hy)
        rw [length_store, hrow]
        rw [hrow]
        exact h
    · rw [List.set_eq_of_length_le (not_lt.mp hy)] at hr
      exact c.row_length r hr

/-- `af_tui_canvas_clear` -/
def Canvas.clear (c : Canvas z) (scalar : ℕ) : Except Status (Canvas z) :=
  if (safeScalar scalar).val.toNat ≠ scalar then .error .invalid
  else .ok
    { rows := c.rows.map (List.map fun _ => .scalar (safeScalar scalar))
      rows_length := by rw [List.length_map, c.rows_length]
      row_length := by
        intro r hr
        obtain ⟨r', hr', rfl⟩ := List.mem_map.mp hr
        rw [List.length_map]
        exact c.row_length r' hr' }

/-- The cell of a byte in `af_tui_canvas_put_ascii`. -/
def asciiCell (b : UInt8) : Cell :=
  if b < 0x20 then .scalar '?'
  else if b ≤ 0x7E then .scalar (Char.ofNat b.toNat)
  else .scalar '?'

/-- `af_tui_canvas_put_ascii`: the canvas and `out_columns`. -/
def Canvas.putAscii (c : Canvas z) (x y : ℕ) (bytes : Bytes) : Except Status (Canvas z × ℕ) :=
  if hx : z.width ≤ x then .error .range
  else if z.height ≤ y then .error .range
  else
    let n := min bytes.length (z.width - x)
    .ok (c.put x y ((bytes.take n).map asciiCell) (by simp; omega), n)

section Utf8

variable (l : Locale)

/-- The scalar that is stored for a scalar, and the columns it takes. -/
def glyph (c : Char) : Char × ℕ :=
  if l.wcwidth c = 1 then (c, 1)
  else if l.wcwidth c = 2 then (c, 2)
  else ('?', 1)

/-- The cells of it. -/
def glyphCells (g : Char × ℕ) : List Cell :=
  if g.2 = 2 then [.scalar g.1, .continuation] else [.scalar g.1]

theorem glyph_width (c : Char) : (glyph l c).2 = 1 ∨ (glyph l c).2 = 2 := by
  unfold glyph
  split_ifs <;> simp

@[simp] theorem length_glyphCells (c : Char) :
    (glyphCells (glyph l c)).length = (glyph l c).2 := by
  rcases glyph_width l c with h | h <;> simp [glyphCells, h]

/-- `.decode`: the cells that are written, with so many columns left. -/
def decodeCells (available : ℕ) (src : Bytes) : List Cell :=
  if _hsrc : src = [] then []
  else if available = 0 then []
  else
    let d := decodeOne src
    let g := glyph l (safeScalar d.scalar)
    if available < g.2 then []
    else glyphCells g ++ decodeCells (available - g.2) (src.drop d.consumed)
termination_by src.length
decreasing_by
  have hpos := decodeOne_consumed src
  have hlen := List.length_pos_iff.mpr _hsrc
  rw [List.length_drop]
  omega

theorem length_decodeCells (available : ℕ) (src : Bytes) :
    (decodeCells l available src).length ≤ available := by
  fun_induction decodeCells l available src with
  | case1 => simp
  | case2 => simp
  | case3 => simp
  | case4 available src hsrc hav d g hfits ih =>
    rw [List.length_append, length_glyphCells]
    change g.2 + _ ≤ available
    omega

/-- `af_tui_canvas_put_utf8`: the canvas and `out_columns`. -/
def Canvas.putUtf8 (c : Canvas z) (x y : ℕ) (bytes : Bytes) : Except Status (Canvas z × ℕ) :=
  if textMaxBytes < bytes.length then .error .limit
  else if hx : z.width ≤ x then .error .range
  else if z.height ≤ y then .error .range
  else
    let p := decodeCells l (z.width - x) bytes
    .ok (c.put x y p (by
      have := length_decodeCells l (z.width - x) bytes
      change x + (decodeCells l (z.width - x) bytes).length ≤ z.width
      omega), p.length)

end Utf8

/-! ## The dump -/

/-- `_af_tui_utf8_len` -/
def utf8Len (c : Char) : ℕ :=
  let v := (safeScalar c.val.toNat).val.toNat
  if v < 0x80 then 1
  else if v < 0x800 then 2
  else if v < 0x10000 then 3
  else 4

/-- `_af_tui_encode_utf8` -/
def encodeUtf8 (c : Char) : Bytes :=
  let v := (safeScalar c.val.toNat).val.toNat
  if v < 0x80 then [UInt8.ofNat v]
  else if v < 0x800 then [UInt8.ofNat (v >>> 6) ||| 0xC0, UInt8.ofNat v &&& 0x3F ||| 0x80]
  else if v < 0x10000 then
    [UInt8.ofNat (v >>> 12) ||| 0xE0, UInt8.ofNat (v >>> 6) &&& 0x3F ||| 0x80,
      UInt8.ofNat v &&& 0x3F ||| 0x80]
  else
    [UInt8.ofNat (v >>> 18) ||| 0xF0, UInt8.ofNat (v >>> 12) &&& 0x3F ||| 0x80,
      UInt8.ofNat (v >>> 6) &&& 0x3F ||| 0x80, UInt8.ofNat v &&& 0x3F ||| 0x80]

/-- `.measure_cell`. A canvas has too few cells for the sums of the code to wrap. -/
def cellLen : Cell → ℕ
  | .scalar c => utf8Len c
  | .continuation => 0

/-- What the dump requires: the cells of the rows, and a line end each. -/
def requiredLen (rows : List (List Cell)) : ℕ :=
  (rows.map fun r => (r.map cellLen).sum + 1).sum

/-- `.emit_cell` over a row: the destination, and the offset behind what was written. -/
def emitCells (mem : Bytes) (out : ℕ) : List Cell → Bytes × ℕ
  | [] => (mem, out)
  | .scalar c :: cells =>
    emitCells (store mem out (encodeUtf8 c)) (out + (encodeUtf8 c).length) cells
  | .continuation :: cells => emitCells mem out cells

def emitRows (mem : Bytes) (out : ℕ) : List (List Cell) → Bytes
  | [] => mem
  | r :: rows =>
    let e := emitCells mem out r
    emitRows (store e.1 e.2 [10]) (e.2 + 1) rows

/-- `af_tui_canvas_dump` -/
def Canvas.dump (c : Canvas z) (dst : Option Bytes) (capacity outLen : ℕ) : Output :=
  if dst = none ∧ capacity ≠ 0 then ⟨.invalid, dst, outLen⟩
  else
    match dst with
    | none => ⟨.ok, none, requiredLen c.rows⟩
    | some mem =>
      if capacity < requiredLen c.rows then ⟨.limit, some mem, outLen⟩
      else ⟨.ok, some (emitRows mem 0 c.rows), requiredLen c.rows⟩

/-- The characters of a row. -/
def rowText : List Cell → List Char
  | [] => []
  | .scalar c :: cells => c :: rowText cells
  | .continuation :: cells => rowText cells

/-- The lines of the rows. -/
def dumpText (rows : List (List Cell)) : Bytes :=
  rows.flatMap fun r => utf8Text (rowText r) ++ [10]

theorem safeScalar_clean (v : ℕ) : ¬ IsControl (safeScalar v) := by
  have hvalid (h : ¬ 0x10FFFF < v) (h' : ¬ (¬ v < 0xD800 ∧ v ≤ 0xDFFF)) :
      (Char.ofNat v).val.toNat = v := by
    have hv : v.isValidChar := by
      simp only [Nat.isValidChar]
      omega
    rw [Char.ofNat, dif_pos hv]
    rfl
  unfold safeScalar
  split_ifs with h1 h2 h3 h4 h5
  · decide
  · decide
  · decide
  · simp only [IsControl, hvalid h1 h2]
    omega
  · decide
  · simp only [IsControl, hvalid h1 h2]
    omega

/-- A scalar that is no control is stored as it is. -/
theorem safeScalar_of_clean {c : Char} (h : ¬ IsControl c) : safeScalar c.val.toNat = c := by
  have hvalid : c.val.toNat < 0xD800 ∨ 0xDFFF < c.val.toNat ∧ c.val.toNat < 0x110000 := c.valid
  have hchar : Char.ofNat c.val.toNat = c := Char.ofNat_toNat c
  simp only [IsControl] at h
  unfold safeScalar
  split_ifs <;> first | exact hchar | omega

theorem or_bits (b : UInt8) :
    (b.toNat < 0x20 → (b ||| 0xC0).toNat = b.toNat + 0xC0) ∧
      (b.toNat < 0x10 → (b ||| 0xE0).toNat = b.toNat + 0xE0) ∧
      (b.toNat < 0x08 → (b ||| 0xF0).toNat = b.toNat + 0xF0) ∧
      (b &&& 0x3F ||| 0x80).toNat = b.toNat % 64 + 0x80 := by
  have table : ∀ n : Fin 256,
      (n.val < 0x20 → n.val ||| 0xC0 = n.val + 0xC0) ∧
        (n.val < 0x10 → n.val ||| 0xE0 = n.val + 0xE0) ∧
        (n.val < 0x08 → n.val ||| 0xF0 = n.val + 0xF0) ∧
        n.val &&& 0x3F ||| 0x80 = n.val % 64 + 0x80 := by
    decide +kernel
  simpa only [UInt8.toNat_or, UInt8.toNat_and, UInt8.reduceToNat] using
    table ⟨b.toNat, b.toNat_lt⟩

theorem toNat_lead {n : ℕ} :
    (n < 0x20 → (UInt8.ofNat n ||| 0xC0).toNat = n + 0xC0) ∧
      (n < 0x10 → (UInt8.ofNat n ||| 0xE0).toNat = n + 0xE0) ∧
      (n < 0x08 → (UInt8.ofNat n ||| 0xF0).toNat = n + 0xF0) ∧
      (UInt8.ofNat n &&& 0x3F ||| 0x80).toNat = n % 64 + 0x80 := by
  obtain ⟨h1, h2, h3, h4⟩ := or_bits (UInt8.ofNat n)
  rw [UInt8.toNat_ofNat'] at h1 h2 h3 h4
  refine ⟨?_, ?_, ?_, ?_⟩
  · intro hn
    rw [h1 (by omega)]
    omega
  · intro hn
    rw [h2 (by omega)]
    omega
  · intro hn
    rw [h3 (by omega)]
    omega
  · rw [h4]
    omega

/-- The encoder of the console encodes what is no control as it is. -/
theorem encodeUtf8_eq {c : Char} (h : ¬ IsControl c) : encodeUtf8 c = String.utf8EncodeChar c := by
  have hvalid : c.val.toNat < 0xD800 ∨ 0xDFFF < c.val.toNat ∧ c.val.toNat < 0x110000 := c.valid
  apply eq_of_map_toNat
  rw [utf8EncodeChar_toNat]
  simp only [encodeUtf8, safeScalar_of_clean h]
  generalize c.val.toNat = v at hvalid
  have hshift (k : ℕ) : v >>> k = v / 2 ^ k := Nat.shiftRight_eq_div_pow v k
  split_ifs with h1 h2 h3
  · simp only [List.map_cons, List.map_nil]
    rw [UInt8.toNat_ofNat_of_lt' (lt_trans h1 (by decide))]
  · simp only [List.map_cons, List.map_nil, hshift]
    rw [toNat_lead.1 (by omega), toNat_lead.2.2.2]
    norm_num
  · simp only [List.map_cons, List.map_nil, hshift]
    rw [toNat_lead.2.1 (by omega), toNat_lead.2.2.2, toNat_lead.2.2.2]
    norm_num
  · simp only [List.map_cons, List.map_nil, hshift]
    rw [toNat_lead.2.2.1 (by omega), toNat_lead.2.2.2, toNat_lead.2.2.2, toNat_lead.2.2.2]
    norm_num

theorem utf8Len_eq {c : Char} (h : ¬ IsControl c) : utf8Len c = (String.utf8EncodeChar c).length := by
  have hlen : (String.utf8EncodeChar c).length =
      ((String.utf8EncodeChar c).map UInt8.toNat).length := (List.length_map _).symm
  rw [hlen, utf8EncodeChar_toNat]
  simp only [utf8Len, safeScalar_of_clean h]
  split_ifs <;> rfl

/-! ## Rows of whole characters -/

variable {l : Locale}

/-- Every continuation follows a character of width two in its row, and every such character
is followed by one. -/
structure Paired (l : Locale) (row : List Cell) : Prop where
  shown : ∀ c, .scalar c ∈ row → ¬ IsControl c ∧ (l.wcwidth c = 1 ∨ l.wcwidth c = 2)
  wide : ∀ i c, row[i]? = some (.scalar c) → l.wcwidth c = 2 → row[i + 1]? = some .continuation
  behind : ∀ i, row[i]? = some .continuation →
    ∃ j c, i = j + 1 ∧ row[j]? = some (.scalar c) ∧ l.wcwidth c = 2

theorem paired_nil : Paired l [] := by
  constructor <;> simp

/-- A row is a character and the rest, or a character with its continuation and the rest. -/
theorem Paired.cases {row : List Cell} (h : Paired l row) :
    row = [] ∨ (∃ c rest, row = .scalar c :: rest ∧ l.wcwidth c = 1 ∧ Paired l rest) ∨
      ∃ c rest, row = .scalar c :: .continuation :: rest ∧ l.wcwidth c = 2 ∧ Paired l rest := by
  cases row with
  | nil => exact Or.inl rfl
  | cons a rest =>
    right
    cases a with
    | continuation =>
      obtain ⟨j, c, hj, -⟩ := h.behind 0 rfl
      omega
    | scalar c =>
      rcases (h.shown c List.mem_cons_self).2 with hone | htwo
      · refine Or.inl ⟨c, rest, rfl, hone, ?_, ?_, ?_⟩
        · intro d hd
          exact h.shown d (List.mem_cons_of_mem _ hd)
        · intro i d hd hwide
          exact h.wide (i + 1) d hd hwide
        · intro i hi
          obtain ⟨j, d, hj, hd, hwide⟩ := h.behind (i + 1) hi
          cases j with
          | zero =>
            obtain rfl : c = d := Cell.scalar.inj (Option.some.inj hd)
            rw [hone] at hwide
            exact absurd hwide (by decide)
          | succ j => exact ⟨j, d, by omega, hd, hwide⟩
      · have hnext := h.wide 0 c rfl htwo
        cases rest with
        | nil => simp at hnext
        | cons b rest =>
          obtain rfl : b = .continuation := Option.some.inj hnext
          refine Or.inr ⟨c, rest, rfl, htwo, ?_, ?_, ?_⟩
          · intro d hd
            exact h.shown d (List.mem_cons_of_mem _ (List.mem_cons_of_mem _ hd))
          · intro i d hd hwide
            exact h.wide (i + 2) d hd hwide
          · intro i hi
            obtain ⟨j, d, hj, hd, hwide⟩ := h.behind (i + 2) hi
            match j with
            | 0 => omega
            | 1 => cases Option.some.inj hd
            | j + 2 => exact ⟨j, d, by omega, hd, hwide⟩

/-- The characters of such a row are as wide as the row. -/
theorem Paired.width_eq {row : List Cell} (h : Paired l row) :
    ((rowText row).map l.wcwidth).sum = row.length := by
  induction hn : row.length using Nat.strong_induction_on generalizing row with
  | _ n ih =>
    subst hn
    rcases h.cases with rfl | ⟨c, rest, rfl, hone, hrest⟩ | ⟨c, rest, rfl, htwo, hrest⟩
    · rfl
    · have := ih rest.length (by simp) hrest rfl
      simp [rowText, hone, this]
      omega
    · have := ih rest.length (by simp) hrest rfl
      simp [rowText, htwo, this]
      omega

theorem mem_rowText {row : List Cell} {c : Char} : c ∈ rowText row ↔ .scalar c ∈ row := by
  induction row with
  | nil => simp [rowText]
  | cons a row ih => cases a <;> simp [rowText, ih]

theorem paired_append {row rest : List Cell} (h : Paired l row) (h' : Paired l rest) :
    Paired l (row ++ rest) := by
  refine ⟨?_, ?_, ?_⟩
  · intro c hc
    rcases List.mem_append.mp hc with hc | hc
    · exact h.shown c hc
    · exact h'.shown c hc
  · intro i c hi hwide
    by_cases hlt : i < row.length
    · rw [List.getElem?_append_left hlt] at hi
      have hnext := h.wide i c hi hwide
      rw [List.getElem?_append_left (List.getElem?_eq_some_iff.mp hnext).1]
      exact hnext
    · rw [List.getElem?_append_right (not_lt.mp hlt)] at hi
      rw [List.getElem?_append_right (by omega), Nat.sub_add_comm (not_lt.mp hlt)]
      exact h'.wide _ c hi hwide
  · intro i hi
    by_cases hlt : i < row.length
    · rw [List.getElem?_append_left hlt] at hi
      obtain ⟨j, c, hj, hc, hwide⟩ := h.behind i hi
      exact ⟨j, c, hj, by rw [List.getElem?_append_left (by omega)]; exact hc, hwide⟩
    · rw [List.getElem?_append_right (not_lt.mp hlt)] at hi
      obtain ⟨j, c, hj, hc, hwide⟩ := h'.behind _ hi
      refine ⟨row.length + j, c, by omega, ?_, hwide⟩
      rw [List.getElem?_append_right (by omega), Nat.add_sub_cancel_left]
      exact hc

/-! ## What a put writes -/

theorem paired_scalar {c : Char} (hc : ¬ IsControl c) (hwidth : l.wcwidth c = 1) :
    Paired l [.scalar c] := by
  refine ⟨?_, ?_, ?_⟩
  · intro d hd
    obtain rfl := Cell.scalar.inj (List.mem_singleton.mp hd)
    exact ⟨hc, Or.inl hwidth⟩
  · intro i d hi hwide
    obtain rfl := Cell.scalar.inj (List.mem_singleton.mp (List.mem_of_getElem? hi))
    rw [hwidth] at hwide
    exact absurd hwide (by decide)
  · intro i hi
    cases List.mem_singleton.mp (List.mem_of_getElem? hi)

theorem paired_wide {c : Char} (hc : ¬ IsControl c) (hwidth : l.wcwidth c = 2) :
    Paired l [.scalar c, .continuation] := by
  refine ⟨?_, ?_, ?_⟩
  · intro d hd
    simp only [List.mem_cons, Cell.scalar.injEq, reduceCtorEq, List.not_mem_nil, or_false] at hd
    exact hd ▸ ⟨hc, Or.inr hwidth⟩
  · intro i d hi hwide
    match i with
    | 0 => rfl
    | 1 => cases Option.some.inj hi
    | i + 2 => cases hi
  · intro i hi
    match i with
    | 0 => cases Option.some.inj hi
    | 1 => exact ⟨0, c, rfl, rfl, hwidth⟩
    | i + 2 => cases hi

/-- Printable ASCII. -/
def printable (cell : Cell) : Bool :=
  match cell with
  | .scalar c => decide (0x20 ≤ c.val.toNat) && decide (c.val.toNat ≤ 0x7E)
  | .continuation => false

theorem asciiCell_spec (b : UInt8) :
    ∃ c : Char, asciiCell b = .scalar c ∧ 0x20 ≤ c.val.toNat ∧ c.val.toNat ≤ 0x7E := by
  have table : ∀ n < 256, printable (asciiCell (UInt8.ofNat n)) = true := by
    decide +kernel
  have hb := table b.toNat b.toNat_lt
  rw [UInt8.ofNat_toNat] at hb
  cases hcell : asciiCell b with
  | scalar c =>
    rw [hcell, printable, Bool.and_eq_true, decide_eq_true_eq, decide_eq_true_eq] at hb
    exact ⟨c, rfl, hb⟩
  | continuation =>
    rw [hcell] at hb
    cases hb

theorem paired_ascii (p : Bytes) : Paired l (p.map asciiCell) := by
  induction p with
  | nil => exact paired_nil
  | cons b p ih =>
    obtain ⟨c, hcell, hlow, hhigh⟩ := asciiCell_spec b
    have hclean : ¬ IsControl c := by
      simp only [IsControl]
      omega
    rw [List.map_cons, hcell]
    exact paired_append (paired_scalar hclean (l.ascii c hlow hhigh)) ih

theorem paired_glyph {c : Char} (hc : ¬ IsControl c) : Paired l (glyphCells (glyph l c)) := by
  by_cases hone : l.wcwidth c = 1
  · simpa [glyph, glyphCells, hone] using paired_scalar hc hone
  · by_cases htwo : l.wcwidth c = 2
    · simpa [glyph, glyphCells, htwo] using paired_wide hc htwo
    · have hmark : l.wcwidth '?' = 1 := l.ascii '?' (by decide) (by decide)
      simpa [glyph, glyphCells, hone, htwo] using paired_scalar (by decide) hmark

/-- The character that a put stores for a unit of a text, and its columns. -/
def Piece.glyph (l : Locale) (q : Piece) : Char × ℕ := Tui.glyph l (safeScalar q.scalar)

/-- The columns of a text. -/
def columns (l : Locale) (ps : List Piece) : ℕ := (ps.map fun q => (q.glyph l).2).sum

/-- The units of a text that find room, in their order. -/
def shownUnits (l : Locale) (available : ℕ) (ps : List Piece) : List Piece :=
  greedy (fun qs => columns l qs ≤ available) ps

/-- The cells of the units. -/
def unitCells (l : Locale) (ps : List Piece) : List Cell :=
  ps.flatMap fun q => glyphCells (q.glyph l)

theorem decodeCells_from {available : ℕ} {src : Bytes} {ps : List Piece} (h : Decodes src ps)
    (taken : List Piece) (htaken : columns l taken ≤ available) :
    unitCells l taken ++ decodeCells l (available - columns l taken) src =
      unitCells l (greedyFrom (fun qs => columns l qs ≤ available) taken ps).1 := by
  induction ps generalizing src taken with
  | nil =>
    rcases h.next with ⟨rfl, -⟩ | ⟨q, qs, -, hps, -⟩
    · rw [decodeCells]
      simp [greedyFrom]
    · cases hps
  | cons q qs ih =>
    rcases h.next with ⟨-, hps⟩ | ⟨q', qs', hne, hps, hrest, -, -, hscalar, -⟩
    · cases hps
    · obtain ⟨rfl, rfl⟩ := List.cons.inj hps
      have hcolumns : columns l (taken ++ [q]) = columns l taken + (q.glyph l).2 := by
        simp [columns]
      have hwidth : 0 < (q.glyph l).2 := by
        rcases glyph_width l (safeScalar q.scalar) with hw | hw <;> simp [Piece.glyph, hw]
      rw [decodeCells, dif_neg hne]
      simp only [hscalar, greedyFrom, hcolumns]
      change _ ++ (if available - columns l taken = 0 then []
        else if available - columns l taken < (q.glyph l).2 then []
        else glyphCells (q.glyph l) ++ decodeCells l (available - columns l taken - (q.glyph l).2)
          (src.drop (decodeOne src).consumed)) = _
      by_cases hfits : columns l taken + (q.glyph l).2 ≤ available
      · rw [if_neg (by omega), if_neg (by omega), if_pos hfits]
        have hnext := ih hrest (taken ++ [q]) (by rw [hcolumns]; exact hfits)
        rw [← hnext, hcolumns, Nat.sub_add_eq]
        simp [unitCells]
      · rw [if_neg hfits]
        split_ifs
        · simp
        · simp
        · omega

theorem decodeCells_eq (available : ℕ) {src : Bytes} {ps : List Piece} (h : Decodes src ps) :
    decodeCells l available src = unitCells l (shownUnits l available ps) := by
  have hzero : columns l [] ≤ available := Nat.zero_le _
  have hrun := decodeCells_from h [] hzero
  simpa [unitCells, columns, shownUnits, greedy] using hrun

theorem paired_units (ps : List Piece) : Paired l (unitCells l ps) := by
  induction ps with
  | nil => exact paired_nil
  | cons q ps ih => exact paired_append (paired_glyph (safeScalar_clean q.scalar)) ih

theorem length_unitCells (ps : List Piece) : (unitCells l ps).length = columns l ps := by
  induction ps with
  | nil => rfl
  | cons q ps ih =>
    simp only [unitCells, columns, List.flatMap_cons, List.length_append, List.map_cons,
      List.sum_cons] at ih ⊢
    rw [ih, Piece.glyph, length_glyphCells]

/-! ## Whole characters under a put -/

/-- So many cells from a position on are whole characters: neither the first of them nor the
one behind them is a continuation. -/
def Whole (row : List Cell) (x n : ℕ) : Prop :=
  row[x]? ≠ some .continuation ∧ row[x + n]? ≠ some .continuation

instance (row : List Cell) (x n : ℕ) : Decidable (Whole row x n) :=
  inferInstanceAs (Decidable (_ ∧ _))

/-- A row stays paired exactly when a put covers whole characters. -/
theorem paired_store_iff {row p : List Cell} {x : ℕ} (hrow : Paired l row) (hp : Paired l p)
    (hne : p ≠ []) (hfits : x + p.length ≤ row.length) :
    Paired l (store row x p) ↔ Whole row x p.length := by
  have hpos := List.length_pos_iff.mpr hne
  have hget := getElem?_store hfits
  obtain ⟨a, rest, ha⟩ := List.exists_cons_of_ne_nil hne
  have hfirst : ∃ c, p[0]? = some (.scalar c) := by
    rcases hp.cases with h | ⟨c, _, h, -⟩ | ⟨c, _, h, -⟩
    · exact absurd h hne
    · exact ⟨c, by rw [h]; rfl⟩
    · exact ⟨c, by rw [h]; rfl⟩
  constructor
  · intro h
    constructor
    · -- the character in front of the put would keep its width and lose its continuation
      intro hx
      obtain ⟨j, c, rfl, hj, hwide⟩ := hrow.behind x hx
      have hnext := h.wide j c (by rw [hget, if_pos (by omega)]; exact hj) hwide
      rw [hget, if_neg (by omega), if_pos (by omega), Nat.sub_self] at hnext
      obtain ⟨d, hd⟩ := hfirst
      rw [hd] at hnext
      cases hnext
    · -- the cell behind the put would follow what the put wrote last
      intro hx
      obtain ⟨j, c, hj, hc, hwide⟩ :=
        h.behind (x + p.length) (by rw [hget, if_neg (by omega), if_neg (by omega)]; exact hx)
      rw [hget, if_neg (by omega), if_pos (by omega)] at hc
      have hnext := hp.wide (j - x) c hc hwide
      have hlt := (List.getElem?_eq_some_iff.mp hnext).1
      omega
  · rintro ⟨hstart, hend⟩
    refine ⟨?_, ?_, ?_⟩
    · intro c hc
      unfold store at hc
      rcases List.mem_append.mp hc with hc | hc
      · rcases List.mem_append.mp hc with hc | hc
        · exact hrow.shown c (List.mem_of_mem_take hc)
        · exact hp.shown c hc
      · exact hrow.shown c (List.mem_of_mem_drop hc)
    · intro i c hi hwide
      rw [hget] at hi ⊢
      by_cases hbefore : i < x
      · rw [if_pos hbefore] at hi
        have hnext := hrow.wide i c hi hwide
        by_cases hedge : i + 1 = x
        · rw [hedge] at hnext
          exact absurd hnext hstart
        · rw [if_pos (by omega)]
          exact hnext
      · rw [if_neg hbefore] at hi
        by_cases hin : i < x + p.length
        · rw [if_pos hin] at hi
          have hnext := hp.wide (i - x) c hi hwide
          have hlt := (List.getElem?_eq_some_iff.mp hnext).1
          rw [if_neg (by omega), if_pos (by omega), Nat.sub_add_comm (not_lt.mp hbefore)]
          exact hnext
        · rw [if_neg hin] at hi
          rw [if_neg (by omega), if_neg (by omega)]
          exact hrow.wide i c hi hwide
    · intro i hi
      rw [hget] at hi
      by_cases hbefore : i < x
      · rw [if_pos hbefore] at hi
        obtain ⟨j, c, hj, hc, hwide⟩ := hrow.behind i hi
        exact ⟨j, c, hj, by rw [hget, if_pos (by omega)]; exact hc, hwide⟩
      · rw [if_neg hbefore] at hi
        by_cases hin : i < x + p.length
        · rw [if_pos hin] at hi
          obtain ⟨j, c, hj, hc, hwide⟩ := hp.behind (i - x) hi
          refine ⟨x + j, c, by omega, ?_, hwide⟩
          rw [hget, if_neg (by omega), if_pos (by omega), Nat.add_sub_cancel_left]
          exact hc
        · rw [if_neg hin] at hi
          have hedge : i ≠ x + p.length := by
            rintro rfl
            exact hend hi
          obtain ⟨j, c, hj, hc, hwide⟩ := hrow.behind i hi
          exact ⟨j, c, hj, by rw [hget, if_neg (by omega), if_neg (by omega)]; exact hc, hwide⟩

/-- A row of one character of one column. -/
theorem paired_fill {c : Char} (hc : ¬ IsControl c) (hwidth : l.wcwidth c = 1) (row : List Cell) :
    Paired l (row.map fun _ => .scalar c) := by
  induction row with
  | nil => exact paired_nil
  | cons a row ih => exact paired_append (paired_scalar hc hwidth) ih

theorem unitCells_eq_nil {ps : List Piece} : unitCells l ps = [] ↔ ps = [] := by
  cases ps with
  | nil => simp [unitCells]
  | cons q ps =>
    have hcells : glyphCells (q.glyph l) ≠ [] := by
      unfold glyphCells
      split_ifs <;> simp
    simp [unitCells, hcells]

theorem Canvas.getElem?_row (c : Canvas z) {y : ℕ} (hy : y < z.height) :
    c.rows.getD y [] ∈ c.rows := by
  have hlt : y < c.rows.length := by rwa [c.rows_length]
  rw [List.getD_eq_getElem _ _ hlt]
  exact List.getElem_mem hlt

/-- Every row of the canvas is made of whole characters. -/
def RowsPaired (l : Locale) (c : Canvas z) : Prop := ∀ r ∈ c.rows, Paired l r

theorem rowsPaired_put_iff {c : Canvas z} (hc : RowsPaired l c) {x y : ℕ} {p : List Cell}
    (hp : Paired l p) (hfits : x + p.length ≤ z.width) (hy : y < z.height) :
    RowsPaired l (c.put x y p hfits) ↔ (p ≠ [] → Whole (c.rows.getD y []) x p.length) := by
  have hrow := c.getElem?_row hy
  have hlen := c.row_length _ hrow
  have hlt : y < c.rows.length := by rwa [c.rows_length]
  have hnew : RowsPaired l (c.put x y p hfits) ↔ Paired l (store (c.rows.getD y []) x p) := by
    constructor
    · intro h
      exact h _ (List.mem_set hlt _)
    · intro h r hr
      rcases List.mem_or_eq_of_mem_set hr with hr | rfl
      · exact hc r hr
      · exact h
  rw [hnew]
  by_cases hempty : p = []
  · have hsame : store (c.rows.getD y []) x p = c.rows.getD y [] := by
      simp [hempty, store]
    rw [hsame]
    exact iff_of_true (hc _ hrow) (fun hne => absurd hempty hne)
  · rw [paired_store_iff (hc _ hrow) hp hempty (by rw [hlen]; exact hfits)]
    exact ⟨fun h _ => h, fun h => h hempty⟩

/-! ## What is dumped -/

/-- No row holds a control character. -/
def Clean (r : List Cell) : Prop := ∀ c, .scalar c ∈ r → ¬ IsControl c

theorem Clean.tail {a : Cell} {r : List Cell} (h : Clean (a :: r)) : Clean r :=
  fun c hc => h c (List.mem_cons_of_mem a hc)

theorem cellLen_sum {r : List Cell} (h : Clean r) :
    (r.map cellLen).sum = (utf8Text (rowText r)).length := by
  induction r with
  | nil => rfl
  | cons a r ih =>
    have hrest := ih h.tail
    cases a with
    | scalar c =>
      have hc := h c List.mem_cons_self
      simp [rowText, utf8Text, cellLen, utf8Len_eq hc] at hrest ⊢
      exact hrest
    | continuation => simpa [rowText, cellLen] using hrest

theorem requiredLen_eq {rows : List (List Cell)} (h : ∀ r ∈ rows, Clean r) :
    requiredLen rows = (dumpText rows).length := by
  induction rows with
  | nil => rfl
  | cons r rows ih =>
    have hrest := ih fun r' hr' => h r' (List.mem_cons_of_mem r hr')
    simp only [requiredLen, dumpText, List.map_cons, List.sum_cons, List.flatMap_cons,
      List.length_append, List.length_singleton, cellLen_sum (h r List.mem_cons_self)] at hrest ⊢
    omega

theorem emitCells_eq {r : List Cell} (h : Clean r) {mem : Bytes} {out : ℕ}
    (hroom : out + (utf8Text (rowText r)).length ≤ mem.length) :
    emitCells mem out r =
      (store mem out (utf8Text (rowText r)), out + (utf8Text (rowText r)).length) := by
  induction r generalizing mem out with
  | nil => simp [emitCells, rowText, utf8Text, store]
  | cons a r ih =>
    cases a with
    | scalar c =>
      have hsplit : utf8Text (rowText (.scalar c :: r)) =
          String.utf8EncodeChar c ++ utf8Text (rowText r) := by
        simp [rowText, utf8Text]
      rw [hsplit, List.length_append] at hroom
      rw [emitCells, encodeUtf8_eq (h c List.mem_cons_self), ih h.tail, store_store, hsplit,
        List.length_append, Nat.add_assoc]
      · omega
      · rw [length_store]
        · omega
        · omega
    | continuation => exact ih h.tail hroom

theorem emitRows_eq {rows : List (List Cell)} (h : ∀ r ∈ rows, Clean r) {mem : Bytes} {out : ℕ}
    (hroom : out + (dumpText rows).length ≤ mem.length) :
    emitRows mem out rows = store mem out (dumpText rows) := by
  induction rows generalizing mem out with
  | nil => simp [emitRows, dumpText, store]
  | cons r rows ih =>
    have hsplit : dumpText (r :: rows) =
        (utf8Text (rowText r) ++ [10]) ++ dumpText rows := by
      simp [dumpText]
    rw [hsplit] at hroom ⊢
    simp only [List.length_append, List.length_singleton] at hroom
    rw [emitRows, emitCells_eq (h r List.mem_cons_self) (by omega)]
    dsimp only
    have hline : store (store mem out (utf8Text (rowText r)))
        (out + (utf8Text (rowText r)).length) [10] =
        store mem out (utf8Text (rowText r) ++ [10]) := store_store (by omega)
    have hend : out + (utf8Text (rowText r)).length + 1 =
        out + (utf8Text (rowText r) ++ [10]).length := by
      simp [Nat.add_assoc]
    rw [hline, hend, ih (fun r' hr' => h r' (List.mem_cons_of_mem r hr')), store_store]
    · simp only [List.length_append, List.length_singleton]
      omega
    · rw [length_store]
      · simp only [List.length_append, List.length_singleton]
        omega
      · simp only [List.length_append, List.length_singleton]
        omega

/-- Every row is made of whole characters, takes exactly the width of the canvas and dumps as
text without control characters; the size query is what the dump then writes. -/
structure RowsExact (l : Locale) (c : Canvas z) : Prop where
  paired : RowsPaired l c
  widths : ∀ r ∈ c.rows, ((rowText r).map l.wcwidth).sum = z.width
  clean : ∀ r ∈ c.rows, ∀ d ∈ rowText r, ¬ IsControl d
  query : ∀ outLen, c.dump none 0 outLen = ⟨.ok, none, (dumpText c.rows).length⟩
  dump : ∀ (mem : Bytes) (capacity outLen : ℕ), capacity ≤ mem.length →
    c.dump (some mem) capacity outLen =
      if (dumpText c.rows).length ≤ capacity then
        ⟨.ok, some (dumpText c.rows ++ mem.drop (dumpText c.rows).length),
          (dumpText c.rows).length⟩
      else ⟨.limit, some mem, outLen⟩

theorem RowsPaired.exact {c : Canvas z} (h : RowsPaired l c) : RowsExact l c := by
  have hclean : ∀ r ∈ c.rows, Clean r := fun r hr d hd => ((h r hr).shown d hd).1
  refine ⟨h, ?_, ?_, ?_, ?_⟩
  · intro r hr
    rw [(h r hr).width_eq, c.row_length r hr]
  · intro r hr d hd
    exact hclean r hr d (mem_rowText.mp hd)
  · intro outLen
    simp [Canvas.dump, requiredLen_eq hclean]
  · intro mem capacity outLen hcapacity
    simp only [Canvas.dump, reduceCtorEq, false_and, if_false, requiredLen_eq hclean]
    split_ifs with hover hfits hfits
    · omega
    · rfl
    · rw [emitRows_eq hclean (by omega)]
      simp [store]
    · omega

theorem rowsExact_iff (c : Canvas z) : RowsExact l c ↔ RowsPaired l c :=
  ⟨fun h => h.paired, fun h => h.exact⟩

/-! ## Runs -/

/-- A call that changes the canvas. -/
inductive CanvasCall
  | clear (scalar : ℕ)
  | putAscii (x y : ℕ) (bytes : Bytes)
  | putUtf8 (x y : ℕ) (bytes : Bytes)

/-- The canvas after a call. -/
def Canvas.step (l : Locale) (c : Canvas z) : CanvasCall → Canvas z
  | .clear scalar =>
    match c.clear scalar with
    | .ok c' => c'
    | .error _ => c
  | .putAscii x y bytes =>
    match c.putAscii x y bytes with
    | .ok r => r.1
    | .error _ => c
  | .putUtf8 x y bytes =>
    match c.putUtf8 l x y bytes with
    | .ok r => r.1
    | .error _ => c

/-- A clear is with a scalar of one column. -/
def ClearsNarrow (l : Locale) : CanvasCall → Prop
  | .clear scalar => l.wcwidth (safeScalar scalar) = 1
  | .putAscii _ _ _ => True
  | .putUtf8 _ _ _ => True

/-- A call that covers whole characters, if it covers any cell. -/
def CoversWhole (l : Locale) (c : Canvas z) : CanvasCall → Prop
  | .clear _ => True
  | .putAscii x y bytes =>
    x < z.width → y < z.height → bytes ≠ [] →
      Whole (c.rows.getD y []) x (min bytes.length (z.width - x))
  | .putUtf8 x y bytes =>
    bytes.length ≤ textMaxBytes → x < z.width → y < z.height → ∀ ps, Decodes bytes ps →
      shownUnits l (z.width - x) ps ≠ [] →
        Whole (c.rows.getD y []) x (columns l (shownUnits l (z.width - x) ps))

/-- A clear leaves a row of one character, whatever the cells were. -/
theorem clear_paired {c c' : Canvas z} {scalar : ℕ} (hclear : c.clear scalar = .ok c')
    (hwidth : l.wcwidth (safeScalar scalar) = 1) : RowsPaired l c' := by
  unfold Canvas.clear at hclear
  split_ifs at hclear with hsafe
  obtain rfl := Except.ok.inj hclear
  intro r hr
  obtain ⟨r', -, rfl⟩ := List.mem_map.mp hr
  exact paired_fill (safeScalar_clean scalar) hwidth r'

theorem step_paired_iff {c : Canvas z} (hc : RowsPaired l c) {call : CanvasCall}
    (hnarrow : ClearsNarrow l call) : RowsPaired l (c.step l call) ↔ CoversWhole l c call := by
  cases call with
  | clear scalar =>
    refine iff_of_true ?_ trivial
    cases hclear : c.clear scalar with
    | error e => simpa [Canvas.step, hclear] using hc
    | ok c' => simpa [Canvas.step, hclear] using clear_paired hclear hnarrow
  | putAscii x y bytes =>
    simp only [Canvas.step, Canvas.putAscii, CoversWhole]
    by_cases hx : z.width ≤ x
    · simp only [hx, dif_pos]
      exact iff_of_true hc (fun hlt => absurd hx (not_le.mpr hlt))
    · by_cases hy : z.height ≤ y
      · simp only [hx, hy, dif_neg, not_false_eq_true, if_true]
        exact iff_of_true hc (fun _ hlt => absurd hy (not_le.mpr hlt))
      · simp only [hx, hy, dif_neg, not_false_eq_true, if_false]
        rw [rowsPaired_put_iff hc (paired_ascii _) _ (not_le.mp hy)]
        have hlen : ((bytes.take (min bytes.length (z.width - x))).map asciiCell).length =
            min bytes.length (z.width - x) := by
          simp
        have hempty : (bytes.take (min bytes.length (z.width - x))).map asciiCell ≠ [] ↔
            bytes ≠ [] := by
          rw [ne_eq, ← List.length_eq_zero_iff, hlen, ne_eq, ← List.length_eq_zero_iff]
          omega
        rw [hlen, hempty]
        exact ⟨fun h _ _ => h, fun h => h (not_le.mp hx) (not_le.mp hy)⟩
  | putUtf8 x y bytes =>
    obtain ⟨ps, hps⟩ := exists_decodes bytes
    simp only [Canvas.step, Canvas.putUtf8, CoversWhole]
    by_cases hlong : textMaxBytes < bytes.length
    · simp only [hlong, if_true]
      exact iff_of_true hc (fun hle => absurd hlong (not_lt.mpr hle))
    · by_cases hx : z.width ≤ x
      · simp only [hlong, hx, if_false, dif_pos]
        exact iff_of_true hc (fun _ hlt => absurd hx (not_le.mpr hlt))
      · by_cases hy : z.height ≤ y
        · simp only [hlong, hx, hy, if_false, dif_neg, not_false_eq_true, if_true]
          exact iff_of_true hc (fun _ _ hlt => absurd hy (not_le.mpr hlt))
        · simp only [hlong, hx, hy, if_false, dif_neg, not_false_eq_true]
          rw [rowsPaired_put_iff hc (by rw [decodeCells_eq _ hps]; exact paired_units _) _
            (not_le.mp hy), decodeCells_eq _ hps, length_unitCells]
          rw [ne_eq, unitCells_eq_nil]
          constructor
          · intro h _ _ _ qs hqs
            rw [hqs.unique hps]
            exact h
          · intro h
            exact h (not_lt.mp hlong) (not_le.mp hx) (not_le.mp hy) ps hps

/-- A run of calls on a canvas that was cleared keeps its rows exact exactly when every call
covers whole characters. -/
theorem rowsExact_iff_coversWhole {l : Locale} {c₀ c : Canvas z} {scalar : ℕ}
    {calls : List CanvasCall} (hclear : c₀.clear scalar = .ok c)
    (hfirst : l.wcwidth (safeScalar scalar) = 1) (hcalls : ∀ call ∈ calls, ClearsNarrow l call) :
    Throughout (Canvas.step l) (RowsExact l) c calls ↔
      Along (Canvas.step l) (CoversWhole l) c calls := by
  have hstart : RowsExact l c := (clear_paired hclear hfirst).exact
  have hnarrow : Along (Canvas.step l) (fun _ call => ClearsNarrow l call) c calls := by
    rw [along_iff_forall_split]
    intro pre call post hsplit
    exact hcalls call (by simp [hsplit])
  refine throughout_iff_along (Q := fun _ => True) (fun _ _ _ _ _ _ => trivial) ?_ trivial hstart
    hnarrow
  intro t call _ hcall ht
  rw [rowsExact_iff]
  exact step_paired_iff ht.paired hcall

/-- A locale in which one character takes two columns. -/
private def wideWorld : Locale where
  wcwidth c := if c = '世' then 2 else 1
  ascii c _ hc := by
    rw [if_neg]
    rintro rfl
    exact absurd hc (by decide)

private def small : Size := ⟨4, 1, by decide, by decide, by decide, by decide⟩

private def bare : Canvas small := ⟨[[.continuation, .continuation, .continuation, .continuation]],
  rfl, by decide⟩

private def blankRow : Canvas small := ⟨[[.scalar ' ', .scalar ' ', .scalar ' ', .scalar ' ']],
  rfl, by decide⟩

private def worldPut : CanvasCall := .putUtf8 0 0 [0xE4, 0xB8, 0x96]

theorem bare_clear : bare.clear 0x20 = .ok blankRow := rfl

theorem wideWorld_blank : wideWorld.wcwidth (safeScalar 0x20) = 1 := by decide

theorem wideWorld_narrow (bytes : Bytes) (x y : ℕ) (bytes' : Bytes) (x' y' : ℕ) :
    ∀ call ∈ [.putUtf8 x y bytes, .putAscii x' y' bytes'], ClearsNarrow wideWorld call := by
  simp [ClearsNarrow]

/-- The letter behind the character. -/
theorem rowsExact_behind :
    Throughout (Canvas.step wideWorld) (RowsExact wideWorld) blankRow
      [worldPut, .putAscii 2 0 [0x61]] := by
  refine (rowsExact_iff_coversWhole bare_clear wideWorld_blank
    (wideWorld_narrow _ 0 0 _ 2 0)).mpr ⟨?_, ?_, trivial⟩
  · intro _ _ _ ps _ _
    have hblank : ∀ i : ℕ, (blankRow.rows.getD 0 [])[i]? ≠ some .continuation := by
      intro i hi
      exact absurd (List.mem_of_getElem? hi) (by decide)
    exact ⟨hblank _, hblank _⟩
  · intro _ _ _
    decide +kernel

/-- The letter over the second half of the character: the row is a column too wide. -/
theorem rowsExact_over :
    ¬ ∀ (l : Locale) (z : Size) (c₀ c : Canvas z) (scalar : ℕ) (calls : List CanvasCall),
      c₀.clear scalar = .ok c → l.wcwidth (safeScalar scalar) = 1 →
      (∀ call ∈ calls, ClearsNarrow l call) →
        Throughout (Canvas.step l) (RowsExact l) c calls := by
  intro h
  have hrun := h wideWorld small bare blankRow 0x20 [worldPut, .putAscii 1 0 [0x61]] bare_clear
    wideWorld_blank (wideWorld_narrow _ 0 0 _ 1 0)
  have hwidths := hrun.last.widths
  revert hwidths
  decide +kernel

end AsmFlow.Tui
