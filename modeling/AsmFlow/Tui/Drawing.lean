import AsmFlow.Tui.Render
import Mathlib.Data.List.DropRight

/-!
# Drawing

What the renderer draws, each in one row: characters, texts, and the borders of the wide
overview, which `overview.asm` writes into the cells itself. What stands in a row at the end
is decided by what was drawn in it.
-/

namespace AsmFlow.Tui

open Http Json Library

inductive Draw
  | ascii (x y : ℕ) (bytes : Bytes)
  | text (p : TextPut)
  | hborder (y : ℕ)
  | vbars (y middle right : ℕ)

def Draw.row : Draw → ℕ
  | .ascii _ y _ => y
  | .text p => p.y
  | .hborder y => y
  | .vbars y _ _ => y

def blank : Cell := .scalar ' '

/-- `_o_hborder` -/
def borderCells (width : ℕ) : List Cell :=
  (List.range width).map fun x =>
    if x = 0 ∨ x = 19 ∨ x = width - 40 ∨ x = width - 1 then .scalar '+' else .scalar '-'

/-- `_o_vbars` -/
def barCells (middle right : ℕ) (row : List Cell) : List Cell :=
  row.mapIdx fun x cell => if x = 0 ∨ x = 19 ∨ x = middle ∨ x = right then .scalar '|' else cell

variable {z : Size}

/-- One row, changed. The storage of the console has room for every row that is written. -/
def Canvas.onRow (c : Canvas z) (y : ℕ) (f : List Cell → List Cell)
    (h : ∀ row, row.length = z.width → (f row).length = z.width) : Canvas z where
  rows := c.rows.modify y f
  rows_length := by rw [List.length_modify, c.rows_length]
  row_length := by
    intro r hr
    obtain ⟨i, hi⟩ := List.mem_iff_getElem?.mp hr
    rw [List.getElem?_modify] at hi
    cases hrow : c.rows[i]? with
    | none => simp [hrow] at hi
    | some row =>
      have hlen := c.row_length row (List.mem_of_getElem? hrow)
      rw [hrow] at hi
      obtain rfl := Option.some.inj hi
      split_ifs
      · exact h row hlen
      · exact hlen

def Canvas.draw (l : Locale) (c : Canvas z) : Draw → Canvas z
  | .ascii x y bytes => c.step l (.putAscii x y bytes)
  | .text p => c.step l (.putUtf8 p.x p.y p.bytes)
  | .hborder y => c.onRow y (fun _ => borderCells z.width) (by simp [borderCells])
  | .vbars y middle right => c.onRow y (barCells middle right) (by simp [barCells])

/-- What a draw does to its row. -/
def drawRow (l : Locale) (z : Size) (row : List Cell) : Draw → List Cell
  | .ascii x _ bytes =>
    if z.width ≤ x then row else store row x ((bytes.take (z.width - x)).map asciiCell)
  | .text p => store row p.x (p.cells l z)
  | .hborder _ => borderCells z.width
  | .vbars _ middle right => barCells middle right row

/-- What is drawn in a row. -/
def drawnIn (y : ℕ) (ds : List Draw) : List Draw := ds.filter fun d => d.row == y

theorem drawnIn_none {y : ℕ} {ds : List Draw} (h : ∀ d ∈ ds, d.row ≠ y) : drawnIn y ds = [] := by
  rw [drawnIn, List.filter_eq_nil_iff]
  intro d hd
  simp [h d hd]

section Rows

variable {l : Locale}

/-- The cells of a row have no control characters, and no character begins in the last one
that needs two. -/
structure RowSound (l : Locale) (width : ℕ) (row : List Cell) : Prop where
  length : row.length = width
  shown : ∀ c, .scalar c ∈ row → ¬ IsControl c ∧ (l.wcwidth c = 1 ∨ l.wcwidth c = 2)
  last : ∀ c, row[width - 1]? = some (.scalar c) → l.wcwidth c = 1

theorem ascii_width {c : Char} (hlow : 0x20 ≤ c.val.toNat) (hhigh : c.val.toNat ≤ 0x7E) :
    ¬ IsControl c ∧ l.wcwidth c = 1 := by
  refine ⟨?_, l.ascii c hlow hhigh⟩
  simp only [IsControl]
  omega

/-- Cells of ASCII alone. -/
structure Narrow (l : Locale) (row : List Cell) : Prop where
  narrow : ∀ cell ∈ row, ∃ c, cell = .scalar c ∧ ¬ IsControl c ∧ l.wcwidth c = 1

theorem Narrow.paired {row : List Cell} (h : Narrow l row) : Paired l row := by
  induction row with
  | nil => exact paired_nil
  | cons cell row ih =>
    obtain ⟨c, rfl, hc, hwidth⟩ := h.narrow cell List.mem_cons_self
    exact paired_append (paired_scalar hc hwidth)
      (ih ⟨fun d hd => h.narrow d (List.mem_cons_of_mem _ hd)⟩)

theorem Narrow.whole {row : List Cell} (h : Narrow l row) (x n : ℕ) : Whole row x n := by
  have hcell (i : ℕ) : row[i]? ≠ some .continuation := by
    intro hi
    obtain ⟨c, hc, -⟩ := h.narrow _ (List.mem_of_getElem? hi)
    cases hc
  exact ⟨hcell x, hcell (x + n)⟩

theorem mem_store {row p : List Cell} {x : ℕ} {cell : Cell} (h : cell ∈ store row x p) :
    cell ∈ row ∨ cell ∈ p := by
  unfold store at h
  rcases List.mem_append.mp h with h | h
  · rcases List.mem_append.mp h with h | h
    · exact Or.inl (List.mem_of_mem_take h)
    · exact Or.inr h
  · exact Or.inl (List.mem_of_mem_drop h)

theorem Narrow.store {row p : List Cell} (h : Narrow l row) (hp : Narrow l p) (x : ℕ) :
    Narrow l (store row x p) :=
  ⟨fun cell hcell => (mem_store hcell).elim (h.narrow cell) (hp.narrow cell)⟩

theorem narrow_border (width : ℕ) : Narrow l (borderCells width) := by
  constructor
  intro cell hcell
  obtain ⟨x, -, rfl⟩ := List.mem_map.mp hcell
  split_ifs
  · exact ⟨'+', rfl, ascii_width (by decide) (by decide)⟩
  · exact ⟨'-', rfl, ascii_width (by decide) (by decide)⟩

theorem mem_bars {row : List Cell} {middle right : ℕ} {cell : Cell}
    (h : cell ∈ barCells middle right row) : cell = .scalar '|' ∨ cell ∈ row := by
  obtain ⟨i, hi, rfl⟩ := List.mem_mapIdx.mp h
  split_ifs
  · exact Or.inl rfl
  · exact Or.inr (List.getElem_mem hi)

theorem TextPut.cells_paired (p : TextPut) : Paired l (p.cells l z) := by
  obtain ⟨ps, hps⟩ := exists_decodes p.bytes
  unfold TextPut.cells
  split_ifs
  · exact paired_nil
  · exact paired_nil
  · exact paired_nil
  · rw [decodeCells_eq _ hps]
    exact paired_units _

theorem TextPut.cells_fit (p : TextPut) : p.cells l z = [] ∨ p.x + (p.cells l z).length ≤ z.width := by
  unfold TextPut.cells
  split_ifs with hlong hx hy
  · exact Or.inl rfl
  · exact Or.inl rfl
  · exact Or.inl rfl
  · have := length_decodeCells l (z.width - p.x) p.bytes
    right
    omega

theorem store_nil (row : List Cell) (x : ℕ) : store row x [] = row := by simp [store]

/-- A text on a row of ASCII is whole. -/
theorem Narrow.text {row : List Cell} (h : Narrow l row) (hlen : row.length = z.width)
    (p : TextPut) : Paired l (Library.store row p.x (p.cells l z)) := by
  rcases p.cells_fit (l := l) (z := z) with hnil | hfits
  · rw [hnil, store_nil]
    exact h.paired
  · by_cases hne : p.cells l z = []
    · rw [hne, store_nil]
      exact h.paired
    · exact (paired_store_iff h.paired p.cells_paired hne (by rwa [hlen])).mpr (h.whole _ _)

theorem RowSound.store {row p : List Cell} {width x : ℕ} (h : RowSound l width row)
    (hp : Paired l p) (hfits : x + p.length ≤ width) : RowSound l width (store row x p) := by
  have hroom : x + p.length ≤ row.length := by rwa [h.length]
  refine ⟨by rw [length_store hroom, h.length], ?_, ?_⟩
  · intro c hc
    exact (mem_store hc).elim (h.shown c) (hp.shown c)
  · intro c hc
    rw [getElem?_store hroom] at hc
    split_ifs at hc with hbefore hin
    · exact h.last c hc
    · -- the last cell of what is stored
      rcases (hp.shown c (List.mem_of_getElem? hc)).2 with hone | htwo
      · exact hone
      · have hnext := hp.wide _ c hc htwo
        have hlt := (List.getElem?_eq_some_iff.mp hnext).1
        omega
    · exact h.last c hc

theorem Narrow.sound {row : List Cell} {width : ℕ} (h : Narrow l row)
    (hlen : row.length = width) : RowSound l width row := by
  have hcell (c : Char) (hc : .scalar c ∈ row) : ¬ IsControl c ∧ l.wcwidth c = 1 := by
    obtain ⟨d, hd, hspec⟩ := h.narrow _ hc
    obtain rfl := Cell.scalar.inj hd
    exact hspec
  exact ⟨hlen, fun c hc => ⟨(hcell c hc).1, Or.inl (hcell c hc).2⟩,
    fun c hc => (hcell c (List.mem_of_getElem? hc)).2⟩

theorem RowSound.draw {row : List Cell} (h : RowSound l z.width row) (d : Draw) :
    RowSound l z.width (drawRow l z row d) := by
  cases d with
  | ascii x y bytes =>
    simp only [drawRow]
    split_ifs with hx
    · exact h
    · refine h.store (paired_ascii _) ?_
      simp only [List.length_map, List.length_take]
      omega
  | text p =>
    simp only [drawRow]
    rcases p.cells_fit (l := l) (z := z) with hnil | hfits
    · rw [hnil, store_nil]
      exact h
    · exact h.store p.cells_paired hfits
  | hborder y => exact (narrow_border z.width).sound (by simp [borderCells])
  | vbars y middle right =>
    have hbar : ¬ IsControl '|' ∧ l.wcwidth '|' = 1 := ascii_width (by decide) (by decide)
    refine ⟨by simp [drawRow, barCells, h.length], ?_, ?_⟩
    · intro c hc
      rcases mem_bars hc with hc | hc
      · obtain rfl := Cell.scalar.inj hc
        exact ⟨hbar.1, Or.inl hbar.2⟩
      · exact h.shown c hc
    · intro c hc
      simp only [drawRow, barCells, List.getElem?_mapIdx, Option.map_eq_some_iff] at hc
      obtain ⟨cell, hcell, hc⟩ := hc
      split_ifs at hc
      · obtain rfl := Cell.scalar.inj hc
        exact hbar.2
      · exact h.last c (hc ▸ hcell)

end Rows

end AsmFlow.Tui
