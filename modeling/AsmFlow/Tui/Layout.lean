import AsmFlow.Library.Greedy
import AsmFlow.Machine.Status
import AsmFlow.Machine.Word

/-!
# Geometry and columns of the console

The regions of a canvas of given dimensions, and which columns of a table are admitted
into a given width.
-/

namespace AsmFlow.Tui

open Library

/-- `AF_TUI_MAX_COLUMNS`. -/
def maxColumns : ℕ := 512

/-- `AF_TUI_MAX_ROWS`. -/
def maxRows : ℕ := 256

/-- `TL_MODE` -/
inductive Mode
  | tooSmall
  | narrow
  | compact
  | standard
  | wide
  deriving DecidableEq, Repr

/-- A region. A hidden one is all zero. -/
structure Rect where
  x : ℕ
  y : ℕ
  w : ℕ
  h : ℕ
  deriving DecidableEq, Repr

def Rect.hidden : Rect := ⟨0, 0, 0, 0⟩

/-- `af_tui_layout`, its flags one by one. -/
structure Layout where
  cols : ℕ
  rows : ℕ
  mode : Mode
  navTabs : Bool
  inspectOverlay : Bool
  drilldown : Bool
  enlarge : Bool
  top : Rect
  nav : Rect
  main : Rect
  inspect : Rect
  event : Rect
  command : Rect
  deriving DecidableEq, Repr

section Compute

variable (columns rows : ℕ)

/-- `.too_small` -/
def smallLayout : Layout :=
  ⟨columns, rows, .tooSmall, false, false, false, true, .hidden, .hidden, ⟨0, 0, columns, rows⟩,
    .hidden, .hidden, .hidden⟩

/-- `.tabs`, for the modes that lead there. -/
def tabLayout (mode : Mode) (drilldown : Bool) : Layout :=
  ⟨columns, rows, mode, true, true, drilldown, false, ⟨0, 0, columns, 1⟩, ⟨0, 1, columns, 1⟩,
    ⟨0, 2, columns, rows - 4⟩, .hidden, ⟨0, rows - 2, columns, 1⟩, ⟨0, rows - 1, columns, 1⟩⟩

/-- `.wide` -/
def wideLayout : Layout :=
  ⟨columns, rows, .wide, false, false, false, false, ⟨0, 0, columns, 1⟩, ⟨1, 2, 18, rows - 4⟩,
    ⟨20, 2, columns - 60, rows - 4⟩, ⟨columns - 39, 2, 38, rows - 4⟩, ⟨0, rows - 2, columns, 1⟩,
    ⟨0, rows - 1, columns, 1⟩⟩

/-- `af_tui_layout_compute` -/
def layoutCompute : Except Status Layout :=
  if columns = 0 then .error .invalid
  else if rows = 0 then .error .invalid
  else if maxColumns < columns then .error .limit
  else if maxRows < rows then .error .limit
  else if columns < 60 then .ok (smallLayout columns rows)
  else if rows < 16 then .ok (smallLayout columns rows)
  else if rows ≤ 20 then .ok (tabLayout columns rows .narrow true)
  else if columns < 80 then .ok (tabLayout columns rows .narrow true)
  else if columns < 100 then .ok (tabLayout columns rows .compact false)
  else if columns < 120 then .ok (tabLayout columns rows .standard false)
  else .ok (wideLayout columns rows)

end Compute

/-- The part of `TCD_*` that the admission reads. -/
structure Column where
  priority : Word
  minWidth : Word
  maxWidth : Word
  deriving DecidableEq, Repr

/-- What `af_tui_columns_fit` checks of a descriptor. -/
def Column.valid (c : Column) : Bool :=
  !decide (3 < c.priority) && c.minWidth != 0 && !decide (c.maxWidth < c.minWidth)

/-- `TCF_*`. -/
structure ColumnFit where
  mask : Word
  width : Word
  deriving DecidableEq, Repr

/-- The mask, the width and the visible count the passes share. -/
structure Admission where
  mask : Word
  width : Word
  visible : Word
  deriving DecidableEq, Repr

def Admission.none : Admission := ⟨0, 0, 0⟩

/-- How a pass over the descriptors ends. -/
inductive Pass
  | through (a : Admission)
  | doesNotFit (a : Admission)
  | overflow
  deriving DecidableEq, Repr

section Admit

variable (available spacing : Word)

/-- The body of `.scan` for a column of the priority that is being admitted. -/
def admitOne (a : Admission) (i : ℕ) (c : Column) : Pass :=
  if a.visible ≠ 0 && Word.addCarries a.width spacing then .overflow
  else
    let base := if a.visible = 0 then a.width else a.width + spacing
    if Word.addCarries base c.minWidth then .overflow
    else if available < base + c.minWidth then .doesNotFit a
    else .through
      { mask := a.mask ||| (1 <<< UInt64.ofNat i)
        width := base + c.minWidth
        visible := a.visible + 1 }

/-- `.scan` from the column of index `i`. -/
def scan (priority : Word) (a : Admission) : ℕ → List Column → Pass
  | _, [] => .through a
  | i, c :: cs =>
    if c.priority ≠ priority then scan priority a (i + 1) cs
    else
      match admitOne available spacing a i c with
      | .through b => scan priority b (i + 1) cs
      | ended => ended

/-- `.priority`, for the priorities that are left. -/
def admitPriorities (columns : List Column) (a : Admission) : List Word → Except Status ColumnFit
  | [] => .ok ⟨a.mask, a.width⟩
  | p :: ps =>
    match scan available spacing p a 0 columns with
    | .through b => admitPriorities columns b ps
    | .doesNotFit b => if p = 0 then .error Status.limit else .ok ⟨b.mask, b.width⟩
    | .overflow => .error Status.overflow

end Admit

/-- `af_tui_columns_fit` -/
def columnsFit (columns : List Column) (available spacing : Word) : Except Status ColumnFit :=
  if 64 < columns.length then .error Status.limit
  else if columns = [] then .ok ⟨0, 0⟩
  else if !columns.all Column.valid then .error Status.invalid
  else admitPriorities available spacing columns .none [0, 1, 2, 3]

/-! ## The order of admission -/

/-- The columns of a priority with their positions. -/
def ofPriority (columns : List Column) (p : Word) : List (Column × ℕ) :=
  columns.zipIdx.filter (fun x => x.1.priority = p)

/-- The columns with their positions, the lower priorities first. -/
def inOrder (columns : List Column) : List (Column × ℕ) :=
  [0, 1, 2, 3].flatMap (ofPriority columns)

/-- By priority, and by position within a priority. -/
def Before (x y : Column × ℕ) : Prop :=
  x.1.priority < y.1.priority ∨ x.1.priority = y.1.priority ∧ x.2 < y.2

/-- The width that columns take side by side. -/
def sideBySide (spacing : Word) (xs : List (Column × ℕ)) : ℕ :=
  (xs.map (fun x => x.1.minWidth.toNat)).sum + (xs.length - 1) * spacing.toNat

theorem sideBySide_concat (spacing : Word) (xs : List (Column × ℕ)) (x : Column × ℕ) :
    sideBySide spacing (xs ++ [x]) =
      sideBySide spacing xs + (if xs = [] then 0 else spacing.toNat) + x.1.minWidth.toNat := by
  cases xs with
  | nil => simp [sideBySide]
  | cons y ys =>
    simp [sideBySide, Nat.add_mul]
    omega

theorem sideBySide_mono {spacing : Word} {p q : List (Column × ℕ)} (h : p <+: q) :
    sideBySide spacing p ≤ sideBySide spacing q := by
  obtain ⟨t, rfl⟩ := h
  have hlen : (p.length - 1) * spacing.toNat ≤ ((p ++ t).length - 1) * spacing.toNat := by
    apply Nat.mul_le_mul_right
    simp
    omega
  simp only [sideBySide, List.map_append, List.sum_append]
  omega

theorem mem_inOrder {columns : List Column} {x : Column × ℕ} :
    x ∈ inOrder columns ↔ x ∈ columns.zipIdx ∧ x.1.priority ∈ ([0, 1, 2, 3] : List Word) := by
  simp only [inOrder, ofPriority, List.mem_flatMap, List.mem_filter, decide_eq_true_eq]
  constructor
  · rintro ⟨p, hp, hx, rfl⟩
    exact ⟨hx, hp⟩
  · intro h
    exact ⟨x.1.priority, h.2, h.1, rfl⟩

theorem pairwise_zipIdx (columns : List Column) (i : ℕ) :
    (columns.zipIdx i).Pairwise (fun x y => x.2 < y.2) := by
  induction columns generalizing i with
  | nil => simp
  | cons c cs ih =>
    rw [List.zipIdx_cons, List.pairwise_cons]
    refine ⟨?_, ih (i + 1)⟩
    intro y hy
    have := List.le_snd_of_mem_zipIdx hy
    omega

theorem pairwise_inOrder (columns : List Column) : (inOrder columns).Pairwise Before := by
  rw [inOrder, List.pairwise_flatMap]
  constructor
  · intro p _
    have hpos := (pairwise_zipIdx columns 0).filter (fun x => decide (x.1.priority = p))
    apply hpos.imp_of_mem
    intro x y hx hy hxy
    simp only [List.mem_filter, decide_eq_true_eq] at hx hy
    exact Or.inr ⟨hx.2.trans hy.2.symm, hxy⟩
  · have hless : ([0, 1, 2, 3] : List Word).Pairwise (· < ·) := by decide
    apply hless.imp
    intro p q hpq x hx y hy
    simp only [ofPriority, List.mem_filter, decide_eq_true_eq] at hx hy
    left
    rwa [hx.2, hy.2]

theorem not_before_self (x : Column × ℕ) : ¬ Before x x := by
  rintro (h | ⟨-, h⟩)
  · exact UInt64.lt_irrefl _ h
  · exact lt_irrefl _ h

theorem priority_of_valid {c : Column} (h : c.valid = true) :
    c.priority ∈ ([0, 1, 2, 3] : List Word) := by
  have hle : ¬ 3 < c.priority := by
    simp [Column.valid] at h
    simp [h.1.1]
  rw [UInt64.lt_iff_toNat_lt] at hle
  simp only [List.mem_cons, List.not_mem_nil, or_false, ← UInt64.toNat_inj]
  simp at hle ⊢
  omega

/-- The order of admission is the columns, sorted. -/
theorem inOrder_perm {columns : List Column} (hvalid : ∀ c ∈ columns, c.valid = true) :
    (inOrder columns).Perm columns.zipIdx := by
  have hone : (inOrder columns).Nodup := by
    apply (pairwise_inOrder columns).imp
    rintro x y h rfl
    exact not_before_self x h
  have hother : columns.zipIdx.Nodup := by
    apply (pairwise_zipIdx columns 0).imp
    rintro x y h rfl
    exact lt_irrefl _ h
  rw [List.perm_ext_iff_of_nodup hone hother]
  intro x
  rw [mem_inOrder, and_iff_left_iff_imp]
  intro hx
  exact priority_of_valid (hvalid x.1 (List.fst_mem_of_mem_zipIdx hx))

/-! ## What a pass admits -/

/-- What the accumulators say of the columns admitted so far. -/
structure Admission.Tells (spacing : Word) (a : Admission) (xs : List (Column × ℕ)) : Prop where
  width : a.width.toNat = sideBySide spacing xs
  visible : a.visible.toNat = xs.length
  mask : ∀ i, a.mask.toNat.testBit i = true ↔ ∃ x ∈ xs, x.2 = i

theorem tells_none (spacing : Word) : Admission.none.Tells spacing [] where
  width := by simp [Admission.none, sideBySide]
  visible := by simp [Admission.none]
  mask i := by simp [Admission.none]

variable {available spacing : Word} {a : Admission}

/-- The columns fit the width that is available. -/
abbrev Fits (available spacing : Word) (xs : List (Column × ℕ)) : Prop :=
  sideBySide spacing xs ≤ available.toNat

/-- A column is admitted when the columns with it fit, as long as their width is a word. -/
theorem Admission.Tells.admitOne {xs : List (Column × ℕ)} (ha : a.Tells spacing xs)
    (available : Word) {x : Column × ℕ} (hi : x.2 < 64) (hlen : xs.length < 64)
    (hword : sideBySide spacing (xs ++ [x]) < 2 ^ 64) :
    if Fits available spacing (xs ++ [x]) then
      ∃ b, admitOne available spacing a x.2 x.1 = .through b ∧ b.Tells spacing (xs ++ [x])
    else admitOne available spacing a x.2 x.1 = .doesNotFit a := by
  rw [sideBySide_concat] at hword
  have hvisible : a.visible = 0 ↔ xs = [] := by
    rw [← UInt64.toNat_inj, ha.visible]
    simp
  -- the width with the gap before the column
  let base := if a.visible = 0 then a.width else a.width + spacing
  have hbase : base.toNat = sideBySide spacing xs + (if xs = [] then 0 else spacing.toNat) := by
    by_cases hxs : xs = []
    · simp [base, hvisible, hxs, ha.width]
    · simp only [base, hvisible, hxs, if_false] at hword ⊢
      rw [UInt64.toNat_add, ha.width]
      exact Nat.mod_eq_of_lt (by omega)
  have hgap : (decide (a.visible ≠ 0) && Word.addCarries a.width spacing) = false := by
    by_cases hxs : xs = []
    · simp [hvisible, hxs]
    · simp only [hxs, if_false] at hword
      simp only [Word.addCarries, ha.width, Bool.and_eq_false_iff, decide_eq_false_iff_not]
      omega
  have hcarry : Word.addCarries base x.1.minWidth = false := by
    simp only [Word.addCarries, hbase, decide_eq_false_iff_not]
    omega
  have hsum : (base + x.1.minWidth).toNat = sideBySide spacing (xs ++ [x]) := by
    rw [UInt64.toNat_add, hbase, sideBySide_concat]
    exact Nat.mod_eq_of_lt (by omega)
  have hpass : Tui.admitOne available spacing a x.2 x.1 =
      if available < base + x.1.minWidth then .doesNotFit a
      else .through
        { mask := a.mask ||| (1 <<< UInt64.ofNat x.2)
          width := base + x.1.minWidth
          visible := a.visible + 1 } := by
    simp only [Tui.admitOne, hgap, Bool.false_eq_true, if_false]
    change (if Word.addCarries base x.1.minWidth = true then _ else _) = _
    simp only [hcarry, Bool.false_eq_true, if_false]
    rfl
  have hless : available < base + x.1.minWidth ↔ ¬ Fits available spacing (xs ++ [x]) := by
    rw [UInt64.lt_iff_toNat_lt, hsum, not_le]
  rw [hpass]
  split_ifs with hfits hover hover
  · exact absurd hfits (hless.mp hover)
  · refine ⟨_, rfl, hsum, ?_, ?_⟩
    · rw [Word.toNat_add_one, ha.visible]
      · simp
      · rw [ha.visible]
        omega
    · intro i
      simp only [UInt64.toNat_or, Nat.testBit_or, Bool.or_eq_true, ha.mask, Word.toNat_bit hi,
        Nat.testBit_two_pow, decide_eq_true_eq, List.mem_append, List.mem_singleton]
      constructor
      · rintro (⟨y, hy, rfl⟩ | rfl)
        · exact ⟨y, Or.inl hy, rfl⟩
        · exact ⟨x, Or.inr rfl, rfl⟩
      · rintro ⟨y, hy | rfl, rfl⟩
        · exact Or.inl ⟨y, hy, rfl⟩
        · exact Or.inr rfl
  · rfl
  · exact absurd (hless.mpr hfits) hover

/-- `.scan` over the columns of a priority, each with its position. -/
def admitAll (available spacing : Word) (a : Admission) : List (Column × ℕ) → Pass
  | [] => .through a
  | x :: xs =>
    match admitOne available spacing a x.2 x.1 with
    | .through b => admitAll available spacing b xs
    | ended => ended

theorem scan_eq (p : Word) (i : ℕ) (columns : List Column) :
    scan available spacing p a i columns =
      admitAll available spacing a
        ((columns.zipIdx i).filter (fun x => decide (x.1.priority = p))) := by
  induction columns generalizing a i with
  | nil => rfl
  | cons c cs ih =>
    by_cases hp : c.priority = p
    · simp only [scan, hp, ne_eq, not_true_eq_false, if_false, List.zipIdx_cons, decide_true,
        List.filter_cons_of_pos, admitAll]
      cases admitOne available spacing a i c with
      | through b => exact ih (i + 1)
      | doesNotFit b => rfl
      | overflow => rfl
    · simp [scan, hp, ih]

/-- A pass admits greedily. -/
theorem Admission.Tells.admitAll {taken : List (Column × ℕ)} (ha : a.Tells spacing taken)
    (available : Word) (xs : List (Column × ℕ))
    (hi : ∀ x ∈ xs, x.2 < 64) (hlen : taken.length + xs.length ≤ 64)
    (hword : ∀ q, q <+: taken ++ xs → sideBySide spacing q < 2 ^ 64) :
    ∃ b : Admission, b.Tells spacing (greedyFrom (Fits available spacing) taken xs).1 ∧
      Tui.admitAll available spacing a xs =
        if (greedyFrom (Fits available spacing) taken xs).2 = [] then .through b
        else .doesNotFit b := by
  induction xs generalizing a taken with
  | nil => exact ⟨a, ha, rfl⟩
  | cons x xs ih =>
    have hone := ha.admitOne available (hi x List.mem_cons_self)
      (by simp at hlen; omega) (hword _ ⟨xs, by simp⟩)
    by_cases hfits : Fits available spacing (taken ++ [x])
    · simp only [hfits, if_true] at hone
      obtain ⟨b, hb, htells⟩ := hone
      simp only [Tui.admitAll, hb, greedyFrom, hfits, if_true]
      apply ih htells
      · intro y hy
        exact hi y (List.mem_cons_of_mem x hy)
      · simp at hlen ⊢
        omega
      · simpa using hword
    · simp only [hfits, if_false] at hone
      refine ⟨a, ?_, ?_⟩
      · simpa [greedyFrom, hfits] using ha
      · simp [Tui.admitAll, hone, greedyFrom, hfits]

/-- The passes take columns greedily; a column that is left out is an error in the first one only. -/
theorem Admission.Tells.admitPriorities {taken : List (Column × ℕ)}
    (ha : a.Tells spacing taken) (available : Word) (columns : List Column) (ps : List Word)
    (hps : ∀ p ∈ ps.tail, p ≠ 0)
    (hi : ∀ x ∈ ps.flatMap (ofPriority columns), x.2 < 64)
    (hlen : taken.length + (ps.flatMap (ofPriority columns)).length ≤ 64)
    (hword : ∀ q, q <+: taken ++ ps.flatMap (ofPriority columns) →
      sideBySide spacing q < 2 ^ 64) :
    let g := greedyFrom (Fits available spacing) taken (ps.flatMap (ofPriority columns))
    if ∃ x ∈ g.2, x.1.priority = 0 then
      admitPriorities available spacing columns a ps = .error Status.limit
    else
      ∃ b : Admission, b.Tells spacing g.1 ∧
        admitPriorities available spacing columns a ps = .ok ⟨b.mask, b.width⟩ := by
  induction ps generalizing a taken with
  | nil => simpa [greedyFrom, Tui.admitPriorities] using ⟨a, ha, rfl, rfl⟩
  | cons p ps ih =>
    simp only [List.flatMap_cons] at hi hlen hword ⊢
    obtain ⟨b, hb, hpass⟩ := ha.admitAll available (ofPriority columns p)
      (fun x hx => hi x (List.mem_append_left _ hx)) (by simp at hlen; omega)
      (fun q hq => hword q (hq.trans ((List.prefix_append_right_inj taken).mpr
        (List.prefix_append _ _))))
    have hjoin := greedyFrom_join (Fits available spacing) taken (ofPriority columns p)
    have hscan : scan available spacing p a 0 columns = _ := (scan_eq p 0 columns).trans hpass
    rw [greedyFrom_append]
    simp only [Tui.admitPriorities, hscan]
    -- the pass gets through, or the first column it leaves out ends the admission
    by_cases hleft : (greedyFrom (Fits available spacing) taken (ofPriority columns p)).2 = []
    · simp only [hleft, if_true]
      rw [hleft, List.append_nil] at hjoin
      apply ih hb
      · intro q hq
        exact hps q (List.mem_of_mem_tail hq)
      · intro x hx
        exact hi x (List.mem_append_right _ hx)
      · rw [hjoin]
        simp at hlen ⊢
        omega
      · rw [hjoin, List.append_assoc]
        exact hword
    · simp only [hleft, if_false]
      obtain ⟨x, left, hx⟩ := List.exists_cons_of_ne_nil hleft
      have hof : ∀ y ∈ (greedyFrom (Fits available spacing) taken (ofPriority columns p)).2,
          y.1.priority = p := by
        intro y hy
        have hmem := (greedyFrom_suffix taken (ofPriority columns p)).subset hy
        simp only [ofPriority, List.mem_filter, decide_eq_true_eq] at hmem
        exact hmem.2
      by_cases hp : p = 0
      · have hout : ∃ y ∈ (greedyFrom (Fits available spacing) taken (ofPriority columns p)).2 ++
            ps.flatMap (ofPriority columns), y.1.priority = 0 := by
          refine ⟨x, List.mem_append_left _ ?_, ?_⟩
          · simp [hx]
          · rw [hof x (by simp [hx]), hp]
        simp only [hout, if_true]
        simp [hp]
      · have hout : ¬ ∃ y ∈ (greedyFrom (Fits available spacing) taken (ofPriority columns p)).2 ++
            ps.flatMap (ofPriority columns), y.1.priority = 0 := by
          rintro ⟨y, hy, hzero⟩
          rcases List.mem_append.mp hy with hy | hy
          · exact hp ((hof y hy).symm.trans hzero)
          · simp only [ofPriority, List.mem_flatMap, List.mem_filter, decide_eq_true_eq] at hy
            obtain ⟨q, hq, -, hyq⟩ := hy
            exact hps q hq (hyq.symm.trans hzero)
        simp only [hout, if_false, hp]
        exact ⟨b, hb, rfl⟩

/-- The columns of priority 0. -/
def mandatory (columns : List Column) : List (Column × ℕ) := ofPriority columns 0

/-- The columns that the available width admits. -/
def admitted (columns : List Column) (available spacing : Word) : List (Column × ℕ) :=
  greedy (Fits available spacing) (inOrder columns)

theorem fits_of_isPrefix {p q : List (Column × ℕ)} (h : p <+: q) (hq : Fits available spacing q) :
    Fits available spacing p :=
  (sideBySide_mono h).trans hq

theorem fits_nil : Fits available spacing [] := by
  simp [Fits, sideBySide]

theorem admitted_longest {columns : List Column} {q : List (Column × ℕ)}
    (hq : q <+: inOrder columns) (hfits : Fits available spacing q) :
    q <+: admitted columns available spacing :=
  greedy_longest fits_of_isPrefix hq hfits

theorem inOrder_eq (columns : List Column) :
    inOrder columns = mandatory columns ++ [1, 2, 3].flatMap (ofPriority columns) := by
  simp [inOrder, mandatory]

/-- A column of priority 0 is left out when these columns do not fit together. -/
theorem leaves_mandatory_iff (columns : List Column) :
    (∃ x ∈ (greedyFrom (Fits available spacing) [] (inOrder columns)).2, x.1.priority = 0) ↔
      ¬ Fits available spacing (mandatory columns) := by
  have hpre : mandatory columns <+: inOrder columns := ⟨_, (inOrder_eq columns).symm⟩
  have hjoin : admitted columns available spacing ++
      (greedyFrom (Fits available spacing) [] (inOrder columns)).2 = inOrder columns :=
    greedyFrom_join _ [] (inOrder columns)
  constructor
  · rintro ⟨x, hx, hzero⟩ hfits
    obtain ⟨t, ht⟩ := admitted_longest hpre hfits
    rw [inOrder_eq, ← ht, List.append_assoc] at hjoin
    have hrest : x ∈ [1, 2, 3].flatMap (ofPriority columns) := by
      rw [← List.append_cancel_left hjoin]
      exact List.mem_append_right t hx
    simp [ofPriority, hzero] at hrest
  · intro hfits
    rcases List.prefix_or_prefix_of_prefix (⟨_, hjoin⟩ : _ <+: inOrder columns) hpre with h | h
    · obtain ⟨t, ht⟩ := h
      cases t with
      | nil =>
        rw [List.append_nil] at ht
        rw [← ht] at hfits
        exact absurd (greedy_fits _ fits_nil) hfits
      | cons x t =>
        rw [inOrder_eq, ← ht, List.append_assoc] at hjoin
        have hmem : x ∈ mandatory columns := by
          rw [← ht]
          simp
        simp only [mandatory, ofPriority, List.mem_filter, decide_eq_true_eq] at hmem
        refine ⟨x, ?_, hmem.2⟩
        rw [inOrder_eq, ← ht, List.append_assoc, List.append_cancel_left hjoin]
        simp
    · exact absurd (fits_of_isPrefix h (greedy_fits _ fits_nil)) hfits

/-- What the admission does, without an overflow. -/
theorem columnsFit_spec (available : Word) {columns : List Column} (hlen : columns.length ≤ 64)
    (hvalid : ∀ c ∈ columns, c.valid = true)
    (hword : ∀ q, q <+: inOrder columns → sideBySide spacing q < 2 ^ 64) :
    if Fits available spacing (mandatory columns) then
      ∃ b : Admission, b.Tells spacing (admitted columns available spacing) ∧
        columnsFit columns available spacing = .ok ⟨b.mask, b.width⟩
    else columnsFit columns available spacing = .error Status.limit := by
  cases columns with
  | nil =>
    simp [columnsFit, Fits, sideBySide, mandatory, ofPriority]
    refine ⟨.none, ?_, rfl, rfl⟩
    simpa [admitted, inOrder, ofPriority, greedy, greedyFrom] using tells_none spacing
  | cons c cs =>
    have hall : (c :: cs).all Column.valid = true := by
      rwa [List.all_eq_true]
    have hrun : columnsFit (c :: cs) available spacing =
        admitPriorities available spacing (c :: cs) .none [0, 1, 2, 3] := by
      simp only [columnsFit, not_lt.mpr hlen, if_false, hall, Bool.not_true, reduceCtorEq,
        Bool.false_eq_true]
    have hcount : (inOrder (c :: cs)).length = (c :: cs).length := by
      rw [(inOrder_perm hvalid).length_eq, List.length_zipIdx]
    have hspec := (tells_none spacing).admitPriorities available (c :: cs) [0, 1, 2, 3]
      (by simp)
      (fun x hx => by
        have := List.snd_lt_of_mem_zipIdx (mem_inOrder.mp hx).1
        omega)
      (by simpa [inOrder] using hcount.trans_le hlen)
      (by simpa [inOrder] using hword)
    rw [hrun]
    by_cases hfits : Fits available spacing (mandatory (c :: cs))
    · have hnone := mt (leaves_mandatory_iff (c :: cs)).mp (not_not.mpr hfits)
      simp only [hfits, if_true]
      exact (if_neg hnone).mp hspec
    · simp only [hfits, if_false]
      exact (if_pos ((leaves_mandatory_iff (c :: cs)).mpr hfits)).mp hspec

/-- A fit that is the longest prefix, in the order of admission, that the width takes. -/
structure ColumnFit.Admits (columns : List Column) (available spacing : Word) (fit : ColumnFit)
    (g : List (Column × ℕ)) : Prop where
  taken : g <+: inOrder columns
  longest : ∀ q, q <+: inOrder columns → sideBySide spacing q ≤ available.toNat → q <+: g
  mask : ∀ i, fit.mask.toNat.testBit i = true ↔ ∃ x ∈ g, x.2 = i
  width : fit.width.toNat = sideBySide spacing g
  bounded : fit.width ≤ available

theorem Admission.Tells.admits {columns : List Column} {b : Admission}
    (hb : b.Tells spacing (admitted columns available spacing)) :
    ColumnFit.Admits columns available spacing ⟨b.mask, b.width⟩
      (admitted columns available spacing) where
  taken := greedy_isPrefix (inOrder columns)
  longest _ hq hfits := admitted_longest hq hfits
  mask := hb.mask
  width := hb.width
  bounded := by
    rw [UInt64.le_iff_toNat_le, hb.width]
    have hfits : Fits available spacing (admitted columns available spacing) :=
      greedy_fits (inOrder columns) fits_nil
    exact hfits

/-- The columns that are admitted are the longest prefix, by priority and position, that fits
the width; they are an error only when the mandatory ones do not fit, and a larger width
admits no less. -/
theorem columnsFit_greedy {columns : List Column} (hlen : columns.length ≤ 64)
    (hvalid : ∀ c ∈ columns, c.valid = true) {spacing : Word}
    (hword : ∀ q, q <+: inOrder columns → sideBySide spacing q < 2 ^ 64) (available : Word) :
    ((inOrder columns).Perm columns.zipIdx ∧ (inOrder columns).Pairwise Before) ∧
    (if sideBySide spacing (mandatory columns) ≤ available.toNat then
      ∃ fit g, columnsFit columns available spacing = .ok fit ∧
        fit.Admits columns available spacing g
    else columnsFit columns available spacing = .error Status.limit) ∧
    ∀ available' fit, available ≤ available' → columnsFit columns available spacing = .ok fit →
      ∃ fit', columnsFit columns available' spacing = .ok fit' ∧
        ∀ i, fit.mask.toNat.testBit i = true → fit'.mask.toNat.testBit i = true := by
  have hspec := columnsFit_spec available hlen hvalid hword
  refine ⟨⟨inOrder_perm hvalid, pairwise_inOrder columns⟩, ?_, ?_⟩
  · split_ifs with hfits
    · obtain ⟨b, hb, hrun⟩ := (if_pos hfits).mp hspec
      exact ⟨_, _, hrun, hb.admits⟩
    · exact (if_neg hfits).mp hspec
  · intro available' fit hle hok
    have hmore : ∀ {q : List (Column × ℕ)}, Fits available spacing q →
        Fits available' spacing q := by
      intro q hq
      exact hq.trans (UInt64.le_iff_toNat_le.mp hle)
    -- the mandatory columns fit the smaller width, so they fit the larger one
    by_cases hfits : Fits available spacing (mandatory columns)
    · obtain ⟨b, hb, hrun⟩ := (if_pos hfits).mp hspec
      have hspec' := columnsFit_spec available' hlen hvalid hword
      obtain ⟨b', hb', hrun'⟩ := (if_pos (hmore hfits)).mp hspec'
      have hfit : ⟨b.mask, b.width⟩ = fit := Except.ok.inj (hrun.symm.trans hok)
      refine ⟨_, hrun', ?_⟩
      intro i hi
      rw [← hfit] at hi
      obtain ⟨x, hx, hxi⟩ := (hb.mask i).mp hi
      have hlonger : admitted columns available spacing <+: admitted columns available' spacing :=
        greedy_mono fits_of_isPrefix hmore (inOrder columns) fits_nil
      exact (hb'.mask i).mpr ⟨x, hlonger.subset hx, hxi⟩
    · rw [(if_neg hfits).mp hspec] at hok
      cases hok

/-- A column of a lower priority that would still fit does not take the place of one that
does not. -/
theorem columnsFit_greedy_stops :
    columnsFit [⟨0, 4, 4⟩, ⟨2, 3, 3⟩, ⟨1, 9, 9⟩] 12 1 = .ok ⟨1, 4⟩ ∧
      ∃ fit, columnsFit [⟨0, 4, 4⟩, ⟨2, 3, 3⟩, ⟨1, 9, 9⟩] 14 1 = .ok fit ∧
        ∀ i, (1 : Word).toNat.testBit i = true → fit.mask.toNat.testBit i = true := by
  refine ⟨by decide, ?_⟩
  have hword : ∀ q, q <+: inOrder [⟨0, 4, 4⟩, ⟨2, 3, 3⟩, ⟨1, 9, 9⟩] →
      sideBySide 1 q < 2 ^ 64 := by
    intro q hq
    apply lt_of_le_of_lt (sideBySide_mono hq)
    decide
  exact (columnsFit_greedy (by decide) (by decide) hword 12).2.2 14 ⟨1, 4⟩ (by decide) (by decide)

end AsmFlow.Tui
