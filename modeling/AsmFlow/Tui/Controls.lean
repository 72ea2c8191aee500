import AsmFlow.Json.WellFormed
import AsmFlow.Tui.TableOutput

/-!
# What a table may carry

The bytes a terminal takes for controls, and the shape of a table: a header and rows,
each with the tabs of the header.
-/

namespace AsmFlow.Tui

open Http Json Library Library.Json

/-! ## Controls -/

/-- `U+0080` to `U+009F`. -/
def IsC1 (c : Char) : Prop := 0x80 ≤ c.val.toNat ∧ c.val.toNat ≤ 0x9F

instance (c : Char) : Decidable (IsC1 c) := inferInstanceAs (Decidable (_ ∧ _))

/-- A C1 control stands in the text, in UTF-8. -/
def carriesC1 : Bytes → Bool
  | [] => false
  | a :: t =>
    (a == 0xC2 && (t.head?.any fun b => decide (0x80 ≤ b ∧ b ≤ 0x9F))) || carriesC1 t

section C1

theorem carriesC1_append_of_notMem {p : Bytes} (h : (0xC2 : UInt8) ∉ p) (t : Bytes) :
    carriesC1 (p ++ t) = carriesC1 t := by
  induction p with
  | nil => rfl
  | cons a p ih =>
    rw [List.mem_cons, not_or] at h
    have ha : (a == 0xC2) = false := beq_eq_false_iff_ne.mpr (Ne.symm h.1)
    rw [List.cons_append, carriesC1, ih h.2, ha, Bool.false_and, Bool.false_or]

theorem c2_of_two {c : Char} (hlow : 0x80 ≤ c.val.toNat) (hhigh : c.val.toNat < 0x800)
    {a b : UInt8} (h : String.utf8EncodeChar c = [a, b]) :
    (a = 0xC2 ∧ 0x80 ≤ b ∧ b ≤ 0x9F) ↔ IsC1 c := by
  have hbytes := utf8EncodeChar_toNat c
  rw [h, if_neg (by omega), if_pos hhigh] at hbytes
  simp only [List.map_cons, List.map_nil, List.cons.injEq, and_true] at hbytes
  rw [← UInt8.toNat_inj, UInt8.le_iff_toNat_le, UInt8.le_iff_toNat_le, hbytes.1, hbytes.2]
  simp only [UInt8.reduceToNat, IsC1]
  omega

theorem carriesC1_char (c : Char) (t : Bytes) :
    carriesC1 (String.utf8EncodeChar c ++ t) = (decide (IsC1 c) || carriesC1 t) := by
  have hbytes := utf8EncodeChar_toNat c
  have hother (hc : ¬ IsC1 c) (hmem : (0xC2 : UInt8) ∉ String.utf8EncodeChar c) :
      carriesC1 (String.utf8EncodeChar c ++ t) = (decide (IsC1 c) || carriesC1 t) := by
    rw [carriesC1_append_of_notMem hmem, decide_eq_false hc, Bool.false_or]
  have hnot (hbyte : (0xC2 : UInt8) ∈ String.utf8EncodeChar c) :
      194 ∈ (String.utf8EncodeChar c).map UInt8.toNat := List.mem_map.mpr ⟨0xC2, hbyte, rfl⟩
  by_cases htwo : 0x80 ≤ c.val.toNat ∧ c.val.toNat < 0x800
  · rw [if_neg (by omega), if_pos htwo.2] at hbytes
    obtain ⟨a, b, hshape⟩ : ∃ a b, String.utf8EncodeChar c = [a, b] := by
      rw [← List.length_eq_two, ← List.length_map UInt8.toNat, hbytes]
      rfl
    have hb : b ≠ 0xC2 := by
      rintro rfl
      rw [hshape] at hbytes
      have hlast := (List.cons.inj (List.cons.inj hbytes).2).1
      have h194 : (0xC2 : UInt8).toNat = 194 := rfl
      omega
    have htail : carriesC1 (b :: t) = carriesC1 t :=
      carriesC1_append_of_notMem (p := [b]) (by simpa using Ne.symm hb) t
    have hiff := c2_of_two htwo.1 htwo.2 hshape
    rw [hshape, List.cons_append, List.singleton_append, carriesC1, htail, List.head?_cons,
      Option.any_some]
    congr 1
    rw [Bool.eq_iff_iff]
    simpa using hiff
  · refine hother (fun hc => htwo ⟨hc.1, by have := hc.2; omega⟩) fun hmem => ?_
    have h194 := hnot hmem
    rw [hbytes] at h194
    split_ifs at h194 <;> simp only [List.mem_cons, List.not_mem_nil, or_false] at h194 <;> omega

/-- In a text, a C1 control is a character. -/
theorem carriesC1_utf8Text (cs : List Char) :
    carriesC1 (utf8Text cs) = true ↔ ∃ c ∈ cs, IsC1 c := by
  induction cs with
  | nil => simp [utf8Text, carriesC1]
  | cons c cs ih =>
    rw [utf8Text, List.flatMap_cons, carriesC1_char, Bool.or_eq_true, decide_eq_true_iff,
      List.exists_mem_cons_iff]
    exact or_congr_right ih

end C1

/-! ## Tables -/

/-- A header and this many rows below it, each of them a line with so many tabs. -/
structure Grid (rows tabs : ℕ) (out : Bytes) : Prop where
  lfs : out.count lf = rows + 1
  grid : ∃ header body, lines lf out = (header :: body, []) ∧ body.length = rows ∧
    header.count tab = tabs ∧ ∀ row ∈ body, row.count tab = tabs

/-- What a terminal may be given: the tabs and line feeds that lay the table out, and no
other control. -/
structure Tame (rows tabs : ℕ) (out : Bytes) : Prop where
  c0 : ∀ b ∈ out, b < 0x20 → b = tab ∨ b = lf
  del : (0x7F : UInt8) ∉ out
  c1 : carriesC1 out = false
  grid : Grid rows tabs out

/-- A character of a row: printable, or the tab between two cells. -/
def RowChar (c : Char) : Prop :=
  c.val.toNat = 9 ∨ 0x20 ≤ c.val.toNat ∧ c.val.toNat ≠ 0x7F

/-- Some of these strings has a C1 control. -/
def Speaks (texts : List String) : Prop := ∃ s ∈ texts, ∃ c ∈ s.toList, IsC1 c

@[simp] theorem speaks_nil : ¬ Speaks [] := by simp [Speaks]

theorem speaks_append (xs ys : List String) : Speaks (xs ++ ys) ↔ Speaks xs ∨ Speaks ys := by
  simp only [Speaks, List.mem_append, or_and_right, exists_or]

/-- Appends that are part of a row: so many tabs, and the C1 controls of the texts. -/
def Shows (ps : List Bytes) (tabs : ℕ) (texts : List String) : Prop :=
  ∃ cs : List Char, ps.flatten = utf8Text cs ∧ (∀ c ∈ cs, RowChar c) ∧ cs.count '\t' = tabs ∧
    ((∃ c ∈ cs, IsC1 c) ↔ Speaks texts)

section Shows

variable {ps qs : List Bytes} {m n : ℕ} {xs ys : List String}

theorem shows_nil : Shows [] 0 [] := ⟨[], rfl, by simp, rfl, by simp⟩

theorem Shows.append (hp : Shows ps m xs) (hq : Shows qs n ys) :
    Shows (ps ++ qs) (m + n) (xs ++ ys) := by
  obtain ⟨cs, hcs, hrow, hcount, hspeaks⟩ := hp
  obtain ⟨ds, hds, hrow', hcount', hspeaks'⟩ := hq
  refine ⟨cs ++ ds, ?_, ?_, ?_, ?_⟩
  · rw [List.flatten_append, hcs, hds, utf8Text, utf8Text, utf8Text, List.flatMap_append]
  · intro c hc
    rcases List.mem_append.mp hc with hc | hc
    · exact hrow c hc
    · exact hrow' c hc
  · rw [List.count_append, hcount, hcount']
  · rw [speaks_append, ← hspeaks, ← hspeaks']
    simp only [List.mem_append, or_and_right, exists_or]

/-- The character of an ASCII byte. -/
theorem ascii_char_of_lt {b : UInt8} (h : b.toNat < 0x80) :
    ∃ c : Char, c.val.toNat = b.toNat ∧ String.utf8EncodeChar c = [b] := by
  obtain ⟨c, hc, hbytes⟩ := exists_char_of_bytes (p := [b]) (v := b.toNat) (Or.inl (by omega))
    (by rw [if_pos h]; rfl)
  exact ⟨c, hc, hbytes.symm⟩

/-- Printable ASCII and tabs: text of the renderer's own. -/
theorem shows_own {p : Bytes} (h : ∀ b ∈ p, b = tab ∨ 0x20 ≤ b ∧ b < 0x7F) :
    Shows [p] (p.count tab) [] := by
  induction p with
  | nil => exact ⟨[], rfl, by simp, rfl, by simp⟩
  | cons b p ih =>
    rw [List.forall_mem_cons] at h
    have hbyte : b.toNat = 9 ∨ 0x20 ≤ b.toNat ∧ b.toNat < 0x7F := by
      rcases h.1 with rfl | ⟨hlow, hhigh⟩
      · exact Or.inl rfl
      · exact Or.inr ⟨UInt8.le_iff_toNat_le.mp hlow, UInt8.lt_iff_toNat_lt.mp hhigh⟩
    obtain ⟨c, hc, henc⟩ := ascii_char_of_lt (b := b) (by omega)
    obtain ⟨cs, hcs, hrow, hcount, hspeaks⟩ := ih h.2
    have htab : (b == tab) = (c == '\t') := by
      rw [Bool.eq_iff_iff, beq_iff_eq, beq_iff_eq, ← UInt8.toNat_inj, ← hc, ← Char.val_inj,
        ← UInt32.toNat_inj]
      exact Iff.rfl
    refine ⟨c :: cs, ?_, ?_, ?_, ?_⟩
    · rw [List.flatten_singleton] at hcs ⊢
      rw [hcs, utf8Text, utf8Text, List.flatMap_cons, henc]
      rfl
    · refine List.forall_mem_cons.mpr ⟨?_, hrow⟩
      rw [RowChar, hc]
      omega
    · rw [List.count_cons, List.count_cons, hcount, htab]
    · rw [← hspeaks, List.exists_mem_cons_iff, or_iff_right]
      rintro ⟨hlow, -⟩
      omega

/-- Printable bytes, without tabs. -/
theorem shows_printable {p : Bytes} (h : ∀ b ∈ p, 0x20 ≤ b ∧ b < 0x7F) : Shows [p] 0 [] := by
  have hnone : p.count tab = 0 := by
    rw [List.count_eq_zero]
    intro hmem
    exact absurd (h tab hmem).1 (by decide)
  rw [← hnone]
  exact shows_own fun b hb => Or.inr (h b hb)

theorem shows_literal {p : Bytes} (h : p.all (fun b => 0x20 ≤ b && b < 0x7F) = true) :
    Shows [p] 0 [] :=
  shows_printable (by simpa using h)

theorem shows_dash : Shows dash 0 [] := shows_literal (by decide)

theorem printable_hexDigit {n : UInt8} (h : n < 16) :
    0x20 ≤ Json.hexDigit n ∧ Json.hexDigit n < 0x7F := by
  have hbetween {a z x : UInt8} (ha : 0x20 ≤ a) (hz : z < 0x7F) (hx : a ≤ x ∧ x ≤ z) :
      0x20 ≤ x ∧ x < 0x7F := ⟨UInt8.le_trans ha hx.1, UInt8.lt_of_le_of_lt hx.2 hz⟩
  rcases isHex_hexDigit h with hx | hx | hx
  · exact hbetween (a := 0x30) (z := 0x39) (by decide) (by decide) hx
  · exact hbetween (a := 0x61) (z := 0x66) (by decide) (by decide) hx
  · exact hbetween (a := 0x41) (z := 0x46) (by decide) (by decide) hx

/-- An escaped ASCII byte is printable. -/
theorem escapeByte_ascii {b : UInt8} (h : b.toNat < 0x80) :
    ∀ x ∈ escapeByte b, 0x20 ≤ x ∧ x < 0x7F := by
  unfold escapeByte
  split_ifs with _ _ _ _ hlow
  · decide +kernel
  · decide +kernel
  · decide +kernel
  · decide +kernel
  · simp only [List.forall_mem_cons]
    exact ⟨by decide, by decide, printable_hexDigit (and_15_lt _), printable_hexDigit (and_15_lt _),
      List.forall_mem_nil _⟩
  · rw [not_or] at hlow
    rw [List.forall_mem_singleton]
    refine ⟨UInt8.not_lt.mp hlow.1, UInt8.lt_iff_toNat_lt.mpr ?_⟩
    have hne : b.toNat ≠ 127 := fun heq => hlow.2 (UInt8.toNat_inj.mp heq)
    show b.toNat < 127
    omega

theorem escapeByte_high {b : UInt8} (h : 0x80 ≤ b.toNat) : escapeByte b = [b] := by
  have hne (x : UInt8) (hx : x.toNat < 0x80) : b ≠ x := by
    rintro rfl
    omega
  have hlow : ¬ (b < 0x20 ∨ b = 0x7F) := by
    rw [UInt8.lt_iff_toNat_lt]
    rintro (hlt | rfl)
    · have h32 : (0x20 : UInt8).toNat = 32 := rfl
      omega
    · exact absurd h (by decide)
  rw [escapeByte, if_neg (hne 10 (by decide)), if_neg (hne 13 (by decide)),
    if_neg (hne 9 (by decide)), if_neg (hne 0x5C (by decide)), if_neg hlow]

theorem escape_high {p : Bytes} (h : ∀ b ∈ p, 0x80 ≤ b.toNat) : (escape p).flatten = p := by
  induction p with
  | nil => rfl
  | cons b p ih =>
    rw [List.forall_mem_cons] at h
    rw [escape, List.map_cons, List.flatten_cons, escapeByte_high h.1, ← escape, ih h.2]
    rfl

/-- What `af_tbl_escape` makes of a character: a C1 control stays one. -/
theorem shows_escapeChar (c : Char) :
    Shows (escape (String.utf8EncodeChar c)) 0 [String.ofList [c]] := by
  have hspeaks : Speaks [String.ofList [c]] ↔ IsC1 c := by simp [Speaks]
  by_cases hlow : c.val.toNat < 0x80
  · obtain ⟨b, hb⟩ : ∃ b, String.utf8EncodeChar c = [b] := by
      rw [← List.length_eq_one_iff, ← List.length_map UInt8.toNat, utf8EncodeChar_toNat,
        if_pos hlow]
      rfl
    have hval : b.toNat = c.val.toNat := by
      have hbytes := utf8EncodeChar_toNat c
      rw [hb, if_pos hlow] at hbytes
      exact (List.cons.inj hbytes).1
    obtain ⟨cs, hcs, hrow, hcount, hnone⟩ :=
      shows_printable (escapeByte_ascii (b := b) (by omega))
    refine ⟨cs, by rw [hb]; exact hcs, hrow, hcount, hnone.trans ?_⟩
    rw [hspeaks, iff_false_left speaks_nil]
    rintro ⟨hhigh, -⟩
    omega
  · have hbytes : ∀ b ∈ String.utf8EncodeChar c, 0x80 ≤ b.toNat := by
      intro b hb
      have := mem_utf8EncodeChar hb
      omega
    refine ⟨[c], ?_, ?_, ?_, ?_⟩
    · rw [escape_high hbytes]
      exact (List.append_nil _).symm
    · rw [List.forall_mem_singleton, RowChar]
      omega
    · rw [List.count_eq_zero, List.mem_singleton]
      rintro rfl
      exact hlow (by decide)
    · rw [hspeaks]
      simp

theorem shows_escape (cs : List Char) : Shows (escape (utf8Text cs)) 0 [String.ofList cs] := by
  induction cs with
  | nil => exact ⟨[], rfl, by simp, rfl, by simp [Speaks]⟩
  | cons c cs ih =>
    obtain ⟨ds, hds, hrow, hcount, hspeaks⟩ := (shows_escapeChar c).append ih
    refine ⟨ds, ?_, hrow, hcount, hspeaks.trans ?_⟩
    · rw [← hds, utf8Text, List.flatMap_cons, escape, List.map_append, escape, escape, utf8Text]
    · simp [Speaks]

end Shows

/-! ## Cells -/

section Cells

variable (v : Mcp.Json) (key : String)

/-- The strings a row shows of these members. -/
def shown (v : Mcp.Json) (keys : List String) : List String :=
  keys.flatMap fun key => (v.getString key).toList

theorem shows_memberString : Shows (memberString v key) 0 (shown v [key]) := by
  rw [memberString, shown, List.flatMap_singleton]
  cases v.getString key with
  | none => exact shows_dash
  | some s =>
    have hs := shows_escape s.toList
    rwa [String.ofList_toList] at hs

theorem shows_decimal (n : ℕ) : Shows [decimal n] 0 [] := by
  apply shows_printable
  intro b hb
  have hdigit := (whole_decimal n).1.2 b hb
  rw [IsDigit, UInt8.le_iff_toNat_le, UInt8.le_iff_toNat_le] at hdigit
  rw [UInt8.le_iff_toNat_le, UInt8.lt_iff_toNat_lt]
  exact ⟨le_trans (by decide) hdigit.1, lt_of_le_of_lt hdigit.2 (by decide)⟩

theorem shows_memberInt : Shows (memberInt v key) 0 [] := by
  rw [memberInt]
  cases v.getInteger key with
  | none => exact shows_dash
  | some n =>
    dsimp only
    unfold appendI64
    split_ifs
    · exact (shows_literal (p := ascii "-") (by decide)).append (shows_decimal _)
    · exact shows_decimal _

theorem shows_memberBool : Shows (memberBool v key) 0 [] := by
  rw [memberBool]
  cases v.getBool key with
  | none => exact shows_dash
  | some b => cases b <;> exact shows_literal (by decide)

theorem shows_memberArrayCount : Shows (memberArrayCount v key) 0 [] := by
  rw [memberArrayCount]
  cases v.getArray key with
  | none => exact shows_dash
  | some xs => exact shows_decimal _

/-- The point and the digits of a latency. -/
theorem shows_fraction {rest : ℕ} (h : rest < 1000) : Shows [fraction rest] 0 [] := by
  apply shows_printable
  intro b hb
  have hmem := (List.rdropWhile_prefix _ _).subset hb
  have hdigit (d : ℕ) (hd : d < 10) :
      0x20 ≤ UInt8.ofNat (48 + d) ∧ UInt8.ofNat (48 + d) < 0x7F := by
    interval_cases d <;> decide
  simp only [List.map_cons, List.map_nil, List.mem_cons, List.not_mem_nil, or_false] at hmem
  rcases hmem with rfl | rfl | rfl
  · exact hdigit _ (by omega)
  · exact hdigit _ (by omega)
  · exact hdigit _ (by omega)

theorem shows_latency : Shows (providerLatency v) 0 [] := by
  have hms : Shows [ascii " ms"] 0 [] := shows_literal (by decide)
  rw [providerLatency]
  cases v.getInteger "observed_latency_us" with
  | none => exact shows_dash
  | some us =>
    dsimp only
    split_ifs
    · exact shows_dash
    · exact (shows_decimal _).append hms
    · have hpoint : Shows [ascii "."] 0 [] := shows_literal (by decide)
      have hrest : us.toNat % 1000 < 1000 := Nat.mod_lt _ (by decide)
      exact (shows_decimal _).append (hpoint.append ((shows_fraction hrest).append hms))

theorem shows_status (health : HealthCode) (off : Bool) :
    Shows (providerStatus health off) 0 [] := by
  cases off with
  | true => exact shows_literal (by decide)
  | false => cases health <;> exact shows_literal (by decide)

/-- The strings that the last column of a provider shows: a health no code is known for. -/
def circuitTexts (provider : Mcp.Json) (health : HealthCode) (off : Bool) : List String :=
  if off then [] else if health = .unknown then shown provider ["health"] else []

theorem shows_circuit (health : HealthCode) (off : Bool) :
    Shows (providerCircuit v health off) 0 (circuitTexts v health off) := by
  cases off with
  | true => exact shows_literal (by decide)
  | false =>
    cases health with
    | unknown => exact shows_memberString v "health"
    | healthy => exact shows_literal (by decide)
    | degraded => exact shows_literal (by decide)
    | circuitOpen => exact shows_literal (by decide)
    | halfOpen => exact shows_literal (by decide)
    | disabled => exact shows_literal (by decide)

theorem shows_spaces (n : ℕ) : Shows (List.replicate n [0x20]) 0 [] := by
  induction n with
  | zero => exact shows_nil
  | succ n ih => exact (shows_literal (p := [0x20]) (by decide)).append ih

theorem Shows.atColumn {row cell : List Bytes} {xs ys : List String} (hrow : Shows row 0 xs)
    (column : ℕ) (hcell : Shows cell 0 ys) : Shows (atColumn row column cell) 0 (xs ++ ys) := by
  have hpad : Shows (padColumn row column) 0 [] := by
    unfold padColumn
    split_ifs
    · exact shows_nil
    · exact shows_spaces 1
    · exact shows_spaces _
  have hall := (hrow.append hpad).append hcell
  rwa [List.append_nil] at hall

/-- The strings that a provider row shows. -/
def providerTexts (p : Mcp.Json) : List String :=
  shown p ["display_name", "adapter"] ++ circuitTexts p (rowHealth p) (providerOff p)

theorem shows_providerCells : Shows (providerCells v) 0 (providerTexts v) := by
  have hslash : Shows [ascii "/"] 0 [] := shows_literal (by decide)
  have hload := ((shows_memberInt v "active_requests").append hslash).append
    (shows_memberInt v "max_concurrency")
  have hrow := ((((shows_status (rowHealth v) (providerOff v)).atColumn 7
    (shows_memberString v "display_name")).atColumn 23
    (shows_memberString v "adapter")).atColumn 41 hload).atColumn 52 (shows_latency v)
  have hall := hrow.atColumn 61 (shows_circuit v (rowHealth v) (providerOff v))
  have htexts : [] ++ shown v ["display_name"] ++ shown v ["adapter"] ++ ([] ++ [] ++ []) ++ [] ++
      circuitTexts v (rowHealth v) (providerOff v) = providerTexts v := by
    simp [providerTexts, shown, List.flatMap_cons]
  rwa [htexts] at hall

end Cells

/-! ## Rows -/

/-- A row with its line feed. -/
def RowShows (row : List Bytes) (tabs : ℕ) (texts : List String) : Prop :=
  ∃ ps, row.flatten = ps.flatten ++ [lf] ∧ Shows ps tabs texts

/-- Rows, each of them a line of text. -/
def RowsShow (rows : List (List Bytes)) (tabs : ℕ) (texts : List String) : Prop :=
  ∃ body : List (List Char),
    rows.flatten.flatten = (body.map fun cs => utf8Text cs ++ [lf]).flatten ∧
    body.length = rows.length ∧ (∀ cs ∈ body, (∀ c ∈ cs, RowChar c) ∧ cs.count '\t' = tabs) ∧
    ((∃ cs ∈ body, ∃ c ∈ cs, IsC1 c) ↔ Speaks texts)

section Rows

variable {ps : List Bytes} {n : ℕ} {xs ys : List String}

theorem Shows.row (h : Shows ps n xs) : RowShows (ps ++ [[lf]]) n xs := ⟨ps, by simp, h⟩

theorem shows_tab : Shows [[tab]] 1 [] :=
  shows_own (p := [tab]) fun _ hb => Or.inl (List.mem_singleton.mp hb)

/-- A cell, a tab, and the rest of a row. -/
theorem Shows.tabbed {cell row : List Bytes} (hcell : Shows cell 0 xs) (hrow : RowShows row n ys) :
    RowShows (cell ++ [tab] :: row) (n + 1) (xs ++ ys) := by
  obtain ⟨ps, heq, hps⟩ := hrow
  have hall := hcell.append (shows_tab.append hps)
  rw [Nat.zero_add, Nat.add_comm] at hall
  exact ⟨cell ++ ([[tab]] ++ ps), by simp [heq], hall⟩

theorem shows_fieldRow (label : String) {value : List Bytes}
    (hlabel : (ascii label).all (fun b => 0x20 ≤ b && b < 0x7F) = true) (hvalue : Shows value 0 xs) :
    RowShows (fieldRow label value) 1 xs :=
  ⟨([ascii label] ++ [[tab]]) ++ value, by simp [fieldRow],
    ((shows_literal hlabel).append shows_tab).append hvalue⟩

theorem rowsShow_nil : RowsShow [] n [] := ⟨[], rfl, rfl, by simp, by simp⟩

theorem RowsShow.cons {row : List Bytes} {rows : List (List Bytes)} (hrow : RowShows row n xs)
    (hrows : RowsShow rows n ys) : RowsShow (row :: rows) n (xs ++ ys) := by
  obtain ⟨ps, heq, cs, hcs, hchars, hcount, hspeaks⟩ := hrow
  obtain ⟨body, hbody, hlength, hall, hspeaks'⟩ := hrows
  refine ⟨cs :: body, ?_, ?_, ?_, ?_⟩
  · rw [List.flatten_cons, List.flatten_append, heq, hcs, hbody]
    rfl
  · rw [List.length_cons, List.length_cons, hlength]
  · exact List.forall_mem_cons.mpr ⟨⟨hchars, hcount⟩, hall⟩
  · rw [List.exists_mem_cons_iff, hspeaks, hspeaks', speaks_append]

theorem RowsShow.append {rows more : List (List Bytes)} (hrows : RowsShow rows n xs)
    (hmore : RowsShow more n ys) : RowsShow (rows ++ more) n (xs ++ ys) := by
  obtain ⟨body, hbody, hlength, hall, hspeaks⟩ := hrows
  obtain ⟨body', hbody', hlength', hall', hspeaks'⟩ := hmore
  refine ⟨body ++ body', ?_, ?_, ?_, ?_⟩
  · simp only [List.flatten_append, List.map_append, hbody, hbody']
  · rw [List.length_append, List.length_append, hlength, hlength']
  · exact List.forall_mem_append.mpr ⟨hall, hall'⟩
  · rw [speaks_append, ← hspeaks, ← hspeaks']
    simp only [List.mem_append, or_and_right, exists_or]

/-- One row for each element of a list. -/
theorem rowsShow_map {α : Type} (row : α → List Bytes) (texts : α → List String)
    (h : ∀ a, RowShows (row a) n (texts a)) (items : List α) :
    RowsShow (items.map row) n (items.flatMap texts) := by
  induction items with
  | nil => exact rowsShow_nil
  | cons a items ih => exact RowsShow.cons (h a) ih

theorem count_tab_utf8Text (cs : List Char) : (utf8Text cs).count tab = cs.count '\t' := by
  induction cs with
  | nil => rfl
  | cons c cs ih =>
    have hchar : (String.utf8EncodeChar c).count tab = if c = '\t' then 1 else 0 := by
      split_ifs with hc
      · rw [hc]
        decide
      · rw [List.count_eq_zero]
        intro hmem
        exact ascii_char hmem '\t' (by decide) hc rfl
    rw [utf8Text, List.flatMap_cons, List.count_append, hchar, ← utf8Text, ih, List.count_cons,
      Nat.add_comm]
    simp only [beq_iff_eq]

/-- The bytes of a line: printable, tabs, or parts of longer characters. -/
theorem rowChar_bytes {cs : List Char} (h : ∀ c ∈ cs, RowChar c) :
    ∀ b ∈ utf8Text cs, b.toNat = 9 ∨ 0x20 ≤ b.toNat ∧ b.toNat ≠ 0x7F := by
  intro b hb
  obtain ⟨c, hc, hbyte⟩ := List.mem_flatMap.mp hb
  have hchar := h c hc
  rw [RowChar] at hchar
  have := mem_utf8EncodeChar hbyte
  omega

/-- The bytes of lines of text. -/
def textLines (body : List (List Char)) : Bytes := (body.map fun cs => utf8Text cs ++ [lf]).flatten

theorem textLines_cons (cs : List Char) (body : List (List Char)) :
    textLines (cs :: body) = utf8Text cs ++ (lf :: textLines body) := by
  simp [textLines]

theorem carriesC1_textLines (body : List (List Char)) :
    carriesC1 (textLines body) = true ↔ ∃ cs ∈ body, ∃ c ∈ cs, IsC1 c := by
  have htext : textLines body = utf8Text (body.flatMap (· ++ ['\n'])) := by
    induction body with
    | nil => rfl
    | cons cs body ih =>
      rw [textLines_cons, ih, List.flatMap_cons, utf8Text, utf8Text, utf8Text,
        List.flatMap_append, List.flatMap_append, List.append_assoc]
      rfl
  have hlf : ¬ IsC1 '\n' := by decide
  rw [htext, carriesC1_utf8Text]
  constructor
  · rintro ⟨c, hc, hc1⟩
    obtain ⟨cs, hcs, hmem⟩ := List.mem_flatMap.mp hc
    rcases List.mem_append.mp hmem with hmem | hmem
    · exact ⟨cs, hcs, c, hmem, hc1⟩
    · exact absurd (List.mem_singleton.mp hmem ▸ hc1) hlf
  · rintro ⟨cs, hcs, c, hc, hc1⟩
    exact ⟨c, List.mem_flatMap.mpr ⟨cs, hcs, List.mem_append_left _ hc⟩, hc1⟩

/-- Lines of text are a grid. -/
theorem grid_textLines {head : List Char} {body : List (List Char)}
    (h : ∀ cs ∈ head :: body, (∀ c ∈ cs, RowChar c) ∧ cs.count '\t' = n) :
    Grid body.length n (textLines (head :: body)) := by
  have hlf : ∀ cs ∈ head :: body, lf ∉ utf8Text cs := by
    intro cs hcs hmem
    have hten := rowChar_bytes (h cs hcs).1 lf hmem
    have h10 : lf.toNat = 10 := rfl
    omega
  have hcount (more : List (List Char)) (hmore : ∀ cs ∈ more, lf ∉ utf8Text cs) :
      (textLines more).count lf = more.length := by
    induction more with
    | nil => rfl
    | cons cs more ih =>
      rw [List.forall_mem_cons] at hmore
      rw [textLines_cons, List.count_append, List.count_eq_zero_of_not_mem hmore.1,
        List.count_cons_self, ih hmore.2, List.length_cons, Nat.zero_add]
  refine ⟨by rw [hcount _ hlf, List.length_cons], utf8Text head, body.map utf8Text, ?_,
    List.length_map _, ?_, ?_⟩
  · have hlines := @lines_of_flatten UInt8 _ lf ((head :: body).map utf8Text) []
      (by simpa using hlf) List.not_mem_nil
    rw [List.append_nil, List.map_map] at hlines
    exact hlines
  · rw [count_tab_utf8Text]
    exact (h head List.mem_cons_self).2
  · intro row hrow
    obtain ⟨cs, hcs, rfl⟩ := List.mem_map.mp hrow
    rw [count_tab_utf8Text]
    exact (h cs (List.mem_cons_of_mem _ hcs)).2

/-- Rows make a grid, and carry a C1 control if a text does. -/
theorem tame_of_rowsShow {rows : List (List Bytes)} {row : List Bytes}
    (h : RowsShow (row :: rows) n xs) :
    Grid rows.length n (row :: rows).flatten.flatten ∧
      (Tame rows.length n (row :: rows).flatten.flatten ↔ ¬ Speaks xs) := by
  obtain ⟨body, hout, hlength, hall, hspeaks⟩ := h
  obtain ⟨head, body, rfl⟩ : ∃ head rest, body = head :: rest := by
    cases body with
    | nil => exact absurd hlength (by simp)
    | cons head rest => exact ⟨head, rest, rfl⟩
  have hbytes : ∀ b ∈ textLines (head :: body),
      b = lf ∨ b.toNat = 9 ∨ 0x20 ≤ b.toNat ∧ b.toNat ≠ 0x7F := by
    intro b hb
    obtain ⟨line, hline, hmem⟩ := List.mem_flatten.mp hb
    obtain ⟨cs, hcs, rfl⟩ := List.mem_map.mp hline
    rcases List.mem_append.mp hmem with hmem | hmem
    · exact Or.inr (rowChar_bytes (hall cs hcs).1 b hmem)
    · exact Or.inl (List.mem_singleton.mp hmem)
  have hgrid := grid_textLines hall
  have hrows : rows.length = body.length := by simpa using hlength.symm
  rw [← textLines] at hout
  rw [hout, hrows]
  refine ⟨hgrid, ?_⟩
  rw [← hspeaks, ← carriesC1_textLines, Bool.not_eq_true]
  constructor
  · intro htame
    exact htame.c1
  · intro hc1
    refine ⟨?_, ?_, hc1, hgrid⟩
    · intro b hb hlow
      rw [UInt8.lt_iff_toNat_lt] at hlow
      have h32 : (0x20 : UInt8).toNat = 32 := rfl
      rcases hbytes b hb with rfl | htab | ⟨hprint, -⟩
      · exact Or.inr rfl
      · exact Or.inl (UInt8.toNat_inj.mp htab)
      · omega
    · intro hdel
      rcases hbytes 0x7F hdel with h | h | ⟨-, h⟩
      · exact absurd h (by decide)
      · exact absurd h (by decide)
      · exact h rfl

end Rows

/-! ## Sheets -/

namespace Sheet

/-- The tabs of the header, and of every row. -/
def tabs : Sheet → ℕ
  | version _ | snapshot _ => 1
  | providers _ => 0
  | routes _ => 4
  | mcp _ => 8
  | error _ => 3
  | generic => 0

/-- The strings of the response that a table shows. -/
def texts : Sheet → List String
  | version r => shown r ["version", "target", "build"]
  | snapshot r => shown r ["database"]
  | providers items => items.flatMap providerTexts
  | routes items => items.flatMap fun r => shown r ["model_alias", "policy"]
  | mcp items =>
    items.flatMap fun m =>
      shown m ["state", "id", "display_name", "transport", "era", "protocol_version"]
  | error e => shown e ["code", "message", "field"]
  | generic => []

/-- The elements or fields of a table. -/
def elements : Sheet → ℕ
  | version _ => 4
  | snapshot r => if (r.getObject "counts").isSome then 10 else 6
  | providers items | routes items | mcp items => items.length
  | error _ => 1
  | generic => 0

/-- Nothing in the response is a control that the sheet would write. -/
def Quiet (frame : Bytes) : Sheet → Prop
  | generic => (∀ b ∈ frame, 0x20 ≤ b ∧ b ≠ 0x7F) ∧ carriesC1 frame = false
  | s => ¬ Speaks s.texts

/-- A header is a line of printable bytes and tabs. -/
theorem rowShows_header (s : Sheet) (h : s ≠ generic) : RowShows [s.header] s.tabs [] := by
  have hline (line : Bytes) (n : ℕ) (hline : line = line.dropLast ++ [lf] ∧
      line.dropLast.all (fun b => b == tab || 0x20 ≤ b && b < 0x7F) = true ∧
        line.dropLast.count tab = n) : RowShows [line] n [] := by
    obtain ⟨heq, hbytes, rfl⟩ := hline
    exact ⟨[line.dropLast], by simpa using heq, shows_own (by simpa using hbytes)⟩
  cases s with
  | version _ => exact hline (ascii "FIELD\tVALUE\n") 1 (by decide)
  | snapshot _ => exact hline (ascii "FIELD\tVALUE\n") 1 (by decide)
  | providers _ =>
    exact hline (ascii
      "STATUS NAME            ADAPTER           ACTIVE/MAX LATENCY  CIRCUIT\n") 0 (by decide)
  | routes _ =>
    exact hline (ascii "ALIAS\tPOLICY\tTARGETS\tENABLED\tMAX_ATTEMPTS\n") 4 (by decide)
  | mcp _ =>
    exact hline (ascii
      "STATUS\tID\tNAME\tTRANSPORT\tERA\tVERSION\tTOOLS\tRESOURCES\tRESTARTS\n") 8 (by decide)
  | error _ => exact hline (ascii "STATUS\tCODE\tMESSAGE\tFIELD\n") 3 (by decide)
  | generic => exact absurd rfl h

theorem rowsShow_of_eq {rows : List (List Bytes)} {n : ℕ} {xs ys : List String}
    (h : RowsShow rows n xs) (heq : xs = ys) : RowsShow rows n ys := heq ▸ h

theorem rowsShow_countRows (result : Mcp.Json) : RowsShow (countRows result) 1 [] := by
  unfold countRows
  cases result.getObject "counts" with
  | none => exact rowsShow_nil
  | some counts =>
    exact RowsShow.cons (shows_fieldRow _ (by decide) (shows_memberInt counts _))
      (RowsShow.cons (shows_fieldRow _ (by decide) (shows_memberInt counts _))
        (RowsShow.cons (shows_fieldRow _ (by decide) (shows_memberInt counts _))
          (RowsShow.cons (shows_fieldRow _ (by decide) (shows_memberInt counts _)) rowsShow_nil)))

theorem rowShows_routeRow (route : Mcp.Json) :
    RowShows (routeRow route) 4 (shown route ["model_alias", "policy"]) := by
  have hcells (last : List Bytes) (hlast : Shows last 0 []) :
      RowShows (tabbedRow [memberString route "model_alias", memberString route "policy",
        memberArrayCount route "targets", memberBool route "enabled", last]) 4
        (shown route ["model_alias", "policy"]) := by
    have hrow := (shows_memberString route "model_alias").tabbed
      ((shows_memberString route "policy").tabbed
        ((shows_memberArrayCount route "targets").tabbed
          ((shows_memberBool route "enabled").tabbed hlast.row)))
    have htexts : shown route ["model_alias"] ++ (shown route ["policy"] ++ ([] ++ ([] ++ []))) =
        shown route ["model_alias", "policy"] := by simp [shown]
    rwa [htexts] at hrow
  unfold routeRow
  cases route.getObject "fallback" with
  | none => exact hcells dash shows_dash
  | some fallback => exact hcells _ (shows_memberInt fallback "max_attempts")

theorem rowShows_mcpRow (server : Mcp.Json) :
    RowShows (mcpRow server) 8
      (shown server ["state", "id", "display_name", "transport", "era", "protocol_version"]) := by
  have hrow := (shows_memberString server "state").tabbed
    ((shows_memberString server "id").tabbed
      ((shows_memberString server "display_name").tabbed
        ((shows_memberString server "transport").tabbed
          ((shows_memberString server "era").tabbed
            ((shows_memberString server "protocol_version").tabbed
              ((shows_memberInt server "tool_count").tabbed
                ((shows_memberInt server "resource_count").tabbed
                  (shows_memberInt server "restarts").row)))))))
  have htexts : shown server ["state"] ++ (shown server ["id"] ++ (shown server ["display_name"] ++
      (shown server ["transport"] ++ (shown server ["era"] ++ (shown server ["protocol_version"] ++
        ([] ++ ([] ++ []))))))) =
      shown server ["state", "id", "display_name", "transport", "era", "protocol_version"] := by
    simp [shown]
  rwa [htexts] at hrow

theorem rowsShow_rows (s : Sheet) : RowsShow s.rows s.tabs s.texts := by
  cases s with
  | version r =>
    refine rowsShow_of_eq
      (RowsShow.cons (shows_fieldRow _ (by decide) (shows_memberString r "version"))
        (RowsShow.cons (shows_fieldRow _ (by decide) (shows_memberString r "target"))
          (RowsShow.cons (shows_fieldRow _ (by decide) (shows_memberString r "build"))
            (RowsShow.cons (shows_fieldRow _ (by decide) (shows_memberInt r _)) rowsShow_nil)))) ?_
    simp [texts, shown]
  | snapshot r =>
    have hfields := RowsShow.cons
      (shows_fieldRow "revision" (by decide) (shows_memberInt r "revision"))
      (RowsShow.cons
        (shows_fieldRow "ready" (by decide) (shows_memberBool r "ready"))
        (RowsShow.cons
          (shows_fieldRow "database" (by decide) (shows_memberString r "database"))
          (RowsShow.cons
            (shows_fieldRow "uptime_ms" (by decide) (shows_memberInt r "uptime_ms"))
            (RowsShow.cons
              (shows_fieldRow "started_at_ms" (by decide)
                (shows_memberInt r "started_at_ms"))
              (RowsShow.cons
                (shows_fieldRow "reload_count" (by decide)
                  (shows_memberInt r "reload_count"))
                rowsShow_nil)))))
    refine rowsShow_of_eq (hfields.append (rowsShow_countRows r)) ?_
    simp [texts, shown]
  | providers items => exact rowsShow_map _ _ (fun p => (shows_providerCells p).row) items
  | routes items => exact rowsShow_map _ _ rowShows_routeRow items
  | mcp items => exact rowsShow_map _ _ rowShows_mcpRow items
  | error e =>
    have hfalse : Shows [ascii "false"] 0 [] := shows_literal (by decide)
    refine rowsShow_of_eq (RowsShow.cons (hfalse.tabbed ((shows_memberString e "code").tabbed
      ((shows_memberString e "message").tabbed (shows_memberString e "field").row)))
      rowsShow_nil) ?_
    simp [texts, shown]
  | generic => exact rowsShow_nil

theorem rows_length (s : Sheet) : s.rows.length = s.elements := by
  cases s with
  | snapshot r =>
    rw [rows, elements, List.length_append, countRows]
    cases r.getObject "counts" <;> rfl
  | providers items => exact List.length_map _
  | routes items => exact List.length_map _
  | mcp items => exact List.length_map _
  | version _ => rfl
  | error _ => rfl
  | generic => rfl

/-- Every table is a header and rows with its number of tabs. -/
theorem tame_build (s : Sheet) (h : s ≠ generic) :
    Grid s.elements s.tabs s.build.flatten ∧
      (Tame s.elements s.tabs s.build.flatten ↔ ¬ Speaks s.texts) := by
  rw [← s.rows_length]
  exact tame_of_rowsShow (RowsShow.cons (s.rowShows_header h) s.rowsShow_rows)

theorem carriesC1_lf (t : Bytes) : carriesC1 (t ++ [lf]) = carriesC1 t := by
  induction t with
  | nil => rfl
  | cons a t ih =>
    rw [List.cons_append, carriesC1, carriesC1, ih]
    cases t with
    | nil =>
      have hlf : ¬ (0x80 : UInt8) ≤ lf := by decide
      simp [hlf, carriesC1]
    | cons b t => rfl

/-- The frame itself, with a line feed. -/
theorem tame_generic (frame : Bytes) :
    Tame 0 0 (frame ++ [lf]) ↔ (∀ b ∈ frame, 0x20 ≤ b ∧ b ≠ 0x7F) ∧ carriesC1 frame = false := by
  have hlines (h : lf ∉ frame) : lines lf (frame ++ [lf]) = ([frame], []) := lines_line h []
  constructor
  · intro h
    have hlf : lf ∉ frame := by
      have hcount := h.grid.lfs
      rw [List.count_append, List.count_singleton_self] at hcount
      exact List.count_eq_zero.mp (Nat.succ.inj hcount)
    have htab : tab ∉ frame := by
      obtain ⟨header, body, heq, -, hcount, -⟩ := h.grid.grid
      rw [hlines hlf] at heq
      obtain ⟨rfl, -⟩ := List.cons.inj (Prod.ext_iff.mp heq).1
      exact List.count_eq_zero.mp hcount
    refine ⟨fun b hb => ⟨?_, ?_⟩, carriesC1_lf frame ▸ h.c1⟩
    · by_contra hlow
      rcases h.c0 b (List.mem_append_left _ hb) (UInt8.not_le.mp hlow) with rfl | rfl
      · exact htab hb
      · exact hlf hb
    · rintro rfl
      exact h.del (List.mem_append_left _ hb)
  · rintro ⟨hbytes, hc1⟩
    have hlf : lf ∉ frame := fun hmem => absurd (hbytes lf hmem).1 (by decide)
    have htab : tab ∉ frame := fun hmem => absurd (hbytes tab hmem).1 (by decide)
    refine ⟨?_, ?_, (carriesC1_lf frame).trans hc1, ?_, frame, [], hlines hlf, rfl,
      List.count_eq_zero.mpr htab, List.forall_mem_nil _⟩
    · intro b hb hlow
      rcases List.mem_append.mp hb with hb | hb
      · exact absurd (hbytes b hb).1 (UInt8.not_le.mpr hlow)
      · exact Or.inr (List.mem_singleton.mp hb)
    · intro hmem
      rcases List.mem_append.mp hmem with hb | hb
      · exact (hbytes _ hb).2 rfl
      · exact absurd (List.mem_singleton.mp hb) (by decide)
    · rw [List.count_append, List.count_eq_zero.mpr hlf, List.count_singleton_self]

end Sheet

section Response

variable {alloc : ℕ → Bool} {loadb : Bytes → Option Mcp.Json} {granted : Bool}
  {frame method out : Bytes}

/-- What is written is the whole table of the response, or the frame. -/
theorem tableResponse_ok (h : tableResponse alloc loadb granted frame method = .ok out) :
    ∃ root s, parseDoc loadb granted (tableLimits frame) frame = .ok root ∧
      responseSheet method root = .ok s ∧
      (s = .generic ∧ out = frame ++ [lf] ∨ s ≠ .generic ∧ out = s.build.flatten) := by
  unfold tableResponse at h
  split_ifs at h
  cases hroot : parseDoc loadb granted (tableLimits frame) frame with
  | error e =>
    rw [hroot] at h
    cases h
  | ok root =>
    rw [hroot] at h
    dsimp only at h
    cases hs : responseSheet method root with
    | error e =>
      rw [hs] at h
      cases h
    | ok s =>
      rw [hs] at h
      refine ⟨root, s, rfl, hs, ?_⟩
      by_cases hgeneric : s = .generic
      · subst hgeneric
        exact Or.inl ⟨rfl, (Except.ok.inj h).symm⟩
      · refine Or.inr ⟨hgeneric, ?_⟩
        have hbuilt : (if ((Buffer.init tableOutputMax).appendAll alloc s.build).2 < 0 then
            .error ((Buffer.init tableOutputMax).appendAll alloc s.build).2
          else .ok ((Buffer.init tableOutputMax).appendAll alloc s.build).1.data) =
            (.ok out : Except Status Bytes) := by
          cases s with
          | generic => exact absurd rfl hgeneric
          | version _ => exact h
          | snapshot _ => exact h
          | providers _ => exact h
          | routes _ => exact h
          | mcp _ => exact h
          | error _ => exact h
        split_ifs at hbuilt with hneg
        rcases Buffer.appendAll_cases alloc (Buffer.init tableOutputMax) s.build with
          ⟨-, hdata⟩ | ⟨hfail, -⟩
        · rw [← Except.ok.inj hbuilt, hdata]
          rfl
        · exact absurd hfail hneg

/-- Whatever a response holds, a table keeps its shape. It carries a control to the
terminal exactly where a string it shows has a C1 control, or where the frame that is
written as it is has a control byte or a C1 control. -/
theorem tableResponse_tame (h : tableResponse alloc loadb granted frame method = .ok out) :
    ∃ root s, parseDoc loadb granted (tableLimits frame) frame = .ok root ∧
      responseSheet method root = .ok s ∧
      (s ≠ .generic → Grid s.elements s.tabs out) ∧
      (Tame s.elements s.tabs out ↔ s.Quiet frame) := by
  obtain ⟨root, s, hroot, hs, ⟨rfl, rfl⟩ | ⟨hgeneric, rfl⟩⟩ := tableResponse_ok h
  · exact ⟨root, .generic, hroot, hs, fun hne => absurd rfl hne, Sheet.tame_generic frame⟩
  · obtain ⟨hgrid, htame⟩ := s.tame_build hgeneric
    refine ⟨root, s, hroot, hs, fun _ => hgrid, htame.trans ?_⟩
    cases s with
    | generic => exact absurd rfl hgeneric
    | version _ => exact Iff.rfl
    | snapshot _ => exact Iff.rfl
    | providers _ => exact Iff.rfl
    | routes _ => exact Iff.rfl
    | mcp _ => exact Iff.rfl
    | error _ => exact Iff.rfl

/-- A route list with one row. -/
def routeRoot : Mcp.Json :=
  .object [("ok", .bool true), ("result", .array [.object [("model_alias", .string "m\t")]])]

def routeFrame : Bytes :=
  ascii "\x7b\"ok\":true,\"result\":[\x7b\"model_alias\":\"m\\t\"\x7d]\x7d"

theorem tableResponse_tame_route : ∃ out,
    tableResponse (fun _ => true) (fun _ => some routeRoot) true routeFrame (ascii "routes.list") =
      .ok out ∧
    ∃ root s, parseDoc (fun _ => some routeRoot) true (tableLimits routeFrame) routeFrame =
        .ok root ∧ responseSheet (ascii "routes.list") root = .ok s ∧
      (s ≠ .generic → Grid s.elements s.tabs out) ∧
      (Tame s.elements s.tabs out ↔ s.Quiet routeFrame) := by
  have hsent : (tableResponse (fun _ => true) (fun _ => some routeRoot) true routeFrame
      (ascii "routes.list")).toOption.isSome = true := by decide
  cases hout : tableResponse (fun _ => true) (fun _ => some routeRoot) true routeFrame
      (ascii "routes.list") with
  | error e =>
    rw [hout] at hsent
    cases hsent
  | ok out => exact ⟨out, rfl, tableResponse_tame hout⟩

/-- A provider whose name is `U+009B` and the rest of a terminal sequence. -/
def csiProvider : Mcp.Json := .object [("display_name", .string "\u009b2J")]

def csiRoot : Mcp.Json := .object [("ok", .bool true), ("result", .array [csiProvider])]

def csiFrame : Bytes :=
  ascii "\x7b\"ok\":true,\"result\":[\x7b\"display_name\":\"\\u009b2J\"\x7d]\x7d"

/-- The control sequence introducer goes to the terminal. -/
theorem tableResponse_csi : ∃ out,
    tableResponse (fun _ => true) (fun _ => some csiRoot) true csiFrame (ascii "providers.list") =
      .ok out ∧ carriesC1 out = true := by
  have hsent : (tableResponse (fun _ => true) (fun _ => some csiRoot) true csiFrame
      (ascii "providers.list")).toOption.any carriesC1 = true := by decide +kernel
  cases hout : tableResponse (fun _ => true) (fun _ => some csiRoot) true csiFrame
      (ascii "providers.list") with
  | error e =>
    rw [hout] at hsent
    exact absurd hsent Bool.false_ne_true
  | ok out =>
    rw [hout] at hsent
    exact ⟨out, rfl, hsent⟩

end Response
end AsmFlow.Tui
