import AsmFlow.Tui.Model

/-!
# Rows and their identities

The ID of a row goes through the sanitiser into the pool of its screen. Where the IDs
find room there, every row has the ID of its element, whole, or none.
-/

namespace AsmFlow.Console

open Tui

section Sanitise

variable {room : ℕ} {out : Bytes}

/-- A byte of an ID stands for itself. -/
theorem piece_idByte {b : UInt8} (h : idByte b = true) (rest : Bytes) : piece b rest = ([b], 1) := by
  have hall : ∀ n < 256, idByte (UInt8.ofNat n) = true →
      UInt8.ofNat n ≠ 0x1B ∧ UInt8.ofNat n ≠ 9 ∧ UInt8.ofNat n ≠ 10 ∧ UInt8.ofNat n ≠ 13 ∧
        ¬ (UInt8.ofNat n < 0x20 ∨ UInt8.ofNat n = 0x7F) ∧ UInt8.ofNat n < 0x80 := by
    decide +kernel
  have hb := hall b.toNat b.toNat_lt
  rw [UInt8.ofNat_toNat] at hb
  obtain ⟨hesc, htab, hlf, hcr, hctl, hascii⟩ := hb h
  rw [piece, if_neg hesc, if_neg htab, if_neg hlf, if_neg hcr, if_neg hctl, if_pos hascii]

/-- An ID that fits is copied as it is. -/
theorem sanitizeFrom_id {id : Bytes} (hid : ∀ b ∈ id, idByte b = true)
    (hroom : out.length + id.length ≤ room) (hcap : out.length + id.length ≤ 4096 - 6) :
    sanitizeFrom room out 0 id = out ++ id := by
  induction id generalizing out with
  | nil => simp [sanitizeFrom]
  | cons b id ih =>
    rw [List.forall_mem_cons] at hid
    rw [List.length_cons] at hroom hcap
    rw [sanitizeFrom, if_neg (by omega), piece_idByte hid.1]
    dsimp only
    rw [List.length_singleton, if_neg (by omega), Nat.sub_self, ih hid.2]
    · simp
    · rw [List.length_append, List.length_singleton]
      omega
    · rw [List.length_append, List.length_singleton]
      omega

end Sanitise

/-! ## The pool of a screen -/

/-- The ID of every row finds room in the pool, behind what the rows before it took. -/
def IdsFit (k : ListScreen) : ℕ → List Mcp.Json → Prop
  | _, [] => True
  | used, v :: vs =>
    used + ((stableId v).getD []).length ≤ textMax ∧ IdsFit k (buildRow k used v).2 vs

instance decidableIdsFit (k : ListScreen) : ∀ used vs, Decidable (IdsFit k used vs)
  | _, [] => inferInstanceAs (Decidable True)
  | used, v :: vs =>
    have := decidableIdsFit k (buildRow k used v).2 vs
    inferInstanceAs (Decidable (_ ∧ IdsFit k (buildRow k used v).2 vs))

theorem stableId_some {v : Mcp.Json} {id : Bytes} (h : stableId v = some id) :
    id ≠ [] ∧ id.length ≤ ctlIdMax ∧ ∀ b ∈ id, idByte b = true := by
  unfold stableId at h
  cases hid : v.getString "id" with
  | none =>
    rw [hid] at h
    cases h
  | some s =>
    rw [hid] at h
    dsimp only at h
    split_ifs at h with hvalid
    obtain rfl := Option.some.inj h
    simp only [idSpanValid, Bool.and_eq_true, Bool.not_eq_true', List.isEmpty_eq_false_iff,
      decide_eq_true_iff, List.all_eq_true] at hvalid
    exact ⟨hvalid.1.1, hvalid.1.2, hvalid.2⟩

theorem rowId_of_room (v : Mcp.Json) (used : ℕ)
    (h : used + ((stableId v).getD []).length ≤ textMax) : rowId used v = (stableId v).getD [] := by
  unfold rowId
  cases hid : stableId v with
  | none => rfl
  | some id =>
    obtain ⟨-, hlength, hbytes⟩ := stableId_some hid
    rw [hid, Option.getD_some] at h
    have hroom : ([] : Bytes).length + id.length ≤ textMax - used := by
      rw [List.length_nil]
      omega
    have hcap : ([] : Bytes).length + id.length ≤ 4096 - 6 := by
      rw [List.length_nil]
      unfold ctlIdMax at hlength
      omega
    exact sanitizeFrom_id hbytes hroom hcap

theorem buildCells_length (used : ℕ) (cells : List Cell) :
    (buildCells used cells).1.length = cells.length := by
  induction cells generalizing used with
  | nil => rfl
  | cons cell cells ih =>
    cases cell with
    | static text => exact congrArg Nat.succ (ih used)
    | pooled text => exact congrArg Nat.succ (ih _)

/-- A row with the ID of its element and room for the title. -/
def RowOf (k : ListScreen) (v : Mcp.Json) (r : Row) : Prop :=
  r.id = (stableId v).getD [] ∧ k.titleCell < r.cells.length

theorem titleCell_lt (k : ListScreen) (v : Mcp.Json) : k.titleCell < (k.cells v).length := by
  cases k <;> simp [ListScreen.titleCell, ListScreen.cells]

theorem buildRow_of_room (k : ListScreen) (v : Mcp.Json) (used : ℕ)
    (h : used + ((stableId v).getD []).length ≤ textMax) : RowOf k v (buildRow k used v).1 := by
  refine ⟨rowId_of_room v used h, ?_⟩
  exact lt_of_lt_of_eq (titleCell_lt k v) (buildCells_length _ _).symm

theorem buildRows_of_fit {k : ListScreen} {vs : List Mcp.Json} {used : ℕ}
    (h : IdsFit k used vs) : List.Forall₂ (RowOf k) vs (buildRows k used vs).1 := by
  induction vs generalizing used with
  | nil => exact .nil
  | cons v vs ih => exact .cons (buildRow_of_room k v used h.1) (ih h.2)

end AsmFlow.Console
