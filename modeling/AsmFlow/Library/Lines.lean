import Mathlib.Tactic

/-!
# Splitting at a separator

A stream is its complete lines, each ended by the separator, and the tail that
has no separator yet. What arrives later goes behind the tail.
-/

namespace AsmFlow.Library

variable {α : Type*} [DecidableEq α] {sep : α}

/-- The complete lines of a stream, and its tail. -/
def lines (sep : α) : List α → List (List α) × List α
  | [] => ([], [])
  | a :: s =>
    match lines sep s with
    | (ls, t) =>
      if a = sep then ([] :: ls, t)
      else
        match ls with
        | [] => ([], a :: t)
        | l :: ls => ((a :: l) :: ls, t)

attribute [local simp] lines

@[simp] theorem lines_nil (sep : α) : lines sep [] = ([], []) := rfl

theorem lines_sep (sep : α) (s : List α) :
    lines sep (sep :: s) = ([] :: (lines sep s).1, (lines sep s).2) := by
  rw [lines]
  exact if_pos rfl

/-- The lines and the tail are the pieces of the split at every separator. -/
theorem lines_eq_splitOn (sep : α) (s : List α) :
    (lines sep s).1 ++ [(lines sep s).2] = s.splitOn sep := by
  induction s with
  | nil => rfl
  | cons a s ih =>
    rw [List.splitOn, List.splitOnP_cons_eq_if_modifyHead, ← List.splitOn, ← ih, lines]
    rcases lines sep s with ⟨ls, t⟩
    by_cases ha : a = sep
    · simp [ha]
    · cases ls with
      | nil => simp [ha]
      | cons l ls => simp [ha]

theorem lines_of_notMem {s : List α} (h : sep ∉ s) : lines sep s = ([], s) := by
  induction s with
  | nil => rfl
  | cons a s ih =>
    have ha : sep ≠ a := fun heq => h (heq ▸ List.mem_cons_self)
    have hs : sep ∉ s := fun hmem => h (List.mem_cons_of_mem a hmem)
    rw [lines, ih hs]
    dsimp only
    rw [if_neg (Ne.symm ha)]

theorem lines_line {l : List α} (h : sep ∉ l) (s : List α) :
    lines sep (l ++ sep :: s) = (l :: (lines sep s).1, (lines sep s).2) := by
  induction l with
  | nil => exact lines_sep sep s
  | cons a l ih =>
    have ha : sep ≠ a := fun heq => h (heq ▸ List.mem_cons_self)
    have hl : sep ∉ l := fun hmem => h (List.mem_cons_of_mem a hmem)
    rw [List.cons_append, lines, ih hl]
    dsimp only
    rw [if_neg (Ne.symm ha)]

/-- A stream has no separator, or a first one. -/
theorem notMem_or_line (sep : α) (s : List α) :
    sep ∉ s ∨ ∃ l r, sep ∉ l ∧ s = l ++ sep :: r := by
  by_cases h : sep ∈ s
  · obtain ⟨l, r, hs, hl⟩ := List.eq_append_cons_of_mem h
    exact Or.inr ⟨l, r, hl, hs⟩
  · exact Or.inl h

/-- Lines come off the front one at a time. -/
theorem lines_induction {P : List α → Prop} (sep : α) (htail : ∀ s, sep ∉ s → P s)
    (hline : ∀ l s, sep ∉ l → P s → P (l ++ sep :: s)) (s : List α) : P s := by
  induction hlen : s.length using Nat.strong_induction_on generalizing s with
  | _ n ih =>
    subst hlen
    rcases notMem_or_line sep s with h | ⟨l, r, hl, rfl⟩
    · exact htail s h
    · apply hline l r hl
      apply ih r.length _ r rfl
      rw [List.length_append, List.length_cons]
      omega

theorem tail_notMem (sep : α) (s : List α) : sep ∉ (lines sep s).2 := by
  induction s using lines_induction sep with
  | htail s h =>
    rw [lines_of_notMem h]
    exact h
  | hline l s hl ih =>
    rw [lines_line hl]
    exact ih

theorem line_notMem (sep : α) (s : List α) : ∀ l ∈ (lines sep s).1, sep ∉ l := by
  induction s using lines_induction sep with
  | htail s h =>
    rw [lines_of_notMem h]
    intro l hl
    cases hl
  | hline l s hl ih =>
    rw [lines_line hl]
    intro k hk
    rcases List.mem_cons.mp hk with rfl | hk
    · exact hl
    · exact ih k hk

/-- Later bytes are split behind the tail. -/
theorem lines_append (sep : α) (s t : List α) :
    lines sep (s ++ t) =
      ((lines sep s).1 ++ (lines sep ((lines sep s).2 ++ t)).1,
        (lines sep ((lines sep s).2 ++ t)).2) := by
  induction s using lines_induction sep with
  | htail s h => rw [lines_of_notMem h, List.nil_append]
  | hline l s hl ih =>
    rw [List.append_assoc, List.cons_append, lines_line hl, lines_line hl, ih]
    rfl

/-- The lines, each with its separator, and the tail are the stream. -/
theorem lines_flatten (sep : α) (s : List α) :
    ((lines sep s).1.map (· ++ [sep])).flatten ++ (lines sep s).2 = s := by
  induction s using lines_induction sep with
  | htail s h => rw [lines_of_notMem h]; rfl
  | hline l s hl ih =>
    rw [lines_line hl]
    simp only [List.map_cons, List.flatten_cons, List.append_assoc, List.cons_append,
      List.nil_append]
    rw [ih]

theorem lines_length_le (sep : α) (s : List α) : (lines sep s).1.length ≤ s.length := by
  induction s using lines_induction sep with
  | htail s h =>
    rw [lines_of_notMem h]
    exact Nat.zero_le _
  | hline l s hl ih =>
    rw [lines_line hl, List.length_cons, List.length_append, List.length_cons]
    omega

/-- Lines and a tail are found again. -/
theorem lines_of_flatten {ls : List (List α)} {t : List α} (hls : ∀ l ∈ ls, sep ∉ l)
    (ht : sep ∉ t) : lines sep ((ls.map (· ++ [sep])).flatten ++ t) = (ls, t) := by
  induction ls with
  | nil => exact lines_of_notMem ht
  | cons l ls ih =>
    have hrest := ih fun k hk => hls k (List.mem_cons_of_mem l hk)
    simp only [List.map_cons, List.flatten_cons, List.append_assoc, List.cons_append,
      List.nil_append]
    rw [lines_line (hls l List.mem_cons_self), hrest]

end AsmFlow.Library
