import Mathlib.Data.List.MinMax
import Mathlib.Tactic

/-!
# Scanning a list for its best element

The loop keeps the position of the best element seen and replaces it when a
later one beats it. When beating is having a smaller key, the loop returns the
position of the first element whose key is least.
-/

namespace AsmFlow.Library

variable {α κ : Type*}

/-- The scan from position `i`, with the best element so far and its position. -/
def bestFrom (beats : α → α → Bool) (best : α) (bestAt : ℕ) : ℕ → List α → ℕ
  | _, [] => bestAt
  | i, a :: as =>
    if beats a best then bestFrom beats a i (i + 1) as
    else bestFrom beats best bestAt (i + 1) as

/-- The position of the best element, `none` for an empty list. -/
def bestAt (beats : α → α → Bool) : List α → Option ℕ
  | [] => none
  | a :: as => some (bestFrom beats a 0 1 as)

@[simp] theorem bestAt_eq_none {beats : α → α → Bool} {as : List α} :
    bestAt beats as = none ↔ as = [] := by
  cases as <;> simp [bestAt]

/-- The scan only compares, so it takes the same steps on an image of the list
on which comparisons come out the same. -/
theorem bestFrom_map {β : Type*} (f : α → β) {beats : α → α → Bool} {beats' : β → β → Bool}
    {as : List α} {best : α} {j i : ℕ}
    (h : ∀ a ∈ as, ∀ b ∈ best :: as, beats' (f a) (f b) = beats a b) :
    bestFrom beats' (f best) j i (as.map f) = bestFrom beats best j i as := by
  induction as generalizing best j i with
  | nil => rfl
  | cons a as ih =>
    have ha : beats' (f a) (f best) = beats a best :=
      h a List.mem_cons_self best List.mem_cons_self
    simp only [List.map_cons, bestFrom, ha]
    split_ifs
    · apply ih
      intro x hx y hy
      exact h x (List.mem_cons_of_mem a hx) y (List.mem_cons_of_mem best hy)
    · apply ih
      intro x hx y hy
      apply h x (List.mem_cons_of_mem a hx) y
      simp only [List.mem_cons] at hy ⊢
      tauto

theorem bestAt_map {β : Type*} (f : α → β) {beats : α → α → Bool} {beats' : β → β → Bool}
    {as : List α} (h : ∀ a ∈ as, ∀ b ∈ as, beats' (f a) (f b) = beats a b) :
    bestAt beats' (as.map f) = bestAt beats as := by
  cases as with
  | nil => rfl
  | cons a as =>
    simp only [List.map_cons, bestAt, Option.some.injEq]
    apply bestFrom_map
    intro x hx y hy
    exact h x (List.mem_cons_of_mem a hx) y hy

/-- One key of a chain of tie-breaks: the rest decides only on equal keys. -/
theorem tieBreak_eq_true [LinearOrder κ] {a b : κ} {rest : Bool} :
    (if a < b then true else if b < a then false else rest) = true ↔
      a < b ∨ a = b ∧ rest = true := by
  rcases lt_trichotomy a b with h | h | h
  · simp [h]
  · simp [h]
  · simp [h, h.ne', not_lt_of_gt h]

section Key

variable [LinearOrder κ] (key : α → κ)

/-- The scan keeps the element `argmin` would keep. -/
theorem bestFrom_spec {pre as : List α} {best : α} {j : ℕ} (hbest : pre[j]? = some best) :
    (pre ++ as)[bestFrom (fun a b => decide (key a < key b)) best j pre.length as]? =
      as.foldl (List.argAux fun b c => key b < key c) (some best) := by
  induction as generalizing pre best j with
  | nil => simpa [bestFrom] using hbest
  | cons a as ih =>
    have hsplit : pre ++ a :: as = (pre ++ [a]) ++ as := by simp
    have hlen : pre.length + 1 = (pre ++ [a]).length := by simp
    simp only [bestFrom, List.foldl_cons, List.argAux, decide_eq_true_eq]
    rw [hsplit, hlen]
    split_ifs with hlt
    · apply ih
      simp
    · apply ih
      have hj : j < pre.length := (List.getElem?_eq_some_iff.mp hbest).1
      rw [List.getElem?_append_left hj]
      exact hbest

/-- The scan returns the position of the first element whose key is least. -/
theorem bestAt_eq_argmin (as : List α) :
    (bestAt (fun a b => decide (key a < key b)) as).bind (fun i => as[i]?) = as.argmin key := by
  cases as with
  | nil => rfl
  | cons a as =>
    have h : ([a] ++ as)[bestFrom (fun a b => decide (key a < key b)) a 0 [a].length as]? =
        as.foldl (List.argAux fun b c => key b < key c) (some a) := bestFrom_spec key rfl
    simpa [bestAt, List.argmin, List.argAux] using h

end Key
end AsmFlow.Library
