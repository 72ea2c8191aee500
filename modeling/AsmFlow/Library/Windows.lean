import AsmFlow.Library.Logs
import Mathlib.Data.List.Sort

/-!
# Events in a sliding window

A window that ends at `t` starts at `start t`, and later windows do not start
earlier. When every event finds fewer than `n` events in the window that ends with
it, no interval as short as a window holds more than `n`. A history from which old
events are dropped counts the same as the whole, as long as nothing is dropped that
a later window could still hold.
-/

namespace AsmFlow.Library

variable {α : Type*} [LinearOrder α]

/-- How many of the events lie in a closed interval. -/
def countIn (ts : List α) (a b : α) : ℕ := ts.countP fun t => decide (a ≤ t ∧ t ≤ b)

@[simp] theorem countIn_nil (a b : α) : countIn ([] : List α) a b = 0 := rfl

theorem countIn_concat (ts : List α) (t a b : α) :
    countIn (ts ++ [t]) a b = countIn ts a b + if a ≤ t ∧ t ≤ b then 1 else 0 := by
  unfold countIn
  rw [List.countP_append, List.countP_singleton]
  simp

theorem countIn_mono {ts : List α} {a b c d : α} (h : ∀ t ∈ ts, a ≤ t → t ≤ b → c ≤ t ∧ t ≤ d) :
    countIn ts a b ≤ countIn ts c d := by
  apply List.countP_mono_left
  intro t ht hab
  simp only [decide_eq_true_eq] at hab ⊢
  exact h t ht hab.1 hab.2

/-- An event comes no earlier than those before it, and finds fewer than `n` of them in the
window that ends with it. -/
def Admits (start : α → α) (n : ℕ) (pre : List α) (t : α) : Prop :=
  (∀ s ∈ pre, s ≤ t) ∧ countIn pre (start t) t < n

/-- No interval as short as a window holds more events than a window may. -/
theorem Justified.countIn_le {start : α → α} (hstart : Monotone start) {n : ℕ} {ts : List α}
    (h : Justified (Admits start n) ts) {a b : α} (hab : start b ≤ a) : countIn ts a b ≤ n := by
  induction ts using List.reverseRecOn with
  | nil => exact Nat.zero_le n
  | append_singleton ts t ih =>
    obtain ⟨hts, horder, hroom⟩ := (justified_concat t).mp h
    rw [countIn_concat]
    split
    · rename_i ht
      have hwindow : countIn ts a b ≤ countIn ts (start t) t := by
        apply countIn_mono
        intro s hs has _
        exact ⟨(hstart ht.2).trans (hab.trans has), horder s hs⟩
      omega
    · exact ih hts

theorem Justified.sorted {ts : List α} (h : Justified (fun pre t => ∀ s ∈ pre, s ≤ t) ts) :
    ts.Pairwise (· ≤ ·) := by
  induction ts using List.reverseRecOn with
  | nil => exact List.Pairwise.nil
  | append_singleton ts t ih =>
    obtain ⟨hts, ht⟩ := (justified_concat t).mp h
    rw [List.pairwise_append]
    refine ⟨ih hts, List.pairwise_singleton _ t, ?_⟩
    intro s hs u hu
    obtain rfl := List.mem_singleton.mp hu
    exact ht s hs

/-- The events from `k` on. -/
def since (k : α) (ts : List α) : List α := ts.filter fun t => decide (k ≤ t)

/-- Dropping what is older than `k` loses nothing from `c` on, if `c` is no earlier. -/
theorem since_since {k c : α} (h : k ≤ c) (ts : List α) : since c (since k ts) = since c ts := by
  unfold since
  rw [List.filter_filter]
  apply List.filter_congr
  intro t _
  by_cases hct : c ≤ t
  · simp [hct, h.trans hct]
  · simp [hct]

theorem length_since {c b : α} {ts : List α} (h : ∀ t ∈ ts, t ≤ b) :
    (since c ts).length = countIn ts c b := by
  unfold since countIn
  rw [← List.countP_eq_length_filter]
  apply List.countP_congr
  intro t ht
  simp [h t ht]

theorem mem_since {k t : α} {ts : List α} : t ∈ since k ts ↔ t ∈ ts ∧ k ≤ t := by
  simp [since]

theorem since_concat {k t : α} (h : k ≤ t) (ts : List α) :
    since k (ts ++ [t]) = since k ts ++ [t] := by
  simp [since, h]

end AsmFlow.Library
