import Mathlib.Algebra.BigOperators.Fin
import Mathlib.Tactic

/-!
# Tables of slots

A table is a function on a finite type of slots. The number of slots with a
property changes, when one slot is written, by what changes at that slot.
-/

namespace AsmFlow.Library

variable {ι α : Type*} [Fintype ι]

/-- How many slots satisfy `p`. -/
def occupancy (p : α → Bool) (slots : ι → α) : ℕ := ∑ i, (p (slots i)).toNat

theorem occupancy_update [DecidableEq ι] (p : α → Bool) (slots : ι → α) (i : ι) (a : α) :
    occupancy p (Function.update slots i a) + (p (slots i)).toNat =
      occupancy p slots + (p a).toNat := by
  have hrest : ∑ j ∈ Finset.univ.erase i, (p (Function.update slots i a j)).toNat =
      ∑ j ∈ Finset.univ.erase i, (p (slots j)).toNat := by
    apply Finset.sum_congr rfl
    intro j hj
    rw [Function.update_of_ne (Finset.ne_of_mem_erase hj)]
  have hnew := Finset.add_sum_erase Finset.univ
    (fun j => (p (Function.update slots i a j)).toNat) (Finset.mem_univ i)
  have hold := Finset.add_sum_erase Finset.univ (fun j => (p (slots j)).toNat)
    (Finset.mem_univ i)
  simp only [Function.update_self] at hnew
  unfold occupancy
  omega

/-- A write that does not change the property leaves the number as it is. -/
theorem occupancy_update_of_eq [DecidableEq ι] {p : α → Bool} {slots : ι → α} {i : ι} {a : α}
    (h : p a = p (slots i)) :
    occupancy p (Function.update slots i a) = occupancy p slots := by
  have hstep := occupancy_update p slots i a
  rw [h] at hstep
  omega

/-- When no other slot has the property, only the written one counts. -/
theorem occupancy_update_of_others [DecidableEq ι] {p : α → Bool} {slots : ι → α} {i : ι} (a : α)
    (h : ∀ j, j ≠ i → p (slots j) = false) :
    occupancy p (Function.update slots i a) = (p a).toNat := by
  unfold occupancy
  rw [← Finset.add_sum_erase Finset.univ _ (Finset.mem_univ i), Function.update_self]
  have hrest : ∑ j ∈ Finset.univ.erase i, (p (Function.update slots i a j)).toNat = 0 := by
    apply Finset.sum_eq_zero
    intro j hj
    have hne : j ≠ i := Finset.ne_of_mem_erase hj
    rw [Function.update_of_ne hne, h j hne]
    rfl
  rw [hrest, add_zero]

theorem occupancy_le_card (p : α → Bool) (slots : ι → α) :
    occupancy p slots ≤ Fintype.card ι := by
  have hle : occupancy p slots ≤ ∑ _i : ι, 1 :=
    Finset.sum_le_sum fun i _ => Bool.toNat_le (p (slots i))
  simpa using hle

theorem occupancy_congr {p q : α → Bool} {slots : ι → α} (h : ∀ i, p (slots i) = q (slots i)) :
    occupancy p slots = occupancy q slots :=
  Finset.sum_congr rfl fun i _ => by rw [h i]

theorem occupancy_eq_zero {p : α → Bool} {slots : ι → α} (h : ∀ i, p (slots i) = false) :
    occupancy p slots = 0 := by
  simp [occupancy, h]

theorem occupancy_pos [DecidableEq ι] {p : α → Bool} {slots : ι → α} {i : ι} (h : p (slots i) = true) :
    0 < occupancy p slots := by
  unfold occupancy
  rw [← Finset.add_sum_erase Finset.univ (fun j => (p (slots j)).toNat) (Finset.mem_univ i), h]
  exact Nat.add_pos_left Nat.one_pos _

end AsmFlow.Library
