import Mathlib.Data.List.Nodup
import Mathlib.Data.List.Sublists
import Mathlib.Tactic

/-!
# Unwinding

Parts are taken one after the other, as a plan says, until one of them cannot be had. What was
taken is given back in an order of its own, which passes over what is not held.
-/

namespace AsmFlow.Library

variable {α : Type*} [DecidableEq α]

/-- What is given back in the order, of what is held. -/
def unwind (order held : List α) : List α := order.filter fun p => decide (p ∈ held)

variable {plan order held : List α} {p q : α}

/-- Of a plan without repetitions, what is held of it is what was taken. -/
theorem unwind_plan (hplan : plan.Nodup) (hheld : held <+: plan) : unwind plan held = held := by
  obtain ⟨rest, rfl⟩ := hheld
  have hrest : ∀ p ∈ rest, p ∉ held := fun p hp hmem => List.disjoint_of_nodup_append hplan hmem hp
  unfold unwind
  rw [List.filter_append]
  have hall : held.filter (fun p => decide (p ∈ held)) = held :=
    List.filter_eq_self.mpr fun p hp => decide_eq_true hp
  have hnone : rest.filter (fun p => decide (p ∈ held)) = [] :=
    List.filter_eq_nil_iff.mpr fun p hp => by simpa using hrest p hp
  rw [hall, hnone, List.append_nil]

/-- What was taken is given back, each part once. -/
theorem unwind_perm (hplan : plan.Nodup) (horder : order.Perm plan) (hheld : held <+: plan) :
    (unwind order held).Perm held := by
  have hperm : (unwind order held).Perm (unwind plan held) := horder.filter _
  rwa [unwind_plan hplan hheld] at hperm

/-- Where the order is the reverse of the plan, what was taken last is given back first. -/
theorem unwind_reverse (hplan : plan.Nodup) (hheld : held <+: plan) {keep : α → Bool}
    (horder : order.filter keep = (plan.filter keep).reverse) :
    (unwind order held).filter keep = (held.filter keep).reverse := by
  have hswap (l : List α) : (unwind l held).filter keep = unwind (l.filter keep) held := by
    unfold unwind
    rw [List.filter_filter, List.filter_filter]
    exact List.filter_congr fun p _ => Bool.and_comm _ _
  rw [hswap, horder, ← unwind_plan hplan hheld, hswap, unwind_plan hplan hheld]
  exact List.filter_reverse

omit [DecidableEq α] in
/-- What comes before a part in the plan is held with it. -/
theorem mem_of_before (hplan : plan.Nodup) (hheld : held <+: plan) (hbefore : [q, p].Sublist plan)
    (hp : p ∈ held) : q ∈ held := by
  obtain ⟨rest, rfl⟩ := hheld
  obtain ⟨l, m, hsplit, hl, hm⟩ := List.sublist_append_iff.mp hbefore
  cases l with
  | nil =>
    obtain rfl : [q, p] = m := hsplit
    have hrest : p ∈ rest := hm.subset (by simp)
    exact absurd hrest fun hmem => List.disjoint_of_nodup_append hplan hp hmem
  | cons r l =>
    obtain ⟨rfl, -⟩ := List.cons_eq_cons.mp hsplit
    exact hl.subset List.mem_cons_self

/-- A part that goes before another one in the order does so among what is held. -/
theorem unwind_before (horder : [p, q].Sublist order) (hp : p ∈ held) (hq : q ∈ held) :
    [p, q].Sublist (unwind order held) := by
  have hfilter := horder.filter fun p => decide (p ∈ held)
  simpa [unwind, hp, hq] using hfilter

end AsmFlow.Library
