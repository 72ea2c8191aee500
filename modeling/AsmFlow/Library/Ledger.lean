import Mathlib.Tactic

/-!
# What is taken and given back

A ledger says of every key whether it was taken and how often it was given back. Against
the keys that are held now, it is settled when a held key was taken and not given back,
and any other key was given back as often as it was taken: once or never.
-/

namespace AsmFlow.Library

variable {κ : Type}

structure Ledger (κ : Type) where
  taken : κ → Bool
  freed : κ → ℕ

namespace Ledger

def empty : Ledger κ := ⟨fun _ => false, fun _ => 0⟩

/-- Takes the keys that satisfy `p`. -/
def take (l : Ledger κ) (p : κ → Bool) : Ledger κ := { l with taken := fun k => p k || l.taken k }

/-- Gives the keys back that satisfy `p`. -/
def free (l : Ledger κ) (p : κ → Bool) : Ledger κ :=
  { l with freed := fun k => if p k then l.freed k + 1 else l.freed k }

/-- The ledger is right about what is held. -/
structure Settled (l : Ledger κ) (held : κ → Prop) : Prop where
  kept : ∀ k, held k → l.taken k = true ∧ l.freed k = 0
  gone : ∀ k, ¬ held k → l.freed k = (l.taken k).toNat

variable {l : Ledger κ} {held held' : κ → Prop} {p : κ → Bool}

theorem settled_empty (h : ∀ k, ¬ held k) : (empty : Ledger κ).Settled held :=
  ⟨fun k hk => absurd hk (h k), fun _ _ => rfl⟩

theorem Settled.congr (h : l.Settled held) (hheld : ∀ k, held' k ↔ held k) : l.Settled held' :=
  ⟨fun k hk => h.kept k ((hheld k).mp hk), fun k hk => h.gone k fun hk' => hk ((hheld k).mpr hk')⟩

/-- New keys are taken and held. -/
theorem Settled.take (h : l.Settled held) (hnew : ∀ k, p k = true → l.taken k = false)
    (hheld : ∀ k, held' k ↔ p k = true ∨ held k) : (l.take p).Settled held' where
  kept k hk := by
    by_cases hp : p k = true
    · have hout : ¬ held k := fun hk' => by
        have htaken := (h.kept k hk').1
        rw [hnew k hp] at htaken
        cases htaken
      have hfreed := h.gone k hout
      rw [hnew k hp] at hfreed
      exact ⟨by simp [Ledger.take, hp], hfreed⟩
    · obtain ⟨htaken, hfreed⟩ := h.kept k (((hheld k).mp hk).resolve_left hp)
      exact ⟨by simp [Ledger.take, htaken], hfreed⟩
  gone k hk := by
    rw [hheld, not_or] at hk
    have hgone := h.gone k hk.2
    simp only [Ledger.take, Bool.not_eq_true] at hk ⊢
    rw [hk.1, Bool.false_or]
    exact hgone

/-- Held keys are given back, and held no longer. -/
theorem Settled.free (h : l.Settled held) (hp : ∀ k, p k = true → held k)
    (hheld : ∀ k, held' k ↔ held k ∧ p k = false) : (l.free p).Settled held' where
  kept k hk := by
    obtain ⟨hk, hout⟩ := (hheld k).mp hk
    simp only [Ledger.free, hout, Bool.false_eq_true, if_false]
    exact h.kept k hk
  gone k hk := by
    by_cases hpk : p k = true
    · obtain ⟨htaken, hfreed⟩ := h.kept k (hp k hpk)
      simp [Ledger.free, hpk, htaken, hfreed]
    · rw [Bool.not_eq_true] at hpk
      have hout : ¬ held k := fun hk' => hk ((hheld k).mpr ⟨hk', hpk⟩)
      simp only [Ledger.free, hpk, Bool.false_eq_true, if_false]
      exact h.gone k hout

/-- A key that is not held and was not given back was not taken. -/
theorem Settled.new {k : κ} (h : l.Settled held) (hk : ¬ held k) (hfreed : l.freed k = 0) :
    l.taken k = false := by
  have hgone := h.gone k hk
  rw [hfreed] at hgone
  cases htaken : l.taken k with
  | false => rfl
  | true =>
    rw [htaken] at hgone
    cases hgone

end Ledger

section Table

variable {ι α : Type} {slots : ι → Option α} {holds : α → κ → Bool} {i : ι} {x : α}

/-- The keys that the slots of a table hold. -/
def HeldIn (slots : ι → Option α) (holds : α → κ → Bool) (k : κ) : Prop :=
  ∃ i x, slots i = some x ∧ holds x k = true

theorem HeldIn.mk {k : κ} (hx : slots i = some x) (hk : holds x k = true) :
    HeldIn slots holds k :=
  ⟨i, x, hx, hk⟩

variable [DecidableEq ι]

/-- Another entry in a slot holds what the old one held, and the keys of `p` too. -/
theorem heldIn_write (holds : α → κ → Bool) (x' : α) (p : κ → Bool) (hx : slots i = some x)
    (hholds : ∀ k, holds x' k = (p k || holds x k)) (k : κ) :
    HeldIn (Function.update slots i (some x')) holds k ↔
      p k = true ∨ HeldIn slots holds k := by
  constructor
  · rintro ⟨j, y, hy, hk⟩
    by_cases hj : j = i
    · subst hj
      rw [Function.update_self] at hy
      cases hy
      rw [hholds, Bool.or_eq_true] at hk
      exact hk.imp id fun hk => .mk hx hk
    · rw [Function.update_of_ne hj] at hy
      exact .inr (.mk hy hk)
  · intro hor
    by_cases hk : holds x' k = true
    · exact .mk (Function.update_self i (some x') slots) hk
    · rw [hholds, Bool.or_eq_true, not_or] at hk
      obtain ⟨j, y, hy, hyk⟩ := hor.resolve_left hk.1
      have hj : j ≠ i := fun hj => by
        subst hj
        rw [hx] at hy
        cases hy
        exact hk.2 hyk
      exact ⟨j, y, by rw [Function.update_of_ne hj]; exact hy, hyk⟩

/-- An entry in a free slot. -/
theorem heldIn_insert (holds : α → κ → Bool) (x' : α) (hx : slots i = none) (k : κ) :
    HeldIn (Function.update slots i (some x')) holds k ↔
      holds x' k = true ∨ HeldIn slots holds k := by
  constructor
  · rintro ⟨j, y, hy, hk⟩
    by_cases hj : j = i
    · subst hj
      rw [Function.update_self] at hy
      cases hy
      exact .inl hk
    · rw [Function.update_of_ne hj] at hy
      exact .inr (.mk hy hk)
  · rintro (hk | ⟨j, y, hy, hk⟩)
    · exact .mk (Function.update_self i (some x') slots) hk
    · have hj : j ≠ i := fun hj => by
        subst hj
        rw [hx] at hy
        cases hy
      exact ⟨j, y, by rw [Function.update_of_ne hj]; exact hy, hk⟩

/-- A slot that is freed, when no other one holds a key that it held. -/
theorem heldIn_clear (holds : α → κ → Bool) (hx : slots i = some x)
    (hother : ∀ j y k, slots j = some y → holds x k = true → holds y k = true → j = i) (k : κ) :
    HeldIn (Function.update slots i none) holds k ↔
      HeldIn slots holds k ∧ holds x k = false := by
  constructor
  · rintro ⟨j, y, hy, hk⟩
    have hj : j ≠ i := fun hj => by
      subst hj
      rw [Function.update_self] at hy
      cases hy
    rw [Function.update_of_ne hj] at hy
    refine ⟨.mk hy hk, ?_⟩
    rw [← Bool.not_eq_true]
    exact fun hxk => hj (hother j y k hy hxk hk)
  · rintro ⟨⟨j, y, hy, hk⟩, hxk⟩
    have hj : j ≠ i := fun hj => by
      subst hj
      rw [hx] at hy
      cases hy
      rw [hk] at hxk
      cases hxk
    exact ⟨j, y, by rw [Function.update_of_ne hj]; exact hy, hk⟩

end Table
end AsmFlow.Library
