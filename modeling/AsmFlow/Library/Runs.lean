import Mathlib.Data.List.Infix
import Mathlib.Tactic

/-!
# Runs of a deterministic machine

A machine is a total step function. A run is the list of actions it is given,
so an interleaving of several parties is one list whose actions say who moves.
`Along` is a condition on every step of a run, judged in the state before the
step; `Throughout` is a condition on every state the run visits. The rules
below turn facts about one step into facts about whole runs.
-/

namespace AsmFlow.Library

variable {σ α : Type*}

/-- The state a run ends in. -/
def run (step : σ → α → σ) : σ → List α → σ
  | s, [] => s
  | s, a :: as => run step (step s a) as

/-- Every action of the run satisfies `T` in the state it is taken from. -/
def Along (step : σ → α → σ) (T : σ → α → Prop) : σ → List α → Prop
  | _, [] => True
  | s, a :: as => T s a ∧ Along step T (step s a) as

/-- Every state of the run, the first and the last included, satisfies `P`. -/
def Throughout (step : σ → α → σ) (P : σ → Prop) : σ → List α → Prop
  | s, [] => P s
  | s, a :: as => P s ∧ Throughout step P (step s a) as

instance decidableAlong (step : σ → α → σ) (T : σ → α → Prop) [∀ s a, Decidable (T s a)] :
    ∀ s as, Decidable (Along step T s as)
  | _, [] => inferInstanceAs (Decidable True)
  | s, a :: as =>
    have := decidableAlong step T (step s a) as
    inferInstanceAs (Decidable (T s a ∧ Along step T (step s a) as))

variable {step : σ → α → σ} {T U : σ → α → Prop} {P Q : σ → Prop}

@[simp] theorem run_nil (s : σ) : run step s [] = s := rfl

@[simp] theorem run_cons (s : σ) (a : α) (as : List α) :
    run step s (a :: as) = run step (step s a) as := rfl

theorem run_append (s : σ) (as bs : List α) :
    run step s (as ++ bs) = run step (run step s as) bs := by
  induction as generalizing s with
  | nil => rfl
  | cons a as ih => exact ih (step s a)

@[simp] theorem along_nil (s : σ) : Along step T s [] := trivial

@[simp] theorem along_cons (s : σ) (a : α) (as : List α) :
    Along step T s (a :: as) ↔ T s a ∧ Along step T (step s a) as := Iff.rfl

theorem along_append (s : σ) (as bs : List α) :
    Along step T s (as ++ bs) ↔ Along step T s as ∧ Along step T (run step s as) bs := by
  induction as generalizing s with
  | nil => simp
  | cons a as ih => simp [ih, and_assoc]

/-- A step condition along a run, read at an arbitrary position of it. -/
theorem along_iff_forall_split (s : σ) (as : List α) :
    Along step T s as ↔ ∀ pre a post, as = pre ++ a :: post → T (run step s pre) a := by
  constructor
  · rintro h pre a post rfl
    exact ((along_append s pre (a :: post)).mp h).2.1
  · intro h
    induction as generalizing s with
    | nil => trivial
    | cons a as ih =>
      refine ⟨h [] a as rfl, ih (step s a) ?_⟩
      intro pre b post hb
      exact h (a :: pre) b post (by simp [hb])

theorem Along.mono {s : σ} {as : List α} (h : Along step T s as)
    (hTU : ∀ t a, T t a → U t a) : Along step U s as := by
  induction as generalizing s with
  | nil => trivial
  | cons a as ih => exact ⟨hTU _ _ h.1, ih h.2⟩

theorem Throughout.first {s : σ} {as : List α} (h : Throughout step P s as) : P s := by
  cases as with
  | nil => exact h
  | cons a as => exact h.1

theorem Throughout.mono {s : σ} {as : List α} (h : Throughout step P s as)
    (hPQ : ∀ t, P t → Q t) : Throughout step Q s as := by
  induction as generalizing s with
  | nil => exact hPQ _ h
  | cons a as ih => exact ⟨hPQ _ h.1, ih h.2⟩

theorem Throughout.last {s : σ} {as : List α} (h : Throughout step P s as) :
    P (run step s as) := by
  induction as generalizing s with
  | nil => exact h
  | cons a as ih => exact ih h.2

/-- Every state of a run is the last state of one of its prefixes. -/
theorem throughout_iff_forall_prefix (s : σ) (as : List α) :
    Throughout step P s as ↔ ∀ pre, pre <+: as → P (run step s pre) := by
  constructor
  · rintro h pre ⟨post, rfl⟩
    induction pre generalizing s with
    | nil => exact h.first
    | cons a pre ih => exact ih _ h.2
  · intro h
    induction as generalizing s with
    | nil => exact h [] (List.prefix_refl _)
    | cons a as ih =>
      refine ⟨h [] (List.nil_prefix), ih (step s a) ?_⟩
      intro pre hpre
      exact h (a :: pre) (List.cons_prefix_cons.mpr ⟨rfl, hpre⟩)

/-- An invariant kept by every step that meets `T` holds in every state of a run
whose steps all meet `T`. -/
theorem throughout_of_along {s : σ} {as : List α}
    (hkeep : ∀ t a, P t → T t a → P (step t a)) (hs : P s) (h : Along step T s as) :
    Throughout step P s as := by
  induction as generalizing s with
  | nil => exact hs
  | cons a as ih => exact ⟨hs, ih (hkeep s a hs h.1) h.2⟩

/-- What an invariant gives at each step holds along a run whose steps all meet `T`. -/
theorem along_of_along {s : σ} {as : List α} (hkeep : ∀ t a, P t → T t a → P (step t a))
    (hstep : ∀ t a, P t → T t a → U t a) (hs : P s) (h : Along step T s as) :
    Along step U s as := by
  induction as generalizing s with
  | nil => trivial
  | cons a as ih => exact ⟨hstep s a hs h.1, ih (hkeep s a hs h.1) h.2⟩

/-- An invariant of every step holds in every state of every run. -/
theorem throughout_of_invariant {s : σ} (as : List α)
    (hkeep : ∀ t a, P t → P (step t a)) (hs : P s) : Throughout step P s as := by
  induction as generalizing s with
  | nil => exact hs
  | cons a as ih => exact ⟨hs, ih (hkeep s a hs)⟩

/-- When one step keeps `P` exactly under `U`, a run keeps `P` throughout exactly
when `U` holds along it. `Q` is an invariant, used on the way, of the legal steps `T`
that meet `U`. -/
theorem throughout_iff_along {s : σ} {as : List α}
    (hinv : ∀ t a, Q t → T t a → P t → U t a → Q (step t a))
    (hstep : ∀ t a, Q t → T t a → P t → (P (step t a) ↔ U t a))
    (hQ : Q s) (hP : P s) (hT : Along step T s as) :
    Throughout step P s as ↔ Along step U s as := by
  induction as generalizing s with
  | nil => exact ⟨fun _ => trivial, fun _ => hP⟩
  | cons a as ih =>
    obtain ⟨ha, has⟩ := hT
    have key := hstep s a hQ ha hP
    constructor
    · rintro ⟨-, hrest⟩
      have hnext : P (step s a) := hrest.first
      have hU : U s a := key.mp hnext
      exact ⟨hU, (ih (hinv s a hQ ha hP hU) hnext has).mp hrest⟩
    · rintro ⟨hU, hrest⟩
      have hnext : P (step s a) := key.mpr hU
      exact ⟨hP, (ih (hinv s a hQ ha hP hU) hnext has).mpr hrest⟩

end AsmFlow.Library
