import Mathlib.Data.List.Infix
import Mathlib.Tactic

/-!
# Taking a prefix greedily

Elements are taken in order as long as all that has been taken P; the first one that
does not fit ends the taking. When whatever is a prefix of what P P, this takes the
longest prefix that P.
-/

namespace AsmFlow.Library

variable {α : Type*} (P : List α → Prop) [DecidablePred P]

/-- What has been taken when the taking ends, and what is left. -/
def greedyFrom (taken : List α) : List α → List α × List α
  | [] => (taken, [])
  | a :: as =>
    if P (taken ++ [a]) then greedyFrom (taken ++ [a]) as
    else (taken, a :: as)

/-- The prefix that is taken of a list. -/
def greedy (as : List α) : List α := (greedyFrom P [] as).1

attribute [local simp] greedyFrom

theorem greedyFrom_join (taken as : List α) :
    (greedyFrom P taken as).1 ++ (greedyFrom P taken as).2 = taken ++ as := by
  induction as generalizing taken with
  | nil => rfl
  | cons a as ih =>
    simp only [greedyFrom]
    split_ifs
    · simp [ih]
    · rfl

variable {P}

theorem greedyFrom_fits {taken : List α} (as : List α) (h : P taken) :
    P (greedyFrom P taken as).1 := by
  induction as generalizing taken with
  | nil => exact h
  | cons a as ih =>
    simp only [greedyFrom]
    split_ifs with ha
    · exact ih ha
    · exact h

theorem greedyFrom_suffix (taken as : List α) : (greedyFrom P taken as).2 <:+ as := by
  induction as generalizing taken with
  | nil => exact List.suffix_refl []
  | cons a as ih =>
    simp only [greedyFrom]
    split_ifs
    · exact (ih (taken ++ [a])).trans (List.suffix_cons a as)
    · exact List.suffix_refl _

/-- Whatever is left does not fit behind what has been taken. -/
theorem greedyFrom_stops {taken as left : List α} {a : α}
    (h : (greedyFrom P taken as).2 = a :: left) :
    ¬ P ((greedyFrom P taken as).1 ++ [a]) := by
  induction as generalizing taken with
  | nil => simp at h
  | cons b bs ih =>
    simp only [greedyFrom] at h ⊢
    split_ifs at h ⊢ with hb
    · exact ih h
    · simp only [List.cons.injEq] at h
      rwa [h.1] at hb

/-- A second list is reached only when the first one has been taken whole. -/
theorem greedyFrom_append (taken as bs : List α) :
    greedyFrom P taken (as ++ bs) =
      if (greedyFrom P taken as).2 = [] then greedyFrom P (greedyFrom P taken as).1 bs
      else ((greedyFrom P taken as).1, (greedyFrom P taken as).2 ++ bs) := by
  induction as generalizing taken with
  | nil => simp
  | cons a as ih =>
    simp only [List.cons_append, greedyFrom]
    by_cases h : P (taken ++ [a])
    · simp only [h, if_true, ih]
    · simp [h]

theorem greedy_isPrefix (as : List α) : greedy P as <+: as :=
  ⟨(greedyFrom P [] as).2, greedyFrom_join P [] as⟩

theorem greedy_fits (as : List α) (h : P []) : P (greedy P as) :=
  greedyFrom_fits as h

/-- No longer prefix fits. -/
theorem greedy_longest (hclosed : ∀ {p q : List α}, p <+: q → P q → P p)
    {as q : List α} (hq : q <+: as) (hfits : P q) : q <+: greedy P as := by
  have hpre : greedy P as <+: as := greedy_isPrefix as
  rcases List.prefix_or_prefix_of_prefix hq hpre with h | h
  · exact h
  · cases hleft : (greedyFrom P [] as).2 with
    | nil =>
      have hall : greedy P as = as := by
        simpa [greedy, hleft] using greedyFrom_join P [] as
      rwa [hall]
    | cons a left =>
      -- `q` holds the first element left out, and that one does not fit
      obtain ⟨t, rfl⟩ := h
      cases t with
      | nil => simp
      | cons b t =>
        have hjoin : greedy P as ++ a :: left = as := by
          simpa [greedy, hleft] using greedyFrom_join P [] as
        have hab : b = a := by
          obtain ⟨u, hu⟩ := hq
          have hboth := hu.trans hjoin.symm
          rw [List.append_assoc] at hboth
          exact (List.cons.inj (List.append_cancel_left hboth)).1
        subst hab
        have hshort : greedy P as ++ [b] <+: greedy P as ++ b :: t := ⟨t, by simp⟩
        exact absurd (hclosed hshort hfits) (greedyFrom_stops hleft)

/-- Where more fits, no less is taken. -/
theorem greedy_mono {P' : List α → Prop} [DecidablePred P']
    (hclosed : ∀ {p q : List α}, p <+: q → P' q → P' p)
    (hmono : ∀ {q : List α}, P q → P' q) (as : List α) (h : P []) :
    greedy P as <+: greedy P' as :=
  greedy_longest hclosed (greedy_isPrefix as) (hmono (greedy_fits as h))

end AsmFlow.Library
