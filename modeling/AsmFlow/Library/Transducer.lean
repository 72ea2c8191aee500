import Mathlib.Tactic

/-!
# Incremental machines and the calls they make

A transducer answers every input with outputs. Its outputs are handed, as calls,
to a state that may stop the sequence. Calls that stand next to each other may
be made as one: where the joined call does what the two do, up to states that
are alike once the sequence has stopped, joining them makes no difference.
-/

namespace AsmFlow.Library

/-- A machine that reads one input at a time. -/
structure Transducer (π ι ω : Type*) where
  next : π → ι → π × List ω

namespace Transducer

variable {π ι ω : Type*} (T : Transducer π ι ω)

/-- The state after some inputs. -/
def after (p : π) (xs : List ι) : π := xs.foldl (fun p x => (T.next p x).1) p

/-- The outputs, each with the number of inputs read by then. -/
def trace : π → ℕ → List ι → List (ω × ℕ)
  | _, _, [] => []
  | p, n, x :: xs =>
    ((T.next p x).2.map fun o => (o, n + 1)) ++ trace (T.next p x).1 (n + 1) xs

attribute [local simp] trace

@[simp] theorem after_nil (p : π) : T.after p [] = p := rfl

@[simp] theorem after_cons (p : π) (x : ι) (xs : List ι) :
    T.after p (x :: xs) = T.after (T.next p x).1 xs := rfl

@[simp] theorem trace_nil (p : π) (n : ℕ) : T.trace p n [] = [] := rfl

theorem trace_cons (p : π) (n : ℕ) (x : ι) (xs : List ι) :
    T.trace p n (x :: xs) = T.trace p n [x] ++ T.trace (T.next p x).1 (n + 1) xs := by
  simp [trace]

theorem trace_singleton_position (p : π) (n : ℕ) (x : ι) : ∀ o ∈ T.trace p n [x], o.2 = n + 1 := by
  intro o ho
  simp only [trace, List.append_nil, List.mem_map] at ho
  obtain ⟨out, -, rfl⟩ := ho
  rfl

/-- Every output belongs to an input, and stands at its position. -/
theorem mem_trace {p : π} {n m : ℕ} {xs : List ι} {o : ω} (h : (o, m) ∈ T.trace p n xs) :
    ∃ pre x post, xs = pre ++ x :: post ∧ m = n + pre.length + 1 ∧
      o ∈ (T.next (T.after p pre) x).2 := by
  induction xs generalizing p n with
  | nil => cases h
  | cons x xs ih =>
    rw [trace, List.mem_append] at h
    rcases h with h | h
    · obtain ⟨out, hout, heq⟩ := List.mem_map.mp h
      obtain ⟨rfl, rfl⟩ := Prod.mk.inj heq
      exact ⟨[], x, xs, rfl, rfl, hout⟩
    · obtain ⟨pre, y, post, rfl, hm, ho⟩ := ih h
      refine ⟨x :: pre, y, post, rfl, ?_, ho⟩
      rw [List.length_cons]
      omega

/-- Counting from elsewhere shifts the positions. -/
theorem trace_shift (p : π) (k n : ℕ) (xs : List ι) :
    T.trace p (k + n) xs = (T.trace p n xs).map fun o => (o.1, k + o.2) := by
  induction xs generalizing p n with
  | nil => rfl
  | cons x xs ih =>
    simp only [trace, List.map_append, List.map_map]
    rw [Nat.add_assoc, ih]
    rfl

end Transducer

section Perform

variable {σ γ ε : Type*} {act : σ → γ → σ × Option ε}

/-- Makes the calls, up to the first that stops the sequence. -/
def perform (act : σ → γ → σ × Option ε) : σ → List (γ × ℕ) → σ × Option (ε × ℕ)
  | s, [] => (s, none)
  | s, (c, n) :: cs =>
    match act s c with
    | (s, none) => perform act s cs
    | (s, some e) => (s, some (e, n))

theorem perform_cons (s : σ) (c : γ) (n : ℕ) (cs : List (γ × ℕ)) :
    perform act s ((c, n) :: cs) =
      match (act s c).2 with
      | none => perform act (act s c).1 cs
      | some e => ((act s c).1, some (e, n)) := by
  rw [perform]
  rcases act s c with ⟨t, _ | e⟩ <;> rfl

theorem perform_append (s : σ) (xs ys : List (γ × ℕ)) :
    perform act s (xs ++ ys) =
      match (perform act s xs).2 with
      | none => perform act (perform act s xs).1 ys
      | some stop => ((perform act s xs).1, some stop) := by
  induction xs generalizing s with
  | nil => rfl
  | cons x xs ih =>
    obtain ⟨c, n⟩ := x
    rw [List.cons_append, perform_cons, perform_cons]
    cases (act s c).2 with
    | none => exact ih _
    | some e => rfl

/-- Positions do not decide what is done. -/
theorem perform_shift (s : σ) (f : ℕ → ℕ) (xs : List (γ × ℕ)) :
    perform act s (xs.map fun o => (o.1, f o.2)) =
      ((perform act s xs).1, (perform act s xs).2.map fun stop => (stop.1, f stop.2)) := by
  induction xs generalizing s with
  | nil => rfl
  | cons x xs ih =>
    obtain ⟨c, n⟩ := x
    rw [List.map_cons, perform_cons, perform_cons]
    cases (act s c).2 with
    | none => exact ih _
    | some e => rfl

/-- Calls that all stand at one position stop there. -/
theorem perform_position {m : ℕ} {xs : List (γ × ℕ)} (h : ∀ x ∈ xs, x.2 = m) {s t : σ} {e : ε}
    {n : ℕ} (hstop : perform act s xs = (t, some (e, n))) : n = m := by
  induction xs generalizing s with
  | nil => cases hstop
  | cons x xs ih =>
    obtain ⟨c, k⟩ := x
    rw [perform_cons] at hstop
    cases hc : (act s c).2 with
    | none =>
      rw [hc] at hstop
      exact ih (fun x hx => h x (List.mem_cons_of_mem _ hx)) hstop
    | some f =>
      rw [hc] at hstop
      have hk : k = n := (Prod.mk.inj (Option.some.inj (Prod.mk.inj hstop).2)).2
      rw [← hk]
      exact h (c, k) List.mem_cons_self

/-- A fact that calls keep, whether or not they stop. -/
theorem perform_invariant {P : σ → Prop} (hkeep : ∀ s c, P s → P (act s c).1) {s : σ}
    (hs : P s) (cs : List (γ × ℕ)) : P (perform act s cs).1 := by
  induction cs generalizing s with
  | nil => exact hs
  | cons x cs ih =>
    obtain ⟨c, n⟩ := x
    rw [perform_cons]
    cases (act s c).2 with
    | none => exact ih (hkeep s c hs)
    | some e => exact hkeep s c hs

/-- The same outcome, or the same stop in states that are alike. -/
inductive Agree (Alike : ε → σ → σ → Prop) :
    σ × Option (ε × ℕ) → σ × Option (ε × ℕ) → Prop
  | same (r : σ × Option (ε × ℕ)) : Agree Alike r r
  | stopped {s t : σ} {e : ε} {m n : ℕ} (h : Alike e s t) :
      Agree Alike (s, some (e, m)) (t, some (e, n))

variable {Alike : ε → σ → σ → Prop}

theorem Agree.trans (htrans : ∀ e s t u, Alike e s t → Alike e t u → Alike e s u)
    {r₁ r₂ r₃ : σ × Option (ε × ℕ)} (h₁ : Agree Alike r₁ r₂) (h₂ : Agree Alike r₂ r₃) :
    Agree Alike r₁ r₃ := by
  cases h₁ with
  | same => exact h₂
  | stopped h =>
    cases h₂ with
    | same => exact .stopped h
    | stopped h' => exact .stopped (htrans _ _ _ _ h h')

theorem Agree.shift {r₁ r₂ : σ × Option (ε × ℕ)} (h : Agree Alike r₁ r₂) (f : ℕ → ℕ) :
    Agree Alike (r₁.1, r₁.2.map fun stop => (stop.1, f stop.2))
      (r₂.1, r₂.2.map fun stop => (stop.1, f stop.2)) := by
  cases h with
  | same => exact .same _
  | stopped halike => exact .stopped halike

theorem Agree.append {s : σ} {xs ys : List (γ × ℕ)}
    (h : Agree Alike (perform act s xs) (perform act s ys)) (zs : List (γ × ℕ)) :
    Agree Alike (perform act s (xs ++ zs)) (perform act s (ys ++ zs)) := by
  rw [perform_append, perform_append]
  generalize perform act s xs = r₁ at h
  generalize perform act s ys = r₂ at h
  cases h with
  | same => exact .same _
  | stopped halike => exact .stopped halike

theorem Agree.cons {s : σ} {xs ys : List (γ × ℕ)} (c : γ) (n : ℕ)
    (h : ∀ t, Agree Alike (perform act t xs) (perform act t ys)) :
    Agree Alike (perform act s ((c, n) :: xs)) (perform act s ((c, n) :: ys)) := by
  rw [perform_cons, perform_cons]
  cases (act s c).2 with
  | none => exact h _
  | some e => exact .same _

/-- Joins what may be joined; a joined call stands where its last part stood. -/
def joined (join : γ → γ → Option γ) : List (γ × ℕ) → List (γ × ℕ)
  | [] => []
  | (c, n) :: cs =>
    match joined join cs with
    | [] => [(c, n)]
    | (d, m) :: ds =>
      match join c d with
      | none => (c, n) :: (d, m) :: ds
      | some cd => (cd, m) :: ds

/-- Calls that all stand at one position are joined there. -/
theorem joined_position {join : γ → γ → Option γ} {m : ℕ} {xs : List (γ × ℕ)}
    (h : ∀ x ∈ xs, x.2 = m) : ∀ x ∈ joined join xs, x.2 = m := by
  induction xs with
  | nil => exact h
  | cons x xs ih =>
    obtain ⟨c, n⟩ := x
    have hn : n = m := h (c, n) List.mem_cons_self
    have hrest := ih fun x hx => h x (List.mem_cons_of_mem _ hx)
    rw [joined]
    rcases hjoined : joined join xs with _ | ⟨⟨d, k⟩, ds⟩
    · simpa using hn
    · rw [hjoined] at hrest
      dsimp only
      obtain ⟨hk, hds⟩ := List.forall_mem_cons.mp hrest
      cases join c d with
      | none => exact List.forall_mem_cons.mpr ⟨hn, hrest⟩
      | some cd => exact List.forall_mem_cons.mpr ⟨hk, hds⟩

/-- Calls may be joined where one joined call agrees with the two it stands for. -/
theorem perform_joined {join : γ → γ → Option γ}
    (htrans : ∀ e s t u, Alike e s t → Alike e t u → Alike e s u)
    (hjoin : ∀ s c d cd n m, join c d = some cd →
      Agree Alike (perform act s [(cd, m)]) (perform act s [(c, n), (d, m)]))
    (s : σ) (cs : List (γ × ℕ)) :
    Agree Alike (perform act s (joined join cs)) (perform act s cs) := by
  induction cs generalizing s with
  | nil => exact .same _
  | cons x cs ih =>
    obtain ⟨c, n⟩ := x
    have hrest : Agree Alike (perform act s ((c, n) :: joined join cs))
        (perform act s ((c, n) :: cs)) := Agree.cons c n ih
    have hfirst : Agree Alike (perform act s (joined join ((c, n) :: cs)))
        (perform act s ((c, n) :: joined join cs)) := by
      rw [joined]
      rcases joined join cs with _ | ⟨⟨d, m⟩, ds⟩
      · exact .same _
      · cases hcd : join c d with
        | none =>
          simp only [hcd]
          exact .same _
        | some cd =>
          simp only [hcd]
          exact (hjoin s c d cd n m hcd).append ds
    exact hfirst.trans htrans hrest

end Perform
end AsmFlow.Library
