import AsmFlow.Library.Transducer

/-!
# Where joined calls stop

A joined call stands at the position of its last part. So where the joined calls
stop, the single ones have stopped too, at that position or before.
-/

namespace AsmFlow.Library

namespace Transducer

variable {π ι ω : Type*} (T : Transducer π ι ω)

theorem lt_position {p : π} {n : ℕ} {xs : List ι} {o : ω × ℕ} (h : o ∈ T.trace p n xs) :
    n < o.2 := by
  obtain ⟨pre, x, post, -, hm, -⟩ := T.mem_trace (o := o.1) (m := o.2) h
  omega

/-- Outputs stand in the order of their positions. -/
theorem trace_sorted (p : π) (n : ℕ) (xs : List ι) :
    (T.trace p n xs).Pairwise fun o o' => o.2 ≤ o'.2 := by
  induction xs generalizing p n with
  | nil => exact List.Pairwise.nil
  | cons x xs ih =>
    rw [trace_cons]
    refine List.pairwise_append.mpr ⟨?_, ih _ _, fun o ho o' ho' => ?_⟩
    · refine List.Pairwise.imp_mem.mpr (List.pairwise_of_forall fun o o' ho ho' => ?_)
      rw [T.trace_singleton_position p n x o ho, T.trace_singleton_position p n x o' ho']
    · rw [T.trace_singleton_position p n x o ho]
      exact (T.lt_position ho').le

end Transducer

section Perform

variable {σ γ ε : Type*} {act : σ → γ → σ × Option ε} {join : γ → γ → Option γ}

/-- A stop is at the position of one of the calls. -/
theorem mem_of_stops {s t : σ} {cs : List (γ × ℕ)} {e : ε} {n : ℕ}
    (h : perform act s cs = (t, some (e, n))) : ∃ c, (c, n) ∈ cs := by
  induction cs generalizing s with
  | nil => cases h
  | cons x cs ih =>
    obtain ⟨c, k⟩ := x
    rw [perform_cons] at h
    cases hc : (act s c).2 with
    | none =>
      rw [hc] at h
      obtain ⟨d, hd⟩ := ih h
      exact ⟨d, List.mem_cons_of_mem _ hd⟩
    | some f =>
      rw [hc] at h
      obtain ⟨-, rfl⟩ := Prod.mk.inj (Option.some.inj (Prod.mk.inj h).2)
      exact ⟨c, List.mem_cons_self⟩

/-- The calls up to the one that stops, which do all that is done. -/
theorem stops_at {s t : σ} {cs : List (γ × ℕ)} {e : ε} {n : ℕ}
    (h : perform act s cs = (t, some (e, n))) :
    ∃ pre c post, cs = pre ++ (c, n) :: post ∧ (perform act s pre).2 = none ∧
      act (perform act s pre).1 c = (t, some e) := by
  induction cs generalizing s with
  | nil => cases h
  | cons x cs ih =>
    obtain ⟨c, k⟩ := x
    rw [perform_cons] at h
    cases hc : (act s c).2 with
    | none =>
      rw [hc] at h
      obtain ⟨pre, d, post, rfl, hgoes, hstop⟩ := ih h
      refine ⟨(c, k) :: pre, d, post, rfl, ?_, ?_⟩
      · rw [perform_cons, hc]
        exact hgoes
      · rw [perform_cons, hc]
        exact hstop
    | some f =>
      rw [hc] at h
      obtain ⟨hconn, hstop⟩ := Prod.mk.inj h
      obtain ⟨rfl, rfl⟩ := Prod.mk.inj (Option.some.inj hstop)
      exact ⟨[], c, cs, rfl, rfl, Prod.ext hconn hc⟩

theorem joined_eq_nil {cs : List (γ × ℕ)} (h : joined join cs = []) : cs = [] := by
  cases cs with
  | nil => rfl
  | cons x cs =>
    obtain ⟨c, n⟩ := x
    rw [joined] at h
    split at h
    · cases h
    · split at h
      · cases h
      · cases h

/-- Joined calls are cut between calls. -/
theorem cut_of_joined {cs js ks : List (γ × ℕ)} (h : joined join cs = js ++ ks) :
    ∃ xs ys, cs = xs ++ ys ∧ joined join xs = js := by
  induction cs generalizing js with
  | nil =>
    obtain ⟨rfl, -⟩ := List.append_eq_nil_iff.mp h.symm
    exact ⟨[], [], rfl, rfl⟩
  | cons x cs ih =>
    obtain ⟨c, n⟩ := x
    cases js with
    | nil => exact ⟨[], (c, n) :: cs, rfl, rfl⟩
    | cons j js =>
      rw [joined] at h
      rcases hrest : joined join cs with _ | ⟨⟨d, m⟩, ds⟩
      · rw [hrest] at h
        obtain ⟨rfl, htail⟩ := List.cons.inj h
        obtain ⟨rfl, -⟩ := List.append_eq_nil_iff.mp htail.symm
        exact ⟨[(c, n)], cs, rfl, rfl⟩
      · rw [hrest] at h
        dsimp only at h
        cases hcd : join c d with
        | none =>
          rw [hcd] at h
          obtain ⟨rfl, htail⟩ := List.cons.inj h
          obtain ⟨xs, ys, rfl, hxs⟩ := ih (hrest.trans htail)
          refine ⟨(c, n) :: xs, ys, rfl, ?_⟩
          rw [joined, hxs]
          cases js with
          | nil => rfl
          | cons j js =>
            obtain ⟨rfl, -⟩ := List.cons.inj htail
            dsimp only
            rw [hcd]
        | some cd =>
          rw [hcd] at h
          obtain ⟨rfl, htail⟩ := List.cons.inj h
          obtain ⟨xs, ys, rfl, hxs⟩ := ih (show joined join cs = ((d, m) :: js) ++ ks by
            rw [hrest, htail]
            rfl)
          refine ⟨(c, n) :: xs, ys, rfl, ?_⟩
          rw [joined, hxs]
          dsimp only
          rw [hcd]

/-- A joined call stands where its last part does. -/
theorem joined_last (cs : List (γ × ℕ)) :
    (joined join cs).getLast?.map Prod.snd = cs.getLast?.map Prod.snd := by
  induction cs with
  | nil => rfl
  | cons x cs ih =>
    obtain ⟨c, n⟩ := x
    cases cs with
    | nil => rfl
    | cons y cs =>
      rw [joined, List.getLast?_cons_cons, ← ih]
      rcases hrest : joined join (y :: cs) with _ | ⟨⟨d, m⟩, ds⟩
      · cases joined_eq_nil hrest
      · dsimp only
        cases join c d with
        | none => rw [List.getLast?_cons_cons]
        | some cd =>
          cases ds with
          | nil => rfl
          | cons e ds => rw [List.getLast?_cons_cons, List.getLast?_cons_cons]

/-- Where the joined calls stop, the single ones have stopped at that position or before. -/
theorem stops_of_joined {Alike : ε → σ → σ → Prop}
    (htrans : ∀ e s t u, Alike e s t → Alike e t u → Alike e s u)
    (hjoin : ∀ s c d cd n m, join c d = some cd →
      Agree Alike (perform act s [(cd, m)]) (perform act s [(c, n), (d, m)]))
    {s t : σ} {cs : List (γ × ℕ)} (hsorted : cs.Pairwise fun x y => x.2 ≤ y.2) {e : ε} {m : ℕ}
    (h : perform act s (joined join cs) = (t, some (e, m))) :
    ∃ u n, n ≤ m ∧ perform act s cs = (u, some (e, n)) ∧ ((t = u ∧ m = n) ∨ Alike e t u) := by
  obtain ⟨pre, c, post, hcs, hgoes, hstop⟩ := stops_at h
  rw [List.append_cons] at hcs
  obtain ⟨xs, ys, rfl, hxs⟩ := cut_of_joined hcs
  have hfirst : perform act s (joined join xs) = (t, some (e, m)) := by
    rw [hxs, perform_append, hgoes, perform_cons, hstop]
  have hagree := perform_joined htrans hjoin s xs
  rw [hfirst] at hagree
  have hsingle : ∃ u n, perform act s xs = (u, some (e, n)) ∧
      ((t = u ∧ m = n) ∨ Alike e t u) := by
    generalize perform act s xs = r at hagree
    cases hagree with
    | same => exact ⟨t, m, rfl, Or.inl ⟨rfl, rfl⟩⟩
    | stopped halike => exact ⟨_, _, rfl, Or.inr halike⟩
  obtain ⟨u, n, hplain, hu⟩ := hsingle
  refine ⟨u, n, ?_, ?_, hu⟩
  · have hends : ∃ ws d, xs = ws ++ [(d, m)] := by
      have hlast : (joined join xs).getLast?.map Prod.snd = xs.getLast?.map Prod.snd :=
        joined_last xs
      rw [hxs, List.getLast?_concat] at hlast
      obtain ⟨⟨d, k⟩, hd, hk⟩ := Option.map_eq_some_iff.mp hlast.symm
      obtain rfl : k = m := hk
      obtain ⟨ws, hws⟩ := List.getLast?_eq_some_iff.mp hd
      exact ⟨ws, d, hws⟩
    obtain ⟨ws, d, rfl⟩ := hends
    obtain ⟨a, ha⟩ := mem_of_stops hplain
    have hbefore := (List.pairwise_append.mp (List.pairwise_append.mp hsorted).1).2.2
    rcases List.mem_append.mp ha with hin | hlast
    · exact hbefore _ hin _ List.mem_cons_self
    · exact (Prod.mk.inj (List.mem_singleton.mp hlast)).2.le
  · rw [perform_append, hplain]

end Perform
end AsmFlow.Library
