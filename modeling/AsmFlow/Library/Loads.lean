import Mathlib.Tactic

/-!
# Loading a list, one element after the other

A loader may read the elements loaded so far, and fail. Where it succeeds on all,
each element was loaded from its own source, and what every step establishes against
the earlier elements holds of all pairs.
-/

namespace AsmFlow.Library

variable {α β γ ε : Type}

theorem of_bind_ok {x : Except ε α} {f : α → Except ε β} {b : β} (h : (x >>= f) = .ok b) :
    ∃ a, x = .ok a ∧ f a = .ok b := by
  cases x with
  | error e => cases h
  | ok a => exact ⟨a, rfl, h⟩

theorem of_mapError_ok {δ : Type} {x : Except ε α} {f : ε → δ} {a : α}
    (h : x.mapError f = .ok a) : x = .ok a := by
  cases x with
  | error e => cases h
  | ok a => exact congrArg Except.ok (Except.ok.inj h)

/-- Loads in order, behind what is there. -/
def loadAll (load : List β → α → Except ε β) : List β → List α → Except ε (List β)
  | done, [] => .ok done
  | done, a :: as => load done a >>= fun b => loadAll load (done ++ [b]) as

section Loads

variable {load : List β → α → Except ε β} {done bs : List β} {as : List α}

/-- Each element comes from its source. -/
theorem forall₂_of_loadAll {R : α → β → Prop} (hload : ∀ done a b, load done a = .ok b → R a b)
    (h : loadAll load done as = .ok bs) : ∃ new, bs = done ++ new ∧ List.Forall₂ R as new := by
  induction as generalizing done with
  | nil => exact ⟨[], by rw [← Except.ok.inj h, List.append_nil], .nil⟩
  | cons a as ih =>
    obtain ⟨b, hb, hrest⟩ := of_bind_ok h
    obtain ⟨new, rfl, hnew⟩ := ih hrest
    exact ⟨b :: new, by rw [List.append_assoc, List.singleton_append],
      .cons (hload done a b hb) hnew⟩

/-- What a step establishes against the earlier elements holds of all pairs. -/
theorem pairwise_of_loadAll {R : β → β → Prop}
    (hload : ∀ done a b, load done a = .ok b → ∀ d ∈ done, R d b) (hdone : done.Pairwise R)
    (h : loadAll load done as = .ok bs) : bs.Pairwise R := by
  induction as generalizing done with
  | nil => exact Except.ok.inj h ▸ hdone
  | cons a as ih =>
    obtain ⟨b, hb, hrest⟩ := of_bind_ok h
    refine ih ?_ hrest
    rw [List.pairwise_append]
    refine ⟨hdone, List.pairwise_singleton R b, fun d hd x hx => ?_⟩
    rw [List.mem_singleton.mp hx]
    exact hload done a b hb d hd

/-- A loader that keeps a key off the keys of the earlier elements gives distinct keys. -/
theorem nodup_of_loadAll {key : β → γ}
    (hload : ∀ done a b, load done a = .ok b → key b ∉ done.map key)
    (h : loadAll load [] as = .ok bs) : (bs.map key).Nodup := by
  rw [List.Nodup, List.pairwise_map]
  refine pairwise_of_loadAll (fun done a b hb d hd heq => ?_) List.Pairwise.nil h
  exact hload done a b hb (heq ▸ List.mem_map_of_mem hd)

end Loads
end AsmFlow.Library
