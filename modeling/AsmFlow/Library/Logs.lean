import Mathlib.Data.List.Nodup
import Mathlib.Tactic

/-!
# Logs whose entries are justified by what came before

A log only grows at its end. A condition on an entry and the entries before it
is checked once, when the entry is written; what it says of the finished log,
that some key never repeats or that some kind of entry is rare, follows by
induction on the log.
-/

namespace AsmFlow.Library

variable {ε β : Type*}

/-- Every entry stands in the relation `P` to what was written before it. -/
def Justified (P : List ε → ε → Prop) (log : List ε) : Prop :=
  ∀ pre e post, log = pre ++ e :: post → P pre e

variable {P Q : List ε → ε → Prop} {log : List ε}

theorem justified_nil : Justified P [] := by
  intro pre e post h
  simp at h

theorem justified_concat (e : ε) : Justified P (log ++ [e]) ↔ Justified P log ∧ P log e := by
  constructor
  · intro h
    refine ⟨?_, h log e [] rfl⟩
    rintro pre a post rfl
    exact h pre a (post ++ [e]) (by simp)
  · rintro ⟨hlog, he⟩ pre a post heq
    rcases List.eq_nil_or_concat post with rfl | ⟨post, b, rfl⟩
    · obtain ⟨rfl, hlast⟩ := List.append_inj' heq rfl
      obtain rfl := List.singleton_inj.mp hlast
      exact he
    · have hsplit : log ++ [e] = (pre ++ a :: post) ++ [b] := by simpa using heq
      obtain ⟨rfl, -⟩ := List.append_inj' hsplit rfl
      exact hlog pre a post rfl

/-- Entries that `P` accepts after anything extend a justified log. -/
theorem Justified.append (h : Justified P log) {more : List ε} (hmore : ∀ e ∈ more, ∀ pre, P pre e) :
    Justified P (log ++ more) := by
  induction more using List.reverseRecOn with
  | nil => rwa [List.append_nil]
  | append_singleton more e ih =>
    rw [← List.append_assoc, justified_concat]
    refine ⟨ih fun a ha => hmore a (List.mem_append_left _ ha), ?_⟩
    exact hmore e (by simp) _

theorem Justified.mono (h : Justified P log) (hPQ : ∀ pre e, P pre e → Q pre e) :
    Justified Q log := fun pre e post heq => hPQ pre e (h pre e post heq)

/-- When each entry's key is fresh, no key repeats. -/
theorem Justified.nodup {key : ε → Option β}
    (h : Justified (fun pre e => ∀ b, key e = some b → b ∉ pre.filterMap key) log) :
    (log.filterMap key).Nodup := by
  induction log using List.reverseRecOn with
  | nil => exact List.nodup_nil
  | append_singleton log e ih =>
    obtain ⟨hlog, he⟩ := (justified_concat e).mp h
    rw [List.filterMap_append]
    cases hkey : key e with
    | none => simpa [hkey] using ih hlog
    | some b =>
      have hfresh := he b hkey
      simp only [List.filterMap_cons, hkey, List.filterMap_nil]
      exact (ih hlog).append (List.nodup_singleton b) (by simpa using hfresh)

/-- When each keyed entry finds fewer than `n` before it, there are at most `n`. -/
theorem Justified.length_le {key : ε → Option β} {n : ℕ}
    (h : Justified (fun pre e => ∀ b, key e = some b → (pre.filterMap key).length < n) log) :
    (log.filterMap key).length ≤ n := by
  induction log using List.reverseRecOn with
  | nil => exact Nat.zero_le n
  | append_singleton log e ih =>
    obtain ⟨hlog, he⟩ := (justified_concat e).mp h
    rw [List.filterMap_append, List.length_append]
    cases hkey : key e with
    | none => simpa [hkey] using ih hlog
    | some b =>
      have hroom := he b hkey
      simp only [List.filterMap_cons, hkey, List.filterMap_nil, List.length_singleton]
      omega

end AsmFlow.Library
