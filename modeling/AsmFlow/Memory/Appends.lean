import AsmFlow.Memory.Buffer

/-!
# Appends one after the other

A message is appended piece by piece, up to the first piece for which there is no
room. What has been appended of it can be taken back by its start.
-/

namespace AsmFlow.Buffer

/-- Appends in order, up to the first that fails. -/
def appendAll (alloc : ℕ → Bool) (b : Buffer) : List Bytes → Buffer × Status
  | [] => (b, Status.ok)
  | p :: ps =>
    match b.append alloc p with
    | (b, st) => if st < 0 then (b, st) else b.appendAll alloc ps

/-- A smaller length written into `af_buffer.len`. -/
def truncate (b : Buffer) (n : ℕ) : Buffer :=
  ⟨b.data.take n, b.cap, b.max, by
    rw [List.length_take]
    exact le_trans (Nat.min_le_right _ _) b.len_le_cap, b.cap_le_max⟩

/-- All of these find room, one after the other. -/
def Fits (alloc : ℕ → Bool) (b : Buffer) (ps : List Bytes) : Prop :=
  (b.appendAll alloc ps).2 = Status.ok

instance (alloc : ℕ → Bool) (b : Buffer) (ps : List Bytes) : Decidable (b.Fits alloc ps) :=
  inferInstanceAs (Decidable (_ = _))

section Appends

variable {alloc : ℕ → Bool} {b : Buffer}

attribute [local simp] appendAll

@[simp] theorem appendAll_nil : b.appendAll alloc [] = (b, Status.ok) := rfl

theorem appendAll_append (ps qs : List Bytes) :
    b.appendAll alloc (ps ++ qs) =
      if (b.appendAll alloc ps).2 < 0 then b.appendAll alloc ps
      else (b.appendAll alloc ps).1.appendAll alloc qs := by
  induction ps generalizing b with
  | nil =>
    rw [List.nil_append, appendAll_nil, if_neg (by decide : ¬ Status.ok < 0)]
  | cons p ps ih =>
    rw [List.cons_append, appendAll, appendAll]
    cases hp : b.append alloc p with
    | mk b' st =>
      dsimp only
      by_cases hneg : st < 0
      · simp only [if_pos hneg]
      · simp only [if_neg hneg]
        exact ih

/-- Either every piece is appended, or an append fails after some of them. -/
theorem appendAll_cases (alloc : ℕ → Bool) (b : Buffer) (ps : List Bytes) :
    ((b.appendAll alloc ps).2 = Status.ok ∧
        (b.appendAll alloc ps).1.data = b.data ++ ps.flatten) ∨
      ((b.appendAll alloc ps).2 < 0 ∧ ∃ qs, qs <+: ps ∧ qs.length < ps.length ∧
        (b.appendAll alloc ps).1.data = b.data ++ qs.flatten) := by
  induction ps generalizing b with
  | nil => exact Or.inl ⟨rfl, by simp⟩
  | cons p ps ih =>
    rw [appendAll]
    rcases append_cases alloc b p with ⟨b', heq, hdata, -⟩ | ⟨e, he, heq⟩
    · rw [heq]
      dsimp only
      rw [if_neg (by decide)]
      rcases ih (b := b') with ⟨hok, hall⟩ | ⟨hneg, qs, hqs, hlt, hsome⟩
      · exact Or.inl ⟨hok, by rw [hall, hdata]; simp⟩
      · refine Or.inr ⟨hneg, p :: qs, List.cons_prefix_cons.mpr ⟨rfl, hqs⟩, by simpa using hlt, ?_⟩
        rw [hsome, hdata]
        simp
    · rw [heq]
      dsimp only
      rw [if_pos he]
      exact Or.inr ⟨he, [], List.nil_prefix, by simp, by simp⟩

/-- Room for all is room for the first and then for the rest. -/
theorem fits_append (ps qs : List Bytes) :
    b.Fits alloc (ps ++ qs) ↔ b.Fits alloc ps ∧ (b.appendAll alloc ps).1.Fits alloc qs := by
  unfold Fits
  rw [appendAll_append]
  rcases appendAll_cases alloc b ps with ⟨hok, -⟩ | ⟨hneg, -⟩
  · rw [hok, if_neg (by decide)]
    simp
  · have hfull : (b.appendAll alloc ps).2 ≠ Status.ok := by
      intro hok
      rw [hok] at hneg
      exact absurd hneg (by decide : ¬ Status.ok < 0)
    rw [if_pos hneg]
    simp [hfull]

@[simp] theorem appendAll_max (ps : List Bytes) : (b.appendAll alloc ps).1.max = b.max := by
  induction ps generalizing b with
  | nil => rfl
  | cons p ps ih =>
    rw [appendAll]
    cases hp : b.append alloc p with
    | mk b' st =>
      have hmax : b'.max = b.max := by
        rw [← @append_max alloc b p, hp]
      dsimp only
      split_ifs
      · exact hmax
      · rw [ih, hmax]

/-- What the appends added can be taken back. -/
theorem truncate_appendAll (ps : List Bytes) :
    ((b.appendAll alloc ps).1.truncate b.len).data = b.data := by
  have htake (t : Bytes) (h : (b.appendAll alloc ps).1.data = b.data ++ t) :
      ((b.appendAll alloc ps).1.truncate b.len).data = b.data := by
    simp only [truncate, h, len, List.take_left]
  rcases appendAll_cases alloc b ps with ⟨-, hall⟩ | ⟨-, qs, -, -, hsome⟩
  · exact htake _ hall
  · exact htake _ hsome

theorem fits_iff_roomFor (ps : List Bytes) :
    b.Fits alloc ps ↔ roomFor alloc b.max b.len b.cap (ps.map List.length) = true := by
  unfold Fits
  induction ps generalizing b with
  | nil => simp [roomFor]
  | cons p ps ih =>
    rw [appendAll, List.map_cons, roomFor]
    rcases append_eq alloc b p with ⟨b', heq, hlen, hmax, hroom⟩ | ⟨hneg, hroom⟩
    · rw [heq, hroom]
      dsimp only
      rw [if_neg (by decide), ih, hlen, hmax]
    · cases hp : b.append alloc p with
      | mk b' st =>
        rw [hp] at hneg
        dsimp only at hneg ⊢
        rw [if_pos hneg, hroom]
        constructor
        · intro hok
          obtain rfl : st = Status.ok := hok
          exact absurd hneg (by decide : ¬ Status.ok < 0)
        · intro hfalse
          cases hfalse

/-- Where memory is granted, the ceiling alone decides. -/
theorem fits_granting (hmax : b.max < 2 ^ 63) (ps : List Bytes) :
    b.Fits (fun _ => true) ps ↔ b.len + ps.flatten.length ≤ b.max := by
  rw [fits_iff_roomFor, List.length_flatten]
  exact roomFor_granting hmax b.cap_le_max b.len_le_cap _

/-- Below the ceiling, a reservation succeeds where memory is granted up to it. -/
theorem reserve_of_granted {n : ℕ} (hmax : b.max < 2 ^ 63) (hn : b.len + n ≤ b.max)
    (hgranted : ∀ cap ≤ b.max, alloc cap = true) : ∃ room, b.reserve alloc n = .ok room := by
  have hcap := b.cap_le_max
  unfold reserve
  split_ifs
  · exact ⟨_, rfl⟩
  · omega
  · exact ⟨_, rfl⟩
  · omega
  · split
    · rename_i e hgrow
      unfold growSize at hgrow
      split_ifs at hgrow
      omega
    · rename_i cap hgrow
      rw [if_pos (hgranted cap (growSize_spec hgrow).2)]
      exact ⟨_, rfl⟩

end Appends
end AsmFlow.Buffer
