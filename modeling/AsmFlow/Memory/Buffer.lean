import AsmFlow.Config.Snapshot
import AsmFlow.Machine.Status

/-!
# The bounded growable buffer

`buffer.asm`. A buffer carries its own ceiling, and an append that does not fit
leaves it as it was. What the allocator answers is asked by the capacity it is
asked for; the capacities a buffer asks for only grow.
-/

namespace AsmFlow

/-- `af_buffer`: the bytes in use, the bytes allocated, the ceiling. -/
structure Buffer where
  data : Bytes
  cap : ℕ
  max : ℕ
  len_le_cap : data.length ≤ cap
  cap_le_max : cap ≤ max

/-- `af_grow_size`: doubling, never below what is needed, never above the ceiling. -/
def growSize (current needed max : ℕ) : Except Status ℕ :=
  if max < needed then .error .limit
  else if current = 0 then .ok (min (Nat.max 64 needed) max)
  else if 2 ^ 64 ≤ current + current then .error .overflow
  else .ok (min (Nat.max (current + current) needed) max)

theorem growSize_spec {current needed max cap : ℕ} (h : growSize current needed max = .ok cap) :
    needed ≤ cap ∧ cap ≤ max := by
  unfold growSize at h
  split_ifs at h with hfits
  · obtain rfl := Except.ok.inj h
    exact ⟨le_min (Nat.le_max_right _ _) (not_lt.mp hfits), min_le_right _ _⟩
  · obtain rfl := Except.ok.inj h
    exact ⟨le_min (Nat.le_max_right _ _) (not_lt.mp hfits), min_le_right _ _⟩

theorem growSize_neg {current needed max : ℕ} {e : Status}
    (h : growSize current needed max = .error e) : e < 0 := by
  unfold growSize at h
  split_ifs at h
  · obtain rfl := Except.error.inj h
    decide
  · obtain rfl := Except.error.inj h
    decide

namespace Buffer

/-- `af_buf_init`. -/
def init (max : ℕ) : Buffer := ⟨[], 0, max, le_refl 0, Nat.zero_le max⟩

def len (b : Buffer) : ℕ := b.data.length

/-- The same buffer, with room for `n` more bytes. -/
structure Roomy (b : Buffer) (n : ℕ) where
  cap : ℕ
  room : b.len + n ≤ cap
  cap_le_max : cap ≤ b.max

/-- `af_buf_reserve`. -/
def reserve (alloc : ℕ → Bool) (b : Buffer) (n : ℕ) : Except Status (b.Roomy n) :=
  if hzero : n = 0 then .ok ⟨b.cap, by rw [hzero]; exact b.len_le_cap, b.cap_le_max⟩
  else if 2 ^ 64 ≤ b.len + n then .error .overflow
  else if hcap : b.len + n ≤ b.cap then .ok ⟨b.cap, hcap, b.cap_le_max⟩
  else if b.max < b.len + n then .error .limit
  else
    match hgrow : growSize b.cap (b.len + n) b.max with
    | .error e => .error e
    | .ok cap =>
      if alloc cap then .ok ⟨cap, (growSize_spec hgrow).1, (growSize_spec hgrow).2⟩
      else .error .nomem

/-- `af_buf_append`; `af_buf_append_cstr` and `af_buf_append_u64` are this on the
characters of the string and of the number. -/
def append (alloc : ℕ → Bool) (b : Buffer) (p : Bytes) : Buffer × Status :=
  match b.reserve alloc p.length with
  | .error e => (b, e)
  | .ok room =>
    (⟨b.data ++ p, room.cap, b.max, by rw [List.length_append]; exact room.room, room.cap_le_max⟩,
      .ok)

/-- `af_buf_append_byte`. -/
def appendByte (alloc : ℕ → Bool) (b : Buffer) (c : UInt8) : Buffer × Status := b.append alloc [c]

/-- `af_buf_consume`: bytes leave at the front. -/
def consume (b : Buffer) (n : ℕ) : Buffer × Status :=
  if b.len < n then (b, .range)
  else
    (⟨b.data.drop n, b.cap, b.max, le_trans (by rw [List.length_drop]; exact Nat.sub_le _ _)
      b.len_le_cap, b.cap_le_max⟩, .ok)

/-- `af_buf_clear`: the allocation stays. -/
def clear (b : Buffer) : Buffer := ⟨[], b.cap, b.max, Nat.zero_le _, b.cap_le_max⟩

section Append

variable {alloc : ℕ → Bool} {b : Buffer} {p : Bytes}

theorem reserve_neg {n : ℕ} {e : Status} (h : b.reserve alloc n = .error e) : e < 0 := by
  unfold reserve at h
  split_ifs at h
  · obtain rfl := Except.error.inj h
    decide
  · obtain rfl := Except.error.inj h
    decide
  · split at h
    · rename_i e' hgrow
      obtain rfl := Except.error.inj h
      exact growSize_neg hgrow
    · split_ifs at h
      obtain rfl := Except.error.inj h
      decide

/-- An append adds all of its bytes, or is refused and changes nothing. -/
theorem append_cases (alloc : ℕ → Bool) (b : Buffer) (p : Bytes) :
    (∃ b', b.append alloc p = (b', .ok) ∧ b'.data = b.data ++ p ∧ b'.max = b.max) ∨
      ∃ e < 0, b.append alloc p = (b, e) := by
  unfold append
  cases hroom : b.reserve alloc p.length with
  | error e => exact Or.inr ⟨e, reserve_neg hroom, rfl⟩
  | ok room => exact Or.inl ⟨_, rfl, rfl, rfl⟩

theorem append_of_ok (h : 0 ≤ (b.append alloc p).2) :
    (b.append alloc p).1.data = b.data ++ p ∧ (b.append alloc p).1.max = b.max := by
  rcases append_cases alloc b p with ⟨b', heq, hdata, hmax⟩ | ⟨e, he, heq⟩
  · rw [heq]
    exact ⟨hdata, hmax⟩
  · rw [heq] at h
    exact absurd he (not_lt.mpr h)

theorem append_of_neg (h : (b.append alloc p).2 < 0) : (b.append alloc p).1 = b := by
  rcases append_cases alloc b p with ⟨b', heq, -, -⟩ | ⟨e, -, heq⟩
  · rw [heq] at h
    exact absurd h (by decide : ¬Status.ok < 0)
  · rw [heq]

@[simp] theorem append_max : (b.append alloc p).1.max = b.max := by
  rcases append_cases alloc b p with ⟨b', heq, -, hmax⟩ | ⟨e, -, heq⟩
  · rw [heq]
    exact hmax
  · rw [heq]

theorem consume_of_le {n : ℕ} (h : n ≤ b.len) :
    (b.consume n).2 = .ok ∧ (b.consume n).1.data = b.data.drop n := by
  unfold consume
  rw [if_neg (not_lt.mpr h)]
  exact ⟨rfl, rfl⟩

@[simp] theorem clear_data (b : Buffer) : b.clear.data = [] := rfl

end Append

/-- The capacity after an append of `n` bytes, when there is room for them. -/
def roomAfter (alloc : ℕ → Bool) (max len cap n : ℕ) : Option ℕ :=
  if n = 0 then some cap
  else if 2 ^ 64 ≤ len + n then none
  else if len + n ≤ cap then some cap
  else if max < len + n then none
  else
    match growSize cap (len + n) max with
    | .error _ => none
    | .ok grown => if alloc grown then some grown else none

/-- Whether there is room for appends of these sizes, one after the other. -/
def roomFor (alloc : ℕ → Bool) (max : ℕ) : ℕ → ℕ → List ℕ → Bool
  | _, _, [] => true
  | len, cap, n :: ns =>
    match roomAfter alloc max len cap n with
    | none => false
    | some cap => roomFor alloc max (len + n) cap ns

section Room

variable {alloc : ℕ → Bool} {max len cap : ℕ}

theorem reserve_eq (alloc : ℕ → Bool) (b : Buffer) (n : ℕ) :
    (∃ room, b.reserve alloc n = .ok room ∧ roomAfter alloc b.max b.len b.cap n = some room.cap) ∨
      ∃ e, b.reserve alloc n = .error e ∧ roomAfter alloc b.max b.len b.cap n = none := by
  unfold reserve roomAfter
  by_cases hzero : n = 0
  · rw [dif_pos hzero, if_pos hzero]
    exact Or.inl ⟨_, rfl, rfl⟩
  · rw [dif_neg hzero, if_neg hzero]
    by_cases hover : 2 ^ 64 ≤ b.len + n
    · rw [if_pos hover, if_pos hover]
      exact Or.inr ⟨_, rfl, rfl⟩
    · rw [if_neg hover, if_neg hover]
      by_cases hcap : b.len + n ≤ b.cap
      · rw [dif_pos hcap, if_pos hcap]
        exact Or.inl ⟨_, rfl, rfl⟩
      · rw [dif_neg hcap, if_neg hcap]
        by_cases hmax : b.max < b.len + n
        · rw [if_pos hmax, if_pos hmax]
          exact Or.inr ⟨_, rfl, rfl⟩
        · rw [if_neg hmax, if_neg hmax]
          split
          · rename_i e hgrow
            rw [hgrow]
            exact Or.inr ⟨_, rfl, rfl⟩
          · rename_i grown hgrow
            by_cases hgranted : alloc grown = true
            · rw [if_pos hgranted]
              refine Or.inl ⟨_, rfl, ?_⟩
              simp only [hgrow]
              exact if_pos hgranted
            · rw [if_neg hgranted]
              refine Or.inr ⟨_, rfl, ?_⟩
              simp only [hgrow]
              exact if_neg hgranted

/-- What an append does is decided by sizes alone. -/
theorem append_eq (alloc : ℕ → Bool) (b : Buffer) (p : Bytes) :
    (∃ b', b.append alloc p = (b', .ok) ∧ b'.len = b.len + p.length ∧ b'.max = b.max ∧
        roomAfter alloc b.max b.len b.cap p.length = some b'.cap) ∨
      ((b.append alloc p).2 < 0 ∧ roomAfter alloc b.max b.len b.cap p.length = none) := by
  unfold append
  rcases reserve_eq alloc b p.length with ⟨room, heq, hroom⟩ | ⟨e, heq, hroom⟩
  · rw [heq]
    exact Or.inl ⟨_, rfl, List.length_append, rfl, hroom⟩
  · rw [heq]
    exact Or.inr ⟨reserve_neg heq, hroom⟩

/-- An allocator that grants what a buffer may ask for leaves the ceiling. -/
theorem roomAfter_granting (halloc : ∀ k ≤ max, alloc k = true) (hmax : max < 2 ^ 63)
    (hcap : cap ≤ max) (hlen : len ≤ cap) (n : ℕ) :
    (∃ grown, roomAfter alloc max len cap n = some grown ∧ len + n ≤ grown ∧ grown ≤ max) ∨
      (roomAfter alloc max len cap n = none ∧ max < len + n) := by
  unfold roomAfter
  split_ifs with hzero hover hfits hbig
  · left
    exact ⟨cap, rfl, by omega, hcap⟩
  · right
    exact ⟨rfl, by omega⟩
  · left
    exact ⟨cap, rfl, hfits, hcap⟩
  · right
    exact ⟨rfl, hbig⟩
  · left
    cases hgrow : growSize cap (len + n) max with
    | error e =>
      exfalso
      unfold growSize at hgrow
      split_ifs at hgrow
      omega
    | ok grown =>
      obtain ⟨hneeded, hle⟩ := growSize_spec hgrow
      exact ⟨grown, if_pos (halloc grown hle), hneeded, hle⟩

/-- There an append fails exactly when it would pass the ceiling. -/
theorem append_granting {b : Buffer} (halloc : ∀ k ≤ b.max, alloc k = true)
    (hmax : b.max < 2 ^ 63) (p : Bytes) :
    (∃ b', b.append alloc p = (b', .ok) ∧ b'.data = b.data ++ p ∧ b'.max = b.max ∧
        b.len + p.length ≤ b.max) ∨
      (∃ e < 0, b.append alloc p = (b, e)) ∧ b.max < b.len + p.length := by
  have hroom := roomAfter_granting halloc hmax b.cap_le_max b.len_le_cap p.length
  change (∃ grown, roomAfter alloc b.max b.len b.cap p.length = some grown ∧
    b.len + p.length ≤ grown ∧ grown ≤ b.max) ∨ _ at hroom
  rcases append_cases alloc b p with ⟨b', heq, hdata, hmax'⟩ | ⟨e, he, heq⟩
  · have hle := b'.len_le_cap.trans b'.cap_le_max
    rw [hdata, hmax', List.length_append] at hle
    exact Or.inl ⟨b', heq, hdata, hmax', hle⟩
  · refine Or.inr ⟨⟨e, he, heq⟩, ?_⟩
    rcases append_eq alloc b p with ⟨b', heq', -⟩ | ⟨-, hnone⟩
    · rw [heq'] at heq
      rw [← (Prod.mk.inj heq).2] at he
      exact absurd he (by decide)
    · rcases hroom with ⟨grown, hsome, -⟩ | ⟨-, hbig⟩
      · rw [hnone] at hsome
        cases hsome
      · exact hbig

theorem roomFor_granting (hmax : max < 2 ^ 63) (hcap : cap ≤ max) (hlen : len ≤ cap)
    (sizes : List ℕ) :
    roomFor (fun _ => true) max len cap sizes = true ↔ len + sizes.sum ≤ max := by
  induction sizes generalizing len cap with
  | nil =>
    simp only [roomFor, List.sum_nil, Nat.add_zero, true_iff]
    exact le_trans hlen hcap
  | cons n ns ih =>
    rw [roomFor, List.sum_cons]
    rcases roomAfter_granting (fun _ _ => rfl) hmax hcap hlen n with ⟨grown, heq, hroom, hle⟩ | ⟨heq, hbig⟩
    · rw [heq]
      dsimp only
      rw [ih hle hroom, Nat.add_assoc]
    · rw [heq]
      dsimp only
      constructor
      · intro hfalse
        cases hfalse
      · intro hfits
        omega

end Room
end Buffer
end AsmFlow
