import AsmFlow.Library.Cells
import AsmFlow.Library.Runs
import AsmFlow.Memory.Buffer

/-!
# The buffer over its block

`buffer.asm` again, with the block that `data` points to: what is in use is the
front of the block, an append copies behind it, a consume moves the rest down
inside it. The bounded buffer is what this storage shows, whatever the
allocator answers and whatever it leaves in fresh memory.
-/

namespace AsmFlow

open Library

/-- `af_mem_copy`, both regions in one block: quadwords, then single bytes. -/
def memCopyBytes : ℕ → Bytes → ℕ → ℕ → Bytes
  | 0, mem, _, _ => mem
  | n + 1, mem, dst, src => memCopyBytes n (store mem dst (load mem src 1)) (dst + 1) (src + 1)

def memCopy (mem : Bytes) (dst src n : ℕ) : Bytes :=
  if n < 8 then memCopyBytes n mem dst src
  else memCopy (store mem dst (load mem src 8)) (dst + 8) (src + 8) (n - 8)
termination_by n

section Copy

variable {mem : Bytes} {dst src n : ℕ}

theorem memCopyBytes_eq (hdst : dst ≤ src) (h : src + n ≤ mem.length) :
    memCopyBytes n mem dst src = store mem dst (load mem src n) := by
  induction n generalizing mem dst src with
  | zero => simp [memCopyBytes, store, load]
  | succ n ih =>
    have hone : (load mem src 1).length = 1 := length_load (by omega)
    have hkept : (store mem dst (load mem src 1)).length = mem.length :=
      length_store (by rw [hone]; omega)
    rw [memCopyBytes, ih (by omega) (by rw [hkept]; omega), copy_step hdst (by omega),
      Nat.add_comm]

/-- A forward copy to a lower place arrives whole, overlap or not. -/
theorem memCopy_eq (hdst : dst ≤ src) (h : src + n ≤ mem.length) :
    memCopy mem dst src n = store mem dst (load mem src n) := by
  induction n using Nat.strong_induction_on generalizing mem dst src with
  | _ n ih =>
    rw [memCopy]
    split_ifs with hsmall
    · exact memCopyBytes_eq hdst h
    · have height : (load mem src 8).length = 8 := length_load (by omega)
      have hkept : (store mem dst (load mem src 8)).length = mem.length :=
        length_store (by rw [height]; omega)
      rw [ih (n - 8) (by omega) (by omega) (by rw [hkept]; omega), copy_step hdst (by omega),
        Nat.add_sub_cancel' (not_lt.mp hsmall)]

end Copy

/-- What one call of `af_realloc` meets: the sizes it grants, and what it leaves
in the memory it adds. No block reaches `2 ^ 63` bytes. -/
structure Allocator where
  grants : ℕ → Bool
  junk : ℕ → UInt8
  lt_of_grants : ∀ n, grants n = true → n < 2 ^ 63

/-- `af_realloc`: the old bytes stay, as far as the new size reaches. -/
def Allocator.realloc (a : Allocator) (mem : Bytes) (size : ℕ) : Option Bytes :=
  if a.grants size then some ((List.range size).map fun i => mem.getD i (a.junk i)) else none

/-- `af_buffer` and the block behind `data`. -/
structure Storage where
  mem : Bytes
  len : ℕ
  cap : ℕ
  max : ℕ

namespace Storage

/-- `af_buf_init`: zero never means unlimited. -/
def init (max : UInt64) : Except Status Storage :=
  if max = 0 then .error .invalid else .ok ⟨[], 0, 0, max.toNat⟩

/-- The bytes in use. -/
def content (s : Storage) : Bytes := s.mem.take s.len

/-- `af_buf_reserve`. -/
def reserve (a : Allocator) (s : Storage) (n : ℕ) : Storage × Status :=
  if n = 0 then (s, .ok)
  else if 2 ^ 64 ≤ s.len + n then (s, .overflow)
  else if s.len + n ≤ s.cap then (s, .ok)
  else if s.max < s.len + n then (s, .limit)
  else
    match growSize s.cap (s.len + n) s.max with
    | .error e => (s, e)
    | .ok cap =>
      match a.realloc s.mem cap with
      | none => (s, .nomem)
      | some mem => ({ s with mem := mem, cap := cap }, .ok)

/-- `af_buf_append`. -/
def append (a : Allocator) (s : Storage) (p : Bytes) : Storage × Status :=
  if p = [] then (s, .ok)
  else
    match s.reserve a p.length with
    | (s, e) =>
      if e < 0 then (s, e)
      else ({ s with mem := store s.mem s.len p, len := s.len + p.length }, .ok)

/-- `af_buf_append_byte`. -/
def appendByte (a : Allocator) (s : Storage) (c : UInt8) : Storage × Status :=
  match s.reserve a 1 with
  | (s, e) =>
    if e < 0 then (s, e) else ({ s with mem := store s.mem s.len [c], len := s.len + 1 }, .ok)

/-- `af_buf_consume`: the rest moves down to the front of the block. -/
def consume (s : Storage) (n : ℕ) : Storage × Status :=
  if s.len < n then (s, .range)
  else if n = s.len then ({ s with len := 0 }, .ok)
  else ({ s with mem := memCopy s.mem 0 n (s.len - n), len := s.len - n }, .ok)

/-- `af_buf_clear`. -/
def clear (s : Storage) : Storage := { s with len := 0 }

end Storage

/-- A call on a buffer, with the allocator it meets. -/
inductive BufferOp where
  | append (a : Allocator) (p : Bytes)
  | appendByte (a : Allocator) (c : UInt8)
  | reserve (a : Allocator) (n : ℕ)
  | consume (n : ℕ)
  | clear

namespace Storage

/-- The state and the status a call leaves. -/
def call (s : Storage) : BufferOp → Storage × Status
  | .append a p => s.append a p
  | .appendByte a c => s.appendByte a c
  | .reserve a n => s.reserve a n
  | .consume n => s.consume n
  | .clear => (s.clear, .ok)

def step (s : Storage) (op : BufferOp) : Storage := (s.call op).1

end Storage

/-- The storage shows the buffer `b`. -/
structure Storage.Backs (s : Storage) (b : Buffer) : Prop where
  content_eq : s.content = b.data
  len_eq : s.len = b.len
  cap_eq : s.cap = b.cap
  max_eq : s.max = b.max
  length_mem : s.mem.length = s.cap
  cap_lt : s.cap < 2 ^ 63

/-- The buffer after a reservation. -/
def Buffer.reserved (alloc : ℕ → Bool) (b : Buffer) (n : ℕ) : Buffer × Status :=
  match b.reserve alloc n with
  | .error e => (b, e)
  | .ok room =>
    (⟨b.data, room.cap, b.max, le_trans (Nat.le_add_right _ _) room.room, room.cap_le_max⟩, .ok)

/-- The same call on the bounded buffer. -/
def Buffer.call (b : Buffer) : BufferOp → Buffer × Status
  | .append a p => b.append a.grants p
  | .appendByte a c => b.appendByte a.grants c
  | .reserve a n => b.reserved a.grants n
  | .consume n => b.consume n
  | .clear => (b.clear, .ok)

namespace Storage

variable {s : Storage} {b : Buffer} {a : Allocator}

theorem Backs.len_le (h : s.Backs b) : s.len ≤ s.mem.length := by
  rw [h.len_eq, h.length_mem, h.cap_eq]
  exact b.len_le_cap

/-- The block a reservation leaves keeps the bytes in use. -/
theorem realloc_spec {mem grown : Bytes} {size n : ℕ} (hn : n ≤ mem.length) (hsize : n ≤ size)
    (h : a.realloc mem size = some grown) :
    grown.length = size ∧ grown.take n = mem.take n ∧ a.grants size = true := by
  unfold Allocator.realloc at h
  split_ifs at h with hgrants
  obtain rfl := Option.some.inj h
  refine ⟨by simp, ?_, hgrants⟩
  apply List.ext_getElem
  · simp only [List.length_take, List.length_map, List.length_range]
    omega
  · intro i hleft hright
    have hi : i < mem.length := by
      rw [List.length_take] at hright
      omega
    simp [hi]

/-- The capacity a granted reservation leaves. -/
def reservedCap (a : Allocator) (s : Storage) (n : ℕ) : Except Status ℕ :=
  if n = 0 then .ok s.cap
  else if 2 ^ 64 ≤ s.len + n then .error .overflow
  else if s.len + n ≤ s.cap then .ok s.cap
  else if s.max < s.len + n then .error .limit
  else
    match growSize s.cap (s.len + n) s.max with
    | .error e => .error e
    | .ok cap => if a.grants cap then .ok cap else .error .nomem

theorem reserve_cases (h : s.Backs b) (a : Allocator) (n : ℕ) :
    (∃ s' : Storage, s.reserve a n = (s', .ok) ∧ s.reservedCap a n = .ok s'.cap ∧
        s'.content = s.content ∧ s'.len = s.len ∧ s'.max = s.max ∧
        s'.mem.length = s'.cap ∧ s'.cap < 2 ^ 63) ∨
      ∃ e < 0, s.reserve a n = (s, e) ∧ s.reservedCap a n = .error e := by
  unfold reserve reservedCap
  split_ifs with hzero hover hfits hbig
  · exact Or.inl ⟨s, rfl, rfl, rfl, rfl, rfl, h.length_mem, h.cap_lt⟩
  · exact Or.inr ⟨.overflow, by decide, rfl, rfl⟩
  · exact Or.inl ⟨s, rfl, rfl, rfl, rfl, rfl, h.length_mem, h.cap_lt⟩
  · exact Or.inr ⟨.limit, by decide, rfl, rfl⟩
  · cases hgrow : growSize s.cap (s.len + n) s.max with
    | error e => exact Or.inr ⟨e, growSize_neg hgrow, rfl, rfl⟩
    | ok cap =>
      have hsize : s.len ≤ cap := le_trans (Nat.le_add_right _ _) (growSize_spec hgrow).1
      cases hmem : a.realloc s.mem cap with
      | none =>
        have hrefused : ¬a.grants cap = true := by
          unfold Allocator.realloc at hmem
          split_ifs at hmem with hgrants
          exact hgrants
        refine Or.inr ⟨.nomem, by decide, ?_, ?_⟩
        · dsimp only
          rw [hmem]
        · dsimp only
          rw [if_neg hrefused]
      | some grown =>
        obtain ⟨hlength, hkept, hgrants⟩ := realloc_spec h.len_le hsize hmem
        refine Or.inl ⟨{ s with mem := grown, cap := cap }, ?_, ?_, hkept, rfl, rfl, hlength,
          a.lt_of_grants cap hgrants⟩
        · dsimp only
          rw [hmem]
        · dsimp only
          rw [if_pos hgrants]

/-- The bounded buffer reserves the same. -/
theorem Backs.reservedCap_eq (h : s.Backs b) (a : Allocator) (n : ℕ) :
    s.reservedCap a n = (b.reserve a.grants n).map fun room => room.cap := by
  unfold reservedCap Buffer.reserve
  rw [h.len_eq, h.cap_eq, h.max_eq]
  split_ifs with hzero hover hfits hbig
  · rfl
  · rfl
  · rfl
  · rfl
  · split
    · rename_i e hgrow
      split
      · rename_i e' hgrow'
        rw [hgrow] at hgrow'
        rw [Except.error.inj hgrow']
        rfl
      · rename_i cap hgrow'
        rw [hgrow] at hgrow'
        cases hgrow'
    · rename_i cap hgrow
      by_cases hgrants : a.grants cap = true
      · rw [if_pos hgrants]
        split
        · rename_i e' hgrow'
          rw [hgrow] at hgrow'
          cases hgrow'
        · rename_i cap' hgrow'
          rw [hgrow] at hgrow'
          obtain rfl := Except.ok.inj hgrow'
          rw [if_pos hgrants]
          rfl
      · rw [if_neg hgrants]
        split
        · rename_i e' hgrow'
          rw [hgrow] at hgrow'
          cases hgrow'
        · rename_i cap' hgrow'
          rw [hgrow] at hgrow'
          obtain rfl := Except.ok.inj hgrow'
          rw [if_neg hgrants]
          rfl

/-- A reservation on the storage and on the buffer: both grant the same room,
or both refuse with the same status. -/
theorem Backs.reserve (h : s.Backs b) (a : Allocator) (n : ℕ) :
    (∃ (s' : Storage) (room : b.Roomy n), s.reserve a n = (s', .ok) ∧
        b.reserve a.grants n = .ok room ∧ s'.content = b.data ∧ s'.len = b.len ∧
        s'.cap = room.cap ∧ s'.max = b.max ∧ s'.mem.length = s'.cap ∧ s'.cap < 2 ^ 63) ∨
      ∃ e < 0, s.reserve a n = (s, e) ∧ b.reserve a.grants n = .error e := by
  have hsame := h.reservedCap_eq a n
  rcases reserve_cases h a n with ⟨s', heq, hcap, hcontent, hlen, hmax, hmem, hlt⟩ | ⟨e, he, heq, hcap⟩
  · rw [hcap] at hsame
    cases hroom : b.reserve a.grants n with
    | error e =>
      rw [hroom] at hsame
      cases hsame
    | ok room =>
      rw [hroom] at hsame
      exact Or.inl ⟨s', room, heq, rfl, hcontent.trans h.content_eq, hlen.trans h.len_eq,
        Except.ok.inj hsame, hmax.trans h.max_eq, hmem, hlt⟩
  · rw [hcap] at hsame
    cases hroom : b.reserve a.grants n with
    | error e' =>
      rw [hroom] at hsame
      obtain rfl := Except.error.inj hsame
      exact Or.inr ⟨e, he, heq, rfl⟩
    | ok room =>
      rw [hroom] at hsame
      cases hsame

theorem content_store {mem p : Bytes} {len cap max : ℕ} (h : len ≤ mem.length) :
    (⟨store mem len p, len + p.length, cap, max⟩ : Storage).content = mem.take len ++ p :=
  take_store h

theorem Backs.append (h : s.Backs b) (a : Allocator) (p : Bytes) :
    (s.append a p).2 = (b.append a.grants p).2 ∧
      (s.append a p).1.Backs (b.append a.grants p).1 := by
  unfold Storage.append Buffer.append
  rcases h.reserve a p.length with
    ⟨s', room, heq, hroom, hcontent, hlen, hcap, hmax, hmem, hlt⟩ | ⟨e, he, heq, hroom⟩
  · by_cases hp : p = []
    · have hkept : s.reserve a p.length = (s, .ok) := by
        rw [hp]
        rfl
      obtain rfl : s = s' := congrArg Prod.fst (hkept.symm.trans heq)
      rw [if_pos hp, hroom]
      refine ⟨rfl, ?_, ?_, hcap, hmax, hmem, hlt⟩
      · change s.content = b.data ++ p
        rw [hp, List.append_nil]
        exact hcontent
      · change s.len = (b.data ++ p).length
        rw [hp, List.append_nil]
        exact hlen
    · rw [if_neg hp, heq, hroom]
      have hfits : s'.len + p.length ≤ s'.mem.length := by
        rw [hlen, hmem, hcap]
        exact room.room
      have hfront : s'.len ≤ s'.mem.length := le_trans (Nat.le_add_right _ _) hfits
      refine ⟨rfl, ?_, ?_, hcap, hmax, ?_, hlt⟩
      · exact (content_store hfront).trans (congrArg (· ++ p) hcontent)
      · change s'.len + p.length = (b.data ++ p).length
        rw [hlen, List.length_append]
        rfl
      · exact (length_store hfits).trans hmem
  · have hp : ¬p = [] := by
      rintro rfl
      have hkept : s.reserve a 0 = (s, .ok) := rfl
      have hstatus : Status.ok = e := congrArg Prod.snd (hkept.symm.trans heq)
      rw [← hstatus] at he
      exact absurd he (by decide)
    rw [if_neg hp, heq, hroom]
    dsimp only
    rw [if_pos he]
    exact ⟨rfl, h⟩

theorem appendByte_eq (s : Storage) (a : Allocator) (c : UInt8) :
    s.appendByte a c = s.append a [c] := rfl

theorem Backs.reserved (h : s.Backs b) (a : Allocator) (n : ℕ) :
    (s.reserve a n).2 = (b.reserved a.grants n).2 ∧
      (s.reserve a n).1.Backs (b.reserved a.grants n).1 := by
  unfold Buffer.reserved
  rcases h.reserve a n with
    ⟨s', room, heq, hroom, hcontent, hlen, hcap, hmax, hmem, hlt⟩ | ⟨e, -, heq, hroom⟩
  · rw [heq, hroom]
    exact ⟨rfl, hcontent, hlen, hcap, hmax, hmem, hlt⟩
  · rw [heq, hroom]
    exact ⟨rfl, h⟩

theorem Backs.consume (h : s.Backs b) (n : ℕ) :
    (s.consume n).2 = (b.consume n).2 ∧ (s.consume n).1.Backs (b.consume n).1 := by
  have hdata : s.mem.take s.len = b.data := h.content_eq
  have hfront : s.len ≤ s.mem.length := h.len_le
  unfold Storage.consume Buffer.consume
  rw [← h.len_eq]
  by_cases hshort : s.len < n
  · rw [if_pos hshort, if_pos hshort]
    exact ⟨rfl, h⟩
  · rw [if_neg hshort, if_neg hshort]
    by_cases hall : n = s.len
    · rw [if_pos hall]
      have hgone : b.data.drop n = [] := by
        rw [List.drop_eq_nil_iff, hall, h.len_eq]
        rfl
      refine ⟨rfl, ?_, ?_, h.cap_eq, h.max_eq, h.length_mem, h.cap_lt⟩
      · change s.mem.take 0 = b.data.drop n
        rw [hgone]
        rfl
      · change 0 = (b.data.drop n).length
        rw [hgone]
        rfl
    · rw [if_neg hall, memCopy_eq (Nat.zero_le n) (by omega)]
      have hread : (load s.mem n (s.len - n)).length = s.len - n := length_load (by omega)
      refine ⟨rfl, ?_, ?_, h.cap_eq, h.max_eq, ?_, h.cap_lt⟩
      · have hmoved := take_store (p := load s.mem n (s.len - n)) (Nat.zero_le s.mem.length)
        rw [hread, Nat.zero_add] at hmoved
        change (store s.mem 0 (load s.mem n (s.len - n))).take (s.len - n) = b.data.drop n
        rw [hmoved, ← hdata, List.drop_take]
        rfl
      · change s.len - n = (b.data.drop n).length
        rw [List.length_drop, h.len_eq]
        rfl
      · change (store s.mem 0 (load s.mem n (s.len - n))).length = s.cap
        rw [length_store (by rw [hread]; omega), h.length_mem]

theorem Backs.clear (h : s.Backs b) : s.clear.Backs b.clear :=
  ⟨rfl, rfl, h.cap_eq, h.max_eq, h.length_mem, h.cap_lt⟩

/-- Every call does on the storage what it does on the bounded buffer. -/
theorem Backs.call (h : s.Backs b) (op : BufferOp) :
    (s.call op).2 = (b.call op).2 ∧ (s.call op).1.Backs (b.call op).1 := by
  cases op with
  | append a p => exact h.append a p
  | appendByte a c => exact h.append a [c]
  | reserve a n => exact h.reserved a n
  | consume n => exact h.consume n
  | clear => exact ⟨rfl, h.clear⟩

end Storage

/-- The byte queue, told how a call was answered. -/
def queueStep (q : Bytes) : BufferOp × Status → Bytes
  | (op, e) =>
    if e < 0 then q
    else
      match op with
      | .append _ p => q ++ p
      | .appendByte _ c => q ++ [c]
      | .reserve _ _ => q
      | .consume n => q.drop n
      | .clear => []

section Queue

variable {s : Storage} {b : Buffer} {a : Allocator}

theorem Buffer.reserved_spec (alloc : ℕ → Bool) (b : Buffer) (n : ℕ) :
    (b.reserved alloc n).1.data = b.data ∧ (b.reserved alloc n).1.max = b.max := by
  unfold Buffer.reserved
  cases b.reserve alloc n with
  | error e => exact ⟨rfl, rfl⟩
  | ok room => exact ⟨rfl, rfl⟩

/-- The bounded buffer is the queue, and a refused call leaves it as it was. -/
theorem Buffer.call_spec (b : Buffer) (op : BufferOp) :
    (b.call op).1.data = queueStep b.data (op, (b.call op).2) ∧ (b.call op).1.max = b.max := by
  have happend : ∀ (a : Allocator) (p : Bytes),
      (b.append a.grants p).1.data =
        (if (b.append a.grants p).2 < 0 then b.data else b.data ++ p) ∧
      (b.append a.grants p).1.max = b.max := by
    intro a p
    rcases b.append_cases a.grants p with ⟨b', heq, hdata, hmax⟩ | ⟨e, he, heq⟩
    · rw [heq, if_neg (by simp [Status.ok])]
      exact ⟨hdata, hmax⟩
    · rw [heq, if_pos he]
      exact ⟨rfl, rfl⟩
  cases op with
  | append a p => exact happend a p
  | appendByte a c => exact happend a [c]
  | reserve a n =>
    obtain ⟨hdata, hmax⟩ := b.reserved_spec a.grants n
    refine ⟨?_, hmax⟩
    change (b.reserved a.grants n).1.data = if _ then b.data else b.data
    rw [ite_self]
    exact hdata
  | consume n =>
    change (b.consume n).1.data = (if (b.consume n).2 < 0 then b.data else b.data.drop n) ∧
      (b.consume n).1.max = b.max
    unfold Buffer.consume
    by_cases hshort : b.len < n
    · rw [if_pos hshort]
      exact ⟨rfl, rfl⟩
    · rw [if_neg hshort]
      exact ⟨rfl, rfl⟩
  | clear => exact ⟨rfl, rfl⟩

/-- Within the ceiling only the allocator refuses. -/
theorem Buffer.reserve_of_le {n : ℕ} (hmax : b.max < 2 ^ 64) (hcap : b.cap < 2 ^ 63)
    (hfits : b.len + n ≤ b.max) :
    (∃ room, b.reserve a.grants n = .ok room) ∨
      b.reserve a.grants n = .error .nomem ∧ ∃ size ≤ b.max, a.grants size = false := by
  unfold Buffer.reserve
  split_ifs with hzero hover hroom hbig
  · exact Or.inl ⟨_, rfl⟩
  · omega
  · exact Or.inl ⟨_, rfl⟩
  · omega
  · split
    · rename_i e hgrow
      exfalso
      unfold growSize at hgrow
      split_ifs at hgrow
      omega
    · rename_i cap hgrow
      split_ifs with hgrants
      · exact Or.inl ⟨_, rfl⟩
      · exact Or.inr ⟨rfl, cap, (growSize_spec hgrow).2, eq_false_of_ne_true hgrants⟩

theorem Buffer.reserve_of_lt {n : ℕ} (hbig : b.max < b.len + n) :
    ∃ e < 0, b.reserve a.grants n = .error e := by
  cases hreserve : b.reserve a.grants n with
  | error e => exact ⟨e, reserve_neg hreserve, rfl⟩
  | ok room => exact absurd (le_trans room.room room.cap_le_max) (not_le.mpr hbig)

namespace Storage

/-- How each call of a run was answered. -/
def answers : Storage → List BufferOp → List (BufferOp × Status)
  | _, [] => []
  | s, op :: ops => (op, (s.call op).2) :: (s.step op).answers ops

theorem backs_init {max : UInt64} (h : init max = .ok s) : s.Backs (Buffer.init max.toNat) := by
  unfold init at h
  split_ifs at h
  obtain rfl := Except.ok.inj h
  exact ⟨rfl, rfl, rfl, rfl, rfl, Nat.two_pow_pos 63⟩

/-- Every run shows the buffer, and that buffer holds the queue of the answers. -/
theorem Backs.run (h : s.Backs b) (ops : List BufferOp) :
    ∃ b' : Buffer, (run step s ops).Backs b' ∧ b'.max = b.max ∧
      b'.data = (s.answers ops).foldl queueStep b.data := by
  induction ops generalizing s b with
  | nil => exact ⟨b, h, rfl, rfl⟩
  | cons op ops ih =>
    obtain ⟨hstatus, hnext⟩ := h.call op
    obtain ⟨hdata, hmax⟩ := b.call_spec op
    obtain ⟨b', hbacks, hmax', hdata'⟩ := ih hnext
    refine ⟨b', hbacks, hmax'.trans hmax, ?_⟩
    rw [hdata', answers, List.foldl_cons, hstatus, hdata]
    rfl

/-- A refused call leaves content and length. -/
theorem Backs.refused (h : s.Backs b) (op : BufferOp) (he : (s.call op).2 < 0) :
    (s.step op).content = s.content ∧ (s.step op).len = s.len := by
  obtain ⟨hstatus, hnext⟩ := h.call op
  have hkept : (b.call op).1.data = b.data := by
    rw [(b.call_spec op).1, ← hstatus]
    exact if_pos he
  refine ⟨(hnext.content_eq.trans hkept).trans h.content_eq.symm, ?_⟩
  rw [step, hnext.len_eq, h.len_eq]
  exact congrArg List.length hkept

/-- An append within the ceiling is granted unless the allocator refuses. -/
theorem Backs.append_of_le (h : s.Backs b) (hmax : b.max < 2 ^ 64) {p : Bytes}
    (hfits : s.len + p.length ≤ b.max) :
    ((s.append a p).2 = .ok ∧ (s.append a p).1.len = s.len + p.length) ∨
      ((s.append a p).2 = .nomem ∧ ∃ size ≤ b.max, a.grants size = false) := by
  obtain ⟨hstatus, hnext⟩ := h.append a p
  have hcap : b.cap < 2 ^ 63 := by
    rw [← h.cap_eq]
    exact h.cap_lt
  rw [h.len_eq] at hfits
  rcases Buffer.reserve_of_le (a := a) hmax hcap hfits with ⟨room, hroom⟩ | ⟨hroom, hrefused⟩
  · have happend : b.append a.grants p = (⟨b.data ++ p, room.cap, b.max,
        by rw [List.length_append]; exact room.room, room.cap_le_max⟩, .ok) := by
      unfold Buffer.append
      rw [hroom]
    left
    rw [happend] at hstatus hnext
    refine ⟨hstatus, ?_⟩
    rw [hnext.len_eq, h.len_eq]
    exact List.length_append
  · right
    refine ⟨?_, hrefused⟩
    rw [hstatus]
    unfold Buffer.append
    rw [hroom]

theorem Backs.append_of_lt (h : s.Backs b) {p : Bytes} (hbig : b.max < s.len + p.length) :
    (s.append a p).2 < 0 := by
  rw [h.len_eq] at hbig
  obtain ⟨e, he, hroom⟩ := Buffer.reserve_of_lt (a := a) hbig
  rw [(h.append a p).1]
  unfold Buffer.append
  rw [hroom]
  exact he

/-- The storage is a byte queue with a ceiling: after any calls, with any
allocator at each of them, the bytes in use are the queue of the granted calls;
a refused call changes nothing; the ceiling can be reached, never passed. -/
theorem refines_queue {max : UInt64} {s : Storage} (hinit : init max = .ok s)
    (ops : List BufferOp) :
    let t := Library.run step s ops
    t.len ≤ t.cap ∧ t.cap ≤ t.max ∧ t.max = max.toNat ∧
      t.content = (s.answers ops).foldl queueStep [] ∧ t.content.length = t.len ∧
      (∀ op, (t.call op).2 < 0 → (t.step op).content = t.content ∧ (t.step op).len = t.len) ∧
      (∀ a p, t.len + p.length ≤ max.toNat →
        ((t.append a p).2 = .ok ∧ (t.append a p).1.len = t.len + p.length) ∨
          ((t.append a p).2 = .nomem ∧ ∃ size ≤ max.toNat, a.grants size = false)) ∧
      ∀ a p, max.toNat < t.len + p.length → (t.append a p).2 < 0 := by
  intro t
  obtain ⟨b, hbacks, hmax, hdata⟩ := (backs_init hinit).run ops
  have hceiling : b.max = max.toNat := hmax
  have hlt : b.max < 2 ^ 64 := by
    rw [hceiling]
    exact max.toNat_lt
  refine ⟨?_, ?_, ?_, ?_, ?_, ?_, ?_, ?_⟩
  · rw [hbacks.len_eq, hbacks.cap_eq]
    exact b.len_le_cap
  · rw [hbacks.cap_eq, hbacks.max_eq]
    exact b.cap_le_max
  · exact hbacks.max_eq.trans hceiling
  · exact hbacks.content_eq.trans hdata
  · exact List.length_take_of_le hbacks.len_le
  · intro op he
    exact hbacks.refused op he
  · intro a p hfits
    rw [← hceiling] at hfits ⊢
    exact hbacks.append_of_le hlt hfits
  · intro a p hbig
    rw [← hceiling] at hbig
    exact hbacks.append_of_lt hbig

/-- An allocator that grants every block there can be, and clears it. -/
def roomy : Allocator := ⟨fun n => decide (n < 2 ^ 63), fun _ => 0, fun _ h => of_decide_eq_true h⟩

theorem refines_queue_three :
    let t := Library.run step ⟨[], 0, 0, 3⟩ [.append roomy [1, 2], .consume 1, .append roomy [3, 4]]
    t.content = [2, 3, 4] ∧ t.max = 3 ∧ (t.append roomy [5]).2 < 0 := by
  intro t
  have hinit : init 3 = .ok ⟨[], 0, 0, 3⟩ := rfl
  obtain ⟨-, -, hmax, hcontent, hlength, -, -, hbeyond⟩ :=
    refines_queue hinit [.append roomy [1, 2], .consume 1, .append roomy [3, 4]]
  have hqueue : t.content = [2, 3, 4] := hcontent.trans (by decide)
  have hfull : t.len = 3 := by
    rw [← hlength]
    exact congrArg List.length hqueue
  refine ⟨hqueue, hmax, hbeyond roomy [5] ?_⟩
  change 3 < t.len + 1
  rw [hfull]
  decide

end Storage

end Queue

end AsmFlow
