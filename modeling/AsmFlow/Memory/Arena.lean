import AsmFlow.Library.Runs
import AsmFlow.Machine.Status
import Mathlib.Data.Nat.Bitwise
import Mathlib.Tactic

/-!
# The request arena

`arena.asm`: allocations are cut off the newest chunk, a chunk that has no room
left is followed by a new one, and all of them are released together.
-/

namespace AsmFlow

open Library

/-- `af_add_size`. -/
def addSize (a b : ℕ) : Option ℕ := if 2 ^ 64 ≤ a + b then none else some (a + b)

/-- `sub` of one register from another. -/
def wordSub (a b : ℕ) : ℕ := (a + 2 ^ 64 - b % 2 ^ 64) % 2 ^ 64

/-- `af_align_up`. -/
def alignUp (value alignment : ℕ) : Option ℕ :=
  if alignment = 0 then none
  else if alignment &&& (alignment - 1) ≠ 0 then none
  else if 2 ^ 64 ≤ value + (alignment - 1) then none
  else some ((value + (alignment - 1)) &&& (2 ^ 64 - 1 - (alignment - 1)))

/-- `af_arena_chunk`; the list of the arena stands for the links. -/
structure Chunk where
  addr : ℕ
  cap : ℕ
  used : ℕ
  mapSize : ℕ

/-- `CHUNK_HDR`. -/
def chunkHdr : ℕ := 32

/-- `af_arena`, the newest chunk first. -/
structure Arena where
  chunks : List Chunk
  chunkSize : ℕ
  total : ℕ
  max : ℕ
  finalized : Bool
  allocCount : ℕ

/-- What `.try_chunk` finds. -/
inductive Attempt
  | fail
  | full
  | fits (p used : ℕ)

/-- The end of an allocation in the payload, against the capacity. -/
def Chunk.place (c : Chunk) (p offset size : ℕ) : Attempt :=
  match addSize offset size with
  | none => .fail
  | some used => if c.cap < used then .full else .fits p used

/-- `.try_chunk`: the absolute address is what is aligned. -/
def Chunk.attempt (c : Chunk) (size align : ℕ) : Attempt :=
  match alignUp ((c.addr + chunkHdr + c.used) % 2 ^ 64) align with
  | none => .fail
  | some p => c.place p (wordSub p (c.addr + chunkHdr)) size

/-- How a call ends: it may ask the system for memory, and it panics on an arena
that was finalized. -/
inductive ArenaOutcome
  | asks
  | panics
  | returns (a : Arena) (p : ℕ)

namespace Arena

/-- `af_arena_init`. -/
def init (chunkSize max : ℕ) : Except Status Arena :=
  if max = 0 then .error .invalid
  else
    let chunkSize := if 4096 ≤ chunkSize then chunkSize else 4096
    .ok ⟨[], if chunkSize ≤ max then chunkSize else max, 0, max, false, 0⟩

/-- A chunk holds its header, the allocation and the slack of its alignment. -/
def chunkBytes (chunkSize size align : ℕ) : Option ℕ :=
  (addSize size align).bind fun payload =>
    (addSize payload chunkHdr).map fun least => if chunkSize ≤ least then least else chunkSize

/-- `.new_chunk` up to the ceiling: how many bytes the chunk gets. -/
def reserve (guard : Bool) (a : Arena) (size align : ℕ) : Option ℕ :=
  (chunkBytes a.chunkSize size align).bind fun bytes =>
    -- whole pages, so that the ceiling is for what is mapped
    (if guard then alignUp bytes 4096 else some bytes).bind fun bytes =>
      (addSize a.total bytes).bind fun total => if a.max < total then none else some bytes

/-- The chunk for an answer of the system: what `malloc` gives behind the header of
`af_alloc`, or what `mmap` gives. -/
def block (guard : Bool) (bytes answer : ℕ) : Option ℕ :=
  if guard then if 2 ^ 64 - 4096 < answer then none else some answer
  else if bytes = 0 then none
  else if 2 ^ 64 ≤ bytes + 16 then none
  else if answer = 0 then none
  else some (answer + 16)

/-- A chunk of which nothing is used. -/
def fresh (guard : Bool) (p bytes : ℕ) : Chunk :=
  ⟨p, bytes - chunkHdr, 0, if guard then bytes else 0⟩

/-- `.link_chunk`. -/
def link (guard : Bool) (a : Arena) (p bytes : ℕ) : Arena :=
  { a with chunks := fresh guard p bytes :: a.chunks, total := a.total + bytes }

/-- The allocation is cut off the newest chunk. -/
def take (a : Arena) (used : ℕ) : Arena :=
  { a with
    chunks :=
      match a.chunks with
      | [] => []
      | c :: rest => { c with used } :: rest
    allocCount := a.allocCount + 1 }

/-- `.new_chunk`, and `.try_chunk` behind it, with the answers of the system to come. -/
def newChunk (guard : Bool) (size align : ℕ) : Arena → List ℕ → ArenaOutcome
  | a, answers =>
    match a.reserve guard size align with
    | none => .returns a 0
    | some bytes =>
      match answers with
      | [] => .asks
      | answer :: answers =>
        match block guard bytes answer with
        | none => .returns a 0
        | some p =>
          match (fresh guard p bytes).attempt size align with
          | .fail => .returns (a.link guard p bytes) 0
          | .fits q used => .returns ((a.link guard p bytes).take used) q
          | .full => newChunk guard size align (a.link guard p bytes) answers

/-- The alignment of a request: zero is treated as eight. -/
def alignment (align : ℕ) : ℕ := if align = 0 then 8 else align

/-- `af_arena_alloc`. -/
def alloc (guard : Bool) (a : Arena) (size align : ℕ) (answers : List ℕ) : ArenaOutcome :=
  if size = 0 then .returns a 0
  else if a.finalized then .panics
  else
    match a.chunks with
    | [] => newChunk guard size (alignment align) a answers
    | c :: _ =>
      match c.attempt size (alignment align) with
      | .fail => .returns a 0
      | .fits p used => .returns (a.take used) p
      | .full => newChunk guard size (alignment align) a answers

/-- `af_arena_reset`. -/
def reset (a : Arena) : Arena := { a with chunks := [], total := 0, allocCount := 0 }

/-- `af_arena_finalize`. -/
def finalize (a : Arena) : Arena := { a.reset with finalized := true }

end Arena

/-! ## Alignment -/

theorem addSize_eq_some {a b n : ℕ} (h : addSize a b = some n) : n = a + b ∧ a + b < 2 ^ 64 := by
  unfold addSize at h
  split_ifs at h with hcarry
  exact ⟨(Option.some.inj h).symm, not_le.mp hcarry⟩

theorem wordSub_eq {a b : ℕ} (hb : b ≤ a) (ha : a < 2 ^ 64) : wordSub a b = a - b := by
  have hsum : a + 2 ^ 64 - b = a - b + 2 ^ 64 := Nat.sub_add_comm hb
  rw [wordSub, Nat.mod_eq_of_lt (lt_of_le_of_lt hb ha), hsum, Nat.add_mod_right,
    Nat.mod_eq_of_lt (lt_of_le_of_lt (Nat.sub_le a b) ha)]

theorem and_mask {x k : ℕ} (hx : x < 2 ^ 64) (hk : k ≤ 64) :
    x &&& (2 ^ 64 - 1 - (2 ^ k - 1)) = x / 2 ^ k * 2 ^ k := by
  have hpow : 2 ^ (64 - k) * 2 ^ k = 2 ^ 64 := by rw [← Nat.pow_add, Nat.sub_add_cancel hk]
  have hmask : 2 ^ 64 - 1 - (2 ^ k - 1) = (2 ^ (64 - k) - 1) * 2 ^ k := by
    have hpos := Nat.two_pow_pos k
    rw [Nat.sub_mul, Nat.one_mul, hpow]
    omega
  refine Nat.eq_of_testBit_eq fun i => ?_
  rw [hmask, Nat.testBit_and, Nat.testBit_mul_two_pow, Nat.testBit_mul_two_pow,
    Nat.testBit_two_pow_sub_one]
  by_cases hi : k ≤ i
  · rw [Nat.testBit_div_two_pow, Nat.sub_add_cancel hi]
    by_cases hlow : i < 64
    · simp [hi, show i - k < 64 - k by omega]
    · rw [Nat.testBit_lt_two_pow (hx.trans_le (Nat.pow_le_pow_right (by decide) (by omega)))]
      simp
  · simp [hi]

/-- The next multiple of a power of two, at most one short of it further. -/
theorem alignUp_spec {v a p : ℕ} (h : alignUp v a = some p) :
    0 < a ∧ a ∣ p ∧ v ≤ p ∧ p ≤ v + (a - 1) ∧ v + (a - 1) < 2 ^ 64 := by
  unfold alignUp at h
  split_ifs at h with hzero hpower hcarry
  obtain ⟨k, rfl⟩ := (Nat.and_sub_one_eq_zero_iff_isPowerOfTwo hzero).mp (not_not.mp hpower)
  have hk : k ≤ 64 :=
    (Nat.pow_le_pow_iff_right (show 1 < 2 by decide)).mp (show 2 ^ k ≤ 2 ^ 64 by omega)
  rw [and_mask (not_le.mp hcarry) hk] at h
  obtain rfl := Option.some.inj h
  have hpos : 0 < 2 ^ k := Nat.two_pow_pos k
  have hdiv := Nat.div_add_mod' (v + (2 ^ k - 1)) (2 ^ k)
  have hmod := Nat.mod_lt (v + (2 ^ k - 1)) hpos
  exact ⟨hpos, Nat.dvd_mul_left _ _, by omega, by omega, not_le.mp hcarry⟩

/-! ## One chunk -/

/-- Two extents that share no byte. -/
def Apart (p n q m : ℕ) : Prop := p + n ≤ q ∨ q + m ≤ p

instance (p n q m : ℕ) : Decidable (Apart p n q m) := inferInstanceAs (Decidable (_ ∨ _))

theorem Apart.inner {p n q m p' n' q' m' : ℕ} (h : Apart p n q m)
    (hp : p ≤ p' ∧ p' + n' ≤ p + n) (hq : q ≤ q' ∧ q' + m' ≤ q + m) : Apart p' n' q' m' := by
  rcases h with h | h
  · exact Or.inl (by omega)
  · exact Or.inr (by omega)

namespace Chunk

/-- How many bytes the chunk is of. -/
def bytes (c : Chunk) : ℕ := c.cap + chunkHdr

/-- A chunk lies in the address space, and no more of it is used than there is. -/
structure Sound (c : Chunk) : Prop where
  addr_pos : 0 < c.addr
  end_lt : c.addr + c.bytes < 2 ^ 64
  used_le : c.used ≤ c.cap

theorem place_cases (c : Chunk) (p offset size : ℕ) :
    c.place p offset size = .fail ∨
    c.place p offset size =
      if c.cap < offset + size then .full else .fits p (offset + size) := by
  unfold place
  cases hadd : addSize offset size with
  | none => exact Or.inl rfl
  | some n =>
    obtain ⟨rfl, -⟩ := addSize_eq_some hadd
    exact Or.inr rfl

/-- An allocation is at the first aligned address behind what is used. -/
theorem attempt_cases {c : Chunk} (hc : c.Sound) (size align : ℕ) :
    c.attempt size align = .fail ∨
    ∃ p, align ∣ p ∧ c.addr + chunkHdr + c.used ≤ p ∧
      p ≤ c.addr + chunkHdr + c.used + (align - 1) ∧ 0 < align ∧
      c.attempt size align =
        if c.cap < p - (c.addr + chunkHdr) + size then .full
        else .fits p (p - (c.addr + chunkHdr) + size) := by
  have hend := hc.end_lt
  have hused := hc.used_le
  unfold bytes at hend
  have hattempt : c.attempt size align =
      match alignUp (c.addr + chunkHdr + c.used) align with
      | none => .fail
      | some p => c.place p (wordSub p (c.addr + chunkHdr)) size := by
    rw [attempt, Nat.mod_eq_of_lt (show c.addr + chunkHdr + c.used < 2 ^ 64 by omega)]
  cases hup : alignUp (c.addr + chunkHdr + c.used) align with
  | none =>
    rw [hup] at hattempt
    exact Or.inl hattempt
  | some p =>
    obtain ⟨hpos, hdvd, hle, hnear, hlt⟩ := alignUp_spec hup
    have hplaced : c.attempt size align = c.place p (wordSub p (c.addr + chunkHdr)) size := by
      rw [hattempt, hup]
    have hbase : c.addr + chunkHdr ≤ p := by omega
    have hword : p < 2 ^ 64 := by omega
    rw [hplaced, wordSub_eq hbase hword]
    rcases c.place_cases p (p - (c.addr + chunkHdr)) size with hfail | hplace
    · exact Or.inl hfail
    · exact Or.inr ⟨p, hdvd, hle, hnear, hpos, hplace⟩

theorem attempt_fits {c : Chunk} (hc : c.Sound) {size align p used : ℕ}
    (h : c.attempt size align = .fits p used) :
    align ∣ p ∧ c.addr + chunkHdr + c.used ≤ p ∧ p + size = c.addr + chunkHdr + used ∧
      used ≤ c.cap := by
  rcases attempt_cases hc size align with hfail | ⟨q, hdvd, hle, -, -, hq⟩
  · rw [hfail] at h
    cases h
  · rw [hq] at h
    split_ifs at h with hfull
    obtain ⟨rfl, rfl⟩ := Attempt.fits.inj h
    exact ⟨hdvd, hle, by omega, not_lt.mp hfull⟩

/-- A fresh chunk with room for the allocation and its alignment is not full. -/
theorem attempt_fresh {c : Chunk} (hc : c.Sound) (hused : c.used = 0) {size align : ℕ}
    (hroom : size + align ≤ c.cap) : c.attempt size align ≠ .full := by
  intro h
  rcases attempt_cases hc size align with hfail | ⟨q, -, -, hnear, hpos, hq⟩
  · rw [hfail] at h
    cases h
  · rw [hq] at h
    split_ifs at h with hfull
    omega

end Chunk

namespace Arena

theorem reserve_spec {guard : Bool} {a : Arena} {size align bytes : ℕ}
    (h : a.reserve guard size align = some bytes) :
    size + align + chunkHdr ≤ bytes ∧ a.total + bytes ≤ a.max := by
  obtain ⟨bytes', hbytes', h⟩ := Option.bind_eq_some_iff.mp h
  obtain ⟨payload, hpayload, h'⟩ := Option.bind_eq_some_iff.mp hbytes'
  obtain ⟨least, hleast, rfl⟩ := Option.map_eq_some_iff.mp h'
  obtain ⟨n, hn, h⟩ := Option.bind_eq_some_iff.mp h
  obtain ⟨total, htotal, h⟩ := Option.bind_eq_some_iff.mp h
  obtain ⟨rfl, -⟩ := addSize_eq_some hpayload
  obtain ⟨rfl, -⟩ := addSize_eq_some hleast
  obtain ⟨rfl, -⟩ := addSize_eq_some htotal
  split_ifs at h with hmax
  obtain rfl := Option.some.inj h
  refine ⟨?_, not_lt.mp hmax⟩
  have hbytes : size + align + chunkHdr ≤
      if a.chunkSize ≤ size + align + chunkHdr then size + align + chunkHdr else a.chunkSize := by
    split_ifs with hsize
    · exact le_rfl
    · exact (not_le.mp hsize).le
  cases guard with
  | false =>
    rw [if_neg Bool.false_ne_true] at hn
    exact hbytes.trans (Option.some.inj hn).le
  | true =>
    rw [if_pos rfl] at hn
    exact hbytes.trans (alignUp_spec hn).2.2.1

/-- What the system promises of a block that it hands out: it is not null, it ends in
the address space, and it shares no byte with the chunks that the arena has. -/
def Granted (chunks : List Chunk) (bytes p : ℕ) : Prop :=
  0 < p ∧ p + bytes < 2 ^ 64 ∧ ∀ c ∈ chunks, Apart p bytes c.addr c.bytes

instance (chunks : List Chunk) (bytes p : ℕ) : Decidable (Granted chunks bytes p) :=
  inferInstanceAs (Decidable (_ ∧ _ ∧ _))

theorem fresh_bytes {guard : Bool} {p bytes : ℕ} (h : chunkHdr ≤ bytes) :
    (fresh guard p bytes).bytes = bytes := Nat.sub_add_cancel h

theorem fresh_sound {chunks : List Chunk} {guard : Bool} {p bytes : ℕ}
    (h : Granted chunks bytes p) (hbytes : chunkHdr ≤ bytes) : (fresh guard p bytes).Sound :=
  ⟨h.1, by rw [fresh_bytes hbytes]; exact h.2.1, Nat.zero_le _⟩

/-- With one answer the new chunk is the last one tried. -/
theorem newChunk_cases {guard : Bool} {a : Arena} {size align answer : ℕ} (more : List ℕ)
    (hgranted : ∀ bytes ∈ a.reserve guard size align, ∀ p ∈ block guard bytes answer,
      Granted a.chunks bytes p) :
    newChunk guard size align a (answer :: more) = .returns a 0 ∨
    ∃ bytes p, a.reserve guard size align = some bytes ∧ Granted a.chunks bytes p ∧
      (newChunk guard size align a (answer :: more) = .returns (a.link guard p bytes) 0 ∨
      ∃ q used, (fresh guard p bytes).attempt size align = .fits q used ∧
        newChunk guard size align a (answer :: more) =
          .returns ((a.link guard p bytes).take used) q) := by
  rw [newChunk]
  cases hreserve : a.reserve guard size align with
  | none => exact Or.inl rfl
  | some bytes =>
    cases hblock : block guard bytes answer with
    | none =>
      simp only [hblock, true_or]
    | some p =>
      have hp := hgranted bytes hreserve p hblock
      simp only [hblock]
      refine Or.inr ⟨bytes, p, rfl, hp, ?_⟩
      cases hattempt : (fresh guard p bytes).attempt size align with
      | fail => exact Or.inl rfl
      | fits q used => exact Or.inr ⟨q, used, rfl, rfl⟩
      | full =>
        have hbytes := (reserve_spec hreserve).1
        have hroom : size + align ≤ bytes - chunkHdr := by omega
        exact absurd hattempt (Chunk.attempt_fresh (fresh_sound hp (by omega)) rfl hroom)

end Arena

/-! ## Whole runs -/

/-- An allocation that was handed out. -/
structure Extent where
  addr : ℕ
  size : ℕ
  align : ℕ

/-- The arena, and the allocations since the last reset. -/
structure ArenaState where
  arena : Arena
  live : List Extent

/-- A call, with what the system answers. -/
inductive ArenaCall
  | alloc (guard : Bool) (size align answer : ℕ) (more : List ℕ)
  | reset
  | finalize

namespace ArenaState

open Arena

def step (s : ArenaState) : ArenaCall → ArenaState
  | .alloc guard size align answer more =>
    match s.arena.alloc guard size align (answer :: more) with
    | .asks => s
    | .panics => s
    | .returns a p =>
      ⟨a, if p = 0 then s.live else ⟨p, size, alignment align⟩ :: s.live⟩
  | .reset => ⟨s.arena.reset, []⟩
  | .finalize => ⟨s.arena.finalize, []⟩

/-- The system answers as it promises. -/
def Served (s : ArenaState) : ArenaCall → Prop
  | .alloc guard size align answer _ =>
    ∀ bytes ∈ s.arena.reserve guard size (alignment align), ∀ p ∈ block guard bytes answer,
      Granted s.arena.chunks bytes p
  | .reset => True
  | .finalize => True

instance (s : ArenaState) : ∀ call, Decidable (s.Served call)
  | .alloc guard size align answer _ =>
    inferInstanceAs (Decidable (∀ bytes ∈ s.arena.reserve guard size (alignment align),
      ∀ p ∈ block guard bytes answer, Granted s.arena.chunks bytes p))
  | .reset => inferInstanceAs (Decidable True)
  | .finalize => inferInstanceAs (Decidable True)

/-- A call returns, with at most one chunk more, unless the arena was finalized. -/
def Ends (s : ArenaState) : ArenaCall → Prop
  | .alloc guard size align answer more =>
    if s.arena.finalized ∧ size ≠ 0 then
      s.arena.alloc guard size align (answer :: more) = .panics
    else ∃ a p, s.arena.alloc guard size align (answer :: more) = .returns a p ∧
      a.chunks.length ≤ s.arena.chunks.length + 1
  | .reset => True
  | .finalize => True

/-- What holds of the allocations since the last reset. -/
structure Allocated (s : ArenaState) : Prop where
  aligned : ∀ e ∈ s.live, e.align ∣ e.addr
  inside : ∀ e ∈ s.live, ∃ c ∈ s.arena.chunks,
    c.addr + chunkHdr ≤ e.addr ∧ e.addr + e.size ≤ c.addr + chunkHdr + c.cap
  apart : s.live.Pairwise fun e f => Apart e.addr e.size f.addr f.size
  total : s.arena.total = (s.arena.chunks.map Chunk.bytes).sum
  bounded : s.arena.total ≤ s.arena.max

/-- An allocation lies in the used part of a chunk. -/
def CutFrom (c : Chunk) (e : Extent) : Prop :=
  c.addr + chunkHdr ≤ e.addr ∧ e.addr + e.size ≤ c.addr + chunkHdr + c.used

structure Inv (s : ArenaState) : Prop where
  sound : ∀ c ∈ s.arena.chunks, c.Sound
  chunks_apart : s.arena.chunks.Pairwise fun c d => Apart c.addr c.bytes d.addr d.bytes
  aligned : ∀ e ∈ s.live, e.align ∣ e.addr
  cut : ∀ e ∈ s.live, ∃ c ∈ s.arena.chunks, CutFrom c e
  apart : s.live.Pairwise fun e f => Apart e.addr e.size f.addr f.size
  total : s.arena.total = (s.arena.chunks.map Chunk.bytes).sum
  bounded : s.arena.total ≤ s.arena.max

theorem Inv.allocated {s : ArenaState} (h : s.Inv) : s.Allocated := by
  refine ⟨h.aligned, fun e he => ?_, h.apart, h.total, h.bounded⟩
  obtain ⟨c, hc, hfront, hback⟩ := h.cut e he
  have hused := (h.sound c hc).used_le
  exact ⟨c, hc, hfront, by omega⟩

theorem inv_empty {a : Arena} (hchunks : a.chunks = []) (htotal : a.total = 0) :
    Inv ⟨a, []⟩ where
  sound c hc := by
    rw [hchunks] at hc
    cases hc
  chunks_apart := by
    rw [hchunks]
    exact List.Pairwise.nil
  aligned e he := by cases he
  cut e he := by cases he
  apart := List.Pairwise.nil
  total := by rw [hchunks, htotal]; rfl
  bounded := by rw [htotal]; exact Nat.zero_le _

theorem Inv.link {a : Arena} {live : List Extent} (h : Inv ⟨a, live⟩) (guard : Bool)
    {p bytes : ℕ} (hp : Granted a.chunks bytes p) (hbytes : chunkHdr ≤ bytes)
    (hmax : a.total + bytes ≤ a.max) : Inv ⟨a.link guard p bytes, live⟩ where
  sound c hc := by
    rcases List.mem_cons.mp hc with rfl | hc
    · exact fresh_sound hp hbytes
    · exact h.sound c hc
  chunks_apart := by
    refine List.pairwise_cons.mpr ⟨fun c hc => ?_, h.chunks_apart⟩
    rw [fresh_bytes hbytes]
    exact hp.2.2 c hc
  aligned := h.aligned
  cut e he := by
    obtain ⟨c, hc, hcut⟩ := h.cut e he
    exact ⟨c, List.mem_cons_of_mem _ hc, hcut⟩
  apart := h.apart
  total := by
    have htotal : a.total = (a.chunks.map Chunk.bytes).sum := h.total
    change a.total + bytes = (fresh guard p bytes).bytes + (a.chunks.map Chunk.bytes).sum
    rw [fresh_bytes hbytes, htotal, Nat.add_comm]
  bounded := hmax

theorem CutFrom.grow {c : Chunk} {e : Extent} (h : CutFrom c e) {used : ℕ}
    (hused : c.used ≤ used) : CutFrom { c with used } e := by
  obtain ⟨hfront, hback⟩ := h
  refine ⟨hfront, hback.trans ?_⟩
  change c.addr + chunkHdr + c.used ≤ c.addr + chunkHdr + used
  omega

theorem CutFrom.inner {c : Chunk} {e : Extent} (h : CutFrom c e) (hc : c.Sound) :
    c.addr ≤ e.addr ∧ e.addr + e.size ≤ c.addr + c.bytes := by
  obtain ⟨hfront, hback⟩ := h
  have hused := hc.used_le
  unfold Chunk.bytes
  omega

theorem Inv.take {a : Arena} {live : List Extent} (h : Inv ⟨a, live⟩) {c : Chunk}
    {rest : List Chunk} (hchunks : a.chunks = c :: rest) {size align p used : ℕ}
    (hfits : c.attempt size align = .fits p used) :
    Inv ⟨a.take used, ⟨p, size, align⟩ :: live⟩ := by
  have htaken : (a.take used).chunks = { c with used } :: rest := by
    rw [Arena.take, hchunks]
  have hsound := h.sound
  have happart := h.chunks_apart
  have hcut := h.cut
  have htotal := h.total
  simp only [hchunks] at hsound happart hcut htotal
  have hc := hsound c List.mem_cons_self
  obtain ⟨hdvd, hstart, hend, hle⟩ := Chunk.attempt_fits hc hfits
  have hused : c.used ≤ used := by omega
  refine ⟨?_, ?_, ?_, ?_, ?_, ?_, h.bounded⟩
  · rw [htaken]
    intro d hd
    rcases List.mem_cons.mp hd with rfl | hd
    · exact ⟨hc.addr_pos, hc.end_lt, hle⟩
    · exact hsound d (List.mem_cons_of_mem _ hd)
  · rw [htaken]
    obtain ⟨hfirst, hothers⟩ := List.pairwise_cons.mp happart
    exact List.pairwise_cons.mpr ⟨hfirst, hothers⟩
  · intro e he
    rcases List.mem_cons.mp he with rfl | he
    · exact hdvd
    · exact h.aligned e he
  · rw [htaken]
    intro e he
    rcases List.mem_cons.mp he with rfl | he
    · exact ⟨_, List.mem_cons_self, (Nat.le_add_right _ _).trans hstart, hend.le⟩
    · obtain ⟨d, hd, hde⟩ := hcut e he
      rcases List.mem_cons.mp hd with rfl | hd
      · exact ⟨_, List.mem_cons_self, hde.grow hused⟩
      · exact ⟨d, List.mem_cons_of_mem _ hd, hde⟩
  · refine List.pairwise_cons.mpr ⟨fun e he => ?_, h.apart⟩
    obtain ⟨d, hd, hde⟩ := hcut e he
    rcases List.mem_cons.mp hd with rfl | hd
    · exact Or.inr (hde.2.trans hstart)
    · have hother := (List.pairwise_cons.mp happart).1 d hd
      have hpin : c.addr ≤ p ∧ p + size ≤ c.addr + c.bytes := by
        unfold Chunk.bytes
        omega
      exact hother.inner hpin (hde.inner (hsound d (List.mem_cons_of_mem _ hd)))
  · rw [htaken]
    exact htotal

/-- An allocation that is cut off the newest chunk. -/
theorem take_pos {a : Arena} {live : List Extent} (h : Inv ⟨a, live⟩) {c : Chunk}
    {rest : List Chunk} (hchunks : a.chunks = c :: rest) {size align p used : ℕ}
    (hfits : c.attempt size align = .fits p used) : p ≠ 0 := by
  have hc := h.sound c (by simp only [hchunks, List.mem_cons_self])
  have hpos := hc.addr_pos
  have hstart := (Chunk.attempt_fits hc hfits).2.1
  omega

/-- What a call that returns leaves behind. -/
structure Kept (a : Arena) (live : List Extent) (size align : ℕ) (a' : Arena) (p : ℕ) :
    Prop where
  inv : Inv ⟨a', if p = 0 then live else ⟨p, size, align⟩ :: live⟩
  chunks : a'.chunks.length ≤ a.chunks.length + 1

theorem newChunk_kept {a : Arena} {live : List Extent} (h : Inv ⟨a, live⟩) {guard : Bool}
    {size align answer : ℕ} {more : List ℕ}
    (hserved : ∀ bytes ∈ a.reserve guard size align, ∀ p ∈ block guard bytes answer,
      Granted a.chunks bytes p) :
    ∃ a' p, newChunk guard size align a (answer :: more) = .returns a' p ∧
      Kept a live size align a' p := by
  rcases newChunk_cases more hserved with hnone | ⟨bytes, p, hreserve, hp, hlinked⟩
  · exact ⟨a, 0, hnone, by rwa [if_pos rfl], Nat.le_succ _⟩
  · obtain ⟨hbytes, hmax⟩ := reserve_spec hreserve
    have hlink := h.link guard hp (by omega) hmax
    rcases hlinked with hfail | ⟨q, used, hfits, hdone⟩
    · exact ⟨_, 0, hfail, by rwa [if_pos rfl], le_rfl⟩
    · refine ⟨_, q, hdone, ?_, le_rfl⟩
      rw [if_neg (take_pos hlink rfl hfits)]
      exact hlink.take rfl hfits

theorem alloc_kept {a : Arena} {live : List Extent} (h : Inv ⟨a, live⟩) {guard : Bool}
    {size align answer : ℕ} (more : List ℕ)
    (hserved : ∀ bytes ∈ a.reserve guard size (alignment align),
      ∀ p ∈ block guard bytes answer, Granted a.chunks bytes p)
    (hopen : ¬(a.finalized ∧ size ≠ 0)) :
    ∃ a' p, a.alloc guard size align (answer :: more) = .returns a' p ∧
      Kept a live size (alignment align) a' p := by
  have hnone : Kept a live size (alignment align) a 0 := ⟨by rwa [if_pos rfl], Nat.le_succ _⟩
  unfold alloc
  by_cases hsize : size = 0
  · rw [if_pos hsize]
    exact ⟨a, 0, rfl, hnone⟩
  · rw [if_neg hsize, if_neg fun hfinal => hopen ⟨hfinal, hsize⟩]
    cases hchunks : a.chunks with
    | nil => exact newChunk_kept h hserved
    | cons c rest =>
      dsimp only
      cases hattempt : c.attempt size (alignment align) with
      | fail => exact ⟨a, 0, rfl, hnone⟩
      | full => exact newChunk_kept h hserved
      | fits p used =>
        refine ⟨_, p, rfl, ?_, ?_⟩
        · rw [if_neg (take_pos h hchunks hattempt)]
          exact h.take hchunks hattempt
        · rw [Arena.take, hchunks]
          exact Nat.le_succ _

theorem inv_step {s : ArenaState} {call : ArenaCall} (h : s.Inv) (hserved : s.Served call) :
    (s.step call).Inv := by
  cases call with
  | alloc guard size align answer more =>
    by_cases hopen : s.arena.finalized ∧ size ≠ 0
    · have hpanics : s.arena.alloc guard size align (answer :: more) = .panics := by
        rw [alloc, if_neg hopen.2, if_pos hopen.1]
      rw [step, hpanics]
      exact h
    · obtain ⟨a, p, halloc, hkept⟩ := alloc_kept h more hserved hopen
      rw [step, halloc]
      exact hkept.inv
  | reset => exact inv_empty rfl rfl
  | finalize => exact inv_empty rfl rfl

theorem ends_step {s : ArenaState} {call : ArenaCall} (h : s.Inv) (hserved : s.Served call) :
    s.Ends call := by
  cases call with
  | alloc guard size align answer more =>
    rw [Ends]
    split_ifs with hopen
    · rw [alloc, if_neg hopen.2, if_pos hopen.1]
    · obtain ⟨a, p, halloc, hkept⟩ := alloc_kept h more hserved hopen
      exact ⟨a, p, halloc, hkept.chunks⟩
  | reset => trivial
  | finalize => trivial

/-- Over every run of calls on an arena, with the system answering as it promises, the
allocations since the last reset are aligned, inside and apart, and each call ends with
at most one chunk more. -/
theorem arena_sound {chunkSize max : ℕ} {a : Arena} (hinit : Arena.init chunkSize max = .ok a)
    {calls : List ArenaCall} (hserved : Along step Served ⟨a, []⟩ calls) :
    Throughout step Allocated ⟨a, []⟩ calls ∧ Along step Ends ⟨a, []⟩ calls := by
  have hfirst : Inv ⟨a, []⟩ := by
    unfold Arena.init at hinit
    split_ifs at hinit
    all_goals
      obtain rfl := Except.ok.inj hinit
      exact inv_empty rfl rfl
  have hkeep : ∀ t call, Inv t → t.Served call → (t.step call).Inv := fun _ _ => inv_step
  have hruns := throughout_of_along hkeep hfirst hserved
  exact ⟨hruns.mono fun _ => Inv.allocated,
    along_of_along hkeep (fun _ _ => ends_step) hfirst hserved⟩

/-- Two allocations from one chunk, an oversize one on whole pages, a refused one, and
one behind a reset. -/
def sampleCalls : List ArenaCall :=
  [.alloc false 100 64 65536 [], .alloc false 40 0 0 [], .alloc true 9000 4096 1048576 [],
    .alloc false 5000 16 0 [], .reset, .alloc false 8 8 65536 []]

theorem arena_sound_sample :
    Throughout step Allocated ⟨⟨[], 4096, 0, 65536, false, 0⟩, []⟩ sampleCalls ∧
      Along step Ends ⟨⟨[], 4096, 0, 65536, false, 0⟩, []⟩ sampleCalls :=
  arena_sound (show Arena.init 4096 65536 = .ok ⟨[], 4096, 0, 65536, false, 0⟩ from rfl)
    (by decide)

end ArenaState

end AsmFlow
