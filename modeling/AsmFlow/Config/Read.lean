import AsmFlow.Memory.Buffer

/-!
# Reading the configuration file

`af_config_read_file` reads an opened descriptor to its end, under a ceiling. What the
descriptor answers is a list: the bytes that come in pieces, and the reads that fail. Behind
the list is the end of the file.
-/

namespace AsmFlow

/-- `af_status_from_errno`, of a negative result. -/
def statusFromErrno (errno : ℕ+) : Status :=
  if errno = 4 then .intr
  else if errno = 11 then .again
  else if errno = 12 then .nomem
  else if errno = 13 ∨ errno = 1 then .perm
  else if errno = 17 then .alreadyExists
  else if errno = 2 then .notFound
  else if errno = 22 then .invalid
  else if errno = 32 then .pipe
  else if errno = 110 then .timeout
  else if errno = 104 then .eof
  else .sys

theorem statusFromErrno_neg (errno : ℕ+) : statusFromErrno errno < 0 := by
  unfold statusFromErrno
  repeat refine iteInduction (motive := (· < 0)) (fun _ => by decide) fun _ => ?_
  decide

namespace Buffer

/-- `af_buf_free`. -/
theorem length_freed : ([] : Bytes).length ≤ 0 := le_refl 0

def free (b : Buffer) : Buffer := ⟨[], 0, b.max, length_freed, Nat.zero_le _⟩

/-- Bytes land in the room that has been reserved. -/
def Roomy.fill {b : Buffer} {n : ℕ} (room : b.Roomy n) (p : Bytes) (h : p.length ≤ n) : Buffer :=
  ⟨b.data ++ p, room.cap, b.max, by
    rw [List.length_append]
    exact (Nat.add_le_add_left h _).trans room.room, room.cap_le_max⟩

end Buffer

namespace Config

/-- What there is to read: a piece of the file, or a failure. -/
inductive ReadAnswer
  | data (b : UInt8) (more : Bytes)
  | fails (errno : ℕ+)
  deriving DecidableEq, Repr

def ReadAnswer.weight : ReadAnswer → ℕ
  | .data _ more => more.length + 1
  | .fails _ => 1

/-- What a short read leaves of a piece. -/
def leftover : Bytes → List ReadAnswer
  | [] => []
  | b :: more => [.data b more]

/-- `af_read_some`: the bytes of one read, and what there is to read after it. -/
def readSome (count : ℕ) :
    List ReadAnswer → Except Status {p : Bytes // p.length ≤ count} × List ReadAnswer
  | [] => (.error .eof, [])
  | .fails e :: rest =>
    if statusFromErrno e = .intr then readSome count rest else (.error (statusFromErrno e), rest)
  | .data b more :: rest =>
    (.ok ⟨(b :: more).take count, List.length_take_le _ _⟩,
      leftover ((b :: more).drop count) ++ rest)

theorem weight_leftover (p : Bytes) : ((leftover p).map ReadAnswer.weight).sum = p.length := by
  cases p <;> simp [leftover, ReadAnswer.weight]

theorem readSome_weight {count : ℕ} (hcount : 0 < count) {answers rest : List ReadAnswer}
    {p : {p : Bytes // p.length ≤ count}} (h : readSome count answers = (.ok p, rest)) :
    (rest.map ReadAnswer.weight).sum < (answers.map ReadAnswer.weight).sum := by
  induction answers with
  | nil => simp [readSome] at h
  | cons a as ih =>
    cases a with
    | fails e =>
      simp only [readSome] at h
      split_ifs at h
      · have := ih h
        simp [ReadAnswer.weight]
        omega
      · cases (Prod.mk.inj h).1
    | data b more =>
      obtain ⟨-, rfl⟩ := Prod.mk.inj h
      simp only [List.map_append, List.sum_append, weight_leftover, List.length_drop,
        List.length_cons, List.map_cons, List.sum_cons, ReadAnswer.weight]
      omega

/-- `AF_MAX_CONFIG_BYTES`. -/
def maxConfigBytes : ℕ := 4 * 1024 * 1024

/-- The status, the buffer, and how often the descriptor was closed. -/
structure FileRead where
  status : Status
  buffer : Buffer
  closes : ℕ

/-- `.close_and_free`, with what `rax` holds when it is reached. -/
def closeAndFree (rax : Status) (b : Buffer) : FileRead := ⟨rax, b.free, 1⟩

/-- `.read_loop` and `.at_ceiling`. -/
def readLoop (alloc : ℕ → Bool) (b : Buffer) (answers : List ReadAnswer) : FileRead :=
  if _hroom : maxConfigBytes - b.len = 0 then
    match (readSome 1 answers).1 with
    | .error e => if e = .eof then ⟨.ok, b, 1⟩ else closeAndFree e b
    | .ok _ => closeAndFree .jsonSize b
  else
    match b.reserve alloc (min (maxConfigBytes - b.len) 65536) with
    | .error e => closeAndFree e b
    | .ok room =>
      match _hread : readSome (min (maxConfigBytes - b.len) 65536) answers with
      | (.error e, _) =>
        if e = .eof then ⟨.ok, room.fill [] (Nat.zero_le _), 1⟩ else closeAndFree e b
      | (.ok p, rest) => readLoop alloc (room.fill p.1 p.2) rest
termination_by (answers.map ReadAnswer.weight).sum
decreasing_by
  apply readSome_weight _ _hread
  omega

/-- A descriptor that has been opened: the mode `fstat` reports, and what there is to read. -/
structure Descriptor where
  mode : Except ℕ+ UInt32
  answers : List ReadAnswer

/-- `CFG_S_IFMT` -/
def sIfmt : UInt32 := 0o170000

/-- `CFG_S_IFREG` -/
def sIfreg : UInt32 := 0o100000

/-- `af_config_read_file` -/
def configReadFile (alloc : ℕ → Bool) (opened : Except ℕ+ Descriptor) : FileRead :=
  let b := Buffer.init maxConfigBytes
  match opened with
  | .error e => ⟨statusFromErrno e, b.free, 0⟩
  | .ok fd =>
    match fd.mode with
    | .error e => closeAndFree (statusFromErrno e) b
    | .ok mode =>
      -- `AF_E_CFG_PATH` is saved where `.close_and_free` then saves `rax`, the file type
      if mode &&& sIfmt ≠ sIfreg then closeAndFree (mode &&& sIfmt).toNat b
      else readLoop alloc b fd.answers

/-! ## What is read -/

/-- The bytes that come before the end or the first failure, and that failure. A read that
is interrupted is made again. -/
def received : List ReadAnswer → Bytes × Option Status
  | [] => ([], none)
  | .data b more :: rest => (b :: more ++ (received rest).1, (received rest).2)
  | .fails e :: rest =>
    if statusFromErrno e = .intr then received rest else ([], some (statusFromErrno e))

theorem received_leftover (p : Bytes) (rest : List ReadAnswer) :
    received (leftover p ++ rest) = (p ++ (received rest).1, (received rest).2) := by
  cases p with
  | nil => simp [leftover]
  | cons b more => simp [leftover, received]

/-- The status that a read at the end or at a failure has. -/
def endStatus (e : Option Status) : Status := e.getD .eof

/-- A read that fails is at the end of what is received. -/
theorem readSome_error {count : ℕ} {answers rest : List ReadAnswer} {e : Status}
    (h : readSome count answers = (.error e, rest)) :
    e < 0 ∧ (received answers).1 = [] ∧ endStatus (received answers).2 = e := by
  induction answers with
  | nil =>
    obtain ⟨he, -⟩ := Prod.mk.inj h
    obtain rfl := Except.error.inj he
    exact ⟨by decide, rfl, rfl⟩
  | cons a as ih =>
    cases a with
    | fails n =>
      simp only [readSome] at h
      split_ifs at h with hintr
      · simpa [received, hintr] using ih h
      · obtain ⟨he, -⟩ := Prod.mk.inj h
        obtain rfl := Except.error.inj he
        simp [received, hintr, endStatus, statusFromErrno_neg]
    | data b more => cases (Prod.mk.inj h).1

/-- A read that succeeds takes the first of what is received. -/
theorem readSome_ok {count : ℕ} (hcount : 0 < count) {answers rest : List ReadAnswer}
    {p : {p : Bytes // p.length ≤ count}} (h : readSome count answers = (.ok p, rest)) :
    p.1 ≠ [] ∧ received answers = (p.1 ++ (received rest).1, (received rest).2) := by
  induction answers with
  | nil => simp [readSome] at h
  | cons a as ih =>
    cases a with
    | fails e =>
      simp only [readSome] at h
      split_ifs at h with hintr
      · simpa [received, hintr] using ih h
      · cases (Prod.mk.inj h).1
    | data b more =>
      obtain ⟨hp, rfl⟩ := Prod.mk.inj h
      obtain rfl := Except.ok.inj hp
      refine ⟨by simp; omega, ?_⟩
      rw [received_leftover]
      simp [received, ← List.append_assoc]

/-- The first block and its doublings, up to what `n` bytes and the room behind them need. -/
def Granted (alloc : ℕ → Bool) (n : ℕ) : Prop :=
  ∀ k, 2 ^ (16 + k) < 2 * min (n + 65536) maxConfigBytes → alloc (2 ^ (16 + k)) = true

theorem Granted.mono {alloc : ℕ → Bool} {m n : ℕ} (h : Granted alloc n) (hle : m ≤ n) :
    Granted alloc m := by
  intro k hk
  apply h k
  omega

/-- A buffer as the loop grows it. -/
structure Doubled (alloc : ℕ → Bool) (b : Buffer) : Prop where
  max : b.max = maxConfigBytes
  cap : b.cap = 0 ∨ ∃ j, b.cap = 2 ^ (16 + j)
  granted : ∀ k, 2 ^ (16 + k) ≤ b.cap → alloc (2 ^ (16 + k)) = true

theorem doubled_init (alloc : ℕ → Bool) : Doubled alloc (.init maxConfigBytes) where
  max := rfl
  cap := Or.inl rfl
  granted k hk := absurd hk (by simp [Buffer.init])

section Loop

variable {alloc : ℕ → Bool} {b : Buffer}

theorem Doubled.len_le (h : Doubled alloc b) : b.len ≤ maxConfigBytes := by
  have hlen : b.len ≤ b.cap := b.len_le_cap
  have hmax := b.cap_le_max
  rw [h.max] at hmax
  exact hlen.trans hmax

/-- Where the block covers the room that is needed, no larger one was asked for. -/
theorem Doubled.granted_of_le {n : ℕ} (h : Doubled alloc b)
    (hneed : min (n + 65536) maxConfigBytes ≤ b.cap) : Granted alloc n := by
  intro k hk
  rcases h.cap with hcap | ⟨j, hcap⟩
  · simp [hcap, maxConfigBytes] at hneed
  · apply h.granted
    have hlt : 2 ^ (16 + k) < 2 ^ (16 + j + 1) := by
      rw [pow_succ]
      omega
    have hle : 16 + k < 16 + j + 1 := (Nat.pow_lt_pow_iff_right (by decide)).mp hlt
    rw [hcap]
    exact Nat.pow_le_pow_right (by decide) (by omega)

/-- The block that a reservation asks for, when the one there is does not do. -/
theorem Doubled.growSize (h : Doubled alloc b)
    (hshort : b.cap < min (b.len + 65536) maxConfigBytes) :
    ∃ j, growSize b.cap (min (b.len + 65536) maxConfigBytes) maxConfigBytes = .ok (2 ^ (16 + j)) ∧
      min (b.len + 65536) maxConfigBytes ≤ 2 ^ (16 + j) ∧
      2 ^ (16 + j) < 2 * min (b.len + 65536) maxConfigBytes ∧
      ∀ k < j, alloc (2 ^ (16 + k)) = true := by
  have hlen : b.len ≤ b.cap := b.len_le_cap
  have hmax : maxConfigBytes = 2 ^ 22 := by decide
  rcases h.cap with hcap | ⟨j, hcap⟩
  · have hzero : b.len = 0 := by omega
    refine ⟨0, ?_, ?_, ?_, by simp⟩
    · rw [hcap, hzero]
      decide
    · rw [hzero]
      decide
    · rw [hzero]
      decide
  · have hfirst : 2 ^ 16 ≤ b.cap := by
      rw [hcap]
      exact Nat.pow_le_pow_right (by decide) (Nat.le_add_right 16 j)
    have hdouble : 2 ^ (16 + (j + 1)) = b.cap + b.cap := by
      rw [hcap, ← Nat.add_assoc, pow_succ]
      omega
    have hceiling : 2 ^ (16 + (j + 1)) ≤ maxConfigBytes := by
      have hlt : 2 ^ (16 + j) < 2 ^ 22 := by omega
      have hj : 16 + j < 22 := (Nat.pow_lt_pow_iff_right (by decide)).mp hlt
      rw [hmax]
      exact Nat.pow_le_pow_right (by decide) (by omega)
    refine ⟨j + 1, ?_, ?_, ?_, ?_⟩
    · have hbig : ¬ 2 ^ 64 ≤ b.cap + b.cap := by omega
      simp only [AsmFlow.growSize, not_lt.mpr (min_le_right _ _), if_false, hbig,
        show b.cap ≠ 0 by omega]
      have hcovers : (b.cap + b.cap).max (min (b.len + 65536) maxConfigBytes) = b.cap + b.cap :=
        Nat.max_eq_left (by omega)
      rw [hcovers, hdouble, min_eq_left (by omega)]
    · omega
    · omega
    · intro k hk
      apply h.granted
      rw [hcap]
      exact Nat.pow_le_pow_right (by decide) (by omega)

/-- A reservation of the loop doubles the block, when the allocator grants it. -/
theorem Doubled.reserve (h : Doubled alloc b) (hroom : maxConfigBytes - b.len ≠ 0) :
    (∃ room, b.reserve alloc (min (maxConfigBytes - b.len) 65536) = .ok room ∧
      min (b.len + 65536) maxConfigBytes ≤ room.cap ∧
      ∀ p hp, Doubled alloc (room.fill p hp)) ∨
    ∃ e < 0, b.reserve alloc (min (maxConfigBytes - b.len) 65536) = .error e ∧
      ¬ Granted alloc b.len := by
  have hneed : b.len + min (maxConfigBytes - b.len) 65536 =
      min (b.len + 65536) maxConfigBytes := by
    have := h.len_le
    omega
  have hword : ¬ 2 ^ 64 ≤ min (b.len + 65536) maxConfigBytes := by
    simp [maxConfigBytes]
  have hchunk : min (maxConfigBytes - b.len) 65536 ≠ 0 := by omega
  have hafter : Buffer.roomAfter alloc b.max b.len b.cap (min (maxConfigBytes - b.len) 65536) =
      if min (b.len + 65536) maxConfigBytes ≤ b.cap then some b.cap
      else
        (AsmFlow.growSize b.cap (min (b.len + 65536) maxConfigBytes) maxConfigBytes).toOption.bind
          fun grown => if alloc grown then some grown else none := by
    cases hgrown : AsmFlow.growSize b.cap (min (b.len + 65536) maxConfigBytes) maxConfigBytes <;>
      simp only [Buffer.roomAfter, hchunk, if_false, hneed, hword, h.max,
        not_lt.mpr (min_le_right _ _), hgrown, Except.toOption, Option.bind_none, Option.bind_some]
  by_cases hfits : min (b.len + 65536) maxConfigBytes ≤ b.cap
  · rw [if_pos hfits] at hafter
    rcases Buffer.reserve_eq alloc b (min (maxConfigBytes - b.len) 65536) with
      ⟨room, hres, hcap⟩ | ⟨e, -, hnone⟩
    · have hsame : b.cap = room.cap := Option.some.inj (hafter.symm.trans hcap)
      refine Or.inl ⟨room, hres, hsame ▸ hfits, ?_⟩
      intro p hp
      have hcap : (room.fill p hp).cap = b.cap := hsame.symm
      exact ⟨h.max, hcap ▸ h.cap, hcap ▸ h.granted⟩
    · cases hafter.symm.trans hnone
  · rw [if_neg hfits] at hafter
    obtain ⟨j, hgrow, hcovers, hless, hsmaller⟩ := h.growSize (not_le.mp hfits)
    rw [hgrow] at hafter
    change _ = (if alloc (2 ^ (16 + j)) then some (2 ^ (16 + j)) else none) at hafter
    rcases Buffer.reserve_eq alloc b (min (maxConfigBytes - b.len) 65536) with
      ⟨room, hres, hcap⟩ | ⟨e, hres, hnone⟩
    · rw [hafter] at hcap
      split_ifs at hcap with halloc
      have hsame : 2 ^ (16 + j) = room.cap := Option.some.inj hcap
      refine Or.inl ⟨room, hres, hsame ▸ hcovers, ?_⟩
      intro p hp
      refine ⟨h.max, Or.inr ⟨j, hsame.symm⟩, ?_⟩
      intro k hk
      have hle : 2 ^ (16 + k) ≤ 2 ^ (16 + j) := hk.trans_eq hsame.symm
      have hkj : 16 + k ≤ 16 + j := (Nat.pow_le_pow_iff_right (by decide)).mp hle
      by_cases heq : k = j
      · rwa [heq]
      · exact hsmaller k (by omega)
    · rw [hafter] at hnone
      split_ifs at hnone with halloc
      refine Or.inr ⟨e, Buffer.reserve_neg hres, hres, ?_⟩
      intro hgranted
      exact halloc (hgranted j hless)

/-- How a read ends: it keeps what it has read, or it fails and frees the buffer. -/
structure FileRead.Ends (o : FileRead) (keeps : Prop) (total : Bytes) : Prop where
  closes : o.closes = 1
  kept : keeps → o.status = .ok ∧ o.buffer.data = total
  dropped : ¬ keeps → o.status < 0 ∧ o.buffer.data = [] ∧ o.buffer.cap = 0

theorem ends_closeAndFree {e : Status} {keeps : Prop} (b : Buffer) (total : Bytes) (he : e < 0)
    (h : ¬ keeps) : (closeAndFree e b).Ends keeps total :=
  ⟨rfl, fun hk => absurd hk h, fun _ => ⟨he, rfl, rfl⟩⟩

theorem ends_kept {keeps : Prop} (b : Buffer) (h : keeps) :
    FileRead.Ends ⟨.ok, b, 1⟩ keeps b.data :=
  ⟨rfl, fun _ => ⟨rfl, rfl⟩, fun hk => absurd h hk⟩

/-- The loop keeps what it reads: there is not too much of it, it ends, or with a failure
that is taken for the end, and the allocator grants what it needs. -/
def Keeps (alloc : ℕ → Bool) (total : Bytes) (e : Option Status) : Prop :=
  total.length ≤ maxConfigBytes ∧ endStatus e = .eof ∧ Granted alloc total.length

theorem not_keeps_of_over {total : Bytes} {e : Option Status}
    (h : maxConfigBytes < total.length) : ¬ Keeps alloc total e :=
  fun hk => absurd hk.1 (not_le.mpr h)

/-- At the end of what is received the loop ends with what it has. -/
theorem ends_error (h : Doubled alloc b) {count : ℕ} {answers rest : List ReadAnswer} {e : Status}
    (hread : readSome count answers = (.error e, rest)) (hgranted : Granted alloc b.len)
    (b' : Buffer) (hdata : b'.data = b.data) :
    (if e = .eof then (⟨.ok, b', 1⟩ : FileRead) else closeAndFree e b).Ends
      (Keeps alloc (b.data ++ (received answers).1) (received answers).2)
      (b.data ++ (received answers).1) := by
  obtain ⟨hneg, hnone, hend⟩ := readSome_error hread
  rw [hnone, List.append_nil]
  split_ifs with he
  · rw [← hdata]
    apply ends_kept
    rw [hdata]
    exact ⟨h.len_le, hend.trans he, hgranted⟩
  · apply ends_closeAndFree b _ hneg
    intro hk
    exact he (hend.symm.trans hk.2.1)

/-- What the loop makes of all there is to read. -/
theorem readLoop_ends (h : Doubled alloc b) (answers : List ReadAnswer) :
    (readLoop alloc b answers).Ends
      (Keeps alloc (b.data ++ (received answers).1) (received answers).2)
      (b.data ++ (received answers).1) := by
  induction hweight : (answers.map ReadAnswer.weight).sum using Nat.strong_induction_on
    generalizing b answers with
  | _ n ih =>
    subst hweight
    rw [readLoop]
    by_cases hroom : maxConfigBytes - b.len = 0
    · -- one byte more is too much
      have hfull : b.len = maxConfigBytes := by
        have := h.len_le
        omega
      have hgranted : Granted alloc b.len := by
        apply h.granted_of_le
        have : b.len ≤ b.cap := b.len_le_cap
        omega
      rw [dif_pos hroom]
      cases hread : readSome 1 answers with
      | mk res rest =>
        cases res with
        | error e => exact ends_error h hread hgranted b rfl
        | ok p =>
          obtain ⟨hp, hrec⟩ := readSome_ok (by decide) hread
          apply ends_closeAndFree b _ (by decide)
          apply not_keeps_of_over
          have hpos := List.length_pos_iff.mpr hp
          rw [hrec]
          simp only [List.length_append]
          simp only [Buffer.len] at hfull
          omega
    · rw [dif_neg hroom]
      rcases h.reserve hroom with ⟨room, hres, hcovers, hfill⟩ | ⟨e, hneg, hres, hgranted⟩
      · simp only [hres]
        cases hread : readSome (min (maxConfigBytes - b.len) 65536) answers with
        | mk res rest =>
          cases res with
          | error e =>
            have hnext := hfill [] (Nat.zero_le _)
            have hlen : (room.fill [] (Nat.zero_le _)).len = b.len := by
              simp [Buffer.len, Buffer.Roomy.fill]
            apply ends_error h hread _ _ (by simp [Buffer.Roomy.fill])
            rw [← hlen]
            apply hnext.granted_of_le
            rwa [hlen]
          | ok p =>
            obtain ⟨hp, hrec⟩ := readSome_ok (by omega) hread
            have hless := readSome_weight (by omega) hread
            have hrest := ih _ hless (hfill p.1 p.2) rest rfl
            rw [hrec]
            simpa [Buffer.Roomy.fill, List.append_assoc] using hrest
      · simp only [hres]
        apply ends_closeAndFree b _ hneg
        intro hk
        apply hgranted
        apply hk.2.2.mono
        simp [Buffer.len]

end Loop

/-! ## The whole file, or a failure -/

/-- The bytes of a file, up to its end. -/
def fileBytes (answers : List ReadAnswer) : Bytes :=
  answers.flatMap fun
    | .data b more => b :: more
    | .fails _ => []

/-- A regular file that is read to its end without a failure, and that is not too large. -/
def Complete (opened : Except ℕ+ Descriptor) (content : Bytes) : Prop :=
  ∃ fd mode, opened = .ok fd ∧ fd.mode = .ok mode ∧ mode &&& sIfmt = sIfreg ∧
    fileBytes fd.answers = content ∧ content.length ≤ maxConfigBytes ∧
    ∀ e, .fails e ∈ fd.answers → statusFromErrno e = .intr

/-- The buffer holds the file, or the read fails and leaves nothing behind. -/
structure ExactOrFails (opened : Except ℕ+ Descriptor) (o : FileRead) : Prop where
  exact : ∀ content, Complete opened content → o.status = .ok ∧ o.buffer.data = content
  fails : (¬ ∃ content, Complete opened content) →
    o.status < 0 ∧ o.buffer.data = [] ∧ o.buffer.cap = 0
  closes : o.closes = if opened.toBool then 1 else 0

/-- What the result depends on beside the file: what is opened is a regular file, the
allocator grants what a file that is read whole needs, and no failed read is taken for the
end of one. -/
def ReadSoundly (alloc : ℕ → Bool) (opened : Except ℕ+ Descriptor) : Prop :=
  ∀ fd mode, opened = .ok fd → fd.mode = .ok mode → mode &&& sIfmt = sIfreg ∧
    ((received fd.answers).1.length ≤ maxConfigBytes →
      ((received fd.answers).2 = none → Granted alloc (received fd.answers).1.length) ∧
      ((received fd.answers).2 = some .eof → ¬ Granted alloc (received fd.answers).1.length))

theorem received_none_iff (answers : List ReadAnswer) :
    (received answers).2 = none ↔ ∀ e, .fails e ∈ answers → statusFromErrno e = .intr := by
  induction answers with
  | nil => simp [received]
  | cons a as ih =>
    cases a with
    | data b more => simp [received, ih]
    | fails e =>
      by_cases he : statusFromErrno e = .intr
      · simp only [received, he, if_true, ih, List.mem_cons]
        constructor
        · rintro h n (hn | hn)
          · rwa [ReadAnswer.fails.inj hn]
          · exact h n hn
        · intro h n hn
          exact h n (Or.inr hn)
      · simp only [received, he, if_false, reduceCtorEq, false_iff, not_forall]
        exact ⟨e, by simp, he⟩

theorem received_of_none {answers : List ReadAnswer} (h : (received answers).2 = none) :
    (received answers).1 = fileBytes answers := by
  induction answers with
  | nil => rfl
  | cons a as ih =>
    cases a with
    | data b more =>
      simp only [received] at h
      simp [received, fileBytes, ih h]
    | fails e =>
      simp only [received] at h ⊢
      split_ifs at h ⊢
      simpa [fileBytes] using ih h

theorem complete_iff {fd : Descriptor} {mode : UInt32} (hmode : fd.mode = .ok mode)
    (hreg : mode &&& sIfmt = sIfreg) (content : Bytes) :
    Complete (.ok fd) content ↔ (received fd.answers).2 = none ∧
      (received fd.answers).1.length ≤ maxConfigBytes ∧ content = (received fd.answers).1 := by
  constructor
  · rintro ⟨fd', mode', hfd, -, -, rfl, hlen, hall⟩
    obtain rfl := Except.ok.inj hfd
    have hnone := (received_none_iff fd.answers).mpr hall
    rw [received_of_none hnone]
    exact ⟨hnone, hlen, rfl⟩
  · rintro ⟨hnone, hlen, rfl⟩
    exact ⟨fd, mode, rfl, hmode, hreg, (received_of_none hnone).symm, hlen,
      (received_none_iff fd.answers).mp hnone⟩

theorem endStatus_eq_eof_iff (e : Option Status) :
    endStatus e = .eof ↔ e = none ∨ e = some .eof := by
  cases e <;> simp [endStatus]

theorem exactOrFails_of_error {opened : Except ℕ+ Descriptor} {o : FileRead}
    (hnone : ¬ ∃ content, Complete opened content)
    (hfails : o.status < 0 ∧ o.buffer.data = [] ∧ o.buffer.cap = 0)
    (hcloses : o.closes = if opened.toBool then 1 else 0) : ExactOrFails opened o :=
  ⟨fun content h => absurd ⟨content, h⟩ hnone, fun _ => hfails, hcloses⟩

/-- A regular file is read exactly or fails, but for the allocator and a reset. -/
theorem FileRead.Ends.exactOrFails_iff {fd : Descriptor} {mode : UInt32} {o : FileRead}
    {alloc : ℕ → Bool} (hmode : fd.mode = .ok mode) (hreg : mode &&& sIfmt = sIfreg)
    (h : o.Ends (Keeps alloc (received fd.answers).1 (received fd.answers).2)
      (received fd.answers).1) :
    ExactOrFails (.ok fd) o ↔
      ((received fd.answers).1.length ≤ maxConfigBytes →
        ((received fd.answers).2 = none → Granted alloc (received fd.answers).1.length) ∧
        ((received fd.answers).2 = some .eof →
          ¬ Granted alloc (received fd.answers).1.length)) := by
  have hok : ¬ Status.ok < 0 := by decide
  constructor
  · intro hx hlen
    constructor
    · intro hnone
      obtain ⟨hstatus, -⟩ := hx.exact _ ((complete_iff hmode hreg _).mpr ⟨hnone, hlen, rfl⟩)
      by_contra hrefused
      have hneg := (h.dropped fun hk => hrefused hk.2.2).1
      exact hok (hstatus ▸ hneg)
    · intro hreset hgranted
      have hstatus := (h.kept ⟨hlen, (endStatus_eq_eof_iff _).mpr (Or.inr hreset), hgranted⟩).1
      have hneg := (hx.fails fun ⟨content, hc⟩ => by
        simp [((complete_iff hmode hreg content).mp hc).1] at hreset).1
      exact hok (hstatus ▸ hneg)
  · intro hcond
    refine ⟨?_, ?_, h.closes⟩
    · intro content hc
      obtain ⟨hnone, hlen, rfl⟩ := (complete_iff hmode hreg content).mp hc
      exact h.kept ⟨hlen, (endStatus_eq_eof_iff _).mpr (Or.inl hnone), (hcond hlen).1 hnone⟩
    · intro hincomplete
      apply h.dropped
      rintro ⟨hlen, hend, hgranted⟩
      rcases (endStatus_eq_eof_iff _).mp hend with hnone | hreset
      · exact hincomplete ⟨_, (complete_iff hmode hreg _).mpr ⟨hnone, hlen, rfl⟩⟩
      · exact (hcond hlen).2 hreset hgranted

/-- The file is read exactly or the read fails, when what is opened is a regular file, the
allocator grants what is needed and no failed read is taken for the end. -/
theorem configReadFile_exact_iff (alloc : ℕ → Bool) (opened : Except ℕ+ Descriptor) :
    ExactOrFails opened (configReadFile alloc opened) ↔ ReadSoundly alloc opened := by
  cases opened with
  | error e =>
    refine iff_of_true (exactOrFails_of_error ?_ ⟨statusFromErrno_neg e, rfl, rfl⟩ rfl) ?_
    · rintro ⟨_, _, _, h, -⟩
      cases h
    · intro _ _ h
      cases h
  | ok fd =>
    cases hmode : fd.mode with
    | error e =>
      have hrun : configReadFile alloc (.ok fd) =
          closeAndFree (statusFromErrno e) (.init maxConfigBytes) := by
        simp [configReadFile, hmode]
      rw [hrun]
      refine iff_of_true (exactOrFails_of_error ?_ ⟨statusFromErrno_neg e, rfl, rfl⟩ rfl) ?_
      · rintro ⟨_, fd', mode, h, hok, -⟩
        obtain rfl := Except.ok.inj h
        cases hmode.symm.trans hok
      · intro fd' mode h hok
        obtain rfl := Except.ok.inj h
        cases hmode.symm.trans hok
    | ok mode =>
      by_cases hreg : mode &&& sIfmt = sIfreg
      · have hrun : configReadFile alloc (.ok fd) =
            readLoop alloc (.init maxConfigBytes) fd.answers := by
          simp [configReadFile, hmode, hreg]
        rw [hrun]
        have hends := readLoop_ends (doubled_init alloc) fd.answers
        rw [show (Buffer.init maxConfigBytes).data = [] from rfl, List.nil_append] at hends
        rw [hends.exactOrFails_iff hmode hreg]
        constructor
        · intro h fd' mode' hfd hmode'
          obtain rfl := Except.ok.inj hfd
          obtain rfl := Except.ok.inj (hmode.symm.trans hmode')
          exact ⟨hreg, h⟩
        · intro h
          exact (h fd mode rfl hmode).2
      · have hrun : configReadFile alloc (.ok fd) =
            closeAndFree (mode &&& sIfmt).toNat (.init maxConfigBytes) := by
          simp [configReadFile, hmode, hreg]
        rw [hrun]
        apply iff_of_false
        · intro h
          have hneg := (h.fails ?_).1
          · exact absurd hneg (not_lt.mpr (Int.natCast_nonneg _))
          · rintro ⟨_, fd', mode', hfd, hmode', hreg', -⟩
            obtain rfl := Except.ok.inj hfd
            obtain rfl := Except.ok.inj (hmode.symm.trans hmode')
            exact hreg hreg'
        · intro h
          exact hreg (h fd mode rfl hmode).1

/-- A directory is answered with its type, which is no negative status. -/
theorem configReadFile_directory :
    (configReadFile (fun _ => true) (.ok ⟨.ok 0o40755, [.fails 21]⟩)).status = 0o40000 ∧
      ¬ ExactOrFails (.ok ⟨.ok 0o40755, [.fails 21]⟩)
        (configReadFile (fun _ => true) (.ok ⟨.ok 0o40755, [.fails 21]⟩)) := by
  refine ⟨by decide, ?_⟩
  intro h
  have hneg := (h.fails ?_).1
  · exact absurd hneg (by decide)
  · rintro ⟨_, fd, mode, hfd, hmode, hreg, -⟩
    obtain rfl := Except.ok.inj hfd
    obtain rfl := Except.ok.inj hmode
    exact absurd hreg (by decide)

end Config
end AsmFlow
