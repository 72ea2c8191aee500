import AsmFlow.Memory.Buffer

/-!
# The outbox of a connection

`af_http_conn_flush` writes what is pending to the socket. What the kernel
answers to each write is an argument. Bytes that have gone out stay in the
buffer until it is drained or they are worth a compaction.
-/

namespace AsmFlow.Http

/-- `AF_HTTP_OUTBOX_COMPACT`. -/
def outboxCompact : ℕ := 65536

/-- The ceiling `af_http_conn_init` gives the outbox. -/
def outboxMax : ℕ := 1048576

/-- What the kernel answers to a write. -/
inductive SysWrite
  | wrote (n : ℕ)
  | again
  | failed
  deriving DecidableEq, Repr

/-- `HC_OUTBOX` and `HC_OUT_CURSOR`. -/
structure Outbox where
  buf : Buffer
  cursor : ℕ
  cursor_le : cursor ≤ buf.len

namespace Outbox

def pending (o : Outbox) : Bytes := o.buf.data.drop o.cursor

/-- An empty outbox, as a new connection has it. -/
def fresh : Outbox := ⟨Buffer.init outboxMax, 0, Nat.zero_le _⟩

/-- `.drained`. -/
def drained (o : Outbox) : Outbox := ⟨o.buf.clear, 0, Nat.zero_le _⟩

/-- `.would_block`, with the compaction. -/
def wouldBlock (o : Outbox) : Outbox :=
  if o.cursor < outboxCompact then o else ⟨(o.buf.consume o.cursor).1, 0, Nat.zero_le _⟩

/-- The kernel took `n` of the pending bytes. -/
def advance (o : Outbox) (n : ℕ) : Outbox :=
  ⟨o.buf, o.cursor + min n (o.buf.len - o.cursor), by have := o.cursor_le; omega⟩

/-- The write loop of `af_http_conn_flush`, and whether it got through to the end
(a failed write leaves at once). A kernel that has no more answers would block. -/
def flush (o : Outbox) : List SysWrite → Outbox × Bool
  | [] => if o.buf.len ≤ o.cursor then (o.drained, true) else (o.wouldBlock, true)
  | answer :: rest =>
    if o.buf.len ≤ o.cursor then (o.drained, true)
    else
      match answer with
      | .wrote n => if n = 0 then (o.wouldBlock, true) else flush (o.advance n) rest
      | .again => (o.wouldBlock, true)
      | .failed => (o, false)

/-- `af_buf_append` on the outbox. -/
def append (alloc : ℕ → Bool) (o : Outbox) (p : Bytes) : Outbox × Status :=
  match h : o.buf.append alloc p with
  | (buf, st) =>
    (⟨buf, o.cursor, by
      rcases Buffer.append_cases alloc o.buf p with ⟨b', heq, hdata, -⟩ | ⟨e, -, heq⟩
      · rw [h] at heq
        obtain ⟨rfl, -⟩ := Prod.mk.inj heq
        have hle := o.cursor_le
        simp only [Buffer.len, hdata, List.length_append] at hle ⊢
        omega
      · rw [h] at heq
        obtain ⟨rfl, -⟩ := Prod.mk.inj heq
        exact o.cursor_le⟩, st)

/-- An append goes to the end of what is pending, or is refused and changes nothing. -/
theorem append_cases (alloc : ℕ → Bool) (o : Outbox) (p : Bytes) :
    (∃ o', o.append alloc p = (o', .ok) ∧ o'.pending = o.pending ++ p) ∨
      ∃ e < 0, o.append alloc p = (o, e) := by
  rcases hb : Buffer.append_cases alloc o.buf p with ⟨b', heq, hdata, -⟩ | ⟨e, he, heq⟩
  · left
    have hle := o.cursor_le
    simp only [Buffer.len] at hle
    refine ⟨(o.append alloc p).1, ?_, ?_⟩
    · simp only [append, heq]
    · simp only [append, heq, pending, hdata]
      exact List.drop_append_of_le_length hle
  · right
    refine ⟨e, he, ?_⟩
    simp only [append, heq]

theorem wouldBlock_pending (o : Outbox) : o.wouldBlock.pending = o.pending := by
  unfold wouldBlock
  split_ifs
  · rfl
  · obtain ⟨-, hdata⟩ := Buffer.consume_of_le o.cursor_le
    simp only [pending, hdata, List.drop_zero]

/-- A flush takes bytes off the front of what is pending. -/
theorem flush_pending_suffix (answers : List SysWrite) (o : Outbox) :
    (o.flush answers).1.pending <:+ o.pending := by
  induction answers generalizing o with
  | nil =>
    unfold flush
    split_ifs
    · exact List.nil_suffix
    · rw [wouldBlock_pending]
  | cons answer answers ih =>
    unfold flush
    split_ifs
    · exact List.nil_suffix
    · cases answer with
      | wrote n =>
        dsimp only
        split_ifs
        · rw [wouldBlock_pending]
        · apply (ih (o.advance n)).trans
          simp only [pending, advance, ← List.drop_drop]
          exact List.drop_suffix _ _
      | again =>
        dsimp only
        rw [wouldBlock_pending]
      | failed => exact List.suffix_refl _

end Outbox
end AsmFlow.Http
