import AsmFlow.Http.Feed
import AsmFlow.Providers.Relay

/-!
# A connection in its slot

The `HC_*` record with what the socket's side touches: the outbox and the
interest that is registered for the descriptor. A flush calls the provider's
drained hook, and a transfer the hook resumes may deliver more of its body, and
flush it, before the hook returns.
-/

namespace AsmFlow.Http

open Library Providers

/-- What the event loop watches a descriptor for. A hangup is always watched for. -/
structure Interest where
  readable : Bool
  writable : Bool
  deriving DecidableEq, Repr

/-- There are bytes behind the cursor. -/
def Outbox.holds (o : Outbox) : Bool := decide (o.cursor < o.buf.len)

theorem Outbox.holds_iff (o : Outbox) : o.holds = true ↔ o.pending ≠ [] := by
  unfold holds pending Buffer.len
  rw [decide_eq_true_iff, ← List.length_pos_iff, List.length_drop]
  omega

/-- How far a flush gets. -/
inductive Written
  | all
  | some
  | error
  deriving DecidableEq, Repr

/-- What the kernel's answers make of `n` pending bytes. -/
def SysWrite.outcome : List SysWrite → ℕ → Written
  | _, 0 => .all
  | .wrote k :: rest, n + 1 => if k = 0 then .some else outcome rest (n + 1 - k)
  | .failed :: _, _ + 1 => .error
  | _, _ + 1 => .some

theorem Outbox.pending_length (o : Outbox) : o.pending.length = o.buf.len - o.cursor := by
  unfold pending Buffer.len
  rw [List.length_drop]

theorem Outbox.holds_wouldBlock (o : Outbox) : o.wouldBlock.holds = o.holds := by
  have hiff : o.wouldBlock.holds = true ↔ o.holds = true := by
    rw [holds_iff, holds_iff, wouldBlock_pending]
  exact Bool.eq_iff_iff.mpr hiff

/-- What a flush leaves, by what the kernel makes of the pending bytes. -/
theorem Outbox.flush_outcome (answers : List SysWrite) (o : Outbox) :
    match SysWrite.outcome answers o.pending.length with
    | .all => o.flush answers = (o.drained, true)
    | .some => (o.flush answers).2 = true ∧ (o.flush answers).1.holds = true
    | .error => (o.flush answers).2 = false := by
  induction answers generalizing o with
  | nil =>
    rw [pending_length]
    unfold flush
    split_ifs with hdone
    · rw [Nat.sub_eq_zero_of_le hdone]
      rfl
    · obtain ⟨n, hn⟩ : ∃ n, o.buf.len - o.cursor = n + 1 := ⟨_, (Nat.succ_pred (by omega)).symm⟩
      rw [hn]
      refine ⟨rfl, ?_⟩
      rw [holds_wouldBlock]
      exact decide_eq_true (by omega)
  | cons answer answers ih =>
    rw [pending_length]
    unfold flush
    split_ifs with hdone
    · rw [Nat.sub_eq_zero_of_le hdone]
      rfl
    · obtain ⟨n, hn⟩ : ∃ n, o.buf.len - o.cursor = n + 1 := ⟨_, (Nat.succ_pred (by omega)).symm⟩
      have hholds : o.wouldBlock.holds = true := by
        rw [holds_wouldBlock]
        exact decide_eq_true (by omega)
      rw [hn]
      cases answer with
      | wrote k =>
        dsimp only
        by_cases hk : k = 0
        · simp only [SysWrite.outcome, if_pos hk]
          exact ⟨trivial, hholds⟩
        · have hleft : (o.advance k).pending.length = n + 1 - k := by
            rw [pending_length]
            have hcursor : (o.advance k).cursor = o.cursor + min k (o.buf.len - o.cursor) := rfl
            have hbuf : (o.advance k).buf = o.buf := rfl
            rw [hcursor, hbuf]
            omega
          have hrest := ih (o.advance k)
          rw [hleft] at hrest
          simp only [SysWrite.outcome, if_neg hk]
          exact hrest
      | again => exact ⟨rfl, hholds⟩
      | failed => rfl

/-- An open slot. `paused` is the flag of the connection's exchange. -/
structure Slot (P : Type) where
  client : Client P Outbox
  interest : Interest
  paused : Bool

/-- A chunk the relay sends, with what the allocator and the kernel answer. -/
abbrev Piece := Bytes × EmitEnv

/-- What a flush meets: the kernel's answers, and the write callbacks the library makes
if the flush resumes a transfer, each with the chunks it sends. -/
structure Writes where
  sys : List SysWrite
  resumed : List (List Piece)

/-- What a write callback returns: the bytes it took, `AF_PROV_TAKE_PAUSE` or
`AF_PROV_TAKE_ABORT`. -/
inductive Take
  | all
  | pause
  | abort
  deriving DecidableEq, Repr

namespace Slot

variable {P : Type}

def conn (x : Slot P) : Conn Outbox := x.client.conn

def withConn (x : Slot P) (c : Conn Outbox) : Slot P :=
  { x with client := { x.client with conn := c } }

def withOutbox (x : Slot P) (o : Outbox) : Slot P := x.withConn { x.conn with outbox := o }

def pending (x : Slot P) : Bytes := x.conn.outbox.pending

@[simp] theorem conn_withConn (x : Slot P) (c : Conn Outbox) : (x.withConn c).conn = c := rfl

@[simp] theorem withOutbox_outbox (x : Slot P) (o : Outbox) :
    (x.withOutbox o).conn.outbox = o := rfl

@[simp] theorem withOutbox_upstream (x : Slot P) (o : Outbox) :
    (x.withOutbox o).conn.upstream = x.conn.upstream := rfl

/-- The flush of a connection whose exchange is not paused: the hook has nothing to do. -/
def settle (x : Slot P) (sys : List SysWrite) : Slot P × Bool :=
  match x.conn.outbox.flush sys with
  | (o, false) => (x.withOutbox o, false)
  | (o, true) => ({ x.withOutbox o with interest := ⟨true, o.holds⟩ }, true)

/-- `af_prov_emit_chunk`; what becomes of its flush it does not ask. -/
def emitChunk (x : Slot P) (piece : Piece) : Slot P × Status :=
  if piece.1 = [] then (x, .ok)
  else
    match x.conn.outbox.appendAll piece.2.alloc
      ((toHex piece.1.length).map (fun d => [d]) ++ [crlf, piece.1, crlf]) with
    | (o, st) =>
      if st < 0 then (x.withOutbox o, st)
      else (((x.withOutbox o).settle piece.2.sys).1, .ok)

/-- The chunks of one write callback, up to the first that is refused. -/
def emitAll : Slot P → List Piece → Slot P × Take
  | x, [] => (x, .all)
  | x, piece :: pieces =>
    match x.emitChunk piece with
    | (x, st) => if st < 0 then (x, .abort) else emitAll x pieces

/-- `af_prov_on_write`, once the head is out: backpressure is decided before a byte is
taken. -/
def onWrite (x : Slot P) (pieces : List Piece) : Slot P × Take :=
  if provPauseHigh ≤ x.pending.length then ({ x with paused := true }, .pause)
  else x.emitAll pieces

/-- The callbacks of a transfer that goes on, until one pauses or aborts it. -/
def deliver : Slot P → List (List Piece) → Slot P
  | x, [] => x
  | x, pieces :: rest =>
    match x.onWrite pieces with
    | (x, .all) => deliver x rest
    | (x, _) => x

/-- Whether `af_prov_conn_drained` resumes the transfer. -/
def resumes (x : Slot P) : Bool := x.paused && decide (x.pending.length < provPauseLow)

/-- `af_prov_conn_drained`. -/
def drained (x : Slot P) (resumed : List (List Piece)) : Slot P :=
  if x.resumes then deliver { x with paused := false } resumed else x

/-- `af_http_conn_flush`. The interest is registered after the hook. -/
def flush (x : Slot P) (w : Writes) : Slot P × Bool :=
  match x.conn.outbox.flush w.sys with
  | (o, false) => (x.withOutbox o, false)
  | (o, true) =>
    let y := x.withOutbox o
    let y := if y.conn.upstream then y.drained w.resumed else y
    ({ y with interest := ⟨true, o.holds⟩ }, true)

/-! ## The nested flush -/

/-- A flush of a connection whose exchange is not paused runs no callback. -/
theorem flush_of_running {x : Slot P} (h : x.paused = false) (w : Writes) :
    x.flush w = x.settle w.sys := by
  have hidle : ∀ o, (x.withOutbox o).drained w.resumed = x.withOutbox o := by
    intro o
    have hpaused : (x.withOutbox o).paused = false := h
    simp only [drained, resumes, hpaused, Bool.false_and, Bool.false_eq_true, if_false]
  unfold flush settle
  rcases x.conn.outbox.flush w.sys with ⟨o, _ | _⟩
  · rfl
  · dsimp only
    rw [hidle]
    split_ifs <;> rfl

theorem settle_paused (x : Slot P) (sys : List SysWrite) :
    (x.settle sys).1.paused = x.paused := by
  unfold settle
  rcases x.conn.outbox.flush sys with ⟨o, _ | _⟩ <;> rfl

theorem emitChunk_paused (x : Slot P) (piece : Piece) :
    (x.emitChunk piece).1.paused = x.paused := by
  unfold emitChunk
  split_ifs
  · rfl
  · dsimp only
    split_ifs
    · rfl
    · rw [settle_paused]
      rfl

/-- While a callback sends its chunks the transfer stays unpaused, so `settle` is the flush
its chunks get. -/
theorem emitAll_paused (x : Slot P) (pieces : List Piece) :
    (x.emitAll pieces).1.paused = x.paused := by
  induction pieces generalizing x with
  | nil => rfl
  | cons piece pieces ih =>
    have hfirst := x.emitChunk_paused piece
    rw [emitAll]
    generalize x.emitChunk piece = r at hfirst
    obtain ⟨y, st⟩ := r
    dsimp only at hfirst ⊢
    split_ifs
    · exact hfirst
    · exact (ih y).trans hfirst

/-! ## Pending output is armed -/

/-- Unwritten bytes are watched for, if the flush succeeded. -/
def Armed (r : Slot P × Bool) : Prop :=
  r.2 = true → r.1.pending ≠ [] → r.1.interest.writable = true

theorem settle_armed (x : Slot P) (sys : List SysWrite) : Armed (x.settle sys) := by
  unfold settle
  rcases x.conn.outbox.flush sys with ⟨o, _ | _⟩
  · intro hok
    cases hok
  · intro _ hpending
    exact o.holds_iff.mpr hpending

/-- The kernel takes all that is pending, a paused transfer is resumed, and not all of what
it delivers is taken. -/
def Refills (x : Slot P) (w : Writes) : Prop :=
  SysWrite.outcome w.sys x.pending.length = .all ∧ x.conn.upstream = true ∧ x.paused = true ∧
    (deliver { x.withOutbox x.conn.outbox.drained with paused := false } w.resumed).pending ≠ []

/-- A flush leaves pending output armed, unless what it resumed has filled the outbox
again. -/
theorem flush_armed (x : Slot P) (w : Writes) : Armed (x.flush w) ↔ ¬x.Refills w := by
  have houtcome := Outbox.flush_outcome w.sys x.conn.outbox
  have hlength : x.pending.length = x.conn.outbox.pending.length := rfl
  unfold Armed Refills
  rw [hlength]
  cases hwritten : SysWrite.outcome w.sys x.conn.outbox.pending.length with
  | error =>
    rw [hwritten] at houtcome
    refine iff_of_true (fun hok _ => ?_) (fun h => by cases h.1)
    unfold flush at hok
    rcases hflush : x.conn.outbox.flush w.sys with ⟨o, _ | _⟩
    · rw [hflush] at hok
      cases hok
    · rw [hflush] at houtcome
      cases houtcome
  | some =>
    rw [hwritten] at houtcome
    refine iff_of_true (fun _ _ => ?_) (fun h => by cases h.1)
    unfold flush
    rcases hflush : x.conn.outbox.flush w.sys with ⟨o, _ | _⟩
    · rw [hflush] at houtcome
      cases houtcome.1
    · rw [hflush] at houtcome
      exact houtcome.2
  | all =>
    rw [hwritten] at houtcome
    have hnone : x.conn.outbox.drained.pending = [] := List.drop_nil
    have hempty : x.conn.outbox.drained.holds = false := by
      rw [Bool.eq_false_iff, ne_eq, Outbox.holds_iff, not_not]
      exact hnone
    have hlow : (x.withOutbox x.conn.outbox.drained).resumes = x.paused := by
      have hpending : (x.withOutbox x.conn.outbox.drained).pending = [] := hnone
      unfold resumes
      rw [hpending]
      exact (congrArg _ (by decide)).trans (Bool.and_true _)
    unfold flush
    rw [houtcome]
    dsimp only
    rw [withOutbox_upstream, hempty]
    by_cases hup : x.conn.upstream = true
    · rw [if_pos hup]
      unfold drained
      rw [hlow]
      cases hpaused : x.paused with
      | true =>
        rw [if_pos rfl]
        constructor
        · intro harmed h
          exact Bool.false_ne_true (harmed rfl h.2.2.2)
        · intro h _ hpending
          exact absurd ⟨rfl, hup, rfl, hpending⟩ h
      | false =>
        rw [if_neg Bool.false_ne_true]
        exact iff_of_true (fun _ hpending => absurd hnone hpending) (fun h => by cases h.2.2.1)
    · rw [if_neg hup]
      exact iff_of_true (fun _ hpending => absurd hnone hpending) (fun h => absurd h.2.1 hup)

end Slot
end AsmFlow.Http
