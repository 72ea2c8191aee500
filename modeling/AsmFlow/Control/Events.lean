import AsmFlow.Control.Dispatch
import AsmFlow.Library.Runs

/-!
# The events of a control connection

`af_ctl_on_conn` and the functions it drives. What the client has sent waits in the
socket; an event says what the kernel answers to each call.
-/

namespace AsmFlow.Control

open Http Json Library

/-- What the kernel answers to a read: `n` bytes more than one are there, or the end
when the client has sent all it had. -/
inductive ReadAnswer
  | ready (n : ℕ)
  | again
  | intr
  | failed (f : Mcp.Fault)
  deriving DecidableEq

/-- `AF_CTL_READ_CHUNK`. -/
def readChunk : ℕ := 65536

/-- What the handler of one request does, and the memory there is for the answer. -/
structure Serving where
  alloc : ℕ → Bool
  answer : Answer

/-- One call of `af_ctl_on_conn`. A hang-up is any of `EPOLLRDHUP`, `EPOLLHUP` and
`EPOLLERR`; the writes come before and behind the reads. -/
structure Event where
  writable : Bool
  readable : Bool
  hangup : Bool
  early : List WriteAnswer
  alloc : ℕ → Bool
  reads : List ReadAnswer
  late : List WriteAnswer

/-- A connection, what the client has sent and is not read, and the frames that have
been dispatched. -/
structure Session where
  conn : Conn
  unread : Bytes
  dispatched : List Bytes
  released : Bool

/-- A client that is going to send these bytes. -/
def Session.accepted (frameMax : ℕ) (sent : Bytes) : Session :=
  { conn := Conn.accepted frameMax, unread := sent, dispatched := [], released := false }

namespace Conn

variable (J : Mcp.JsonLibrary) (serve : ℕ → Serving)

/-- How much one read asks for: what is missing to the ceiling, a chunk at most. -/
def chunk (c : Conn) : ℕ := min (c.frameMax - c.inbox.len) readChunk

/-- Bytes read into the space that was reserved for them. -/
def fill (c : Conn) {n : ℕ} (room : c.inbox.Roomy n) (p : Bytes) : Conn :=
  { c with
    inbox := ⟨c.inbox.data ++ p.take n, room.cap, c.inbox.max, by
      have hlen : (p.take n).length ≤ n := List.length_take_le n p
      have hroom : c.inbox.data.length + n ≤ room.cap := room.room
      rw [List.length_append]
      omega, room.cap_le_max⟩ }

/-- `af_ctl_conn_read`. A kernel that has no more answers would block. -/
def read (alloc : ℕ → Bool) (c : Conn) (unread : Bytes) (answers : List ReadAnswer) :
    Conn × Bytes × Status :=
  if c.frameMax ≤ c.inbox.len then (c, unread, Status.ok)
  else
    match c.inbox.reserve alloc c.chunk with
    | .error st => (c, unread, st)
    | .ok room =>
      match answers with
      | [] | .again :: _ => (c.fill room [], unread, Status.ok)
      | .intr :: rest => (c.fill room []).read alloc unread rest
      | .failed f :: _ => (c.fill room [], unread, f.val)
      | .ready n :: rest =>
        let p := unread.take (min (n + 1) c.chunk)
        if p.length = 0 then (c.fill room [], unread, Status.eof)
        else (c.fill room p).read alloc (unread.drop p.length) rest

/-- One turn of the loop on a frame; what consuming it returns is not looked at. -/
def handle (c : Conn) (serving : Serving) (frame : Bytes) : Conn × Status :=
  match c.dispatchFrame J serving.alloc serving.answer frame with
  | (d, st) => ({ d with inbox := (frameConsume d.inbox frame.length).1 }, st)

/-- `af_ctl_conn_drain_frames`, with as many turns as there may be frames. Each request
is served in the order of the dispatches. -/
def drainFrames (c : Conn) (dispatched : List Bytes) : ℕ → Conn × List Bytes × Status
  | 0 => (c, dispatched, Status.ok)
  | turns + 1 =>
    if c.closing then (c, dispatched, Status.ok)
    else
      match frameNext c.inbox.data c.frameMax with
      | .error st =>
        if st = Status.again then (c, dispatched, Status.ok)
        else (c.protocolError (serve dispatched.length).alloc st, dispatched, Status.ok)
      | .ok frame =>
        match c.handle J (serve dispatched.length) frame with
        | (d, st) =>
          if st < 0 then (d, dispatched ++ [frame], st)
          else d.drainFrames (dispatched ++ [frame]) turns

end Conn

namespace Session

variable (J : Mcp.JsonLibrary) (serve : ℕ → Serving)

/-- `.read` of `af_ctl_on_conn`. -/
def onReadable (s : Session) (e : Event) : Session :=
  match s.conn.read e.alloc s.unread e.reads with
  | (c, unread, st) =>
    if st < 0 then { s with conn := c, unread, released := true }
    else
      match c.drainFrames J serve s.dispatched (c.inbox.len + 1) with
      | (c, dispatched, st) =>
        if st < 0 then { conn := c, unread, dispatched, released := true }
        else
          match c.flush e.late with
          | (c, st) =>
            if st < 0 then { conn := c, unread, dispatched, released := true }
            else
              { conn := c
                unread
                dispatched
                released := c.closing && decide (c.outbox.len ≤ c.cursor) }

/-- `af_ctl_on_conn`. -/
def onConn (s : Session) (e : Event) : Session :=
  if s.released then s
  else
    match (if e.writable then s.conn.flush e.early else (s.conn, Status.ok)) with
    | (c, st) =>
      let s := { s with conn := c }
      if st < 0 then { s with released := true }
      else if e.readable then s.onReadable J serve e
      else { s with released := e.hangup }

end Session

section Closing

/-- The kernel's answers take `n` bytes and more. -/
def takesAll : ℕ → List WriteAnswer → Bool
  | 0, _ => true
  | _ + 1, [] => false
  | n + 1, .wrote k :: rest => takesAll (n + 1 - k) rest
  | n + 1, .intr :: rest => takesAll (n + 1) rest
  | _ + 1, .again :: _ => false
  | _ + 1, .failed _ :: _ => false

variable {c : Conn}

theorem unwritten_eq_nil : c.unwritten = [] ↔ c.outbox.len ≤ c.cursor := List.drop_eq_nil_iff

theorem unwritten_length : c.unwritten.length = c.outbox.len - c.cursor := List.length_drop

/-- A flush leaves nothing unwritten exactly when the kernel takes everything, and
then it does not fail. -/
theorem flush_drains (answers : List WriteAnswer) :
    (c.flush answers).1.closing = c.closing ∧
      ((c.flush answers).1.unwritten = [] ↔ takesAll c.unwritten.length answers = true) ∧
      (takesAll c.unwritten.length answers = true → (c.flush answers).2 = Status.ok) := by
  induction answers generalizing c with
  | nil =>
    unfold Conn.flush
    split_ifs with hdone
    · rw [unwritten_eq_nil.mpr hdone]
      exact ⟨rfl, by simp [takesAll, Conn.drained, Conn.unwritten], fun _ => rfl⟩
    · obtain ⟨b, bs, hwaiting⟩ := List.exists_cons_of_ne_nil (mt unwritten_eq_nil.mp hdone)
      rw [hwaiting]
      refine ⟨rfl, ?_, fun h => rfl⟩
      change c.unwritten = [] ↔ _
      simp [hwaiting, takesAll]
  | cons a answers ih =>
    unfold Conn.flush
    split_ifs with hdone
    · rw [unwritten_eq_nil.mpr hdone]
      exact ⟨rfl, by simp [takesAll, Conn.drained, Conn.unwritten], fun _ => rfl⟩
    · obtain ⟨n, hn⟩ : ∃ n, c.unwritten.length = n + 1 := by
        refine ⟨c.outbox.len - c.cursor - 1, ?_⟩
        rw [unwritten_length]
        omega
      have hwaiting : c.unwritten ≠ [] := mt unwritten_eq_nil.mp hdone
      rw [hn]
      cases a with
      | wrote k =>
        have hleft : ({ c with cursor := c.cursor + min k (c.outbox.len - c.cursor) } :
            Conn).unwritten.length = n + 1 - k := by
          rw [unwritten_length] at hn ⊢
          dsimp only
          omega
        have hrest := ih (c := { c with cursor := c.cursor + min k (c.outbox.len - c.cursor) })
        rw [hleft] at hrest
        exact hrest
      | again =>
        refine ⟨rfl, ?_, fun h => rfl⟩
        change c.unwritten = [] ↔ _
        simp [hwaiting, takesAll]
      | intr =>
        have hrest := ih (c := c)
        rw [hn] at hrest
        exact hrest
      | failed f => exact ⟨rfl, by simpa [takesAll] using hwaiting, by simp [takesAll]⟩

/-- A connection that is closing still has something to write. -/
def Session.Pending (s : Session) : Prop :=
  s.released = false → s.conn.closing = true → s.conn.unwritten ≠ []

/-- The event that goes wrong: the client is told all that was left by a writability
event that is nothing else. -/
def Session.Overlooked (s : Session) (e : Event) : Prop :=
  s.released = false ∧ s.conn.closing = true ∧ e.writable = true ∧ e.readable = false ∧
    e.hangup = false ∧ takesAll s.conn.unwritten.length e.early = true

variable {J : Mcp.JsonLibrary} {serve : ℕ → Serving} {s : Session} {e : Event}

/-- Behind the reads the decision to close is taken. -/
theorem onReadable_pending : (s.onReadable J serve e).Pending := by
  unfold Session.onReadable
  dsimp only
  split_ifs
  · intro hopen
    cases hopen
  · intro hopen
    cases hopen
  · intro hopen
    cases hopen
  · intro hopen hclosing hwritten
    rcases Bool.and_eq_false_iff.mp hopen with hopen | hopen
    · rw [hclosing] at hopen
      cases hopen
    · exact of_decide_eq_false hopen (unwritten_eq_nil.mp hwritten)

/-- One event keeps this exactly when it is not the one that goes wrong. -/
theorem onConn_pending_iff (h : s.Pending) :
    (s.onConn J serve e).Pending ↔ ¬ s.Overlooked e := by
  unfold Session.onConn
  by_cases hreleased : s.released = true
  · rw [if_pos hreleased]
    simp [h, Session.Overlooked, hreleased]
  · rw [if_neg hreleased]
    have hopen : s.released = false := by simpa using hreleased
    dsimp only
    cases hreadable : e.readable with
    | true =>
      have hfine : ¬ s.Overlooked e := by
        rintro ⟨-, -, -, hnot, -⟩
        rw [hreadable] at hnot
        cases hnot
      rw [iff_true_right hfine, if_pos rfl]
      split_ifs
      · intro hopen
        cases hopen
      · exact onReadable_pending
      · intro hopen
        cases hopen
      · exact onReadable_pending
    | false =>
      simp only [Bool.false_eq_true, reduceIte]
      cases hwritable : e.writable with
      | false =>
        have hfine : ¬ s.Overlooked e := by
          rintro ⟨-, -, hnot, -⟩
          rw [hwritable] at hnot
          cases hnot
        rw [iff_true_right hfine]
        simp only [Bool.false_eq_true, reduceIte]
        rw [if_neg (by decide)]
        intro _ hclosing
        exact h hopen hclosing
      | true =>
        obtain ⟨hclosing, hwritten, hok⟩ := flush_drains (c := s.conn) e.early
        simp only [reduceIte]
        split_ifs with hneg
        · have hfine : ¬ s.Overlooked e := by
            rintro ⟨-, -, -, -, -, hall⟩
            rw [hok hall] at hneg
            exact absurd hneg (by decide : ¬ Status.ok < 0)
          rw [iff_true_right hfine]
          intro hopen
          cases hopen
        · unfold Session.Pending Session.Overlooked
          dsimp only
          rw [hclosing]
          simp only [hopen, hreadable, hwritable, true_and, ne_eq, hwritten]
          tauto

/-- A closing connection has something left to write whenever its handler returns
without releasing it, exactly when no event overlooks that all is written. -/
theorem doomed_released_iff (J : Mcp.JsonLibrary) (serve : ℕ → Serving) (frameMax : ℕ)
    (sent : Bytes) (events : List Event) :
    Throughout (Session.onConn J serve) Session.Pending (Session.accepted frameMax sent) events ↔
      Along (Session.onConn J serve) (fun s e => ¬ s.Overlooked e)
        (Session.accepted frameMax sent) events :=
  throughout_iff_along (Q := fun _ => True) (T := fun _ _ => True) (fun _ _ _ _ _ _ => trivial)
    (fun _ _ _ _ h => onConn_pending_iff h) trivial (fun _ hclosing => by cases hclosing)
    ((along_iff_forall_split _ events).mpr fun _ _ _ _ => trivial)

private def idle (_ : ℕ) : Serving :=
  ⟨fun _ => true, ⟨[], Status.ok, List.forall_mem_nil _⟩⟩

/-- A line that is not UTF-8, and a client that reads the answer in two parts. -/
private def twoParts : List Event :=
  [⟨false, true, false, [], fun _ => true, [.ready 1, .again], [.wrote 10, .again]⟩,
    ⟨true, false, false, [.wrote 4096], fun _ => true, [], []⟩]

/-- With the second part everything is written, and the connection stays. -/
theorem doomed_lingers :
    ¬ ∀ (J : Mcp.JsonLibrary) (serve : ℕ → Serving) (frameMax : ℕ) (sent : Bytes)
      (events : List Event), Throughout (Session.onConn J serve) Session.Pending
        (Session.accepted frameMax sent) events := by
  intro h
  have hlast := (h ⟨fun _ _ => none, fun _ => none⟩ idle 4096 [0xFF, 10] twoParts).last
  exact hlast (by decide +kernel) (by decide +kernel) (by decide +kernel)

end Closing
end AsmFlow.Control
