import AsmFlow.Library.Runs
import AsmFlow.Mcp.Rpc
import AsmFlow.Memory.Storage

/-!
# Frames to the child's stdin

`af_mcp_send` and `af_mcp_write_stdin` on bytes: a frame and its line feed are
reserved for in one piece, appended behind what the pipe has not taken, and
written from a cursor that goes back to the front once everything is out.
-/

namespace AsmFlow.Mcp

open Library

/-- What one write to the pipe answers. -/
inductive PipeAnswer
  | took (n : ℕ)
  | again
  | failed (f : Fault)

/-- The pipe takes bytes or has no room. -/
def PipeAnswer.Flows : PipeAnswer → Prop
  | .failed _ => False
  | _ => True

/-- The stdin side of `af_mcp_child`, and what the child was given. -/
structure Stdin where
  outbox : Buffer
  /-- `MC_OUT_CURSOR`. -/
  cursor : ℕ
  framesOut : ℕ
  /-- `AF_MC_F_STDIN_OPEN`. -/
  isOpen : Bool
  hasFd : Bool
  written : Bytes

namespace Stdin

/-- New pipes. -/
def fresh : Stdin := ⟨Buffer.init inventoryMax, 0, 0, true, true, []⟩

variable (s : Stdin)

/-- `.drained`. -/
def drained : Stdin := { s with outbox := s.outbox.clear, cursor := 0 }

/-- The pipe took `n` bytes. -/
def took (n : ℕ) : Stdin :=
  { s with
    cursor := s.cursor + n
    written := s.written ++ (s.outbox.data.drop s.cursor).take n }

/-- `.write_loop`; behind the answers there are, the pipe is full. -/
def writeLoop (s : Stdin) : List PipeAnswer → Stdin × Status
  | [] => if s.outbox.len ≤ s.cursor then (s.drained, Status.ok) else (s, Status.ok)
  | w :: ws =>
    if s.outbox.len ≤ s.cursor then (s.drained, Status.ok)
    else
      match w with
      | .again => (s, Status.ok)
      | .failed f => (s, f.val)
      | .took n =>
        let n := min n (s.outbox.len - s.cursor)
        if n = 0 then (s.took n, Status.ok) else (s.took n).writeLoop ws

/-- `af_mcp_write_stdin`. -/
def writeStdin (ws : List PipeAnswer) : Stdin × Status :=
  if s.hasFd = false then (s, Status.ok) else s.writeLoop ws

/-- A frame is queued. -/
def counted (b : Buffer) : Stdin := { s with outbox := b, framesOut := s.framesOut + 1 }

/-- `af_mcp_send`. -/
def send (a : Allocator) (line : Bytes) (ws : List PipeAnswer) : Stdin × Status :=
  if s.isOpen = false then (s, Status.closed)
  else if 2 ^ 64 ≤ line.length + 1 then (s, Status.overflow)
  else
    match s.outbox.reserved a.grants (line.length + 1) with
    | (b, st) =>
      if st < 0 then ({ s with outbox := b }, st)
      else
        match b.append a.grants line with
        | (b, st) =>
          if st < 0 then ({ s with outbox := b }, st)
          else
            match b.appendByte a.grants 10 with
            | (b, st) =>
              if st < 0 then ({ s with outbox := b }, st) else (s.counted b).writeStdin ws

/-- A frame is sent, or the pipe is reported writable. -/
inductive Op
  | send (a : Allocator) (line : Bytes) (ws : List PipeAnswer)
  | flush (ws : List PipeAnswer)

/-- No write of the operation fails. -/
def Op.Flows : Op → Prop
  | .send _ _ ws | .flush ws => ∀ w ∈ ws, w.Flows

def perform : Op → Stdin × Status
  | .send a line ws => s.send a line ws
  | .flush ws => s.writeStdin ws

def step (s : Stdin) (op : Op) : Stdin := (s.perform op).1

/-- The frame an operation got accepted. -/
def acceptedBy (op : Op) : List Bytes :=
  match op with
  | .send a line ws => if (s.send a line ws).2 < 0 then [] else [line]
  | .flush _ => []

/-- The frames a run got accepted. -/
def accepted : Stdin → List Op → List Bytes
  | _, [] => []
  | s, op :: ops => s.acceptedBy op ++ (s.step op).accepted ops

/-- What the pipe has not taken. -/
def pending : Bytes := s.outbox.data.drop s.cursor

/-- What the child was or will be given. -/
def stream : Bytes := s.written ++ s.pending

/-- Frames on the wire. -/
def wire (frames : List Bytes) : Bytes := (frames.map (· ++ [10])).flatten

end Stdin

/-! ## A reservation holds for what is appended -/

section Room

variable {alloc : ℕ → Bool} {b : Buffer} {n : ℕ}

theorem reserved_cases (alloc : ℕ → Bool) (b : Buffer) (n : ℕ) :
    (∃ b', b.reserved alloc (n + 1) = (b', Status.ok) ∧ b'.data = b.data ∧
        b'.len + (n + 1) ≤ b'.cap ∧ b'.len + (n + 1) < 2 ^ 64) ∨
      ∃ st < 0, b.reserved alloc (n + 1) = (b, st) := by
  unfold Buffer.reserved
  cases hroom : b.reserve alloc (n + 1) with
  | error st => exact Or.inr ⟨st, Buffer.reserve_neg hroom, rfl⟩
  | ok room =>
    refine Or.inl ⟨_, rfl, rfl, room.room, ?_⟩
    change b.len + (n + 1) < 2 ^ 64
    by_contra hover
    unfold Buffer.reserve at hroom
    rw [dif_neg (Nat.succ_ne_zero n), if_pos (not_lt.mp hover)] at hroom
    cases hroom

/-- Bytes there is room for are appended. -/
theorem append_of_room (alloc : ℕ → Bool) {p : Bytes} (hroom : b.len + p.length ≤ b.cap)
    (hlt : b.len + p.length < 2 ^ 64) :
    ∃ b', b.append alloc p = (b', Status.ok) ∧ b'.data = b.data ++ p ∧ b'.cap = b.cap := by
  unfold Buffer.append Buffer.reserve
  by_cases hzero : p.length = 0
  · rw [dif_pos hzero]
    exact ⟨_, rfl, rfl, rfl⟩
  · rw [dif_neg hzero, if_neg (not_le.mpr hlt), dif_pos hroom]
    exact ⟨_, rfl, rfl, rfl⟩

end Room

namespace Stdin

variable {s : Stdin}

/-- Writing moves bytes from what is pending to what is written, and nothing else. -/
theorem writeLoop_spec (ws : List PipeAnswer) (h : s.cursor ≤ s.outbox.len) :
    (s.writeLoop ws).1.stream = s.stream ∧
      (s.writeLoop ws).1.cursor ≤ (s.writeLoop ws).1.outbox.len ∧
      (s.writeLoop ws).1.framesOut = s.framesOut ∧
      ((∀ w ∈ ws, w.Flows) → (s.writeLoop ws).2 = Status.ok) := by
  have hdrained : s.outbox.len ≤ s.cursor → s.drained.stream = s.stream := by
    intro hall
    have hnone : s.outbox.data.drop s.cursor = [] := List.drop_eq_nil_iff.mpr hall
    unfold stream pending drained
    rw [hnone]
    rfl
  induction ws generalizing s with
  | nil =>
    unfold writeLoop
    split_ifs with hall
    · exact ⟨hdrained hall, le_refl 0, rfl, fun _ => rfl⟩
    · exact ⟨rfl, h, rfl, fun _ => rfl⟩
  | cons w ws ih =>
    unfold writeLoop
    by_cases hall : s.outbox.len ≤ s.cursor
    · rw [if_pos hall]
      exact ⟨hdrained hall, le_refl 0, rfl, fun _ => rfl⟩
    · rw [if_neg hall]
      cases w with
      | again => exact ⟨rfl, h, rfl, fun _ => rfl⟩
      | failed f =>
        refine ⟨rfl, h, rfl, fun hflows => ?_⟩
        exact absurd (hflows (.failed f) List.mem_cons_self) id
      | took n =>
        dsimp only
        have hmoved : (s.took (min n (s.outbox.len - s.cursor))).stream = s.stream := by
          unfold stream pending took
          dsimp only
          rw [← List.drop_drop, List.append_assoc, List.take_append_drop]
        have hcursor : (s.took (min n (s.outbox.len - s.cursor))).cursor ≤
            (s.took (min n (s.outbox.len - s.cursor))).outbox.len := by
          change s.cursor + min n (s.outbox.len - s.cursor) ≤ s.outbox.len
          omega
        by_cases hzero : min n (s.outbox.len - s.cursor) = 0
        · rw [if_pos hzero]
          exact ⟨hmoved, hcursor, rfl, fun _ => rfl⟩
        · rw [if_neg hzero]
          obtain ⟨hstream, hcursor', hcount, hok⟩ := ih hcursor (by
            intro hall'
            have hnone : (s.took (min n (s.outbox.len - s.cursor))).outbox.data.drop
                (s.took (min n (s.outbox.len - s.cursor))).cursor = [] :=
              List.drop_eq_nil_iff.mpr hall'
            unfold stream pending drained
            rw [hnone]
            rfl)
          exact ⟨hstream.trans hmoved, hcursor', hcount,
            fun hflows => hok fun w hw => hflows w (List.mem_cons_of_mem _ hw)⟩

theorem writeStdin_spec (ws : List PipeAnswer) (h : s.cursor ≤ s.outbox.len) :
    (s.writeStdin ws).1.stream = s.stream ∧
      (s.writeStdin ws).1.cursor ≤ (s.writeStdin ws).1.outbox.len ∧
      (s.writeStdin ws).1.framesOut = s.framesOut ∧
      ((∀ w ∈ ws, w.Flows) → (s.writeStdin ws).2 = Status.ok) := by
  unfold writeStdin
  split_ifs
  · exact ⟨rfl, h, rfl, fun _ => rfl⟩
  · exact writeLoop_spec ws h

/-- A frame is refused as if it had never been sent, or queued whole with its line feed and
then written from. -/
theorem send_cases (s : Stdin) (a : Allocator) (line : Bytes) (ws : List PipeAnswer) :
    (∃ st < 0, s.send a line ws = (s, st)) ∨
      ∃ b, b.data = s.outbox.data ++ (line ++ [10]) ∧
        s.send a line ws = (s.counted b).writeStdin ws := by
  unfold send
  by_cases hclosed : s.isOpen = false
  · rw [if_pos hclosed]
    exact Or.inl ⟨_, by decide, rfl⟩
  · rw [if_neg hclosed]
    by_cases hover : 2 ^ 64 ≤ line.length + 1
    · rw [if_pos hover]
      exact Or.inl ⟨_, by decide, rfl⟩
    · rw [if_neg hover]
      rcases reserved_cases a.grants s.outbox line.length with
        ⟨b, hb, hdata, hroom, hlt⟩ | ⟨st, hst, hb⟩
      · obtain ⟨b', hb', hdata', hcap⟩ := append_of_room a.grants (p := line)
          (by omega : b.len + line.length ≤ b.cap) (by omega)
        have hlen : b'.len = b.len + line.length := by
          unfold Buffer.len
          rw [hdata', List.length_append]
        obtain ⟨b'', hb'', hdata'', -⟩ := append_of_room a.grants (b := b') (p := [10])
          (by rw [hlen, hcap]; exact hroom) (by rw [hlen]; exact hlt)
        have hlast : b'.appendByte a.grants 10 = (b'', Status.ok) := hb''
        rw [hb]
        dsimp only
        rw [if_neg (by decide), hb']
        dsimp only
        rw [if_neg (by decide), hlast]
        dsimp only
        rw [if_neg (by decide)]
        refine Or.inr ⟨b'', ?_, rfl⟩
        rw [hdata'', hdata', hdata, List.append_assoc]
      · rw [hb]
        dsimp only
        rw [if_pos hst]
        exact Or.inl ⟨st, hst, rfl⟩

theorem stream_counted {b : Buffer} {p : Bytes} (h : s.cursor ≤ s.outbox.len)
    (hb : b.data = s.outbox.data ++ p) :
    (s.counted b).stream = s.stream ++ p ∧ (s.counted b).cursor ≤ (s.counted b).outbox.len := by
  constructor
  · unfold stream pending counted
    dsimp only
    rw [hb, List.drop_append_of_le_length h, List.append_assoc]
  · change s.cursor ≤ b.data.length
    rw [hb, List.length_append]
    exact le_trans h (Nat.le_add_right _ _)

@[simp] theorem wire_append (fs gs : List Bytes) : wire (fs ++ gs) = wire fs ++ wire gs := by
  unfold wire
  rw [List.map_append, List.flatten_append]

/-- One operation adds the frame it accepts to the stream, whole, and counts it. -/
theorem perform_spec (op : Op) (h : s.cursor ≤ s.outbox.len) (hflows : op.Flows) :
    (s.step op).stream = s.stream ++ wire (s.acceptedBy op) ∧
      (s.step op).cursor ≤ (s.step op).outbox.len ∧
      (s.step op).framesOut = s.framesOut + (s.acceptedBy op).length ∧
      ((s.perform op).2 < 0 → s.step op = s) := by
  cases op with
  | flush ws =>
    obtain ⟨hstream, hcursor, hcount, hok⟩ := writeStdin_spec ws h
    refine ⟨?_, hcursor, hcount, fun hneg => ?_⟩
    · exact hstream.trans (List.append_nil _).symm
    · have hstatus : (s.perform (.flush ws)).2 = Status.ok := hok hflows
      rw [hstatus] at hneg
      exact absurd hneg (by decide)
  | send a line ws =>
    unfold step perform acceptedBy
    dsimp only
    rcases send_cases s a line ws with ⟨st, hst, heq⟩ | ⟨b, hb, heq⟩
    · rw [heq]
      dsimp only
      rw [if_pos hst]
      exact ⟨(List.append_nil _).symm, h, rfl, fun _ => rfl⟩
    · obtain ⟨hqueued, hcursor⟩ := stream_counted h hb
      obtain ⟨hstream, hcursor', hcount, hok⟩ := writeStdin_spec ws hcursor
      rw [heq, hok hflows, if_neg (by decide)]
      refine ⟨?_, hcursor', hcount, fun hneg => absurd hneg (by decide)⟩
      rw [hstream, hqueued]
      simp [wire]

theorem run_spec (ops : List Op) (h : s.cursor ≤ s.outbox.len) (hflows : ∀ op ∈ ops, op.Flows) :
    (run step s ops).stream = s.stream ++ wire (s.accepted ops) ∧
      (run step s ops).cursor ≤ (run step s ops).outbox.len ∧
      (run step s ops).framesOut = s.framesOut + (s.accepted ops).length := by
  induction ops generalizing s with
  | nil => exact ⟨(List.append_nil _).symm, h, rfl⟩
  | cons op ops ih =>
    obtain ⟨hstream, hcursor, hcount, -⟩ := perform_spec op h (hflows op List.mem_cons_self)
    obtain ⟨hstream', hcursor', hcount'⟩ :=
      ih hcursor fun op hop => hflows op (List.mem_cons_of_mem _ hop)
    refine ⟨?_, hcursor', ?_⟩
    · rw [run_cons, hstream', hstream, accepted, wire_append, List.append_assoc]
    · rw [run_cons, hcount', hcount, accepted, List.length_append, Nat.add_assoc]

/-- What the child was given and what is still queued for it are the accepted frames in order,
each with one line feed; an operation that is refused changes nothing. -/
theorem frames_intact (ops : List Op) (hflows : ∀ op ∈ ops, op.Flows) :
    let s := run step fresh ops
    s.written ++ s.outbox.data.drop s.cursor = wire (fresh.accepted ops) ∧
      s.framesOut = (fresh.accepted ops).length ∧
      ∀ op, op.Flows → (s.perform op).2 < 0 → s.step op = s := by
  intro s
  obtain ⟨hstream, hcursor, hcount⟩ := run_spec ops (s := fresh) (le_refl 0) hflows
  refine ⟨hstream, hcount.trans (Nat.zero_add _), fun op hop hneg => ?_⟩
  exact (perform_spec op hcursor hop).2.2.2 hneg

theorem frames_intact_two :
    let s := run step fresh [.send Storage.roomy [1, 2] [.took 1, .again],
      .send Storage.roomy [3] [.took 2, .again], .flush [.took 7]]
    s.written ++ s.outbox.data.drop s.cursor = [1, 2, 10, 3, 10] := by
  have hflows : ∀ op ∈ [Op.send Storage.roomy [1, 2] [.took 1, .again],
      .send Storage.roomy [3] [.took 2, .again], .flush [.took 7]], op.Flows := by
    simp [Op.Flows, PipeAnswer.Flows]
  exact (frames_intact _ hflows).1.trans (by decide)

end Stdin

end AsmFlow.Mcp
