import AsmFlow.Http.Commit
import AsmFlow.Http.Drain

/-!
# Output and the event loop

While response bytes are unwritten the loop is to watch for the moment they can
be. A flush that wrote everything resumes the transfer behind it, and what that
fills the outbox with is not watched for.
-/

namespace AsmFlow.Http

open Library Providers

variable {P : Type}

namespace Act

/-- The flush, if this is one, leaves unwritten bytes watched for. -/
def Armed : Act P → Prop
  | .flushed x w => Slot.Armed (x.flush w)
  | _ => True

/-- The flush resumes a transfer and is left with what that delivers. -/
def Refills : Act P → Prop
  | .flushed x w => x.Refills w
  | _ => False

theorem armed_iff (a : Act P) : a.Armed ↔ ¬a.Refills := by
  cases a with
  | flushed x w => exact x.flush_armed w
  | fed x => exact iff_of_true trivial id
  | shut x => exact iff_of_true trivial id
  | released x => exact iff_of_true trivial id
  | accepted => exact iff_of_true trivial id

end Act

namespace Daemon

variable (s : Server Outbox) (T : Parser P)

/-- Every flush of the event leaves unwritten bytes watched for. -/
def Armed (d : Daemon P) (a : Occurrence) : Prop := ∀ act ∈ (d.react s T a.1 a.2).2, act.Armed

/-- No flush of the event is left with what it resumed. -/
def Settles (d : Daemon P) (a : Occurrence) : Prop := ∀ act ∈ (d.react s T a.1 a.2).2, ¬act.Refills

/-- In a run unwritten bytes are always watched for exactly when no flush is left with
what it resumed. The flushes of the chunks that are resumed always are. -/
theorem armed_along (d : Daemon P) (as : List Occurrence) :
    (∀ (x : Slot P) sys, Slot.Armed (x.settle sys)) ∧
      (Along (step s T) (fun d a => d.Armed s T a) d as ↔
        Along (step s T) (fun d a => d.Settles s T a) d as) := by
  refine ⟨Slot.settle_armed, ?_, ?_⟩
  · intro h
    exact h.mono fun d a harmed act hact => act.armed_iff.mp (harmed act hact)
  · intro h
    exact h.mono fun d a hsettles act hact => act.armed_iff.mpr (hsettles act hact)

end Daemon

/-! ## A transfer that fills the outbox again -/

/-- A kernel that takes as much as is pending takes it all. -/
theorem outcome_wrote {k n : ℕ} (hk : k ≠ 0) (h : n ≤ k) :
    SysWrite.outcome [.wrote k] n = .all := by
  cases n with
  | zero => rfl
  | succ n =>
    rw [SysWrite.outcome, if_neg hk, Nat.sub_eq_zero_of_le h]
    rfl

namespace Slot

/-- A chunk that the kernel takes nothing of. -/
def blocked (p : Bytes) : Piece := (p, ⟨fun _ => true, [.again]⟩)

theorem settle_blocked (x : Slot P) : (x.settle [.again]).1.pending = x.pending := by
  unfold settle Outbox.flush
  split_ifs with hdone
  · show List.drop 0 [] = x.conn.outbox.pending
    rw [Outbox.pending, List.drop_eq_nil_of_le hdone]
    rfl
  · exact x.conn.outbox.wouldBlock_pending

/-- No append moves the ceiling. -/
theorem appendAll_max (alloc : ℕ → Bool) (ps : List Bytes) (o : Outbox) :
    (o.appendAll alloc ps).1.buf.max = o.buf.max := by
  induction ps generalizing o with
  | nil => rfl
  | cons p ps ih =>
    have hone : (o.append alloc p).1.buf.max = o.buf.max := Buffer.append_max
    rw [Outbox.appendAll_cons]
    split_ifs
    · exact hone
    · exact (ih _).trans hone

theorem wouldBlock_max (o : Outbox) : o.wouldBlock.buf.max = o.buf.max := by
  unfold Outbox.wouldBlock Buffer.consume
  split_ifs
  · rfl
  · rfl
  · rfl

/-- What a blocked chunk leaves of a connection whose outbox was empty. -/
theorem emitAll_blocked {x : Slot P} (hempty : x.conn.outbox.buf.data = [])
    (hmax : x.conn.outbox.buf.max = outboxMax) {p : Bytes} (hp : p ≠ [])
    (hroom : (toHex p.length).length + p.length + 4 ≤ outboxMax) :
    ∃ y : Slot P, x.emitAll [blocked p] = (y, .all) ∧ p.length ≤ y.pending.length ∧
      y.conn.upstream = x.conn.upstream ∧ y.conn.outbox.buf.max = outboxMax := by
  let pieces : List Bytes := (toHex p.length).map (fun d => [d]) ++ [crlf, p, crlf]
  have hflatten : pieces.flatten.length = (toHex p.length).length + p.length + 4 := by
    have hdigits : ∀ ds : Bytes, (ds.map fun d => [d]).flatten = ds := by
      intro ds
      induction ds with
      | nil => rfl
      | cons d ds ih => exact congrArg (d :: ·) ih
    simp only [pieces, List.flatten_append, hdigits, List.length_append, List.flatten_cons,
      List.flatten_nil, List.append_nil]
    have hcrlf : crlf.length = 2 := rfl
    omega
  have hfits : x.conn.outbox.roomFor (fun _ => true) pieces = true := by
    unfold Outbox.roomFor
    have hbound : x.conn.outbox.buf.max < 2 ^ 63 := by
      rw [hmax]
      decide
    have hlen : x.conn.outbox.buf.data.length = 0 := congrArg List.length hempty
    apply (Buffer.roomFor_granting hbound x.conn.outbox.buf.cap_le_max
      x.conn.outbox.buf.len_le_cap _).mpr
    rw [← List.length_flatten, hflatten, hmax, hlen, Nat.zero_add]
    exact hroom
  have hok := (Outbox.appendAll_ok_iff (fun _ => true) pieces x.conn.outbox).mpr hfits
  have hceiling := (appendAll_max (fun _ => true) pieces x.conn.outbox).trans hmax
  rcases Outbox.appendAll_cases (fun _ => true) pieces x.conn.outbox with
    ⟨-, hpending⟩ | ⟨hneg, -⟩
  · generalize happended : x.conn.outbox.appendAll (fun _ => true) pieces = r at hok hpending
    obtain ⟨o, st⟩ := r
    rw [happended] at hceiling
    dsimp only at hok hpending hceiling
    subst hok
    have hchunk : x.emitChunk (blocked p) = (((x.withOutbox o).settle [.again]).1, .ok) := by
      unfold emitChunk
      refine (if_neg hp).trans ?_
      show (fun r : Outbox × Status => if r.2 < 0 then (x.withOutbox r.1, r.2)
          else (((x.withOutbox r.1).settle [.again]).1, Status.ok))
        (x.conn.outbox.appendAll (fun _ => true) pieces) = _
      rw [happended]
      rfl
    refine ⟨((x.withOutbox o).settle [.again]).1, ?_, ?_, ?_, ?_⟩
    · rw [emitAll, hchunk]
      rfl
    · have hlength : ((x.withOutbox o).settle [.again]).1.pending.length = o.pending.length := by
        rw [settle_blocked]
        rfl
      rw [hlength, hpending, List.length_append, hflatten]
      omega
    · unfold settle
      rcases (x.withOutbox o).conn.outbox.flush [.again] with ⟨o', _ | _⟩
      · rfl
      · rfl
    · rw [← hceiling]
      unfold settle Outbox.flush
      split_ifs
      · rfl
      · exact wouldBlock_max o
  · rw [hok] at hneg
    exact absurd hneg (by decide)

end Slot

namespace Daemon

/-- A client whose exchange begins to stream. -/
def opening : List Occurrence :=
  [(fun _ => true, .accept),
    (fun _ => true, .conn firstSlot (reads oneRequest)),
    (fun _ => true, .streamHead firstSlot 200 ⟨[.wrote outboxMax], []⟩)]

/-- A slow client of a streaming exchange: the outbox fills up and the transfer is paused;
then the kernel takes everything, and of what the transfer goes on with it takes nothing. -/
def slowClient (chunk : Bytes) : List Occurrence :=
  opening ++
    [(fun _ => true, .streamWrite firstSlot [Slot.blocked chunk]),
      (fun _ => true, .streamWrite firstSlot []),
      (fun _ => true, .conn firstSlot
        { writable := true, readable := false, hup := false,
          first := ⟨[.wrote outboxMax], [[Slot.blocked [120]]]⟩
          read := .again, second := ⟨[], []⟩, third := ⟨[], []⟩, shutOk := true })]

/-- The exchange streams, and everything has been written. -/
theorem opening_streams :
    ∃ x, (run (step generating Reading.parser) empty opening).slots firstSlot = some x ∧
      x.conn.upstream = true ∧ x.paused = false ∧ x.conn.outbox.buf.data = [] ∧
      x.conn.outbox.buf.max = outboxMax := by
  have h : ((run (step generating Reading.parser) empty opening).slots firstSlot).elim
      false (fun x => decide (x.conn.upstream = true ∧ x.paused = false ∧
        x.conn.outbox.buf.data = [] ∧ x.conn.outbox.buf.max = outboxMax)) = true := by
    decide +kernel
  cases hslot : (run (step generating Reading.parser) empty opening).slots firstSlot with
  | none =>
    rw [hslot] at h
    cases h
  | some x =>
    rw [hslot] at h
    exact ⟨x, rfl, of_decide_eq_true h⟩

/-- A writable connection is flushed before anything else. -/
theorem flushed_mem (s : Server Outbox) (T : Parser P) {d : Daemon P} {i : Fin clientsMax} {x : Slot P} (h : d.slots i = some x)
    (alloc : ℕ → Bool) {e : ConnEvent} (he : e.writable = true) :
    Act.flushed x e.first ∈ (d.react s T alloc (.conn i e)).2 := by
  unfold react
  rw [(onSlot_of_some h _).2]
  unfold Slot.onConn
  rw [if_pos he]
  exact List.mem_cons_self

/-- What the paused transfer goes on with is left in the outbox and not watched for. -/
theorem slowClient_refilled {chunk : Bytes} (hsize : chunk.length = provPauseHigh) :
    ¬Along (step generating Reading.parser) (fun d a => d.Armed generating Reading.parser a) empty
      (slowClient chunk) := by
  intro h
  obtain ⟨x, hx, hup, hpaused, hempty, hmax⟩ := opening_streams
  have hrest := ((along_append empty opening _).mp h).2
  generalize run (step generating Reading.parser) empty opening = d at hx hrest
  obtain ⟨-, -, hlast, -⟩ := hrest
  -- the chunk fills the outbox
  have hne : chunk ≠ [] := by
    rintro rfl
    exact absurd hsize (by decide)
  have hroom : (toHex chunk.length).length + chunk.length + 4 ≤ outboxMax := by
    rw [hsize]
    decide
  obtain ⟨y, hy, hfull, hyup, hymax⟩ := Slot.emitAll_blocked hempty hmax hne hroom
  have hfills : x.streamWrite [Slot.blocked chunk] = .keep y := by
    have hlow : ¬provPauseHigh ≤ x.pending.length := by
      rw [Slot.pending, Outbox.pending, hempty, List.drop_nil]
      decide
    unfold Slot.streamWrite Slot.onWrite
    rw [hup, hpaused, if_neg (by decide), if_neg hlow, hy]
  -- the next callback pauses the transfer
  let z : Slot Reading := { y with paused := true }
  have hpauses : y.streamWrite [] = .keep z := by
    have hypaused : y.paused = false := by
      have h := x.emitAll_paused [Slot.blocked chunk]
      rw [hy, hpaused] at h
      exact h
    unfold Slot.streamWrite Slot.onWrite
    rw [hyup, hup, hypaused, if_neg (by decide), if_pos (hsize.symm.trans_le hfull)]
  have hdaemon : ∀ (d : Daemon Reading) {x y : Slot Reading} {pieces : List Piece},
      d.slots firstSlot = some x → x.streamWrite pieces = .keep y →
      (step generating Reading.parser d (fun _ => true, .streamWrite firstSlot pieces)).slots
        firstSlot = some y := by
    intro d x y pieces hslot hwrite
    have h := (onSlot_of_some hslot fun x => x.streamWrite pieces).1
    rw [hwrite] at h
    exact h
  have hz := hdaemon _ (hdaemon d hx hfills) hpauses
  -- the flush resumes it, and it is blocked at once
  let w : Writes := ⟨[.wrote outboxMax], [[Slot.blocked [120]]]⟩
  have harmed : Act.Armed (.flushed z w) :=
    hlast _ (flushed_mem generating Reading.parser hz (fun _ => true) rfl)
  refine (Act.armed_iff _).mp harmed ⟨?_, hyup.trans hup, rfl, ?_⟩
  · have hpending : z.pending.length ≤ outboxMax := by
      rw [← hymax]
      exact ((Outbox.pending_length _).trans_le (Nat.sub_le _ _)).trans
        (y.conn.outbox.buf.len_le_cap.trans y.conn.outbox.buf.cap_le_max)
    exact outcome_wrote (by decide) hpending
  · let u : Slot Reading := { z.withOutbox z.conn.outbox.drained with paused := false }
    have hsmall : (toHex [(120 : UInt8)].length).length + [(120 : UInt8)].length + 4 ≤ outboxMax := by
      decide
    obtain ⟨v, hv, hleft, -, -⟩ :=
      Slot.emitAll_blocked (x := u) rfl hymax (List.cons_ne_nil 120 []) hsmall
    have hdeliver : Slot.deliver u [[Slot.blocked [120]]] = v := by
      have hlow : ¬provPauseHigh ≤ u.pending.length := by
        have hnone : u.pending = [] := List.drop_nil
        rw [hnone]
        decide
      unfold Slot.deliver Slot.onWrite
      rw [if_neg hlow, hv]
      rfl
    show (Slot.deliver u [[Slot.blocked [120]]]).pending ≠ []
    rw [hdeliver]
    exact List.ne_nil_of_length_pos hleft

theorem slowClient_unwatched :
    ¬Along (step generating Reading.parser) (fun d a => d.Armed generating Reading.parser a) empty
      (slowClient (List.replicate provPauseHigh 120)) :=
  slowClient_refilled List.length_replicate

end Daemon
end AsmFlow.Http
