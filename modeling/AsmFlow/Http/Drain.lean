import AsmFlow.Http.Events

/-!
# Output and the write side

The write side is not to be shut down on response bytes that were not written.
Every event of the connection itself sees to it; the end of an exchange does not
where the connection is not kept and the kernel takes no more.
-/

namespace AsmFlow.Http

open Library Providers

variable {P : Type}

namespace Act

/-- The write side is shut down on unwritten bytes. -/
def cuts : Act P → Bool
  | .shut x => x.conn.outbox.holds
  | _ => false

/-- The socket reports an error. -/
def fails : Act P → Bool
  | .flushed x w => !(x.flush w).2
  | _ => false

end Act

namespace Done

/-- Nothing is cut off, or the socket has reported an error. -/
def Whole (d : Done P) : Prop := d.acts.any Act.cuts = true → d.acts.any Act.fails = true

theorem whole_keep (x : Slot P) : (keep x).Whole := nofun

theorem whole_release (x : Slot P) : (release x).Whole := nofun

theorem Whole.after {d : Done P} (h : d.Whole) {a : Act P} (ha : a.cuts = false) :
    (d.after a).Whole := by
  intro hcuts
  have hrest : d.acts.any Act.cuts = true := by simpa [Done.after, ha] using hcuts
  simp [Done.after, h hrest]

end Done

namespace Slot

variable (s : Server Outbox) (T : Parser P)

theorem whole_flushing (x : Slot P) (w : Writes) {k : Slot P → Bool → Done P}
    (h : ∀ y ok, (k y ok).Whole) : (x.flushing w k).Whole := (h _ _).after rfl

theorem whole_feeding (x : Slot P) {k : Slot P → Done P} (h : ∀ y, (k y).Whole) :
    (x.feeding s T k).Whole := (h _).after rfl

/-- A drain that is begun on an empty outbox. -/
theorem whole_beginDrain {x : Slot P} (h : x.conn.outbox.holds = false) (shutOk closes : Bool) :
    (x.beginDrain shutOk closes).Whole := by
  unfold beginDrain
  dsimp only
  split_ifs
  · exact Done.whole_keep x
  · exact (Done.whole_keep _).after h
  · exact (Done.whole_release _).after h
  · exact (Done.whole_keep _).after h

/-- What a drain that is begun behind some other act cuts off. -/
theorem whole_drained {a : Act P} (ha : a.cuts = false) {x : Slot P}
    (h : x.conn.draining = false) (shutOk closes : Bool) :
    (Done.after a (x.beginDrain shutOk closes)).Whole ↔
      (x.conn.outbox.holds = true → a.fails = true) := by
  have hacts : ((x.beginDrain shutOk closes).acts.any Act.cuts = x.conn.outbox.holds) ∧
      (x.beginDrain shutOk closes).acts.any Act.fails = false := by
    unfold beginDrain
    rw [if_neg (Bool.eq_false_iff.mp h)]
    dsimp only
    split_ifs <;> exact ⟨Bool.or_false _, rfl⟩
  unfold Done.Whole Done.after
  simp only [List.any_cons, ha, Bool.false_or, hacts.1, hacts.2, Bool.or_false]

theorem whole_maybeClose (shutting : Bool) (x : Slot P) (shutOk : Bool) :
    (x.maybeClose shutting shutOk).Whole := by
  unfold maybeClose
  split_ifs with hup hclosing hholds hshutting
  · exact Done.whole_keep x
  · exact Done.whole_keep x
  · exact Done.whole_keep x
  · exact Done.whole_release x
  · exact whole_beginDrain (Bool.not_eq_true _ ▸ hholds) shutOk true

theorem whole_drainThenClose (shutting : Bool) (x : Slot P) (e : ConnEvent) :
    (x.drainThenClose shutting e).Whole := by
  unfold drainThenClose
  split_ifs
  · exact Done.whole_release x
  · exact x.close.whole_flushing e.third fun y _ => y.whole_maybeClose shutting e.shutOk

theorem whole_readEnded (x : Slot P) (e : ConnEvent) : (x.readEnded s T e).Whole := by
  unfold readEnded
  split_ifs
  · exact Done.whole_release x
  · exact x.close.whole_feeding s T fun y =>
      y.whole_flushing e.second fun z _ => z.whole_drainThenClose false e

theorem whole_reading (x : Slot P) (e : ConnEvent) : (x.reading s T e).Whole := by
  unfold reading
  split_ifs
  · cases e.read with
    | got d => exact Done.whole_keep x
    | again => exact Done.whole_keep x
    | ended => exact Done.whole_release x
  · cases e.read with
    | again => exact x.whole_maybeClose false e.shutOk
    | ended => exact x.whole_readEnded s T e
    | got d =>
      dsimp only
      cases x.received s d with
      | none => exact whole_readEnded s T _ e
      | some y =>
        refine y.whole_feeding s T fun y => y.whole_flushing e.second fun z ok => ?_
        cases ok with
        | true => exact z.whole_maybeClose false e.shutOk
        | false => exact Done.whole_release z

/-- No event of the connection itself cuts anything off. -/
theorem whole_onConn (shutting : Bool) (x : Slot P) (e : ConnEvent) :
    (x.onConn s T shutting e).Whole := by
  have hevents : ∀ y : Slot P, (y.onEvents s T shutting e).Whole := by
    intro y
    unfold onEvents graceful
    split_ifs
    · exact y.close.whole_drainThenClose true e
    · exact Done.whole_keep _
    · exact Done.whole_keep _
    · exact Done.whole_release _
    · exact y.whole_reading s T e
    · exact y.whole_drainThenClose false e
    · exact y.whole_maybeClose false e.shutOk
  unfold onConn
  split_ifs
  · refine x.whole_flushing e.first fun y ok => ?_
    cases ok with
    | true => exact hevents y
    | false => exact Done.whole_release y
  · exact hevents x

theorem whole_streamHead (alloc : ℕ → Bool) (x : Slot P) (status : ℕ) (w : Writes) :
    (x.streamHead alloc status w).Whole := by
  unfold streamHead
  dsimp only
  split_ifs
  · exact Done.whole_keep x
  · exact Done.whole_keep _
  · exact whole_flushing _ w fun y _ => Done.whole_keep y

theorem whole_streamWrite (x : Slot P) (pieces : List Piece) : (x.streamWrite pieces).Whole := by
  unfold streamWrite
  split_ifs
  · exact Done.whole_keep x
  · exact Done.whole_keep _

theorem whole_sweep (x : Slot P) (w : Writes) : (x.sweep s w).Whole := by
  unfold sweep
  split_ifs
  · exact Done.whole_keep x
  · exact whole_flushing _ w fun y _ => Done.whole_release y
  · exact Done.whole_release x

/-! ## The end of an exchange -/

/-- A flush that resumes nothing only writes. -/
theorem flush_quiet (x : Slot P) (sys : List SysWrite) :
    (x.flush ⟨sys, []⟩).1.conn = { x.conn with outbox := (x.conn.outbox.flush sys).1 } ∧
      (x.flush ⟨sys, []⟩).2 = (x.conn.outbox.flush sys).2 := by
  have hquiet : ∀ y : Slot P, (y.drained []).conn = y.conn := by
    intro y
    unfold drained
    split_ifs <;> rfl
  unfold flush
  rcases x.conn.outbox.flush sys with ⟨o, _ | _⟩
  · exact ⟨rfl, rfl⟩
  · dsimp only
    refine ⟨?_, rfl⟩
    split_ifs
    · exact hquiet (x.withOutbox o)
    · rfl

/-- Chunks change nothing of the client but its outbox. -/
theorem emitAll_client (x : Slot P) (pieces : List Piece) :
    ∃ o, (x.emitAll pieces).1.client = (x.withOutbox o).client := by
  have hsettle : ∀ (y : Slot P) sys, ∃ o, (y.settle sys).1.client = (y.withOutbox o).client := by
    intro y sys
    unfold settle
    rcases y.conn.outbox.flush sys with ⟨o, _ | _⟩
    · exact ⟨o, rfl⟩
    · exact ⟨o, rfl⟩
  have hchunk : ∀ (y : Slot P) piece, ∃ o, (y.emitChunk piece).1.client = (y.withOutbox o).client := by
    intro y piece
    unfold emitChunk
    split_ifs
    · exact ⟨y.conn.outbox, rfl⟩
    · dsimp only
      split_ifs
      · exact ⟨_, rfl⟩
      · obtain ⟨o, ho⟩ := hsettle (y.withOutbox _) piece.2.sys
        exact ⟨o, ho⟩
  induction pieces generalizing x with
  | nil => exact ⟨x.conn.outbox, rfl⟩
  | cons piece pieces ih =>
    obtain ⟨o, ho⟩ := hchunk x piece
    rw [emitAll]
    generalize x.emitChunk piece = r at ho
    obtain ⟨y, st⟩ := r
    dsimp only at ho ⊢
    split_ifs
    · exact ⟨o, ho⟩
    · obtain ⟨o', ho'⟩ := ih y
      refine ⟨o', ?_⟩
      rw [ho', withOutbox, withConn, conn, ho]
      rfl

theorem emitAll_conn (x : Slot P) (pieces : List Piece) :
    ∃ o, (x.emitAll pieces).1.conn = { x.conn with outbox := o } := by
  obtain ⟨o, ho⟩ := x.emitAll_client pieces
  exact ⟨o, congrArg (fun y : Client P Outbox => y.conn) ho⟩

/-- An answer changes neither what becomes of the connection nor whether it drains. -/
theorem ended_conn (alloc : ℕ → Bool) (x : Slot P) (ending : Ending) :
    (x.ended s alloc ending).conn.keepAlive = x.conn.keepAlive ∧
      (x.ended s alloc ending).conn.draining = x.conn.draining ∧
      (x.ended s alloc ending).conn.upstream = x.conn.upstream := by
  have hcommit : ∀ (c : Conn Outbox) status flags,
      (c.commit s.post status flags).1.keepAlive = c.keepAlive ∧
        (c.commit s.post status flags).1.draining = c.draining ∧
        (c.commit s.post status flags).1.upstream = c.upstream := by
    intro c status flags
    unfold Conn.commit
    dsimp only
    split_ifs
    · exact ⟨rfl, rfl, rfl⟩
    · exact ⟨rfl, rfl, rfl⟩
  cases ending with
  | answered a =>
    cases a with
    | response status flags body => exact hcommit { x.conn with response := body } status flags
    | error id =>
      unfold ended conclude Server.sendError
      dsimp only
      split_ifs
      · exact hcommit { s.assignRequestId x.conn with
          response := s.errorBody id (s.assignRequestId x.conn).requestId } id.status id.headFlags
      · exact hcommit { x.conn with response := s.errorBody id x.conn.requestId } id.status
          id.headFlags
  | streamed last =>
    obtain ⟨o, ho⟩ := x.emitAll_conn last
    unfold ended
    dsimp only
    simp only [withOutbox, conn_withConn, ho]
    exact ⟨trivial, trivial, trivial⟩

/-- The kernel takes the whole of what the exchange ended with, or reports an error, or
nothing is shut down. -/
def Spared (alloc : ℕ → Bool) (shutting : Bool) (x : Slot P) (ending : Ending)
    (sys : List SysWrite) : Prop :=
  x.conn.upstream = false ∨ shutting = true ∨ x.conn.keepAlive = true ∨ x.conn.draining = true ∨
    SysWrite.outcome sys (x.ended s alloc ending).pending.length ≠ .some

/-- The end of an exchange cuts nothing off exactly when it is spared. -/
theorem whole_finish (alloc : ℕ → Bool) (shutting : Bool) (x : Slot P) (ending : Ending)
    (sys : List SysWrite) (w : Writes) (shutOk : Bool) :
    (x.finish s T alloc shutting ending sys w shutOk).Whole ↔
      x.Spared s alloc shutting ending sys := by
  obtain ⟨hkeep, hdraining, -⟩ := x.ended_conn s alloc ending
  unfold finish Spared
  cases hup : x.conn.upstream with
  | false => exact iff_of_true (Done.whole_keep x) (Or.inl rfl)
  | true =>
    rw [if_neg (by decide)]
    generalize hended : x.ended s alloc ending = y at hkeep hdraining
    obtain ⟨hconn, hok⟩ := y.flush_quiet sys
    generalize hflushed : (y.flush ⟨sys, []⟩).1 = z at hconn
    have hdone : y.flushing ⟨sys, []⟩ (fun y _ => y.detached.resume s T shutting w shutOk) =
        .after (.flushed y ⟨sys, []⟩) (z.detached.resume s T shutting w shutOk) := by
      rw [← hflushed]
      rfl
    have hkept : z.detached.conn.keepAlive = x.conn.keepAlive := by
      rw [← hkeep]
      have hkeepAlive := congrArg Conn.keepAlive hconn
      exact hkeepAlive
    have hdrained : z.detached.conn.draining = x.conn.draining := by
      rw [← hdraining]
      have hsame := congrArg Conn.draining hconn
      exact hsame
    have houtbox : z.detached.conn.outbox = (y.conn.outbox.flush sys).1 :=
      (congrArg Conn.outbox hconn :)
    have hresume : z.detached.resume s T shutting w shutOk =
        if shutting then
          (z.detached.withConn { z.detached.conn with responded := false }).close.flushing w
            fun y ok =>
              if ok = false then .release y
              else if y.conn.outbox.holds then .keep y
              else .release y
        else
          let y := { z.detached with
            client := { z.detached.client with toReader := Server.resume z.detached.client.toReader } }
          if z.detached.conn.keepAlive = false then y.beginDrain shutOk false
          else y.feeding s T fun z => z.flushing w fun z _ => .keep z := rfl
    rw [hdone, hresume]
    cases shutting with
    | true =>
      refine iff_of_true (Done.Whole.after ?_ rfl) (Or.inr (Or.inl rfl))
      rw [if_pos rfl]
      refine whole_flushing _ w fun v ok => ?_
      split_ifs
      · exact Done.whole_release v
      · exact Done.whole_keep v
      · exact Done.whole_release v
    | false =>
      rw [if_neg Bool.false_ne_true]
      dsimp only
      rw [hkept]
      cases hka : x.conn.keepAlive with
      | true =>
        refine iff_of_true (Done.Whole.after ?_ rfl) (Or.inr (Or.inr (Or.inl rfl)))
        rw [if_neg (by decide)]
        exact whole_feeding s T _ fun v => v.whole_flushing w fun v _ => Done.whole_keep v
      | false =>
        rw [if_pos rfl]
        obtain ⟨u, hu⟩ : ∃ u : Slot P, u = { z.detached with
          client := { z.detached.client with
            toReader := Server.resume z.detached.client.toReader } } := ⟨_, rfl⟩
        have hdrains : u.conn.draining = x.conn.draining := by
          rw [hu]
          exact hdrained
        have hout : u.conn.outbox = (y.conn.outbox.flush sys).1 := by
          rw [hu]
          exact houtbox
        rw [← hu]
        have houtcome := y.conn.outbox.flush_outcome sys
        have hlength : y.pending.length = y.conn.outbox.pending.length := rfl
        cases hdraining : x.conn.draining with
        | true =>
          rw [beginDrain, if_pos (hdrains.trans hdraining)]
          exact iff_of_true ((Done.whole_keep u).after rfl) (Or.inr (Or.inr (Or.inr (Or.inl rfl))))
        | false =>
          rw [whole_drained rfl (hdrains.trans hdraining), hout, hlength]
          have hfails : (Act.flushed y ⟨sys, []⟩).fails = !(y.conn.outbox.flush sys).2 :=
            congrArg not hok
          rw [hfails]
          cases hwritten : SysWrite.outcome sys y.conn.outbox.pending.length with
          | all =>
            rw [hwritten] at houtcome
            have hempty : y.conn.outbox.drained.holds = false := by
              rw [Bool.eq_false_iff, ne_eq, Outbox.holds_iff, not_not]
              exact List.drop_nil
            rw [houtcome]
            refine iff_of_true (fun hholds => ?_) (Or.inr (Or.inr (Or.inr (Or.inr nofun))))
            rw [hempty] at hholds
            cases hholds
          | some =>
            rw [hwritten] at houtcome
            obtain ⟨hwrote, hholds⟩ := houtcome
            rw [hwrote, hholds]
            refine iff_of_false (fun h => Bool.false_ne_true (h rfl)) ?_
            rintro (h | h | h | h | h)
            · cases h
            · cases h
            · cases h
            · cases h
            · exact h rfl
          | error =>
            rw [hwritten] at houtcome
            rw [houtcome]
            exact iff_of_true (fun _ => rfl) (Or.inr (Or.inr (Or.inr (Or.inr nofun))))

end Slot

/-! ## Runs -/

namespace Daemon

variable (s : Server Outbox) (T : Parser P)

/-- What the event does cuts no unwritten bytes off, or the socket has reported an error. -/
def Whole (d : Daemon P) (a : Occurrence) : Prop :=
  (d.react s T a.1 a.2).2.any Act.cuts = true → (d.react s T a.1 a.2).2.any Act.fails = true

/-- The event is not the end of an exchange, or it is spared. -/
def Spared (d : Daemon P) (a : Occurrence) : Prop :=
  match a.2 with
  | .finish i ending sys _ _ =>
    ∀ x, d.slots i = some x →
      x.Spared { s with post := Outbox.post a.1 } a.1 d.shutting ending sys
  | _ => True

/-- An event of one connection, where it is open. -/
theorem onSlot_of_some {d : Daemon P} {i : Fin clientsMax} {x : Slot P}
    (h : d.slots i = some x) (f : Slot P → Done P) :
    (d.onSlot i f).1.slots i = (f x).slot ∧ (d.onSlot i f).2 = (f x).acts := by
  unfold onSlot
  rw [h]
  exact ⟨Function.update_self i _ d.slots, rfl⟩

theorem onSlot_of_ne (d : Daemon P) {i j : Fin clientsMax} (h : j ≠ i) (f : Slot P → Done P) :
    (d.onSlot i f).1.slots j = d.slots j := by
  unfold onSlot
  cases d.slots i with
  | none => rfl
  | some x => exact Function.update_of_ne h _ _

/-- An event of one connection is whole when what it makes of that connection is. -/
theorem whole_onSlot (d : Daemon P) (i : Fin clientsMax) (f : Slot P → Done P) :
    ((d.onSlot i f).2.any Act.cuts = true → (d.onSlot i f).2.any Act.fails = true) ↔
      ∀ x, d.slots i = some x → (f x).Whole := by
  unfold onSlot
  cases hslot : d.slots i with
  | none =>
    refine iff_of_true (fun hcuts => ?_) (fun x hx => ?_)
    · cases hcuts
    · cases hx
  | some x =>
    constructor
    · intro h y hy
      obtain rfl := Option.some.inj hy
      exact h
    · intro h
      exact h x rfl

theorem whole_stopped (x : Slot P) : x.stopped.acts.any Act.cuts = false := by
  unfold Slot.stopped
  split_ifs
  · rfl
  · rfl
  · rfl

/-- One event cuts nothing off exactly when it is spared. -/
theorem whole_iff_spared (d : Daemon P) (a : Occurrence) : d.Whole s T a ↔ d.Spared s a := by
  obtain ⟨alloc, ev⟩ := a
  unfold Whole Spared react
  cases ev with
  | accept =>
    refine iff_of_true ?_ trivial
    dsimp only
    split_ifs
    · cases d.freeSlot with
      | none => nofun
      | some i => nofun
    · nofun
  | conn i e =>
    refine iff_of_true ((d.whole_onSlot i _).mpr fun x _ => ?_) trivial
    exact x.whole_onConn _ T d.shutting e
  | streamHead i status w =>
    refine iff_of_true ((d.whole_onSlot i _).mpr fun x _ => ?_) trivial
    exact x.whole_streamHead alloc status w
  | streamWrite i pieces =>
    refine iff_of_true ((d.whole_onSlot i _).mpr fun x _ => ?_) trivial
    exact x.whole_streamWrite pieces
  | finish i ending sys w shutOk =>
    rw [d.whole_onSlot]
    exact forall₂_congr fun x _ => x.whole_finish _ T alloc d.shutting ending sys w shutOk
  | sweep i w =>
    refine iff_of_true ((d.whole_onSlot i _).mpr fun x _ => ?_) trivial
    exact x.whole_sweep _ w
  | stop =>
    refine iff_of_true (fun hcuts => ?_) trivial
    obtain ⟨act, hact, hcut⟩ := List.any_eq_true.mp hcuts
    obtain ⟨i, -, hi⟩ := List.mem_flatMap.mp hact
    cases hslot : d.slots i with
    | none =>
      rw [hslot] at hi
      cases hi
    | some x =>
      rw [hslot] at hi
      have hany := List.any_eq_true.mpr ⟨act, hi, hcut⟩
      rw [whole_stopped] at hany
      cases hany

/-- In a run the write side is never shut down on unwritten bytes exactly when the last
bytes of every exchange that ends its connection are taken at once. -/
theorem whole_along (d : Daemon P) (as : List Occurrence) :
    Along (step s T) (fun d a => d.Whole s T a) d as ↔
      Along (step s T) (fun d a => d.Spared s a) d as := by
  constructor
  · intro h
    exact h.mono fun d a => (d.whole_iff_spared s T a).mp
  · intro h
    exact h.mono fun d a => (d.whole_iff_spared s T a).mpr

/-! ### A client without keep-alive -/

/-- A server that starts an exchange for every generation request. -/
def generating : Server Outbox where
  headerMax := 4096
  bodyMax := 65536
  authType := .none
  authHeader := none
  authSecret := []
  newId n := [UInt8.ofNat n]
  errorBody _ id := id
  page _ _ := none
  generate _ _ _ := none
  exchange _ _ _ := .error .internal
  post := Outbox.post fun _ => true

def firstSlot : Fin clientsMax := ⟨0, by decide⟩

def empty : Daemon P := ⟨fun _ => none, true, false⟩

/-- A read that nothing else happens with. -/
def reads (d : Bytes) : ConnEvent :=
  ⟨false, true, false, ⟨[], []⟩, .got d, ⟨[], []⟩, ⟨[], []⟩, true⟩

def oneRequest : Bytes :=
  ascii "POST /v1/chat/completions HTTP/1.0\r\nContent-Type: application/json\r\n" ++
    ascii "Content-Length: 2\r\n\r\n{}"

/-- The exchange answers while the kernel takes only the first bytes of the response. -/
theorem response_truncated :
    ¬Along (step generating Reading.parser) (fun d a => d.Whole generating Reading.parser a) empty
      [(fun _ => true, .accept),
        (fun _ => true, .conn firstSlot (reads oneRequest)),
        (fun _ => true, .finish firstSlot (.answered (.response 200 .none (ascii "{}")))
          [.wrote 12, .again] ⟨[], []⟩ true)] := by
  unfold Whole
  decide +kernel

end Daemon
end AsmFlow.Http
