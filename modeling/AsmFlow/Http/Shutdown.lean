import AsmFlow.Http.Drain

/-!
# Graceful shutdown

From the first termination signal on nothing is accepted and nothing is fed to
the parser. A connection that is still open owes its client something: an
exchange is in flight, or response bytes are unwritten. It is released when it
owes nothing any more, or when its socket or the clock says so.
-/

namespace AsmFlow.Http

open Library Providers

variable {P : Type}

/-- An exchange is in flight, or response bytes are unwritten. -/
def Slot.Owes (x : Slot P) : Prop := x.conn.upstream = true ∨ x.conn.outbox.holds = true

/-- What a daemon that shuts down may do: it releases what owes nothing, unless it is
excused. -/
def Act.Graceful (excused : Prop) : Act P → Prop
  | .flushed _ _ => True
  | .fed _ => False
  | .shut _ => True
  | .released x => excused ∨ ¬x.Owes
  | .accepted => False

theorem Act.Graceful.mono {excused excused' : Prop} (h : excused → excused') {a : Act P}
    (ha : a.Graceful excused) : a.Graceful excused' := by
  cases a with
  | flushed x w => trivial
  | fed x => exact ha
  | shut x => trivial
  | released x => exact ha.imp_left h
  | accepted => exact ha

namespace Done

/-- The connection that is left owes something, and a socket error excuses a release. -/
structure Graceful (excused : Prop) (d : Done P) : Prop where
  owes : ∀ y, d.slot = some y → y.Owes
  acts : ∀ a ∈ d.acts, a.Graceful (excused ∨ d.acts.any Act.fails = true)

theorem graceful_keep {x : Slot P} (h : x.Owes) (excused : Prop) : (keep x).Graceful excused where
  owes y hy := by
    obtain rfl := Option.some.inj hy
    exact h
  acts a ha := by cases ha

theorem graceful_release {x : Slot P} {excused : Prop} (h : excused ∨ ¬x.Owes) :
    (release x).Graceful excused where
  owes y hy := by cases hy
  acts a ha := by
    obtain rfl := List.mem_singleton.mp ha
    exact h.imp_left Or.inl

theorem Graceful.mono {d : Done P} {excused excused' : Prop} (h : excused → excused')
    (hd : d.Graceful excused) : d.Graceful excused' where
  owes := hd.owes
  acts a ha := (hd.acts a ha).mono (Or.imp_left h)

theorem Graceful.after {d : Done P} {a : Act P} {excused : Prop}
    (h : d.Graceful (excused ∨ a.fails = true)) (ha : a.Graceful False) :
    (d.after a).Graceful excused where
  owes := h.owes
  acts b hb := by
    cases hb with
    | head => exact ha.mono False.elim
    | tail _ hb =>
      refine (h.acts b hb).mono fun hexcused => ?_
      show excused ∨ (a.fails || d.acts.any Act.fails) = true
      rw [Bool.or_eq_true, ← or_assoc]
      exact hexcused

end Done

namespace Slot

theorem owes_iff (x : Slot P) : x.Owes ↔ (x.conn.upstream || x.conn.outbox.holds) = true := by
  unfold Owes
  rw [Bool.or_eq_true]

/-- A failed flush excuses what is done behind it. -/
theorem graceful_flushing (x : Slot P) (w : Writes) {k : Slot P → Bool → Done P} {excused : Prop}
    (h : (k (x.flush w).1 (x.flush w).2).Graceful (excused ∨ (x.flush w).2 = false)) :
    (x.flushing w k).Graceful excused := by
  have hflushed : (Act.flushed x w).Graceful False := trivial
  refine Done.Graceful.after ?_ hflushed
  have hfails : (Act.flushed x w).fails = true ↔ (x.flush w).2 = false :=
    Bool.not_eq_true' _ ▸ Iff.rfl
  rw [hfails]
  exact h

theorem not_owes {x : Slot P} (hup : ¬x.conn.upstream = true)
    (hholds : ¬x.conn.outbox.holds = true) : ¬x.Owes := fun h => h.elim hup hholds

theorem graceful_maybeClose {x : Slot P} (hclosing : x.conn.closing = true) (shutOk : Bool)
    (excused : Prop) : (x.maybeClose true shutOk).Graceful excused := by
  unfold maybeClose
  split_ifs with hup hopen hholds
  · exact Done.graceful_keep (Or.inl hup) excused
  · rw [hclosing] at hopen
    cases hopen
  · exact Done.graceful_keep (Or.inr hholds) excused
  · exact Done.graceful_release (Or.inr (not_owes hup hholds))
  · contradiction

/-- A flush changes nothing of the client but its outbox. -/
theorem flush_client (x : Slot P) (w : Writes) :
    ∃ o, (x.flush w).1.client = (x.withOutbox o).client := by
  have hwrite : ∀ (y : Slot P) pieces, ∃ o, (y.onWrite pieces).1.client = (y.withOutbox o).client := by
    intro y pieces
    unfold onWrite
    split_ifs
    · exact ⟨y.conn.outbox, rfl⟩
    · exact y.emitAll_client pieces
  have hdeliver : ∀ rest (y : Slot P), ∃ o, (y.deliver rest).client = (y.withOutbox o).client := by
    intro rest
    induction rest with
    | nil =>
      intro y
      exact ⟨y.conn.outbox, rfl⟩
    | cons pieces rest ih =>
      intro y
      obtain ⟨o, ho⟩ := hwrite y pieces
      unfold deliver
      generalize y.onWrite pieces = r at ho
      obtain ⟨z, _ | _ | _⟩ := r
      · obtain ⟨o', ho'⟩ := ih z
        refine ⟨o', ho'.trans ?_⟩
        rw [withOutbox, withConn, conn, (ho : z.client = _)]
        rfl
      · exact ⟨o, ho⟩
      · exact ⟨o, ho⟩
  unfold flush
  rcases x.conn.outbox.flush w.sys with ⟨o, _ | _⟩
  · exact ⟨o, rfl⟩
  · dsimp only
    split_ifs
    · unfold drained
      split_ifs
      · obtain ⟨o', ho'⟩ := hdeliver w.resumed { x.withOutbox o with paused := false }
        exact ⟨o', ho'⟩
      · exact ⟨o, rfl⟩
    · exact ⟨o, rfl⟩

theorem flush_conn (x : Slot P) (w : Writes) :
    ∃ o, (x.flush w).1.conn = { x.conn with outbox := o } := by
  obtain ⟨o, ho⟩ := x.flush_client w
  exact ⟨o, congrArg (fun y : Client P Outbox => y.conn) ho⟩

theorem graceful_drainThenClose (x : Slot P) (e : ConnEvent) :
    (x.close.drainThenClose true e).Graceful True := by
  unfold drainThenClose
  split_ifs
  · exact Done.graceful_release (Or.inl trivial)
  · apply graceful_flushing
    obtain ⟨o, ho⟩ := x.close.close.flush_conn e.third
    exact graceful_maybeClose (congrArg Conn.closing ho :) e.shutOk _

/-- An event of a connection, excused by a hangup. -/
theorem graceful_onConn (s : Server Outbox) (T : Parser P) (x : Slot P) (e : ConnEvent) :
    (x.onConn s T true e).Graceful (e.hup = true) := by
  have hevents : ∀ y : Slot P, (y.graceful e).Graceful (e.hup = true) := by
    intro y
    unfold graceful
    split_ifs with hhup hup hholds
    · exact (y.graceful_drainThenClose e).mono fun _ => hhup
    · exact Done.graceful_keep (x := y.close) (Or.inl hup) _
    · exact Done.graceful_keep (x := y.close) (Or.inr hholds) _
    · exact Done.graceful_release (x := y.close) (Or.inr (not_owes hup hholds))
  unfold onConn
  split_ifs
  · apply graceful_flushing
    cases hok : (x.flush e.first).2 with
    | true => exact (hevents _).mono Or.inl
    | false => exact Done.graceful_release (Or.inl (Or.inr rfl))
  · exact hevents x

theorem graceful_streamHead (alloc : ℕ → Bool) {x : Slot P} (h : x.Owes) (status : ℕ)
    (w : Writes) : (x.streamHead alloc status w).Graceful False := by
  unfold streamHead
  dsimp only
  split_ifs with hup
  · exact Done.graceful_keep h _
  · exact Done.graceful_keep (x := x.withOutbox _) (Or.inl (Bool.not_eq_false _ ▸ hup)) _
  · apply graceful_flushing
    generalize hhead : x.withConn _ = y
    have hup' : y.conn.upstream = true := by
      rw [← hhead]
      exact Bool.not_eq_false _ ▸ hup
    obtain ⟨o, ho⟩ := y.flush_conn w
    have hflushed : (y.flush w).1.conn.upstream = y.conn.upstream := (congrArg Conn.upstream ho :)
    exact Done.graceful_keep (Or.inl (hflushed.trans hup')) _

theorem graceful_streamWrite {x : Slot P} (h : x.Owes) (pieces : List Piece) :
    (x.streamWrite pieces).Graceful False := by
  unfold streamWrite
  split_ifs with hidle
  · exact Done.graceful_keep h _
  · have hup : x.conn.upstream = true := by
      rw [not_or, Bool.not_eq_false] at hidle
      exact hidle.1
    have hwrite : (x.onWrite pieces).1.conn.upstream = x.conn.upstream := by
      unfold onWrite
      split_ifs
      · rfl
      · obtain ⟨o, ho⟩ := x.emitAll_conn pieces
        exact (congrArg Conn.upstream ho :)
    exact Done.graceful_keep (Or.inl (hwrite.trans hup)) _

/-- An exchange that ends while the daemon shuts down. -/
theorem graceful_finish (s : Server Outbox) (T : Parser P) (alloc : ℕ → Bool) {x : Slot P}
    (h : x.Owes) (ending : Ending) (sys : List SysWrite) (w : Writes) (shutOk : Bool) :
    (x.finish s T alloc true ending sys w shutOk).Graceful False := by
  unfold finish
  split_ifs with hup
  · exact Done.graceful_keep h _
  · apply graceful_flushing
    generalize ((x.ended s alloc ending).flush ⟨sys, []⟩).1 = y
    unfold resume
    split_ifs with hup'
    · cases hup'
    · apply graceful_flushing
      generalize hclosed : (y.detached.withConn { y.detached.conn with responded := false }).close = z
      have hdetached : z.conn.upstream = false := by
        rw [← hclosed]
        rfl
      obtain ⟨o, ho⟩ := z.flush_conn w
      have hflushed : (z.flush w).1.conn.upstream = z.conn.upstream := (congrArg Conn.upstream ho :)
      split_ifs with hfailed hholds
      · exact Done.graceful_release (Or.inl (Or.inr hfailed))
      · exact Done.graceful_keep (Or.inr hholds) _
      · refine Done.graceful_release (Or.inr (not_owes ?_ hholds))
        rw [hflushed, hdetached]
        exact Bool.false_ne_true
    · contradiction

theorem graceful_sweep (s : Server Outbox) {x : Slot P} (h : x.Owes) (w : Writes) :
    (x.sweep s w).Graceful True := by
  unfold sweep
  split_ifs
  · exact Done.graceful_keep h _
  · apply graceful_flushing
    exact Done.graceful_release (Or.inl (Or.inl trivial))
  · exact Done.graceful_release (Or.inl trivial)

/-- The first signal releases what owes nothing. -/
theorem graceful_stopped (x : Slot P) : x.stopped.Graceful False := by
  unfold stopped
  split_ifs with hup hholds
  · exact Done.graceful_keep (x := { x.close with interest := ⟨false, false⟩ }) (Or.inl hup) _
  · exact Done.graceful_keep (x := { x.close with interest := ⟨false, true⟩ }) (Or.inr hholds) _
  · exact Done.graceful_release (x := x.close) (Or.inr (not_owes hup hholds))

theorem stopped_quiet (x : Slot P) : x.stopped.acts.any Act.fails = false := by
  unfold stopped
  split_ifs
  · rfl
  · rfl
  · rfl

end Slot

/-! ## Runs -/

/-- A hangup of the peer, or a timeout. -/
def DaemonEvent.Excuses : DaemonEvent → Prop
  | .conn _ e => e.hup = true
  | .sweep _ _ => True
  | _ => False

namespace Daemon

variable (s : Server Outbox) (T : Parser P)

/-- Everything the event does is graceful. -/
def Graceful (d : Daemon P) (a : Occurrence) : Prop :=
  ∀ act ∈ (d.react s T a.1 a.2).2,
    act.Graceful (a.2.Excuses ∨ (d.react s T a.1 a.2).2.any Act.fails = true)

/-- The daemon shuts down, and every connection that is open owes something. -/
structure Halted (d : Daemon P) : Prop where
  listening : d.listening = false
  shutting : d.shutting = true
  owes : ∀ i x, d.slots i = some x → x.Owes

/-- Then the connections that are waited for are the ones that are open. -/
theorem Halted.inflightCount_eq {d : Daemon P} (h : d.Halted) : d.inflightCount = d.openCount := by
  unfold inflightCount openCount
  apply List.countP_congr
  intro i _
  cases hslot : d.slots i with
  | none => exact Iff.rfl
  | some x => exact iff_of_true ((x.owes_iff).mp (h.owes i x hslot)) rfl

theorem halted_onSlot {d : Daemon P} (h : d.Halted) (i : Fin clientsMax) {f : Slot P → Done P}
    {excused : Prop} (hf : ∀ x, x.Owes → (f x).Graceful excused) :
    (d.onSlot i f).1.Halted ∧
      ∀ act ∈ (d.onSlot i f).2, act.Graceful (excused ∨ (d.onSlot i f).2.any Act.fails = true) := by
  cases hslot : d.slots i with
  | none =>
    have hnothing : d.onSlot i f = (d, []) := by
      unfold onSlot
      rw [hslot]
    rw [hnothing]
    refine ⟨h, fun act hact => ?_⟩
    cases hact
  | some x =>
    obtain ⟨hself, hacts⟩ := onSlot_of_some hslot f
    have hx := hf x (h.owes i x hslot)
    have hflags : (d.onSlot i f).1.listening = d.listening ∧
        (d.onSlot i f).1.shutting = d.shutting := by
      unfold onSlot
      rw [hslot]
      exact ⟨rfl, rfl⟩
    rw [hacts]
    refine ⟨⟨hflags.1.trans h.listening, hflags.2.trans h.shutting, fun j y hy => ?_⟩, hx.acts⟩
    by_cases hj : j = i
    · rw [hj, hself] at hy
      exact hx.owes y hy
    · rw [onSlot_of_ne d hj] at hy
      exact h.owes j y hy

/-- One event of a daemon that shuts down, another signal aside. -/
theorem halted_react {d : Daemon P} (h : d.Halted) (a : Occurrence) (ha : a.2 ≠ .stop) :
    (d.step s T a).Halted ∧ d.Graceful s T a := by
  obtain ⟨alloc, ev⟩ := a
  unfold Graceful step react
  rw [h.shutting]
  cases ev with
  | accept =>
    rw [h.listening]
    refine ⟨h, fun act hact => ?_⟩
    cases hact
  | conn i e => exact halted_onSlot h i fun x _ => x.graceful_onConn _ T e
  | streamHead i status w => exact halted_onSlot h i fun x hx => Slot.graceful_streamHead alloc hx status w
  | streamWrite i pieces => exact halted_onSlot h i fun x hx => Slot.graceful_streamWrite hx pieces
  | finish i ending sys w shutOk =>
    exact halted_onSlot h i fun x hx => Slot.graceful_finish _ T alloc hx ending sys w shutOk
  | sweep i w => exact halted_onSlot h i fun x hx => Slot.graceful_sweep _ hx w
  | stop => exact absurd rfl ha

/-- The first signal, whatever the connections are at. -/
theorem halted_stop (d : Daemon P) (alloc : ℕ → Bool) :
    (d.step s T (alloc, .stop)).Halted ∧ d.Graceful s T (alloc, .stop) := by
  refine ⟨⟨rfl, rfl, fun i y hy => ?_⟩, fun act hact => ?_⟩
  · obtain ⟨x, -, hx⟩ := Option.bind_eq_some_iff.mp hy
    exact (x.graceful_stopped).owes y hx
  · obtain ⟨i, -, hi⟩ := List.mem_flatMap.mp hact
    cases hslot : d.slots i with
    | none =>
      rw [hslot] at hi
      cases hi
    | some x =>
      rw [hslot] at hi
      refine (x.graceful_stopped.acts act hi).mono fun h => ?_
      rw [x.stopped_quiet] at h
      exact h.elim False.elim (absurd · Bool.false_ne_true)

theorem halted_step {d : Daemon P} (h : d.Halted) (a : Occurrence) :
    (d.step s T a).Halted ∧ d.Graceful s T a := by
  obtain ⟨alloc, ev⟩ := a
  by_cases hev : ev = .stop
  · subst hev
    exact d.halted_stop s T alloc
  · exact d.halted_react s T h (alloc, ev) hev

/-- From the first termination signal on, whatever has happened before it and whatever
happens after it: every open connection owes its client something, and is waited for;
nothing is accepted or fed to the parser, and nothing is released that still owes, unless
the peer hangs up, the connection times out or its socket fails. -/
theorem shutdown_graceful (d : Daemon P) (before after : List Occurrence) (alloc : ℕ → Bool) :
    Throughout (step s T)
        (fun d => (∀ i x, d.slots i = some x → x.Owes) ∧ d.inflightCount = d.openCount)
        (run (step s T) d (before ++ [(alloc, .stop)])) after ∧
      Along (step s T) (fun d a => d.Graceful s T a) (run (step s T) d before)
        ((alloc, .stop) :: after) := by
  rw [run_append]
  obtain ⟨hhalted, hstop⟩ := (run (step s T) d before).halted_stop s T alloc
  refine ⟨?_, hstop, ?_⟩
  · have hrun := throughout_of_invariant after (fun d a h => (d.halted_step s T h a).1) hhalted
    exact hrun.mono fun d h => ⟨h.owes, h.inflightCount_eq⟩
  · generalize (run (step s T) d before).step s T (alloc, .stop) = d' at hhalted
    induction after generalizing d' with
    | nil => trivial
    | cons a after ih =>
      obtain ⟨hnext, hgraceful⟩ := d'.halted_step s T hhalted a
      exact ⟨hgraceful, ih _ hnext⟩

end Daemon
end AsmFlow.Http
