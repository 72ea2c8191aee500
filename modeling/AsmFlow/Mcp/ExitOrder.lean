import AsmFlow.Mcp.Accounts

/-!
# The end of a process, in either order

A process that ends by itself is noticed twice: its stream ends, and it is collected. What
becomes of the server does not depend on which of them comes first.
-/

namespace AsmFlow.Mcp

open Library

namespace Child

/-- What becomes of a server at the end of its process is the same. -/
structure Agrees (c d : Child) : Prop where
  state : c.state = d.state
  budget : c.budget = d.budget
  nextStart : c.state = .restarting → c.nextStart = d.nextStart
  starts : c.starts = d.starts
  exits : c.exits = d.exits
  lastExit : c.lastExit = d.lastExit
  deeds : c.deeds = d.deeds
  pid : c.pid = 0 ∧ d.pid = 0
  stdoutFd : c.stdoutFd = false ∧ d.stdoutFd = false

/-- The record of `c` once its process is collected, in some state. -/
structure Ended (c : Child) (w : ℕ) (st : State) (d : Child) : Prop where
  cfg : d.cfg = c.cfg
  state : d.state = st
  budget : d.budget = c.budget
  starts : d.starts = c.starts
  exits : d.exits = c.exits + 1
  lastExit : d.lastExit = w
  deeds : d.deeds = c.deeds
  pid : d.pid = 0
  stdoutFd : d.stdoutFd = false

/-- A process that ends with 0 is not replaced, but for the mode that always does. -/
def Rests (c : Child) (w : ℕ) : Prop := w = 0 ∧ c.cfg.restart.mode ≠ .always

/-- What becomes of a server whose process ends by itself, as the clock reads `now`. -/
inductive Settles (c : Child) (w now : ℕ) (a : FailAnswer) : Child → Prop
  | rests {d : Child} (hrests : c.Rests w) (h : c.Ended w .stopped d) : Settles c w now a d
  | asks {e : Child} (hrests : ¬c.Rests w) (h : c.Ended w .failed e) (hclock : e.clock = now) :
      Settles c w now a (e.scheduleRestart a)

theorem Ended.scheduleRestart {c d e : Child} {w : ℕ} (hpaced : c.Paced)
    (hd : c.Ended w .failed d) (he : c.Ended w .failed e) {a b : FailAnswer}
    (hclock : (d.read a.elapsed).clock = (e.read b.elapsed).clock) :
    Agrees (d.scheduleRestart a) (e.scheduleRestart b) := by
  have hsame : e.cfg.restart.schedule e.budget (e.read b.elapsed).clock b.stale =
      d.cfg.restart.schedule d.budget (d.read a.elapsed).clock a.stale := by
    rw [he.cfg, he.budget, hd.cfg, hd.budget, hclock]
    exact RestartPolicy.schedule_stale hpaced.backoff _ _ _
  have hmode : e.cfg.restart.mode = d.cfg.restart.mode := by rw [he.cfg, hd.cfg]
  have hpid : d.pid = 0 ∧ e.pid = 0 := ⟨hd.pid, he.pid⟩
  have hfd : d.stdoutFd = false ∧ e.stdoutFd = false := ⟨hd.stdoutFd, he.stdoutFd⟩
  have hexits : d.exits = e.exits := hd.exits.trans he.exits.symm
  have hlast : d.lastExit = e.lastExit := hd.lastExit.trans he.lastExit.symm
  have hstarts : d.starts = e.starts := hd.starts.trans he.starts.symm
  have hdeeds : d.deeds = e.deeds := hd.deeds.trans he.deeds.symm
  unfold Child.scheduleRestart
  by_cases hnever : d.cfg.restart.mode = .never
  · rw [if_pos hnever, if_pos (hmode.trans hnever)]
    refine ⟨hd.state.trans he.state.symm, hd.budget.trans he.budget.symm, ?_, hstarts, hexits, hlast,
      hdeeds, hpid, hfd⟩
    intro hrestarting
    rw [hd.state] at hrestarting
    cases hrestarting
  rw [if_neg hnever, if_neg (fun h => hnever (hmode.symm.trans h))]
  have hleave := RestartPolicy.schedule_ne_leave hnever d.budget (d.read a.elapsed).clock a.stale
  have hread (c : Child) (elapsed : ℕ) : (c.read elapsed).cfg = c.cfg ∧
      (c.read elapsed).budget = c.budget := ⟨rfl, rfl⟩
  dsimp only
  rw [(hread d a.elapsed).1, (hread d a.elapsed).2, (hread e b.elapsed).1, (hread e b.elapsed).2,
    hsame]
  cases hverdict : d.cfg.restart.schedule d.budget (d.read a.elapsed).clock a.stale with
  | leave => exact absurd hverdict hleave
  | crashLoop budget =>
    refine ⟨rfl, rfl, State.noConfusion, hstarts, hexits, hlast, ?_, hpid, hfd⟩
    show d.deeds ++ [Deed.exhausted (d.read a.elapsed).clock] =
      e.deeds ++ [.exhausted (e.read b.elapsed).clock]
    rw [hdeeds, hclock]
  | restart budget t =>
    refine ⟨rfl, rfl, fun _ => rfl, hstarts, hexits, hlast, ?_, hpid, hfd⟩
    show d.deeds ++ [Deed.scheduled ⟨(d.read a.elapsed).clock, t, budget.backoffMs⟩] =
      e.deeds ++ [.scheduled ⟨(e.read b.elapsed).clock, t, budget.backoffMs⟩]
    rw [hdeeds, hclock]

/-- The same reading of the clock gives the same end. -/
theorem Settles.agrees {c d e : Child} {w now now' : ℕ} (hpaced : c.Paced) {a b : FailAnswer}
    (hd : c.Settles w now a d) (he : c.Settles w now' b e)
    (hclock : min (now + a.elapsed) maxU64 = min (now' + b.elapsed) maxU64) : Agrees d e := by
  cases hd with
  | rests hrests h =>
    cases he with
    | rests _ h' =>
      refine ⟨h.state.trans h'.state.symm, h.budget.trans h'.budget.symm, ?_,
        h.starts.trans h'.starts.symm, h.exits.trans h'.exits.symm,
        h.lastExit.trans h'.lastExit.symm, h.deeds.trans h'.deeds.symm, ⟨h.pid, h'.pid⟩,
        h.stdoutFd, h'.stdoutFd⟩
      intro hrestarting
      rw [h.state] at hrestarting
      cases hrestarting
    | asks hnot => exact absurd hrests hnot
  | asks hnot h hnow =>
    cases he with
    | rests hrests => exact absurd hrests hnot
    | asks _ h' hnow' =>
      refine h.scheduleRestart hpaced h' ?_
      unfold Child.read
      rw [hnow, hnow']
      exact hclock

/-! ## Collecting -/

/-- The record of `c` when its process is collected, with its pipes closed. -/
structure Collected (c : Child) (w : ℕ) (x : Child) : Prop where
  ended : c.Ended w c.state x
  stopping : x.flags.stopping = c.flags.stopping
  restartAfterStop : x.flags.restartAfterStop = c.flags.restartAfterStop
  manualStop : x.flags.manualStop = c.flags.manualStop
  manualRestart : x.flags.manualRestart = c.flags.manualRestart
  legacyNext : x.flags.legacyNext = c.flags.legacyNext
  eof : x.flags.eof = c.flags.eof
  processFailure : x.flags.processFailure = c.flags.processFailure
  clock : x.clock = c.clock

theorem torn_collected (c : Child) (w : ℕ) (killed : Bool) :
    c.Collected w ((c.collect (.collected w)).torn false killed) := by
  show c.Collected w ((c.collect (.collected w)).teardown killed)
  rw [teardown_eq]
  cases c
  exact ⟨⟨rfl, rfl, rfl, rfl, rfl, rfl, rfl, rfl, rfl⟩, rfl, rfl, rfl, rfl, rfl, rfl, rfl, rfl⟩

theorem Collected.endsCleanly_iff {c x : Child} {w : ℕ} (h : c.Collected w x) :
    x.endsCleanly = true ↔ c.Rests w := by
  unfold endsCleanly Rests
  rw [h.ended.lastExit, h.ended.cfg]
  simp

/-! ## The stream ends first -/

/-- The process of `c`, once its stream has ended. -/
structure Dying (c d : Child) : Prop where
  cfg : d.cfg = c.cfg
  state : d.state = .failed
  stopping : d.flags.stopping = true
  restartAfterStop : d.flags.restartAfterStop = true
  manualStop : d.flags.manualStop = false
  manualRestart : d.flags.manualRestart = false
  legacyNext : d.flags.legacyNext = false
  eof : d.flags.eof = true
  processFailure : d.flags.processFailure = false
  stdinFd : d.stdinFd = false
  stdoutFd : d.stdoutFd = false
  calls : ∀ i, d.calls i = none
  budget : d.budget = c.budget
  starts : d.starts = c.starts
  exits : d.exits = c.exits
  deeds : d.deeds = c.deeds
  pid : d.pid = c.pid

theorem AtWork.notLatched {c : Child} (h : c.AtWork) :
    ¬(c.state = .crashLoop ∨ c.state = .disabled) := by
  have hlive := h.live
  rintro (hloop | hdisabled)
  · rw [hloop] at hlive
    cases hlive
  · rw [hdisabled] at hlive
    cases hlive

/-- The stream of a process at work ends. -/
theorem AtWork.hangUp {c : Child} (h : c.AtWork) (hpid : 0 < c.pid)
    (hstopping : c.flags.stopping = false) (a : FailAnswer) :
    c.Dying ((c.dropStdout Status.eof).childFailed Status.eof a) := by
  have hfail := (c.dropStdout Status.eof).childFailed_spec Status.eof a
  have hdrop : c.dropStdout Status.eof =
      { c.withFlags ({ · with eof := true }) with stdoutFd := false } := rfl
  generalize (c.dropStdout Status.eof).childFailed Status.eof a = e at hfail
  rw [hdrop] at hfail
  cases hfail with
  | latched hstate => exact absurd hstate h.notLatched
  | stopping _ htrue => exact absurd (hstopping.symm.trans htrue) Bool.noConfusion
  | stopped _ _ htrue => exact absurd (h.manualStop.symm.trans htrue) Bool.noConfusion
  | legacy _ _ _ hzero => exact absurd hzero hpid.ne'
  | scheduled _ _ _ hzero => exact absurd hzero hpid.ne'
  | living =>
    let d : Child := { c.withFlags ({ · with eof := true }) with stdoutFd := false }
    obtain ⟨t, o, hstop⟩ := (d.giveUp Status.eof).beginStop_eq a.elapsed
    have hgone : d.giveUp Status.eof = (d.setState .failed).invalidate := rfl
    show c.Dying ((d.giveUp Status.eof).beginStop a.elapsed)
    rw [hstop, hgone]
    exact ⟨rfl, rfl, rfl, rfl, h.manualStop, h.manualRestart, h.legacyNext, rfl, h.processFailure,
      rfl, rfl, fun _ => rfl, rfl, rfl, rfl, rfl, rfl⟩

theorem Dying.ended {c d x : Child} {w : ℕ} (h : c.Dying d) (hx : d.Collected w x) :
    c.Ended w .failed x where
  cfg := hx.ended.cfg.trans h.cfg
  state := hx.ended.state.trans h.state
  budget := hx.ended.budget.trans h.budget
  starts := hx.ended.starts.trans h.starts
  exits := by rw [hx.ended.exits, h.exits]
  lastExit := hx.ended.lastExit
  deeds := hx.ended.deeds.trans h.deeds
  pid := hx.ended.pid
  stdoutFd := hx.ended.stdoutFd

/-- Then the process is collected. -/
theorem Dying.settles {c d x : Child} {w : ℕ} (h : c.Dying d) (hx : d.Collected w x)
    (a : FailAnswer) : c.Settles w d.clock a (x.onExit a) := by
  have hended := h.ended hx
  have hclean : x.endsCleanly = true ↔ c.Rests w := by
    rw [hx.endsCleanly_iff]
    unfold Rests
    rw [h.cfg]
  have hstopping := hx.stopping.trans h.stopping
  have hexit := x.onExit_spec a
  generalize x.onExit a = y at hexit
  cases hexit with
  | halted _ hfalse =>
    exact absurd ((hx.restartAfterStop.trans h.restartAfterStop).symm.trans hfalse)
      Bool.noConfusion
  | still _ _ hwhy =>
    rcases hwhy with hmanual | ⟨-, -, -, -, hends⟩
    · exact absurd ((hx.manualStop.trans h.manualStop).symm.trans hmanual) Bool.noConfusion
    · obtain ⟨hcfg, -, hbudget, hstarts, hexits, hlast, hdeeds, hpid, hfd⟩ := hended
      exact .rests (hclean.mp hends) ⟨hcfg, rfl, hbudget, hstarts, hexits, hlast, hdeeds, hpid, hfd⟩
  | legacy _ _ _ htrue =>
    exact absurd ((hx.legacyNext.trans h.legacyNext).symm.trans htrue) Bool.noConfusion
  | manual _ _ _ _ htrue =>
    exact absurd ((hx.manualRestart.trans h.manualRestart).symm.trans htrue) Bool.noConfusion
  | scheduled _ _ _ _ _ hwhy =>
    have hnot : ¬c.Rests w := fun hrests =>
      hwhy ⟨hx.eof.trans h.eof, hx.processFailure.trans h.processFailure, hclean.mpr hrests⟩
    obtain ⟨hcfg, hstate, hbudget, hstarts, hexits, hlast, hdeeds, hpid, hfd⟩ := hended
    exact .asks (e := x.unstop) hnot
      ⟨hcfg, hstate, hbudget, hstarts, hexits, hlast, hdeeds, hpid, hfd⟩ hx.clock
  | clean hfalse => exact absurd (hstopping.symm.trans hfalse) Bool.noConfusion
  | failed hfalse => exact absurd (hstopping.symm.trans hfalse) Bool.noConfusion

/-! ## The process is collected first -/

theorem AtWork.settles {c x : Child} {w : ℕ} (h : c.AtWork) (hstopping : c.flags.stopping = false)
    (hx : c.Collected w x) (a : FailAnswer) : c.Settles w c.clock a (x.onExit a) := by
  obtain ⟨hcfg, hstate, hbudget, hstarts, hexits, hlast, hdeeds, hpid, hfd⟩ := hx.ended
  have hexit := x.onExit_spec a
  generalize x.onExit a = y at hexit
  have hstop : x.flags.stopping = false := hx.stopping.trans hstopping
  cases hexit with
  | clean _ hends =>
    exact .rests (hx.endsCleanly_iff.mp hends)
      ⟨hcfg, rfl, hbudget, hstarts, hexits, hlast, hdeeds, hpid, hfd⟩
  | failed _ hends =>
    have hnot : ¬c.Rests w := fun hrests =>
      Bool.noConfusion ((hx.endsCleanly_iff.mpr hrests).symm.trans hends)
    obtain ⟨b, hgone⟩ := x.giveUp_eq Status.mcpSpawn
    have hfail := x.childFailed_spec Status.mcpSpawn a
    generalize x.childFailed Status.mcpSpawn a = z at hfail
    cases hfail with
    | latched hlatched =>
      rw [hstate] at hlatched
      exact absurd hlatched h.notLatched
    | stopping _ htrue => exact absurd (hstop.symm.trans htrue) Bool.noConfusion
    | stopped _ _ htrue =>
      exact absurd ((hx.manualStop.trans h.manualStop).symm.trans htrue) Bool.noConfusion
    | living _ _ _ hpos => exact absurd hpid hpos.ne'
    | legacy _ _ _ _ htrue =>
      exact absurd ((hx.legacyNext.trans h.legacyNext).symm.trans htrue) Bool.noConfusion
    | scheduled =>
      rw [hgone]
      exact .asks hnot ⟨hcfg, rfl, hbudget, hstarts, hexits, hlast, hdeeds, hpid, hfd⟩ hx.clock
  | halted htrue => exact absurd (hstop.symm.trans htrue) Bool.noConfusion
  | still htrue => exact absurd (hstop.symm.trans htrue) Bool.noConfusion
  | legacy htrue => exact absurd (hstop.symm.trans htrue) Bool.noConfusion
  | manual htrue => exact absurd (hstop.symm.trans htrue) Bool.noConfusion
  | scheduled htrue => exact absurd (hstop.symm.trans htrue) Bool.noConfusion

end Child

namespace Server

/-- Nothing that settles the end of the process: it is still running, and no other pipe fails. -/
def Event.Waits : Event → Prop
  | .tick a => a.reap = .running ∨ a.reap = .failed
  | .stderr r _ => ∀ why, r = some why → why.val = Status.eof
  | .stdout .. | .message .. | .transfer .. | .notified .. => True
  | _ => False

/-- The sweep that collects the process, up to the settling of its end. -/
def collected (s : Server) (a : SweepAnswer) : Server :=
  ((s.withChild (s.child.collect a.reap)).teardown a.killed).onExit a.exit

section Order

variable (J : JsonLibrary) {s : Server} {c : Child} {w : ℕ}

theorem sweep_collected (hpid : 0 < s.child.pid) {a : SweepAnswer} (ha : a.reap = .collected w) :
    s.sweep J a = (s.collected a).sweepGroup J a := by
  have hreap : s.child.reap (.collected w) = (s.child.collect (.collected w), true) :=
    if_neg hpid.ne'
  unfold sweep collected
  rw [if_neg hpid.ne', ha, hreap]

theorem child_collected (hstdio : s.http = false) (a : SweepAnswer) :
    (s.collected a).child = ((s.child.collect a.reap).torn false a.killed).onExit a.exit := by
  unfold collected
  rw [child_onExit, child_teardown]
  show (Child.torn _ s.http a.killed).onExit a.exit = _
  rw [hstdio]
  rfl

/-- What is left of the sweep does nothing for a process whose stream has ended. -/
theorem sweepRest_dying (hstdio : s.http = false) (h : c.Dying s.child) (a : SweepAnswer) :
    s.sweepRest J a = s := by
  have hstate := h.state
  have hflush : s.flush a = s := by
    unfold flush
    split_ifs with hopen
    · rfl
    · have hwrite : s.child.writeStdin a.write = (s.child, Status.ok) := if_pos h.stdinFd
      rw [hwrite]
      rfl
  have hcalls : s.sweepCalls a = (s, none) := by
    have hexpire (i : Fin maxCalls) : s.child.expire a.now i (a.emit i) = (s.child, none) := by
      unfold Child.expire
      rw [h.calls i]
    unfold sweepCalls
    rw [if_pos hstdio]
    unfold Child.sweepCalls
    generalize List.finRange maxCalls = is
    have hfold : is.foldl (fun t i => ((t.1.expire a.now i (a.emit i)).1,
        t.2.or (t.1.expire a.now i (a.emit i)).2)) (s.child, none) = (s.child, none) := by
      induction is with
      | nil => rfl
      | cons i is ih =>
        rw [List.foldl_cons, hexpire i]
        exact ih
    rw [hfold]
    rfl
  have hattend : s.attend J a = s := by
    unfold attend
    rw [hcalls]
    show s.advance J a.memory a.advance = s
    unfold advance
    rw [hstate]
  have hfresh : s.keepFresh a = s := by
    unfold keepFresh
    rw [hstdio, if_neg (fun hall => Bool.noConfusion hall.1)]
  unfold sweepRest
  rw [hflush, hattend, hfresh]
  unfold startDue
  rw [hstate, if_neg State.noConfusion, if_neg fun hall => State.noConfusion hall.1]

theorem dying_advance (h : c.Dying s.child) (now : ℕ) : c.Dying (s.child.advanceShutdown now) := by
  obtain ⟨t, b, hwait⟩ := s.child.advanceShutdown_eq now
  rw [hwait]
  exact ⟨h.cfg, h.state, h.stopping, h.restartAfterStop, h.manualStop, h.manualRestart,
    h.legacyNext, h.eof, h.processFailure, h.stdinFd, h.stdoutFd, h.calls, h.budget, h.starts,
    h.exits, h.deeds, h.pid⟩

/-- Until it is collected, nothing changes for the process. -/
theorem dying_step (hstdio : s.http = false) (hpid : 0 < c.pid) (h : c.Dying s.child) {e : Event}
    (hwaits : e.Waits) : (s.step J e).http = false ∧ c.Dying (s.step J e).child := by
  cases e with
  | stdout m r a f =>
    have hclosed : s.step J (.stdout m r a f) = s := by
      show (if s.child.stdoutFd then _ else s) = s
      rw [h.stdoutFd]
      rfl
    rw [hclosed]
    exact ⟨hstdio, h⟩
  | stderr r f =>
    have hdrop : s.step J (.stderr r f) = s ∨
        s.step J (.stderr r f) = s.withChild { s.child with stderrFd := false } := by
      by_cases hopen : s.child.stderrFd = true
      · have hstep : s.step J (.stderr r f) = s.onStderr r f := if_pos hopen
        rw [hstep]
        unfold onStderr
        cases r with
        | none => exact Or.inl rfl
        | some why => exact Or.inr (if_pos (hwaits why rfl))
      · exact Or.inl (if_neg hopen)
    rcases hdrop with hsame | hdrop
    · rw [hsame]
      exact ⟨hstdio, h⟩
    · rw [hdrop]
      exact ⟨hstdio, h.cfg, h.state, h.stopping, h.restartAfterStop, h.manualStop,
        h.manualRestart, h.legacyNext, h.eof, h.processFailure, h.stdinFd, h.stdoutFd, h.calls,
        h.budget, h.starts, h.exits, h.deeds, h.pid⟩
  | message m line =>
    have hsame : s.step J (.message m line) = s := by
      show (if s.http then _ else s) = s
      rw [hstdio]
      rfl
    rw [hsame]
    exact ⟨hstdio, h⟩
  | transfer m i status cancel a =>
    have hsame : s.step J (.transfer m i status cancel a) = s := by
      show (if s.http then _ else s) = s
      rw [hstdio]
      rfl
    rw [hsame]
    exact ⟨hstdio, h⟩
  | notified fault get getFault lists now f =>
    have hsame : s.step J (.notified fault get getFault lists now f) = s := by
      show (if s.http then _ else s) = s
      rw [hstdio]
      rfl
    rw [hsame]
    exact ⟨hstdio, h⟩
  | tick a =>
    have hpos : ¬s.child.pid = 0 := by
      rw [h.pid]
      exact hpid.ne'
    have hreap : s.child.reap a.reap = (s.child, false) := by
      unfold Child.reap
      rw [if_neg hpos]
      rcases hwaits with hrunning | hfailed
      · rw [hrunning]
      · rw [hfailed]
    have hadvanced : c.Dying (s.withChild (s.child.advanceShutdown a.now)).child :=
      dying_advance h a.now
    have hsweep : s.step J (.tick a) = s.withChild (s.child.advanceShutdown a.now) := by
      show s.sweep J a = _
      unfold sweep
      rw [if_neg hpos, hreap]
      exact sweepRest_dying J (s := s.withChild (s.child.advanceShutdown a.now)) hstdio hadvanced a
    rw [hsweep]
    exact ⟨hstdio, hadvanced⟩
  | _ => exact hwaits.elim

theorem dying_run (hpid : 0 < c.pid) (hstdio : s.http = false) (h : c.Dying s.child)
    {es : List Event} (hwaits : ∀ e ∈ es, e.Waits) :
    (run (step J) s es).http = false ∧ c.Dying (run (step J) s es).child := by
  induction es generalizing s with
  | nil => exact ⟨hstdio, h⟩
  | cons e es ih =>
    obtain ⟨hhttp, hdying⟩ := dying_step J hstdio hpid h (hwaits e (List.mem_cons_self ..))
    exact ih hhttp hdying fun e' he' => hwaits e' (List.mem_cons_of_mem _ he')

/-- The end of the stream of a process at work. -/
theorem child_stdout_eof (hwork : s.child.AtWork) (m : Memory) (a : AdvanceAnswer)
    (f : FailAnswer) : (s.step J (.stdout m .eof a f)).http = s.http ∧
    (s.step J (.stdout m .eof a f)).child =
      (s.child.dropStdout Status.eof).childFailed Status.eof f := by
  have hread : s.child.readStdout J m .eof = (s.child, Status.eof) :=
    if_neg (by rw [hwork.stdoutFd]; exact Bool.noConfusion)
  have hstep : s.step J (.stdout m .eof a f) = s.hangUp Status.eof f := by
    show (if s.child.stdoutFd then s.onStdout J m .eof a f else s) = _
    rw [hwork.stdoutFd]
    show s.onStdout J m .eof a f = _
    unfold onStdout
    rw [hread]
    rfl
  rw [hstep]
  unfold hangUp
  rw [child_childFailed, http_childFailed]
  exact ⟨rfl, rfl⟩

/-- The end of a process that ends by itself comes to the same, whether its stream ends before
it is collected or not, and an end of the stream behind it is not heard. -/
theorem exit_order (cfg : ServerConfig) (es : List Event) (m : Memory) (adv : AdvanceAnswer)
    (f : FailAnswer) (waiting : List Event) (hwaiting : ∀ e ∈ waiting, e.Waits) (a b : SweepAnswer)
    (ha : a.reap = .collected w) (hb : b.reap = .collected w)
    (hpid : 0 < (run (step J) (init false cfg) es).child.pid)
    (hstopping : (run (step J) (init false cfg) es).child.flags.stopping = false)
    (hclock :
      ((run (step J) (init false cfg) (es ++ .stdout m .eof adv f :: waiting)).child.read
        a.exit.elapsed).clock =
      ((run (step J) (init false cfg) es).child.read b.exit.elapsed).clock) :
    let s := run (step J) (init false cfg) es
    let t := run (step J) (init false cfg) (es ++ .stdout m .eof adv f :: waiting)
    t.sweep J a = (t.collected a).sweepGroup J a ∧ s.sweep J b = (s.collected b).sweepGroup J b ∧
      Child.Agrees (t.collected a).child (s.collected b).child ∧
      ∀ m adv f, (s.collected b).step J (.stdout m .eof adv f) = s.collected b := by
  obtain ⟨hstdio, hsound, hpaced⟩ := (throughout_sound J false cfg es).last
  rw [run_append] at hclock ⊢
  generalize run (step J) (init false cfg) es = s at *
  intro _ t
  have hwork := hsound.working hpid hstopping
  obtain ⟨hhttp, hchild⟩ := child_stdout_eof J hwork m adv f
  have hfirst : s.child.Dying (s.step J (.stdout m .eof adv f)).child := by
    rw [hchild]
    exact hwork.hangUp hpid hstopping f
  obtain ⟨hstdio', hdying⟩ : t.http = false ∧ s.child.Dying t.child :=
    dying_run J hpid (hhttp.trans hstdio) hfirst hwaiting
  have hpid' : 0 < t.child.pid := by
    rw [hdying.pid]
    exact hpid
  have hlate := hdying.settles (t.child.torn_collected w a.killed) a.exit
  have hearly := hwork.settles hstopping (s.child.torn_collected w b.killed) b.exit
  have hagrees := hlate.agrees hpaced hearly hclock
  refine ⟨sweep_collected J hpid' ha, sweep_collected J hpid hb, ?_, ?_⟩
  · rw [child_collected hstdio' a, child_collected hstdio b, ha, hb]
    exact hagrees
  · intro m adv f
    have hclosed : (s.collected b).child.stdoutFd = false := by
      rw [child_collected hstdio b, hb]
      exact hagrees.stdoutFd.2
    show (if (s.collected b).child.stdoutFd then _ else s.collected b) = s.collected b
    rw [hclosed]
    rfl

end Order

/-! ## A server that crashes -/

theorem le_frail : 1024 ≤ 1024 := le_refl 1024

theorem frail_le : 1024 ≤ frameHardMax := by decide

/-- A server that is started again after a failure, three times a minute. -/
def frailServer : ServerConfig where
  enabled := true
  restart := ⟨.onFailure, 3, 60000, 100, 1000, by decide, by decide, by decide, by decide, by decide,
    by decide⟩
  legacy := true
  startupTimeoutMs := 1000
  requestTimeoutMs := 1000
  shutdownGraceMs := 1000
  frameMax := 1024
  le_frameMax := le_frail
  frameMax_le := frail_le

/-- A library that reads and writes nothing. -/
def muteLibrary : JsonLibrary := ⟨fun _ _ => none, fun _ => none⟩

def plainRequest : ListAnswer := ⟨⟨0, true, true, .queued .drained⟩, ⟨false, false⟩⟩

def plainAdvance : AdvanceAnswer where
  versionOk := true
  bareRefusal := false
  legacyRequest := plainRequest
  initialized := ⟨none, .queued .drained⟩
  transfer := ⟨false, false⟩
  lists := fun _ => plainRequest
  listed := 0
  collected := fun _ => 0
  next := plainRequest
  fail := ⟨0, 0⟩

/-- A sweep at a time, at which the process is found to be so. -/
def plainSweep (now : ℕ) (reap : ReapAnswer) : SweepAnswer where
  now := now
  reap := reap
  killed := true
  retried := true
  exit := ⟨0, 0⟩
  write := .drained
  writeFail := ⟨0, 0⟩
  emit := fun _ => ⟨none, .queued .drained⟩
  cancel := fun _ => ⟨⟨false, false⟩, none⟩
  callFail := ⟨0, 0⟩
  memory := ⟨fun _ => true, fun _ => true, fun _ => true⟩
  advance := plainAdvance
  transfer := ⟨false, false⟩
  lists := fun _ => plainRequest
  listed := 0
  start := ⟨false, .ok 7, none, none, true, true, plainRequest, ⟨0, 0⟩⟩

/-- It dies of a signal at its first breath, with a sweep between the two notices. -/
theorem exit_order_frail :
    Child.Agrees
      ((run (step muteLibrary) (init false frailServer)
        ([.tick (plainSweep 0 .running)] ++
          .stdout (plainSweep 0 .running).memory .eof plainAdvance ⟨0, 0⟩ ::
            [.tick (plainSweep 5 .running)])).collected (plainSweep 9 (.collected 11))).child
      ((run (step muteLibrary) (init false frailServer)
        [.tick (plainSweep 0 .running)]).collected (plainSweep 9 (.collected 11))).child := by
  have hwaiting : ∀ e ∈ [Event.tick (plainSweep 5 .running)], e.Waits := by
    intro e he
    rw [List.mem_singleton.mp he]
    exact Or.inl rfl
  exact (exit_order muteLibrary frailServer [.tick (plainSweep 0 .running)]
    (plainSweep 0 .running).memory plainAdvance ⟨0, 0⟩ [.tick (plainSweep 5 .running)] hwaiting
    (plainSweep 9 (.collected 11)) (plainSweep 9 (.collected 11)) rfl rfl (by decide) (by decide)
    (by decide)).2.2.1

end Server
end AsmFlow.Mcp
