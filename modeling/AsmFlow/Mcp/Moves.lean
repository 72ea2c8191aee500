import AsmFlow.Mcp.Standing
import AsmFlow.Mcp.Supervisor

/-!
# What can happen to a record

Every event is a few moves of the record, each of which says all that the supervision of the
process can see of it.
-/

namespace AsmFlow.Mcp

namespace Child

variable (c : Child)

/-! ## Failing -/

/-- The cause of a failure is remembered, unless it is the end of the stream. -/
def blame (why : Status) : Child :=
  if why = Status.eof then c else c.withFlags ({ · with processFailure := true })

/-- A server that has failed. -/
def giveUp (why : Status) : Child := ((c.blame why).setState .failed).invalidate

/-- What `af_mcp_schedule_restart` comes to. -/
inductive Schedules (c : Child) (a : FailAnswer) : Child → Prop
  | never (hmode : c.cfg.restart.mode = .never) : Schedules c a c
  | exhausted (b : Budget) (hverdict : c.cfg.restart.schedule c.budget (c.read a.elapsed).clock
      a.stale = .crashLoop b) : Schedules c a
      (({ c.read a.elapsed with budget := b, state := .crashLoop } : Child).note
        (.exhausted (c.read a.elapsed).clock))
  | restart (b : Budget) (t : ℕ) (hverdict : c.cfg.restart.schedule c.budget
      (c.read a.elapsed).clock a.stale = .restart b t) : Schedules c a
      (({ c.read a.elapsed with budget := b, nextStart := t, state := .restarting } : Child).note
        (.scheduled ⟨(c.read a.elapsed).clock, t, b.backoffMs⟩))

theorem scheduleRestart_spec (a : FailAnswer) : Schedules c a (c.scheduleRestart a) := by
  unfold scheduleRestart
  by_cases hmode : c.cfg.restart.mode = .never
  · rw [if_pos hmode]
    exact .never hmode
  · rw [if_neg hmode]
    dsimp only
    split
    · rename_i hverdict
      exact absurd hverdict (RestartPolicy.schedule_ne_leave hmode _ _ _)
    · rename_i b hverdict
      exact .exhausted b hverdict
    · rename_i b t hverdict
      exact .restart b t hverdict

/-- What `af_mcp_child_failed` comes to. -/
inductive Fails (c : Child) (why : Status) (a : FailAnswer) : Child → Prop
  | latched (hstate : c.state = .crashLoop ∨ c.state = .disabled) : Fails c why a c
  | stopping (hstate : ¬(c.state = .crashLoop ∨ c.state = .disabled))
      (hstopping : c.flags.stopping = true) : Fails c why a (c.blame why)
  | stopped (hstate : ¬(c.state = .crashLoop ∨ c.state = .disabled))
      (hstopping : c.flags.stopping = false) (hmanual : c.flags.manualStop = true) :
      Fails c why a (c.giveUp why)
  | living (hstate : ¬(c.state = .crashLoop ∨ c.state = .disabled))
      (hstopping : c.flags.stopping = false) (hmanual : c.flags.manualStop = false)
      (hpid : 0 < c.pid) : Fails c why a ((c.giveUp why).beginStop a.elapsed)
  | legacy (hstate : ¬(c.state = .crashLoop ∨ c.state = .disabled))
      (hstopping : c.flags.stopping = false) (hmanual : c.flags.manualStop = false)
      (hpid : c.pid = 0) (hlegacy : c.flags.legacyNext = true) :
      Fails c why a (c.giveUp why).startNow
  | scheduled (hstate : ¬(c.state = .crashLoop ∨ c.state = .disabled))
      (hstopping : c.flags.stopping = false) (hmanual : c.flags.manualStop = false)
      (hpid : c.pid = 0) (hlegacy : c.flags.legacyNext = false) :
      Fails c why a ((c.giveUp why).scheduleRestart a)

/-- The cause is all that is remembered. -/
theorem blame_eq (why : Status) :
    ∃ b, c.blame why = c.withFlags ({ · with processFailure := b }) := by
  unfold blame
  split_ifs
  · exact ⟨c.flags.processFailure, rfl⟩
  · exact ⟨true, rfl⟩

theorem childFailed_spec (why : Status) (a : FailAnswer) :
    Fails c why a (c.childFailed why a) := by
  obtain ⟨b, hb⟩ := c.blame_eq why
  have hstopping : (c.blame why).flags.stopping = c.flags.stopping := by rw [hb]; rfl
  have hmanual : (c.giveUp why).flags.manualStop = c.flags.manualStop := by
    unfold giveUp
    rw [hb]
    rfl
  have hpid : (c.giveUp why).pid = c.pid := by
    unfold giveUp
    rw [hb]
    rfl
  have hlegacy : (c.giveUp why).flags.legacyNext = c.flags.legacyNext := by
    unfold giveUp
    rw [hb]
    rfl
  unfold childFailed
  by_cases h₁ : c.state = .crashLoop ∨ c.state = .disabled
  · rw [if_pos h₁]
    exact .latched h₁
  rw [if_neg h₁]
  extract_lets d e
  have hd : d = c.blame why := rfl
  have he : e = c.giveUp why := by
    unfold giveUp
    rw [← hd]
  clear_value d e
  subst hd he
  rw [hstopping, hmanual, hpid, hlegacy]
  split_ifs with h₂ h₃ h₄ h₅
  · exact .stopping h₁ h₂
  · exact .stopped h₁ (Bool.eq_false_iff.mpr h₂) h₃
  · exact .living h₁ (Bool.eq_false_iff.mpr h₂) (Bool.eq_false_iff.mpr h₃) h₄
  · exact .legacy h₁ (Bool.eq_false_iff.mpr h₂) (Bool.eq_false_iff.mpr h₃)
      (Nat.eq_zero_of_not_pos h₄) h₅
  · exact .scheduled h₁ (Bool.eq_false_iff.mpr h₂) (Bool.eq_false_iff.mpr h₃)
      (Nat.eq_zero_of_not_pos h₄) (Bool.eq_false_iff.mpr h₅)

/-- Some deadline is set. -/
theorem armGrace_eq (elapsed : ℕ) :
    ∃ t, c.armGrace elapsed = { c.read elapsed with nextStart := t } := ⟨_, rfl⟩

/-- Another deadline may be set. -/
theorem advanceShutdown_eq (now : ℕ) : ∃ t b, c.advanceShutdown now =
    ({ c with nextStart := t } : Child).withFlags ({ · with termSent := b }) := by
  unfold advanceShutdown
  split_ifs
  · exact ⟨c.nextStart, c.flags.termSent, rfl⟩
  · exact ⟨c.nextStart, c.flags.termSent, rfl⟩
  · exact ⟨_, true, rfl⟩

/-- The shutdown that a failure begins. -/
theorem beginStop_eq (elapsed : ℕ) : ∃ t b, c.beginStop elapsed =
    { c.read elapsed with
      nextStart := t
      stdinFd := false
      flags :=
        { c.flags with
          stopping := true, restartAfterStop := true, termSent := false, stdinOpen := b } } := by
  let d := c.withFlags ({ · with stopping := true, restartAfterStop := true, termSent := false })
  obtain ⟨t, ht⟩ := d.closeStdin.armGrace_eq elapsed
  refine ⟨t, d.closeStdin.flags.stdinOpen, ?_⟩
  show d.closeStdin.armGrace elapsed = _
  rw [ht]
  unfold closeStdin
  split_ifs with hfd
  · cases c
    obtain rfl : _ = false := hfd
    rfl
  · rfl

theorem pid_scheduleRestart (a : FailAnswer) : (c.scheduleRestart a).pid = c.pid := by
  have hspec := c.scheduleRestart_spec a
  generalize c.scheduleRestart a = d at hspec
  cases hspec <;> rfl

theorem flags_scheduleRestart (a : FailAnswer) : (c.scheduleRestart a).flags = c.flags := by
  have hspec := c.scheduleRestart_spec a
  generalize c.scheduleRestart a = d at hspec
  cases hspec <;> rfl

theorem calls_scheduleRestart (a : FailAnswer) : (c.scheduleRestart a).calls = c.calls := by
  have hspec := c.scheduleRestart_spec a
  generalize c.scheduleRestart a = d at hspec
  cases hspec <;> rfl

theorem giveUp_eq (why : Status) : ∃ b, c.giveUp why =
    ((c.withFlags ({ · with processFailure := b })).setState .failed).invalidate := by
  obtain ⟨b, hb⟩ := c.blame_eq why
  refine ⟨b, ?_⟩
  unfold giveUp
  rw [hb]

theorem pid_childFailed (why : Status) (a : FailAnswer) : (c.childFailed why a).pid = c.pid := by
  obtain ⟨b, hb⟩ := c.blame_eq why
  have hgone : (c.giveUp why).pid = c.pid := by
    unfold giveUp
    rw [hb]
    rfl
  have hspec := c.childFailed_spec why a
  generalize c.childFailed why a = d at hspec
  cases hspec with
  | latched => rfl
  | stopping =>
    rw [hb]
    rfl
  | stopped => exact hgone
  | living =>
    obtain ⟨t, o, hstop⟩ := (c.giveUp why).beginStop_eq a.elapsed
    rw [hstop]
    exact hgone
  | legacy => exact hgone
  | scheduled => exact (pid_scheduleRestart _ a).trans hgone

/-! ## Working -/

end Child

/-- The process of the server is at work. -/
def State.live : State → Bool
  | .probing | .ready | .degraded => true
  | _ => false

/-- The stages of the work are one. -/
def State.stage (x : State) : State := if x.live then .probing else x

/-- What does not tell one stage of the work from another. -/
def Standing.working (x : Standing) : Standing :=
  { x with
    flags := { x.flags with probed := false, listed := false, toolsCurrent := false }
    state := x.state.stage }

namespace Child

/-- The supervision reads the same, but for the stage of the work. -/
def Alike (c d : Child) : Prop := d.standing.working = c.standing.working

namespace Alike

variable {c d : Child} (h : c.Alike d)

include h

theorem cfg : d.cfg = c.cfg := congrArg Standing.cfg h

theorem pid : d.pid = c.pid := congrArg Standing.pid h

theorem pgid : d.pgid = c.pgid := congrArg Standing.pgid h

theorem stdoutFd : d.stdoutFd = c.stdoutFd := congrArg Standing.stdoutFd h

theorem budget : d.budget = c.budget := congrArg Standing.budget h

theorem starts : d.starts = c.starts := congrArg Standing.starts h

theorem deeds : d.deeds = c.deeds := congrArg Standing.deeds h

theorem flag (f : Flags → Bool) (hf : ∀ x : Flags,
    f { x with discarding := false, probed := false, listed := false, toolsCurrent := false } = f x) :
    f d.flags = f c.flags := by
  rw [← hf d.flags, ← hf c.flags]
  exact congrArg (fun x => f x.flags) h

theorem stage : d.state.stage = c.state.stage := congrArg Standing.state h

theorem live : d.state.live = c.state.live := by
  have hstate := h.stage
  unfold State.stage at hstate
  split_ifs at hstate with hd hc hc
  · rw [hd, hc]
  · rw [← hstate] at hc
    exact absurd rfl hc
  · rw [hstate] at hd
    exact absurd rfl hd
  · rw [hstate]

theorem state (hlive : c.state.live = false) : d.state = c.state := by
  have hstate := h.stage
  unfold State.stage at hstate
  rwa [h.live, hlive] at hstate

theorem state_iff {x : State} (hx : x.live = false) : d.state = x ↔ c.state = x := by
  constructor
  · rintro rfl
    exact (h.state (h.live.symm.trans hx)).symm
  · rintro rfl
    exact h.state hx

end Alike

/-- The work goes on, and nothing is discovered anew. -/
structure Steady (c d : Child) : Prop where
  alike : c.Alike d
  clock : c.clock ≤ maxU64 → c.clock ≤ d.clock ∧ d.clock ≤ maxU64
  discover : OnlyOld (· = .discover) c d

namespace Steady

variable {c d e : Child}

theorem of_keeps (h : c.Keeps d) (hdiscover : OnlyOld (· = .discover) c d) : c.Steady d :=
  ⟨congrArg Standing.working h.standing, h.clock, hdiscover⟩

theorem of_talks (h : c.Talks d) : c.Steady d := of_keeps h.keeps (h.old.mono fun _ _ => trivial)

theorem of_eq (h : c.Alike d) (hclock : d.clock = c.clock) (hcalls : d.calls = c.calls) :
    c.Steady d :=
  ⟨h, fun hle => ⟨hclock.ge, hclock.le.trans hle⟩, .of_eq hcalls⟩

theorem refl (c : Child) : c.Steady c := of_eq rfl rfl rfl

theorem trans (h : c.Steady d) (h' : d.Steady e) : c.Steady e where
  alike := h'.alike.trans h.alike
  clock := by
    intro hle
    obtain ⟨hcd, hd⟩ := h.clock hle
    obtain ⟨hde, he⟩ := h'.clock hd
    exact ⟨hcd.trans hde, he⟩
  discover := h.discover.trans h'.discover

end Steady

variable (c : Child)

/-! ## Starting, stopping and ending -/

/-- What a start that came to nothing leaves. -/
structure Fallen (manual : Bool) (d : Child) : Prop where
  cfg : d.cfg = c.cfg
  state : d.state = .failed
  stopping : d.flags.stopping = false
  legacyNext : d.flags.legacyNext = false
  manualStop : d.flags.manualStop = c.flags.manualStop
  pid : d.pid = 0
  budget : d.budget = c.budget
  starts : c.starts ≤ d.starts
  calls : ∀ i, d.calls i = none
  deeds : d.deeds =
    c.deeds ++ [.spawned c.state c.pid c.pgid c.flags.legacyNext manual]
  clock : c.clock ≤ maxU64 → c.clock ≤ d.clock ∧ d.clock ≤ maxU64

/-- A server that was started. -/
structure Begun (manual http : Bool) (d : Child) : Prop where
  cfg : d.cfg = c.cfg
  state : d.state = .probing
  stopping : d.flags.stopping = false
  processFailure : d.flags.processFailure = false
  legacyNext : d.flags.legacyNext = false
  manualStop : d.flags.manualStop = c.flags.manualStop
  manualRestart : d.flags.manualRestart = false
  stdoutFd : http = false → d.stdoutFd = true
  pid : http = true → d.pid = 0
  budget : d.budget = c.budget
  starts : d.starts = c.starts + 1
  discover : http = false → c.flags.legacyNext = true → ∀ i k, d.calls i = some k →
    k.kind ≠ .discover
  deeds : d.deeds =
    c.deeds ++ [.spawned c.state c.pid c.pgid c.flags.legacyNext manual]
  clock : c.clock ≤ maxU64 → c.clock ≤ d.clock ∧ d.clock ≤ maxU64

/-- `af_mcp_start` does not refuse. -/
structure MayStart : Prop where
  notLooping : c.state ≠ .crashLoop
  notDisabled : c.state ≠ .disabled
  pid : c.pid = 0
  pgid : c.pgid = 0

/-- What a stop leaves: the shutdown is over, or waits for the process. -/
structure Halted (manual http : Bool) (d : Child) : Prop where
  cfg : d.cfg = c.cfg
  legacyNext : d.flags.legacyNext = (!manual && c.flags.legacyNext)
  manualStop : d.flags.manualStop = (manual || c.flags.manualStop)
  budget : d.budget = c.budget
  starts : d.starts = c.starts
  calls : ∀ i, d.calls i = none
  deeds : d.deeds = c.deeds ++ if manual then [.stopped] else []
  clock : c.clock ≤ maxU64 → c.clock ≤ d.clock ∧ d.clock ≤ maxU64
  pid : d.pid = c.pid ∨ d.pid = 0
  outcome : (http = true ∨ d.pid = 0) ∧ d.state = .stopped ∨
    d.pid = c.pid ∧ d.flags.stopping = true ∧ d.state = (if manual then .stopped else c.state) ∧
      d.flags.restartAfterStop = c.flags.restartAfterStop ∧
      d.flags.manualRestart = c.flags.manualRestart

/-- The end of the protocol pipe is noted, and the pipe closed. -/
def dropStdout (why : Status) : Child :=
  { if why = Status.eof then c.withFlags ({ · with eof := true }) else c with stdoutFd := false }

/-- A process that was collected, and its pipes closed. -/
def onExit (a : FailAnswer) : Child :=
  if c.flags.stopping then c.settleExit a
  else if c.endsCleanly then c.setState .stopped
  else c.childFailed Status.mcpSpawn a

/-- What the end of a process comes to. -/
inductive Exits (c : Child) (a : FailAnswer) : Child → Prop
  | halted (hstopping : c.flags.stopping = true) (hafter : c.flags.restartAfterStop = false) :
      Exits c a c.standStill
  | still (hstopping : c.flags.stopping = true) (hafter : c.flags.restartAfterStop = true)
      (hwhy : c.flags.manualStop = true ∨ c.flags.legacyNext = false ∧
        c.flags.manualRestart = false ∧ c.flags.eof = true ∧ c.flags.processFailure = false ∧
          c.endsCleanly = true) : Exits c a c.unstop.standStill
  | legacy (hstopping : c.flags.stopping = true) (hafter : c.flags.restartAfterStop = true)
      (hmanual : c.flags.manualStop = false) (hlegacy : c.flags.legacyNext = true) :
      Exits c a c.unstop.startNow
  | manual (hstopping : c.flags.stopping = true) (hafter : c.flags.restartAfterStop = true)
      (hmanual : c.flags.manualStop = false) (hlegacy : c.flags.legacyNext = false)
      (hrestart : c.flags.manualRestart = true) : Exits c a c.unstop.restartNow
  | scheduled (hstopping : c.flags.stopping = true) (hafter : c.flags.restartAfterStop = true)
      (hmanual : c.flags.manualStop = false) (hlegacy : c.flags.legacyNext = false)
      (hrestart : c.flags.manualRestart = false)
      (hwhy : ¬(c.flags.eof = true ∧ c.flags.processFailure = false ∧ c.endsCleanly = true)) :
      Exits c a (c.unstop.scheduleRestart a)
  | clean (hstopping : c.flags.stopping = false) (hclean : c.endsCleanly = true) :
      Exits c a (c.setState .stopped)
  | failed (hstopping : c.flags.stopping = false) (hclean : c.endsCleanly = false) :
      Exits c a (c.childFailed Status.mcpSpawn a)

theorem onExit_spec (a : FailAnswer) : Exits c a (c.onExit a) := by
  unfold onExit
  split_ifs with hstopping hclean
  · unfold settleExit
    extract_lets f d
    by_cases hafter : c.flags.restartAfterStop = false
    · rw [if_pos hafter]
      exact .halted hstopping hafter
    rw [if_neg hafter]
    have htrue := Bool.eq_true_of_not_eq_false hafter
    split_ifs with hmanual hlegacy hrestart hwhy
    · exact .still hstopping htrue (Or.inl hmanual)
    · exact .legacy hstopping htrue (Bool.eq_false_iff.mpr hmanual) hlegacy
    · exact .manual hstopping htrue (Bool.eq_false_iff.mpr hmanual) (Bool.eq_false_iff.mpr hlegacy)
        hrestart
    · simp only [Bool.and_eq_true, Bool.not_eq_true'] at hwhy
      exact .still hstopping htrue (Or.inr ⟨Bool.eq_false_iff.mpr hlegacy,
        Bool.eq_false_iff.mpr hrestart, hwhy.1.1, hwhy.1.2, hwhy.2⟩)
    · simp only [Bool.and_eq_true, Bool.not_eq_true', and_assoc] at hwhy
      exact .scheduled hstopping htrue (Bool.eq_false_iff.mpr hmanual)
        (Bool.eq_false_iff.mpr hlegacy) (Bool.eq_false_iff.mpr hrestart) hwhy
  · exact .clean (Bool.eq_false_iff.mpr hstopping) hclean
  · exact .failed (Bool.eq_false_iff.mpr hstopping) (Bool.eq_false_iff.mpr hclean)

/-- Only the process group depends on the kernel. -/
theorem teardown_eq (killed : Bool) : c.teardown killed =
    { c.closePipes.invalidate with pgid := if killed then 0 else c.pgid } := by
  unfold teardown killGroup
  split_ifs <;> rfl

/-- `af_mcp_teardown`, of the record. -/
def torn (http killed : Bool) : Child := if http then c.invalidate else c.teardown killed

/-- A manual restart of a server without a process. -/
def requeue : Child := c.resume.invalidate.unstop.restartNow

/-- A manual restart of a server whose process is still there. -/
def recycle (elapsed : ℕ) : Child :=
  (((c.resume.withFlags
    ({ · with
      stopping := true, restartAfterStop := true, manualRestart := true,
      termSent := false })).setState .restarting).invalidate.closeStdin).armGrace elapsed

/-- What a manual restart of a server without a process leaves. -/
structure Requeued (d : Child) : Prop where
  cfg : d.cfg = c.cfg
  state : d.state = .restarting
  manualStop : d.flags.manualStop = false
  legacyNext : d.flags.legacyNext = c.flags.legacyNext
  pid : d.pid = c.pid
  budget : d.budget = c.budget
  starts : d.starts = c.starts
  calls : ∀ i, d.calls i = none
  deeds : d.deeds = c.deeds ++ [.resumed] ++ [.restarted]
  clock : d.clock = c.clock

theorem requeue_spec : c.Requeued c.requeue := by
  cases c
  exact ⟨rfl, rfl, rfl, rfl, rfl, rfl, rfl, fun _ => rfl, rfl, rfl⟩

/-- What a manual restart of a server leaves whose process is still there. -/
structure Recycled (d : Child) : Prop where
  cfg : d.cfg = c.cfg
  state : d.state = .restarting
  stopping : d.flags.stopping = true
  restartAfterStop : d.flags.restartAfterStop = true
  manualRestart : d.flags.manualRestart = true
  manualStop : d.flags.manualStop = false
  legacyNext : d.flags.legacyNext = c.flags.legacyNext
  pid : d.pid = c.pid
  budget : d.budget = c.budget
  starts : d.starts = c.starts
  calls : ∀ i, d.calls i = none
  deeds : d.deeds = c.deeds ++ [.resumed]
  clock : c.clock ≤ maxU64 → c.clock ≤ d.clock ∧ d.clock ≤ maxU64

theorem recycle_spec (elapsed : ℕ) : c.Recycled (c.recycle elapsed) := by
  let d := ((c.resume.withFlags
    ({ · with
      stopping := true, restartAfterStop := true, manualRestart := true,
      termSent := false })).setState .restarting).invalidate
  obtain ⟨t, ht⟩ := d.closeStdin.armGrace_eq elapsed
  have hrecycle : c.recycle elapsed = { d.closeStdin.read elapsed with nextStart := t } := ht
  have hclock := (c.keeps_read elapsed).clock
  rw [hrecycle]
  unfold closeStdin
  cases c
  split_ifs <;>
    exact ⟨rfl, rfl, rfl, rfl, rfl, rfl, rfl, rfl, rfl, rfl, fun _ => rfl, rfl, hclock⟩

/-- What a reset leaves. -/
structure Cleared (d : Child) : Prop where
  cfg : d.cfg = c.cfg
  before : c.state = .crashLoop
  state : d.state = .restarting
  manualStop : d.flags.manualStop = false
  legacyNext : d.flags.legacyNext = false
  pid : d.pid = 0
  budget : d.budget = .empty
  starts : d.starts = c.starts
  calls : d.calls = c.calls
  deeds : d.deeds = c.deeds ++ [.reset]
  clock : d.clock = c.clock

theorem reset_spec : c.reset.1 = c ∨ c.Cleared c.reset.1 := by
  unfold reset
  split_ifs with hpid hpgid hstate
  · exact Or.inl rfl
  · exact Or.inl rfl
  · exact Or.inl rfl
  · cases c
    exact Or.inr ⟨rfl, not_not.mp hstate, rfl, rfl, rfl, Nat.eq_zero_of_not_pos hpid, rfl, rfl,
      rfl, rfl, rfl⟩

/-- A start is asked for by an operator, or due. -/
def Due (manual : Bool) : Prop :=
  manual = true ∧ c.flags.manualStop = false ∨ c.state = .restarting ∨
    c.state = .stopped ∧ c.flags.manualStop = false ∧ c.starts = 0

/-- One move of a record. -/
inductive Move (http : Bool) : Child → Child → Prop
  | steady {c d : Child} (h : c.Steady d) : Move http c d
  | fail {c : Child} (why : Status) (a : FailAnswer) : Move http c (c.childFailed why a)
  | timeout {c : Child} (hstdio : http = false) (i : Fin maxCalls) (k : Call) (hcall : c.calls i = some k)
      (hkind : k.kind = .discover) (hstate : c.state = .probing) (a : FailAnswer) :
      Move http c
        (((c.release i).withFlags ({ · with legacyNext := true })).childFailed Status.mcpTimeout a)
  | hangUp {c : Child} (why : Status) (a : FailAnswer) : Move http c ((c.dropStdout why).childFailed why a)
  | wait {c : Child} (now : ℕ) : Move http c (c.advanceShutdown now)
  | exit {c : Child} (hpid : 0 < c.pid) (r : ReapAnswer) (killed : Bool) (a : FailAnswer) :
      Move http c (((c.collect r).torn http killed).onExit a)
  | retry {c : Child} (hpid : c.pid = 0) (killed : Bool) : Move http c (c.torn http killed)
  | fallen {c d : Child} (may : c.MayStart) (manual : Bool) (due : c.Due manual)
      (h : c.Fallen manual d) (a : FailAnswer) : Move http c (d.scheduleRestart a)
  | begun {c d : Child} (may : c.MayStart) (manual : Bool) (due : c.Due manual)
      (h : c.Begun manual http d) : Move http c d
  | resume {c : Child} (hstate : ¬(c.state = .crashLoop ∨ c.state = .disabled)) (hpid : c.pid = 0) :
      Move http c c.resume
  | stop {c d : Child} (hstate : ¬(c.state = .crashLoop ∨ c.state = .disabled)) (manual : Bool)
      (h : c.Halted manual http d) : Move http c d
  | requeue {c : Child} (hstate : ¬(c.state = .crashLoop ∨ c.state = .disabled))
      (hgone : http = true ∨ c.pid = 0) :
      Move http c c.requeue
  | recycle {c : Child} (hstate : ¬(c.state = .crashLoop ∨ c.state = .disabled)) (hpid : 0 < c.pid)
      (elapsed : ℕ) : Move http c (c.recycle elapsed)
  | reset {c : Child} : Move http c c.reset.1

/-- What one event comes to. -/
abbrev Moves (http : Bool) : Child → Child → Prop := Relation.ReflTransGen (Move http)

theorem Moves.of_move {http : Bool} {c d : Child} (h : Move http c d) : Moves http c d :=
  .single h

end Child

namespace Server

/-- The record of a server moves. -/
structure Goes (s t : Server) : Prop where
  http : t.http = s.http
  moves : Child.Moves s.http s.child t.child

namespace Goes

variable {s t u : Server}

theorem refl (s : Server) : s.Goes s := ⟨rfl, .refl⟩

theorem trans (h : s.Goes t) (h' : t.Goes u) : s.Goes u := by
  refine ⟨h'.http.trans h.http, h.moves.trans ?_⟩
  rw [← h.http]
  exact h'.moves

theorem of_move (hhttp : t.http = s.http) (h : Child.Move s.http s.child t.child) : s.Goes t :=
  ⟨hhttp, .single h⟩

theorem of_eq (hhttp : t.http = s.http) (h : t.child = s.child) : s.Goes t := by
  refine ⟨hhttp, ?_⟩
  rw [h]

theorem of_steady (hhttp : t.http = s.http) (h : s.child.Steady t.child) : s.Goes t :=
  of_move hhttp (.steady h)

theorem of_talks (hhttp : t.http = s.http) (h : s.child.Talks t.child) : s.Goes t :=
  of_steady hhttp (.of_talks h)

end Goes

variable (s : Server)

/-! ## The record of a server -/

@[simp] theorem child_withChild (c : Child) : (s.withChild c).child = c := rfl

@[simp] theorem http_withChild (c : Child) : (s.withChild c).http = s.http := rfl

@[simp] theorem child_dropView : s.dropView.child = s.child := by
  unfold dropView
  split_ifs <;> rfl

@[simp] theorem http_dropView : s.dropView.http = s.http := by
  unfold dropView
  split_ifs <;> rfl

@[simp] theorem child_invalidate : s.invalidate.child = s.child.invalidate := child_dropView _

@[simp] theorem http_invalidate : s.invalidate.http = s.http := http_dropView _

@[simp] theorem child_childFailed (why : Status) (a : FailAnswer) :
    (s.childFailed why a).child = s.child.childFailed why a := by
  unfold childFailed
  dsimp only
  split_ifs
  · rfl
  · exact child_dropView _

@[simp] theorem http_childFailed (why : Status) (a : FailAnswer) :
    (s.childFailed why a).http = s.http := by
  unfold childFailed
  dsimp only
  split_ifs
  · rfl
  · exact http_dropView _

@[simp] theorem child_authorize (t : Transfer) :
    s.child.Alike (s.authorize t).child ∧
      (s.authorize t).child.clock = s.child.clock ∧
      (s.authorize t).child.calls = s.child.calls := by
  unfold authorize
  split_ifs <;> exact ⟨rfl, rfl, rfl⟩

@[simp] theorem http_authorize (t : Transfer) : (s.authorize t).http = s.http := by
  unfold authorize
  split_ifs <;> rfl

theorem goes_childFailed (why : Status) (a : FailAnswer) : s.Goes (s.childFailed why a) := by
  refine .of_move (s.http_childFailed why a) ?_
  rw [child_childFailed]
  exact .fail why a

theorem goes_release (i : Fin maxCalls) : s.Goes (s.release i) :=
  .of_talks rfl (s.child.talks_release i)

theorem goes_authorize (t : Transfer) : s.Goes (s.authorize t) := by
  obtain ⟨hstanding, hclock, hcalls⟩ := s.child_authorize t
  exact .of_steady (s.http_authorize t) (.of_eq hstanding hclock hcalls)

end Server
end AsmFlow.Mcp
