import AsmFlow.Mcp.Events

/-!
# What holds of a record at any time

A process that is not being stopped is at work and nothing was held against it; a server that
gave up has none; a stop of an operator stands until it is taken back.
-/

namespace AsmFlow.Mcp

namespace Child

/-- A process at work. -/
structure AtWork (c : Child) : Prop where
  live : c.state.live = true
  processFailure : c.flags.processFailure = false
  legacyNext : c.flags.legacyNext = false
  manualStop : c.flags.manualStop = false
  manualRestart : c.flags.manualRestart = false
  stdoutFd : c.stdoutFd = true

/-- What holds of a record at any time. -/
structure Sound (http : Bool) (c : Child) : Prop where
  transfers : http = true → c.pid = 0 ∧ c.flags.legacyNext = false
  latched : c.state = .crashLoop ∨ c.state = .disabled → c.pid = 0
  working : 0 < c.pid → c.flags.stopping = false → c.AtWork
  held : c.flags.manualStop = true → c.state ≠ .restarting
  recycled : c.state = .restarting → 0 < c.pid → c.flags.stopping = true ∧
    c.flags.restartAfterStop = true ∧ c.flags.manualRestart = true

namespace Sound

variable {http : Bool} {c d : Child}

theorem init (cfg : ServerConfig) : Sound http (Child.init cfg) where
  transfers := fun _ => ⟨rfl, rfl⟩
  latched := fun _ => rfl
  working := fun h => absurd h (lt_irrefl 0)
  held := Bool.noConfusion
  recycled := fun _ h => absurd h (lt_irrefl 0)

/-- A record without a process. -/
theorem of_gone (hpid : d.pid = 0) (hlegacy : http = true → d.flags.legacyNext = false)
    (hheld : d.flags.manualStop = true → d.state ≠ .restarting) : Sound http d where
  transfers := fun h => ⟨hpid, hlegacy h⟩
  latched := fun _ => hpid
  working := fun h => absurd hpid h.ne'
  held := hheld
  recycled := fun _ h => absurd hpid h.ne'

theorem steady (h : Sound http c) (hsteady : c.Steady d) : Sound http d := by
  have halike := hsteady.alike
  have hstopping := halike.flag Flags.stopping fun _ => rfl
  have hlegacy := halike.flag Flags.legacyNext fun _ => rfl
  have hmanual := halike.flag Flags.manualStop fun _ => rfl
  have hfailure := halike.flag Flags.processFailure fun _ => rfl
  have hafter := halike.flag Flags.restartAfterStop fun _ => rfl
  have hrestart := halike.flag Flags.manualRestart fun _ => rfl
  refine ⟨?_, ?_, ?_, ?_, ?_⟩
  · rw [halike.pid, hlegacy]
    exact h.transfers
  · rw [halike.pid]
    rintro (hloop | hdisabled)
    · exact h.latched (Or.inl ((halike.state_iff rfl).mp hloop))
    · exact h.latched (Or.inr ((halike.state_iff rfl).mp hdisabled))
  · rw [halike.pid, hstopping]
    intro hpid hfalse
    obtain ⟨hlive, hfail, hnext, hheld, hagain, hfd⟩ := h.working hpid hfalse
    exact ⟨halike.live.trans hlive, hfailure.trans hfail, hlegacy.trans hnext, hmanual.trans hheld,
      hrestart.trans hagain, halike.stdoutFd.trans hfd⟩
  · intro hstop hrestarting
    exact h.held (hmanual ▸ hstop) ((halike.state_iff rfl).mp hrestarting)
  · intro hrestarting
    rw [halike.pid, hstopping, hafter, hrestart]
    exact h.recycled ((halike.state_iff rfl).mp hrestarting)

end Sound

/-- A record that may fail. -/
structure MayFail (http : Bool) (c : Child) : Prop where
  transfers : http = true → c.pid = 0 ∧ c.flags.legacyNext = false
  latched : c.state = .crashLoop ∨ c.state = .disabled → c.pid = 0
  free : 0 < c.pid → c.flags.stopping = false → c.flags.manualStop = false
  held : c.flags.manualStop = true → c.state ≠ .restarting
  recycled : c.state = .restarting → 0 < c.pid → c.flags.stopping = true ∧
    c.flags.restartAfterStop = true ∧ c.flags.manualRestart = true

namespace Sound

variable {http : Bool} {c d : Child}

theorem mayFail (h : Sound http c) : MayFail http c :=
  ⟨h.transfers, h.latched, fun hpid hstopping => (h.working hpid hstopping).manualStop, h.held,
    h.recycled⟩

theorem scheduleRestart (hpid : c.pid = 0) (hlegacy : http = true → c.flags.legacyNext = false)
    (hmanual : c.flags.manualStop = false) (a : FailAnswer) :
    Sound http (c.scheduleRestart a) := by
  refine of_gone ((c.pid_scheduleRestart a).trans hpid) ?_ ?_
  · rw [c.flags_scheduleRestart a]
    exact hlegacy
  · rw [c.flags_scheduleRestart a, hmanual]
    exact Bool.noConfusion

theorem childFailed (h : MayFail http c) (why : Status) (a : FailAnswer) :
    Sound http (c.childFailed why a) := by
  obtain ⟨b, hblame⟩ := c.blame_eq why
  obtain ⟨b', hgone⟩ := c.giveUp_eq why
  have hspec := c.childFailed_spec why a
  generalize c.childFailed why a = d at hspec
  have hlegacy : http = true → c.flags.legacyNext = false := fun hhttp => (h.transfers hhttp).2
  cases hspec with
  | latched hstate => exact of_gone (h.latched hstate) hlegacy h.held
  | stopping hstate hstopping =>
    rw [hblame]
    refine ⟨h.transfers, h.latched, ?_, h.held, h.recycled⟩
    intro _ hfalse
    exact absurd (hstopping.symm.trans hfalse) Bool.noConfusion
  | stopped hstate hstopping hmanual =>
    rw [hgone]
    have hpid : c.pid = 0 := by
      by_contra hpid
      have hfalse := h.free (Nat.pos_of_ne_zero hpid) hstopping
      rw [hmanual] at hfalse
      cases hfalse
    exact of_gone hpid hlegacy fun _ => State.noConfusion
  | living hstate hstopping hmanual hpid =>
    obtain ⟨t, o, hstop⟩ := (c.giveUp why).beginStop_eq a.elapsed
    rw [hstop, hgone]
    refine ⟨h.transfers, ?_, fun _ => Bool.noConfusion, fun _ => State.noConfusion,
      State.noConfusion⟩
    rintro (hloop | hdisabled)
    · cases hloop
    · cases hdisabled
  | legacy hstate hstopping hmanual hpid hnext =>
    rw [hgone]
    refine of_gone hpid hlegacy ?_
    intro htrue
    exact absurd (hmanual.symm.trans htrue) Bool.noConfusion
  | scheduled hstate hstopping hmanual hpid hnext =>
    rw [hgone]
    exact scheduleRestart (by exact hpid) (by exact hlegacy) (by exact hmanual) a

/-- A start is due only for a server that is not stopped. -/
theorem due (h : Sound http c) {manual : Bool} (hdue : c.Due manual) :
    c.flags.manualStop = false := by
  rcases hdue with ⟨-, hmanual⟩ | hrestarting | ⟨-, hmanual, -⟩
  · exact hmanual
  · exact Bool.eq_false_iff.mpr fun hstop => h.held hstop hrestarting
  · exact hmanual

theorem onExit (hpid : c.pid = 0) (hlegacy : http = true → c.flags.legacyNext = false)
    (hheld : c.flags.manualStop = true → c.state ≠ .restarting) (a : FailAnswer) :
    Sound http (c.onExit a) := by
  have hexit := c.onExit_spec a
  generalize c.onExit a = d at hexit
  cases hexit with
  | halted => exact of_gone hpid hlegacy fun _ => State.noConfusion
  | still => exact of_gone hpid hlegacy fun _ => State.noConfusion
  | legacy _ _ hmanual =>
    exact of_gone hpid hlegacy fun htrue => absurd (hmanual.symm.trans htrue) Bool.noConfusion
  | manual _ _ hmanual =>
    exact of_gone hpid hlegacy fun htrue => absurd (hmanual.symm.trans htrue) Bool.noConfusion
  | scheduled _ _ hmanual =>
    exact scheduleRestart (by exact hpid) (by exact hlegacy) (by exact hmanual) a
  | clean => exact of_gone hpid hlegacy fun _ => State.noConfusion
  | failed => exact childFailed (of_gone hpid hlegacy hheld).mayFail _ a

theorem move (h : Sound http c) (hmove : Move http c d) : Sound http d := by
  cases hmove with
  | steady hsteady => exact h.steady hsteady
  | fail why a => exact childFailed h.mayFail why a
  | timeout hstdio i k hcall hkind hstate a =>
    have hfail : MayFail http ((c.release i).withFlags ({ · with legacyNext := true })) := by
      refine ⟨?_, h.latched, h.mayFail.free, h.held, h.recycled⟩
      intro htrue
      exact absurd (hstdio.symm.trans htrue) Bool.noConfusion
    exact childFailed hfail _ a
  | hangUp why a =>
    refine childFailed ?_ why a
    unfold dropStdout
    split_ifs <;> exact ⟨h.transfers, h.latched, h.mayFail.free, h.held, h.recycled⟩
  | wait now =>
    obtain ⟨t, b, hwait⟩ := c.advanceShutdown_eq now
    rw [hwait]
    refine ⟨h.transfers, h.latched, ?_, h.held, h.recycled⟩
    intro hpid hstopping
    obtain ⟨hlive, hfail, hnext, hheld, hagain, hfd⟩ := h.working hpid hstopping
    exact ⟨hlive, hfail, hnext, hheld, hagain, hfd⟩
  | exit hpid r killed a =>
    have htorn : ((c.collect r).torn http killed).pid = 0 ∧
        ((c.collect r).torn http killed).flags.legacyNext = c.flags.legacyNext ∧
        ((c.collect r).torn http killed).flags.manualStop = c.flags.manualStop ∧
        ((c.collect r).torn http killed).state = c.state := by
      unfold torn
      rw [teardown_eq]
      split_ifs <;> cases r <;> exact ⟨rfl, rfl, rfl, rfl⟩
    obtain ⟨hgone, hlegacy, hmanual, hstate⟩ := htorn
    refine onExit hgone ?_ ?_ a
    · rw [hlegacy]
      exact fun hhttp => (h.transfers hhttp).2
    · rw [hmanual, hstate]
      exact h.held
  | retry hpid killed =>
    unfold torn
    rw [teardown_eq]
    split_ifs <;> exact of_gone hpid (fun hhttp => (h.transfers hhttp).2) h.held
  | fallen may manual hdue hfallen a =>
    exact scheduleRestart hfallen.pid (fun _ => hfallen.legacyNext)
      (hfallen.manualStop.trans (h.due hdue)) a
  | begun may manual hdue hbegun =>
    have hstate := hbegun.state
    refine ⟨fun hhttp => ⟨hbegun.pid hhttp, hbegun.legacyNext⟩, ?_, ?_, ?_, ?_⟩
    · rw [hstate]
      rintro (hloop | hdisabled)
      · cases hloop
      · cases hdisabled
    · intro hpos _
      refine ⟨by rw [hstate]; rfl, hbegun.processFailure, hbegun.legacyNext,
        hbegun.manualStop.trans (h.due hdue), hbegun.manualRestart, hbegun.stdoutFd ?_⟩
      exact Bool.eq_false_iff.mpr fun hhttp => hpos.ne' (hbegun.pid hhttp)
    · rw [hstate]
      exact fun _ => State.noConfusion
    · rw [hstate]
      exact State.noConfusion
  | resume hstate hpid =>
    exact of_gone hpid (fun hhttp => (h.transfers hhttp).2) Bool.noConfusion
  | stop hstate manual hhalt =>
    have hnext : http = true → d.flags.legacyNext = false := by
      intro hhttp
      rw [hhalt.legacyNext, (h.transfers hhttp).2, Bool.and_false]
    rcases hhalt.outcome with ⟨hgone, hstopped⟩ | ⟨hpid, hstopping, hst, hafter, hrestart⟩
    · refine of_gone ?_ hnext fun _ => by rw [hstopped]; exact State.noConfusion
      rcases hgone with hhttp | hpid
      · exact hhalt.pid.elim (fun hsame => hsame.trans (h.transfers hhttp).1) id
      · exact hpid
    · cases manual with
      | true =>
        have hstopped : d.state = .stopped := hst
        refine ⟨fun hhttp => ⟨hpid.trans (h.transfers hhttp).1, hnext hhttp⟩, ?_, ?_, ?_, ?_⟩
        · rw [hstopped]
          rintro (hloop | hdisabled)
          · cases hloop
          · cases hdisabled
        · intro _ hfalse
          exact absurd (hstopping.symm.trans hfalse) Bool.noConfusion
        · rw [hstopped]
          exact fun _ => State.noConfusion
        · rw [hstopped]
          exact State.noConfusion
      | false =>
        have hsame : d.state = c.state := hst
        have hmanual : d.flags.manualStop = c.flags.manualStop := hhalt.manualStop
        refine ⟨fun hhttp => ⟨hpid.trans (h.transfers hhttp).1, hnext hhttp⟩, ?_, ?_, ?_, ?_⟩
        · rw [hsame]
          exact fun hlatched => absurd hlatched hstate
        · intro _ hfalse
          exact absurd (hstopping.symm.trans hfalse) Bool.noConfusion
        · rw [hsame, hmanual]
          exact h.held
        · rw [hsame, hpid, hafter, hrestart]
          intro hrestarting hpos
          exact ⟨hstopping, (h.recycled hrestarting hpos).2⟩
  | requeue hstate hgone =>
    have hspec := c.requeue_spec
    generalize c.requeue = d at hspec
    refine of_gone ?_ (fun hhttp => hspec.legacyNext.trans (h.transfers hhttp).2) ?_
    · exact hspec.pid.trans (hgone.elim (fun hhttp => (h.transfers hhttp).1) id)
    · rw [hspec.manualStop]
      exact Bool.noConfusion
  | recycle hstate hpid elapsed =>
    have hspec := c.recycle_spec elapsed
    generalize c.recycle elapsed = d at hspec
    refine ⟨?_, ?_, ?_, ?_, ?_⟩
    · intro hhttp
      exact absurd (h.transfers hhttp).1 hpid.ne'
    · rw [hspec.state]
      rintro (hloop | hdisabled)
      · cases hloop
      · cases hdisabled
    · rw [hspec.stopping]
      exact fun _ => Bool.noConfusion
    · rw [hspec.manualStop]
      exact Bool.noConfusion
    · exact fun _ _ => ⟨hspec.stopping, hspec.restartAfterStop, hspec.manualRestart⟩
  | reset =>
    rcases c.reset_spec with hsame | hcleared
    · rw [hsame]
      exact h
    · refine of_gone hcleared.pid (fun _ => hcleared.legacyNext) ?_
      rw [hcleared.manualStop]
      exact Bool.noConfusion

end Sound

end Child
end AsmFlow.Mcp
