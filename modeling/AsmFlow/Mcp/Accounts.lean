import AsmFlow.Mcp.Sound

/-!
# The account of the restarts

A move leaves the budget as it is, asks it once, or is the reset of an operator. What the
account says of the back-off holds at any time.
-/

namespace AsmFlow.Mcp

open Library

/-! ## The budget -/

namespace RestartPolicy

variable {p : RestartPolicy} {b b' : Budget} {now stale t : ℕ}

/-- What is recorded when the budget has room. -/
structure Grants (p : RestartPolicy) (b : Budget) (now stale : ℕ) (b' : Budget) (t : ℕ) : Prop where
  history : b'.history = since (now - p.windowNs) b.history ++ [now]
  room : (since (now - p.windowNs) b.history).length < p.maxRestarts
  backoff : b'.backoffMs = p.nextBackoff (compact b (now - p.windowNs)).backoffMs stale
  deadline : t = deadline now b'.backoffMs

theorem schedule_restart (h : p.schedule b now stale = .restart b' t) :
    p.Grants b now stale b' t := by
  unfold schedule at h
  rw [p.cutoff_eq now] at h
  dsimp only at h
  split_ifs at h with _ _ _ _ hroom
  all_goals
    obtain ⟨rfl, rfl⟩ := Verdict.restart.inj h
    exact ⟨rfl, not_le.mp hroom, rfl, rfl⟩

/-- The budget is spent, with no more recorded than there was. -/
theorem schedule_crashLoop (hlength : b.history.length ≤ historyMax)
    (h : p.schedule b now stale = .crashLoop b') :
    b' = compact b (now - p.windowNs) ∧
      p.maxRestarts ≤ (since (now - p.windowNs) b.history).length := by
  have hmax := p.maxRestarts_le
  unfold schedule at h
  rw [p.cutoff_eq now] at h
  dsimp only at h
  split_ifs at h with _ hlong hzero hlarge hfull
  · exact absurd hlong (not_lt.mpr hlength)
  · exact ⟨(Verdict.crashLoop.inj h).symm, by omega⟩
  · unfold historyMax at hlarge
    omega
  · exact ⟨(Verdict.crashLoop.inj h).symm, hfull⟩

theorem compact_backoff_le (b : Budget) (cutoff : ℕ) : (compact b cutoff).backoffMs ≤ b.backoffMs := by
  unfold compact
  dsimp only
  split_ifs
  · exact Nat.zero_le _
  · exact le_rfl

/-- A back-off within its ceiling does not depend on the register. -/
theorem schedule_stale (h : b.backoffMs ≤ p.maxBackoffMs) (now stale stale' : ℕ) :
    p.schedule b now stale = p.schedule b now stale' := by
  have hmax := p.maxBackoff_le
  have hback (cutoff : ℕ) : p.nextBackoff (compact b cutoff).backoffMs stale =
      p.nextBackoff (compact b cutoff).backoffMs stale' := by
    have hle := compact_backoff_le b cutoff
    have hcarry : ¬2 ^ 64 ≤ (compact b cutoff).backoffMs + (compact b cutoff).backoffMs := by omega
    unfold nextBackoff
    rw [if_neg hcarry, if_neg hcarry]
  unfold schedule
  simp only [hback]

end RestartPolicy

/-! ## The moves -/

/-- A deed that is no matter of the budget. -/
def Deed.Idle : Deed → Prop
  | .scheduled _ | .exhausted _ | .reset => False
  | _ => True

namespace Child

/-- The budget is left as it is. -/
structure Leaves (c d : Child) : Prop where
  cfg : d.cfg = c.cfg
  budget : d.budget = c.budget
  deeds : ∃ ds, d.deeds = c.deeds ++ ds ∧ ∀ e ∈ ds, e.Idle
  clock : c.clock ≤ maxU64 → c.clock ≤ d.clock ∧ d.clock ≤ maxU64
  looping : d.state = .crashLoop ↔ c.state = .crashLoop

/-- What a move does to the budget, unless it is a reset. -/
inductive Accounts (c d : Child) : Prop
  | leaves (h : c.Leaves d)
  | schedules (b : Budget) (stale : ℕ) (e : Child) (h : c.Leaves e)
      (hbefore : c.state ≠ .crashLoop)
      (hclock : e.clock ≤ maxU64 → e.clock ≤ d.clock ∧ d.clock ≤ maxU64)
      (hverdict : c.cfg.restart.schedule c.budget d.clock stale = .restart b d.nextStart)
      (hcfg : d.cfg = c.cfg) (hbudget : d.budget = b) (hstate : d.state = .restarting)
      (hdeeds : d.deeds = e.deeds ++ [.scheduled ⟨d.clock, d.nextStart, b.backoffMs⟩])
  | exhausts (b : Budget) (stale : ℕ) (e : Child) (h : c.Leaves e)
      (hbefore : c.state ≠ .crashLoop)
      (hclock : e.clock ≤ maxU64 → e.clock ≤ d.clock ∧ d.clock ≤ maxU64)
      (hverdict : c.cfg.restart.schedule c.budget d.clock stale = .crashLoop b)
      (hcfg : d.cfg = c.cfg) (hbudget : d.budget = b) (hstate : d.state = .crashLoop)
      (hdeeds : d.deeds = e.deeds ++ [.exhausted d.clock])

namespace Leaves

variable {c d e : Child}

theorem of_eq (hcfg : d.cfg = c.cfg) (hbudget : d.budget = c.budget) (hdeeds : d.deeds = c.deeds)
    (hclock : c.clock ≤ maxU64 → c.clock ≤ d.clock ∧ d.clock ≤ maxU64)
    (hlooping : d.state = .crashLoop ↔ c.state = .crashLoop) : c.Leaves d := by
  refine ⟨hcfg, hbudget, ⟨[], ?_, ?_⟩, hclock, hlooping⟩
  · rw [hdeeds, List.append_nil]
  · simp

/-- The clock is not read, and the server does not loop. -/
theorem of_calm (hcfg : d.cfg = c.cfg) (hbudget : d.budget = c.budget) (hdeeds : d.deeds = c.deeds)
    (hclock : d.clock = c.clock) (hc : c.state ≠ .crashLoop) (hd : d.state ≠ .crashLoop) :
    c.Leaves d :=
  of_eq hcfg hbudget hdeeds (fun hle => ⟨hclock.ge, hclock.le.trans hle⟩) (iff_of_false hd hc)

/-- The clock is not read, and the state stays. -/
theorem of_same (hcfg : d.cfg = c.cfg) (hbudget : d.budget = c.budget) (hdeeds : d.deeds = c.deeds)
    (hclock : d.clock = c.clock) (hstate : d.state = c.state) : c.Leaves d :=
  of_eq hcfg hbudget hdeeds (fun hle => ⟨hclock.ge, hclock.le.trans hle⟩) (by rw [hstate])

theorem refl (c : Child) : c.Leaves c := of_same rfl rfl rfl rfl rfl

theorem note (h : c.Leaves d) {x : Deed} (hx : x.Idle) : c.Leaves (d.note x) := by
  obtain ⟨ds, hds, hidle⟩ := h.deeds
  refine ⟨h.cfg, h.budget, ⟨ds ++ [x], ?_, ?_⟩, h.clock, h.looping⟩
  · show d.deeds ++ [x] = c.deeds ++ (ds ++ [x])
    rw [hds, List.append_assoc]
  · intro y hy
    rcases List.mem_append.mp hy with hy | hy
    · exact hidle y hy
    · rw [List.mem_singleton.mp hy]
      exact hx

theorem trans (h : c.Leaves d) (h' : d.Leaves e) : c.Leaves e where
  cfg := h'.cfg.trans h.cfg
  budget := h'.budget.trans h.budget
  deeds := by
    obtain ⟨ds, hds, hidle⟩ := h.deeds
    obtain ⟨es, hes, hidle'⟩ := h'.deeds
    refine ⟨ds ++ es, by rw [hes, hds, List.append_assoc], ?_⟩
    intro y hy
    exact (List.mem_append.mp hy).elim (hidle y) (hidle' y)
  clock := by
    intro hle
    obtain ⟨hcd, hd⟩ := h.clock hle
    obtain ⟨hde, he⟩ := h'.clock hd
    exact ⟨hcd.trans hde, he⟩
  looping := h'.looping.trans h.looping

/-- What is left as it is before the budget is asked makes no difference to it. -/
theorem accounts (h : c.Leaves d) (h' : d.Accounts e) : c.Accounts e := by
  cases h' with
  | leaves hleaves => exact .leaves (h.trans hleaves)
  | schedules b stale x hx hbefore hclock hverdict hcfg hbudget hstate hdeeds =>
    rw [h.cfg, h.budget] at hverdict
    exact .schedules b stale x (h.trans hx) (mt h.looping.mpr hbefore) hclock hverdict
      (hcfg.trans h.cfg) hbudget hstate hdeeds
  | exhausts b stale x hx hbefore hclock hverdict hcfg hbudget hstate hdeeds =>
    rw [h.cfg, h.budget] at hverdict
    exact .exhausts b stale x (h.trans hx) (mt h.looping.mpr hbefore) hclock hverdict
      (hcfg.trans h.cfg) hbudget hstate hdeeds

theorem steady (h : c.Steady d) : c.Leaves d :=
  of_eq h.alike.cfg h.alike.budget h.alike.deeds h.clock (h.alike.state_iff rfl)

theorem torn (c : Child) (http killed : Bool) : c.Leaves (c.torn http killed) := by
  unfold Child.torn
  rw [teardown_eq]
  split_ifs <;> exact of_same rfl rfl rfl rfl rfl

theorem collect (c : Child) (a : ReapAnswer) : c.Leaves (c.collect a) := by
  cases a <;> exact of_same rfl rfl rfl rfl rfl

end Leaves

namespace Accounts

variable {c d : Child}

theorem scheduleRestart (hcalm : c.state ≠ .crashLoop) (a : FailAnswer) :
    c.Accounts (c.scheduleRestart a) := by
  have hspec := c.scheduleRestart_spec a
  have hclock := (c.keeps_read a.elapsed).clock
  generalize c.scheduleRestart a = d at hspec
  cases hspec with
  | never => exact .leaves (.refl c)
  | exhausted b hverdict =>
    exact .exhausts b a.stale c (.refl c) hcalm hclock hverdict rfl rfl rfl rfl
  | restart b t hverdict =>
    exact .schedules b a.stale c (.refl c) hcalm hclock hverdict rfl rfl rfl rfl

/-- A server that is to be started at once. -/
theorem leaves_startNow (hcalm : c.state ≠ .crashLoop) : c.Leaves c.startNow := by
  have hset : c.Leaves { c with nextStart := 0, state := .restarting } :=
    .of_calm rfl rfl rfl rfl hcalm State.noConfusion
  exact hset.note trivial

theorem childFailed (c : Child) (why : Status) (a : FailAnswer) :
    c.Accounts (c.childFailed why a) := by
  obtain ⟨b, hblame⟩ := c.blame_eq why
  obtain ⟨b', hb'⟩ := c.giveUp_eq why
  have hcalm : (c.giveUp why).state ≠ .crashLoop := by
    rw [hb']
    exact State.noConfusion
  have hgone (hstate : ¬(c.state = .crashLoop ∨ c.state = .disabled)) :
      c.Leaves (c.giveUp why) := by
    have hloop : c.state ≠ .crashLoop := fun h => hstate (Or.inl h)
    rw [hb'] at hcalm ⊢
    exact .of_calm rfl rfl rfl rfl hloop hcalm
  have hspec := c.childFailed_spec why a
  generalize c.childFailed why a = d at hspec
  cases hspec with
  | latched => exact .leaves (.refl c)
  | stopping =>
    rw [hblame]
    exact .leaves (.of_same rfl rfl rfl rfl rfl)
  | stopped hstate => exact .leaves (hgone hstate)
  | living hstate =>
    obtain ⟨t, o, hstop⟩ := (c.giveUp why).beginStop_eq a.elapsed
    have hclock := ((c.giveUp why).keeps_read a.elapsed).clock
    rw [hstop]
    exact .leaves ((hgone hstate).trans (.of_eq rfl rfl rfl hclock Iff.rfl))
  | legacy hstate => exact .leaves ((hgone hstate).trans (leaves_startNow hcalm))
  | scheduled hstate => exact (hgone hstate).accounts (scheduleRestart hcalm a)

theorem onExit (c : Child) (a : FailAnswer) (hcalm : c.state ≠ .crashLoop) :
    c.Accounts (c.onExit a) := by
  have hexit := c.onExit_spec a
  generalize c.onExit a = d at hexit
  have hunstop : c.Leaves c.unstop := .of_same rfl rfl rfl rfl rfl
  cases hexit with
  | halted => exact .leaves (.of_calm rfl rfl rfl rfl hcalm State.noConfusion)
  | still => exact .leaves (.of_calm rfl rfl rfl rfl hcalm State.noConfusion)
  | legacy => exact .leaves (hunstop.trans (leaves_startNow hcalm))
  | manual =>
    have hset : c.Leaves { c.unstop with nextStart := 0, state := .restarting } :=
      .of_calm rfl rfl rfl rfl hcalm State.noConfusion
    exact .leaves (hset.note trivial)
  | scheduled => exact hunstop.accounts (scheduleRestart (c := c.unstop) hcalm a)
  | clean => exact .leaves (.of_calm rfl rfl rfl rfl hcalm State.noConfusion)
  | failed => exact childFailed c _ a

/-- Every move keeps the account, or is a reset. -/
theorem move {http : Bool} (hsound : Sound http c) (h : Move http c d) :
    c.Accounts d ∨ c.Cleared d := by
  cases h with
  | steady hsteady => exact Or.inl (.leaves (.steady hsteady))
  | fail why a => exact Or.inl (childFailed c why a)
  | timeout hstdio i k hcall hkind hstate a =>
    have hset : c.Leaves ((c.release i).withFlags ({ · with legacyNext := true })) :=
      .of_same rfl rfl rfl rfl rfl
    exact Or.inl (hset.accounts (childFailed _ _ a))
  | hangUp why a =>
    have hdrop : c.Leaves (c.dropStdout why) := by
      unfold dropStdout
      split_ifs <;> exact .of_same rfl rfl rfl rfl rfl
    exact Or.inl (hdrop.accounts (childFailed _ why a))
  | wait now =>
    obtain ⟨t, b, hwait⟩ := c.advanceShutdown_eq now
    rw [hwait]
    exact Or.inl (.leaves (.of_same rfl rfl rfl rfl rfl))
  | exit hpid r killed a =>
    have htorn := (Leaves.collect c r).trans (.torn (c.collect r) http killed)
    have hcalm : c.state ≠ .crashLoop := fun hloop => hpid.ne' (hsound.latched (Or.inl hloop))
    exact Or.inl (htorn.accounts (onExit _ a (mt htorn.looping.mp hcalm)))
  | retry hpid killed => exact Or.inl (.leaves (.torn c http killed))
  | fallen may manual hdue hfallen a =>
    have hcalm : ∀ {e : Child}, e.state = .failed → e.state ≠ .crashLoop := by
      intro e he
      rw [he]
      exact State.noConfusion
    have hleaves : c.Leaves _ := ⟨hfallen.cfg, hfallen.budget, ⟨_, hfallen.deeds, by simp [Deed.Idle]⟩,
      hfallen.clock, iff_of_false (hcalm hfallen.state) may.notLooping⟩
    exact Or.inl (hleaves.accounts (scheduleRestart (hcalm hfallen.state) a))
  | begun may manual hdue hbegun =>
    refine Or.inl (.leaves ⟨hbegun.cfg, hbegun.budget, ⟨_, hbegun.deeds, by simp [Deed.Idle]⟩,
      hbegun.clock, iff_of_false ?_ may.notLooping⟩)
    rw [hbegun.state]
    exact State.noConfusion
  | resume =>
    have hset : c.Leaves (c.withFlags ({ · with manualStop := false })) :=
      .of_same rfl rfl rfl rfl rfl
    exact Or.inl (.leaves (hset.note trivial))
  | stop hstate manual hhalt =>
    have hbefore : c.state ≠ .crashLoop := fun h => hstate (Or.inl h)
    refine Or.inl (.leaves ⟨hhalt.cfg, hhalt.budget, ⟨_, hhalt.deeds, ?_⟩, hhalt.clock,
      iff_of_false ?_ hbefore⟩)
    · cases manual <;> simp [Deed.Idle]
    · rcases hhalt.outcome with ⟨-, hstopped⟩ | ⟨-, -, hst, -, -⟩
      · rw [hstopped]
        exact State.noConfusion
      · rw [hst]
        cases manual with
        | false => exact hbefore
        | true => exact State.noConfusion
  | requeue hstate hgone =>
    have hspec := c.requeue_spec
    generalize c.requeue = d at hspec
    refine Or.inl (.leaves ⟨hspec.cfg, hspec.budget, ⟨[.resumed, .restarted], ?_, ?_⟩,
      fun hle => ⟨hspec.clock.ge, hspec.clock.le.trans hle⟩, iff_of_false ?_ ?_⟩)
    · rw [hspec.deeds, List.append_assoc]
      rfl
    · simp [Deed.Idle]
    · rw [hspec.state]
      exact State.noConfusion
    · exact fun h => hstate (Or.inl h)
  | recycle hstate hpid elapsed =>
    have hspec := c.recycle_spec elapsed
    generalize c.recycle elapsed = d at hspec
    refine Or.inl (.leaves ⟨hspec.cfg, hspec.budget, ⟨_, hspec.deeds, by simp [Deed.Idle]⟩,
      hspec.clock, iff_of_false ?_ ?_⟩)
    · rw [hspec.state]
      exact State.noConfusion
    · exact fun h => hstate (Or.inl h)
  | reset =>
    rcases c.reset_spec with hsame | hcleared
    · rw [hsame]
      exact Or.inl (.leaves (.refl c))
    · exact Or.inr hcleared

end Accounts

/-- The back-off is within its ceiling, and the history fits. -/
structure Paced (c : Child) : Prop where
  backoff : c.budget.backoffMs ≤ c.cfg.restart.maxBackoffMs
  history : c.budget.history.length ≤ c.cfg.restart.maxRestarts

namespace Paced

variable {c d : Child}

theorem init (cfg : ServerConfig) : Paced (Child.init cfg) := ⟨Nat.zero_le _, Nat.zero_le _⟩

theorem history_le (h : c.Paced) : c.budget.history.length ≤ historyMax :=
  h.history.trans c.cfg.restart.maxRestarts_le

theorem accounts (h : c.Paced) (hd : c.Accounts d) : d.Paced := by
  cases hd with
  | leaves hleaves =>
    constructor
    · rw [hleaves.budget, hleaves.cfg]
      exact h.backoff
    · rw [hleaves.budget, hleaves.cfg]
      exact h.history
  | schedules b stale e _ _ _ hverdict hcfg hbudget =>
    have hgrants := RestartPolicy.schedule_restart hverdict
    rw [← hbudget] at hgrants
    constructor
    · rw [hcfg, hgrants.backoff]
      exact (c.cfg.restart.nextBackoff_of_le
        ((RestartPolicy.compact_backoff_le _ _).trans h.backoff) stale).1
    · rw [hcfg, hgrants.history, List.length_append]
      exact hgrants.room
  | exhausts b stale e _ _ _ hverdict hcfg hbudget =>
    obtain ⟨hsame, -⟩ := RestartPolicy.schedule_crashLoop h.history_le hverdict
    rw [← hbudget] at hsame
    constructor
    · rw [hcfg, hsame]
      exact (RestartPolicy.compact_backoff_le _ _).trans h.backoff
    · rw [hcfg, hsame]
      exact (List.length_filter_le _ _).trans h.history

theorem move {http : Bool} (hsound : Sound http c) (h : c.Paced) (hmove : Move http c d) :
    d.Paced := by
  rcases Accounts.move hsound hmove with haccounts | hcleared
  · exact h.accounts haccounts
  · constructor
    · rw [hcleared.budget]
      exact Nat.zero_le _
    · rw [hcleared.budget]
      exact Nat.zero_le _

end Paced

end Child

namespace Server

/-- What holds of the record in every state of every run. -/
theorem throughout_sound (J : JsonLibrary) (http : Bool) (cfg : ServerConfig) (es : List Event) :
    Throughout (step J)
      (fun s => s.http = http ∧ Child.Sound http s.child ∧ s.child.Paced) (init http cfg) es := by
  have hinit : Child.Sound http (init http cfg).child ∧ (init http cfg).child.Paced :=
    ⟨.init cfg, .init cfg⟩
  refine throughout_of_move J (P := fun c => Child.Sound http c ∧ c.Paced) ?_ ⟨rfl, hinit⟩ es
  rintro c d ⟨hsound, hpaced⟩ hmove
  exact ⟨hsound.move hmove, hpaced.move hsound hmove⟩

end Server
end AsmFlow.Mcp
