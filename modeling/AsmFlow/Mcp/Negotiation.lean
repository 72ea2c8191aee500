import AsmFlow.Library.Logs
import AsmFlow.Mcp.ExitOrder

/-!
# Starts for the legacy protocol

A discovery that times out asks for a fresh process, outside the budget. Such a start is for
the legacy protocol, so that nothing is discovered in it, and none follows it but a start of
the budget or of an operator.
-/

namespace AsmFlow.Mcp

open Library

/-- Why a server is started. -/
inductive Reason
  /-- It never was before. -/
  | first
  | budget
  | operator
  | negotiation
  deriving DecidableEq, Repr

/-- A start: why, and whether it is for the legacy protocol. -/
structure Start where
  reason : Reason
  legacy : Bool
  deriving DecidableEq, Repr

/-- What a restart is due to, behind one more deed. -/
def Reason.after (due : Reason) : Deed → Reason
  | .scheduled _ => .budget
  | .granted => .negotiation
  | .restarted | .reset => .operator
  | _ => due

/-- What a restart is due to. -/
def Reason.due (ds : List Deed) : Reason := ds.foldl Reason.after .first

/-- The start that a deed is, with what a restart is due to. -/
def Deed.start (due : Reason) : Deed → Option Start
  | .spawned state _ _ legacy manual =>
    some ⟨if manual then .operator else if state = .restarting then due else .first, legacy⟩
  | _ => none

/-- The starts among the deeds. -/
def startsFrom (due : Reason) : List Deed → List Start
  | [] => []
  | d :: ds => (d.start due).toList ++ startsFrom (due.after d) ds

/-- The starts of a server. -/
def Child.startList (c : Child) : List Start := startsFrom .first c.deeds

theorem due_concat (ds : List Deed) (d : Deed) :
    Reason.due (ds ++ [d]) = (Reason.due ds).after d := by
  unfold Reason.due
  rw [List.foldl_append]
  rfl

theorem startsFrom_concat (due : Reason) (ds : List Deed) (d : Deed) :
    startsFrom due (ds ++ [d]) =
      startsFrom due ds ++ (d.start (ds.foldl Reason.after due)).toList := by
  induction ds generalizing due with
  | nil => simp [startsFrom]
  | cons x ds ih =>
    simp only [List.cons_append, startsFrom, List.foldl_cons, List.append_assoc]
    rw [ih]

/-- A start for the negotiation follows one that was not for the legacy protocol, and nothing
is the first behind one. -/
structure Fair (pre : List Start) (x : Start) : Prop where
  legacy : x.reason = .negotiation → x.legacy = true
  follows : x.reason = .negotiation → ∃ y, pre.getLast? = some y ∧ y.legacy = false
  first : x.reason = .first → ∀ y ∈ pre, y.reason ≠ .negotiation

/-- Behind a start that was not for the legacy protocol, and neither of the budget nor of an
operator, none was for the negotiation. -/
theorem Fair.calm {log seg : List Start} (h : Justified Fair (log ++ seg))
    (hseg : ∀ x ∈ seg, x.reason ≠ .budget ∧ x.reason ≠ .operator)
    (hlast : ∃ y, (log ++ seg).getLast? = some y ∧ y.legacy = false) :
    ∀ x ∈ seg, x.reason ≠ .negotiation := by
  rcases List.eq_nil_or_concat seg with rfl | ⟨seg, y, rfl⟩
  · simp
  · obtain ⟨z, hz, hlegacy⟩ := hlast
    rw [List.concat_eq_append] at h hseg hz ⊢
    rw [← List.append_assoc] at h hz
    rw [List.getLast?_concat] at hz
    obtain rfl := Option.some.inj hz
    obtain ⟨-, hfair⟩ := (justified_concat y).mp h
    have hnot : y.reason ≠ .negotiation := by
      intro hy
      rw [hfair.legacy hy] at hlegacy
      cases hlegacy
    have hfirst : y.reason = .first := by
      obtain ⟨hbudget, hoperator⟩ := hseg y (by simp)
      cases hreason : y.reason with
      | first => rfl
      | budget => exact absurd hreason hbudget
      | operator => exact absurd hreason hoperator
      | negotiation => exact absurd hreason hnot
    intro x hx
    rcases List.mem_append.mp hx with hx | hx
    · exact hfair.first hfirst x (List.mem_append_right _ hx)
    · rwa [List.mem_singleton.mp hx]

/-- Between two starts of the budget or of an operator there is one for the negotiation at
most. -/
theorem Fair.countP_le {pre seg post : List Start} (h : Justified Fair (pre ++ seg ++ post))
    (hseg : ∀ x ∈ seg, x.reason ≠ .budget ∧ x.reason ≠ .operator) :
    seg.countP (·.reason = .negotiation) ≤ 1 := by
  induction seg using List.reverseRecOn generalizing post with
  | nil => exact Nat.zero_le _
  | append_singleton seg x ih =>
    have hbefore : ∀ y ∈ seg, y.reason ≠ .budget ∧ y.reason ≠ .operator :=
      fun y hy => hseg y (List.mem_append_left _ hy)
    have hfair : Fair (pre ++ seg) x := h (pre ++ seg) x post (by simp)
    have hjust : Justified Fair (pre ++ seg) := by
      intro a y b hab
      refine h a y (b ++ x :: post) ?_
      rw [← List.append_assoc, hab]
      simp
    have hih := @ih (x :: post) (by simpa using h) hbefore
    rw [List.countP_append, List.countP_singleton]
    by_cases hx : x.reason = .negotiation
    · have hcalm := Fair.calm hjust hbefore (hfair.follows hx)
      have hzero : seg.countP (·.reason = .negotiation) = 0 := by
        simpa [List.countP_eq_zero] using hcalm
      rw [hzero]
      simp [hx]
    · simpa [hx] using hih

namespace Child

/-- A discovery is asked for. -/
def Discovers (c : Child) : Prop := ∃ i k, c.calls i = some k ∧ k.kind = .discover

/-- What the starts say of a record. -/
structure Negotiates (c : Child) : Prop where
  due : c.state = .restarting → c.pid = 0 → Reason.due c.deeds ≠ .first ∧
    (Reason.due c.deeds = .negotiation → c.flags.legacyNext = true)
  pending : c.flags.legacyNext = true ∨ c.Discovers →
    0 < c.starts ∧ ∃ x, c.startList.getLast? = some x ∧ x.legacy = false
  started : ∀ x ∈ c.startList, x.reason = .negotiation → 0 < c.starts
  fair : Justified Fair c.startList

namespace Negotiates

variable {c d : Child}

theorem init (cfg : ServerConfig) : Negotiates (Child.init cfg) where
  due := by
    intro hstate
    have hinit : (Child.init cfg).state = if cfg.enabled then .stopped else .disabled := rfl
    rw [hinit] at hstate
    split_ifs at hstate
  pending := by
    rintro (hlegacy | ⟨i, k, hk, -⟩)
    · cases hlegacy
    · cases hk
  started := by
    intro x hx
    cases hx
  fair := justified_nil

/-- A deed that is no start. -/
def Idle (x : Deed) : Prop := ∀ due, x.start due = none

theorem startList_append {ds : List Deed} (h : d.deeds = c.deeds ++ ds) (hds : ∀ x ∈ ds, Idle x) :
    d.startList = c.startList := by
  unfold startList
  rw [h]
  clear h
  induction ds using List.reverseRecOn with
  | nil => rw [List.append_nil]
  | append_singleton ds x ih =>
    rw [← List.append_assoc, startsFrom_concat, hds x (by simp),
      ih fun y hy => hds y (List.mem_append_left _ hy)]
    exact List.append_nil _

/-- Nothing is started. -/
theorem follow (h : c.Negotiates) {l : List Deed} (hdeeds : d.deeds = c.deeds ++ l)
    (hds : ∀ x ∈ l, Idle x) (hstarts : c.starts ≤ d.starts)
    (hpending : d.flags.legacyNext = true ∨ d.Discovers → c.flags.legacyNext = true ∨ c.Discovers)
    (hdue : d.state = .restarting → d.pid = 0 → Reason.due d.deeds ≠ .first ∧
      (Reason.due d.deeds = .negotiation → d.flags.legacyNext = true)) : d.Negotiates := by
  have hlist := startList_append hdeeds hds
  refine ⟨hdue, ?_, ?_, ?_⟩
  · intro hd
    obtain ⟨hpos, hlast⟩ := h.pending (hpending hd)
    rw [hlist]
    exact ⟨hpos.trans_le hstarts, hlast⟩
  · rw [hlist]
    exact fun x hx hreason => (h.started x hx hreason).trans_le hstarts
  · rw [hlist]
    exact h.fair

/-- Nothing is done that is a matter of starts. -/
theorem calm (h : c.Negotiates) (hdeeds : d.deeds = c.deeds) (hstarts : c.starts ≤ d.starts)
    (hlegacy : d.flags.legacyNext = c.flags.legacyNext) (hdiscover : d.Discovers → c.Discovers)
    (hdue : d.state = .restarting → d.pid = 0 → c.state = .restarting ∧ c.pid = 0) :
    d.Negotiates := by
  refine h.follow (l := []) ?_ ?_ hstarts ?_ ?_
  · rw [hdeeds, List.append_nil]
  · simp
  · rw [hlegacy]
    exact Or.imp_right hdiscover
  · intro hstate hpid
    obtain ⟨hstate', hpid'⟩ := hdue hstate hpid
    rw [hdeeds, hlegacy]
    exact h.due hstate' hpid'

theorem not_discovers (hcalls : ∀ i, d.calls i = none) {p : Prop} : d.Discovers → p := by
  rintro ⟨i, k, hk, -⟩
  rw [hcalls i] at hk
  cases hk

/-- A start. -/
theorem begin (h : c.Negotiates) (may : c.MayStart) {manual : Bool} (hdue : c.Due manual)
    (hdeeds : d.deeds = c.deeds ++ [.spawned c.state c.pid c.pgid c.flags.legacyNext manual])
    (hstarts : c.starts ≤ d.starts) (hlegacy : d.flags.legacyNext = false)
    (hstate : d.state ≠ .restarting)
    (hdiscover : d.Discovers → c.flags.legacyNext = false ∧ 0 < d.starts) : d.Negotiates := by
  let reason : Reason :=
    if manual then .operator
    else if c.state = .restarting then Reason.due c.deeds else .first
  have hlist : d.startList = c.startList ++ [⟨reason, c.flags.legacyNext⟩] := by
    unfold startList
    rw [hdeeds, startsFrom_concat]
    rfl
  -- Only a restart that is due to the negotiation is for it.
  have hnext : reason = .negotiation → c.flags.legacyNext = true := by
    intro hreason
    dsimp only [reason] at hreason
    split_ifs at hreason with hmanual hrestarting
    exact (h.due hrestarting may.pid).2 hreason
  have hfirst : reason = .first → c.starts = 0 := by
    intro hreason
    dsimp only [reason] at hreason
    split_ifs at hreason with hmanual hrestarting
    · exact absurd hreason (h.due hrestarting may.pid).1
    · rcases hdue with ⟨htrue, -⟩ | htrue | ⟨-, -, hzero⟩
      · exact absurd htrue hmanual
      · exact absurd htrue hrestarting
      · exact hzero
  refine ⟨fun hd => absurd hd hstate, ?_, ?_, ?_⟩
  · rintro (hd | hd)
    · exact absurd (hlegacy.symm.trans hd) Bool.noConfusion
    · obtain ⟨hnot, hpos⟩ := hdiscover hd
      rw [hlist, List.getLast?_concat]
      exact ⟨hpos, _, rfl, hnot⟩
  · intro x hx hreason
    rw [hlist] at hx
    rcases List.mem_append.mp hx with hx | hx
    · exact (h.started x hx hreason).trans_le hstarts
    · rw [List.mem_singleton.mp hx] at hreason
      exact (h.pending (Or.inl (hnext hreason))).1.trans_le hstarts
  · rw [hlist, justified_concat]
    refine ⟨h.fair, hnext, fun hreason => (h.pending (Or.inl (hnext hreason))).2, ?_⟩
    intro hreason y hy hnegotiation
    have hpos := h.started y hy hnegotiation
    have hzero := hfirst hreason
    omega

/-! ## The moves -/

/-- A restart that is noted as due. -/
theorem recur (h : c.Negotiates) {x : Deed} (hx : Idle x) (hdeeds : d.deeds = c.deeds ++ [x])
    (hstarts : d.starts = c.starts) (hlegacy : d.flags.legacyNext = c.flags.legacyNext)
    (hdiscover : d.Discovers → c.Discovers)
    (hdue : ∀ due : Reason, due.after x ≠ .first ∧
      (due.after x = .negotiation → c.flags.legacyNext = true)) : d.Negotiates := by
  refine h.follow hdeeds (by simpa using hx) hstarts.ge ?_ ?_
  · rw [hlegacy]
    exact Or.imp_right hdiscover
  · intro _ _
    rw [hdeeds, due_concat, hlegacy]
    exact hdue _

theorem scheduleRestart (h : c.Negotiates) (a : FailAnswer) : (c.scheduleRestart a).Negotiates := by
  have hspec := c.scheduleRestart_spec a
  generalize c.scheduleRestart a = d at hspec
  cases hspec with
  | never => exact h
  | exhausted b =>
    refine h.follow (l := [.exhausted (c.read a.elapsed).clock]) rfl ?_ le_rfl id ?_
    · simp [Idle, Deed.start]
    · intro hstate
      cases hstate
  | restart b t =>
    refine h.recur (x := .scheduled ⟨(c.read a.elapsed).clock, t, b.backoffMs⟩) (fun _ => rfl) rfl
      rfl rfl id ?_
    intro due
    exact ⟨Reason.noConfusion, Reason.noConfusion⟩

theorem startNow (h : c.Negotiates) (hlegacy : c.flags.legacyNext = true) :
    c.startNow.Negotiates := by
  refine h.recur (x := .granted) (fun _ => rfl) rfl rfl rfl id ?_
  intro due
  exact ⟨Reason.noConfusion, fun _ => hlegacy⟩

theorem restartNow (h : c.Negotiates) : c.restartNow.Negotiates := by
  refine h.recur (x := .restarted) (fun _ => rfl) rfl rfl rfl id ?_
  intro due
  exact ⟨Reason.noConfusion, Reason.noConfusion⟩

theorem childFailed (h : c.Negotiates) (why : Status) (a : FailAnswer) :
    (c.childFailed why a).Negotiates := by
  obtain ⟨b, hblame⟩ := c.blame_eq why
  obtain ⟨b', hgone⟩ := c.giveUp_eq why
  have hgiveUp : (c.giveUp why).Negotiates := by
    rw [hgone]
    exact h.calm rfl le_rfl rfl (not_discovers fun _ => rfl) State.noConfusion
  have hlegacy : (c.giveUp why).flags.legacyNext = c.flags.legacyNext := by
    rw [hgone]
    rfl
  have hspec := c.childFailed_spec why a
  generalize c.childFailed why a = d at hspec
  cases hspec with
  | latched => exact h
  | stopping =>
    rw [hblame]
    exact h.calm rfl le_rfl rfl id fun hstate hpid => ⟨hstate, hpid⟩
  | stopped => exact hgiveUp
  | living =>
    obtain ⟨t, o, hstop⟩ := (c.giveUp why).beginStop_eq a.elapsed
    rw [hstop]
    exact hgiveUp.calm rfl le_rfl rfl id fun hstate hpid => ⟨hstate, hpid⟩
  | legacy _ _ _ _ hnext => exact hgiveUp.startNow (hlegacy.trans hnext)
  | scheduled => exact hgiveUp.scheduleRestart a

/-- The record of a process that is collected, up to the settling of its end. -/
structure Torn (c x : Child) : Prop where
  deeds : x.deeds = c.deeds
  starts : x.starts = c.starts
  calls : ∀ i, x.calls i = none
  state : x.state = c.state
  legacyNext : x.flags.legacyNext = c.flags.legacyNext
  stopping : x.flags.stopping = c.flags.stopping
  manualRestart : x.flags.manualRestart = c.flags.manualRestart

theorem torn_spec (c : Child) (r : ReapAnswer) (http killed : Bool) :
    Torn c ((c.collect r).torn http killed) := by
  unfold torn
  rw [teardown_eq]
  split_ifs <;> cases r <;> exact ⟨rfl, rfl, fun _ => rfl, rfl, rfl, rfl, rfl⟩

/-- The end of a process. A manual restart is noted only then. -/
theorem exit {http : Bool} (h : c.Negotiates) (hsound : Sound http c) (hpid : 0 < c.pid)
    (r : ReapAnswer) (killed : Bool) (a : FailAnswer) :
    (((c.collect r).torn http killed).onExit a).Negotiates := by
  have hx := torn_spec c r http killed
  generalize (c.collect r).torn http killed = x at hx
  have hnone {p : Prop} : x.Discovers → p := not_discovers hx.calls
  have hcalm {y : Child} (hdeeds : y.deeds = x.deeds) (hstarts : y.starts = x.starts)
      (hlegacy : y.flags.legacyNext = x.flags.legacyNext) (hcalls : y.calls = x.calls)
      (hstate : y.state ≠ .restarting) : y.Negotiates :=
    h.calm (hdeeds.trans hx.deeds) (hstarts.trans hx.starts).ge (hlegacy.trans hx.legacyNext)
      (not_discovers fun i => by rw [hcalls]; exact hx.calls i) fun hd => absurd hd hstate
  have hagain : c.state = .restarting → x.flags.stopping = true ∧ x.flags.manualRestart = true := by
    intro hrestarting
    obtain ⟨hstopping, -, hmanual⟩ := hsound.recycled hrestarting hpid
    exact ⟨hx.stopping.trans hstopping, hx.manualRestart.trans hmanual⟩
  have hexit := x.onExit_spec a
  generalize x.onExit a = y at hexit
  cases hexit with
  | halted => exact hcalm rfl rfl rfl rfl State.noConfusion
  | still => exact hcalm rfl rfl rfl rfl State.noConfusion
  | legacy _ _ _ hnext =>
    refine h.recur (x := .granted) (fun _ => rfl) ?_ hx.starts hx.legacyNext hnone ?_
    · show x.deeds ++ [Deed.granted] = c.deeds ++ [.granted]
      rw [hx.deeds]
    · intro due
      exact ⟨Reason.noConfusion, fun _ => hx.legacyNext.symm.trans hnext⟩
  | manual =>
    refine h.recur (x := .restarted) (fun _ => rfl) ?_ hx.starts hx.legacyNext hnone ?_
    · show x.deeds ++ [Deed.restarted] = c.deeds ++ [.restarted]
      rw [hx.deeds]
    · intro due
      exact ⟨Reason.noConfusion, Reason.noConfusion⟩
  | scheduled _ _ _ _ hfalse =>
    refine (hcalm (y := x.unstop) rfl rfl rfl rfl ?_).scheduleRestart a
    intro hrestarting
    have htrue := (hagain (hx.state.symm.trans hrestarting)).2
    exact absurd (htrue.symm.trans hfalse) Bool.noConfusion
  | clean => exact hcalm rfl rfl rfl rfl State.noConfusion
  | failed hfalse =>
    refine (hcalm (y := x) rfl rfl rfl rfl ?_).childFailed _ a
    intro hrestarting
    have htrue := (hagain (hx.state.symm.trans hrestarting)).1
    exact absurd (htrue.symm.trans hfalse) Bool.noConfusion

theorem steady (h : c.Negotiates) (hsteady : c.Steady d) : d.Negotiates := by
  have halike := hsteady.alike
  refine h.calm halike.deeds halike.starts.ge (halike.flag Flags.legacyNext fun _ => rfl) ?_ ?_
  · rintro ⟨i, k, hk, hkind⟩
    obtain ⟨k', hk', hsame⟩ := hsteady.discover i k hk hkind
    exact ⟨i, k', hk', hsame.trans hkind⟩
  · intro hstate hpid
    exact ⟨(halike.state_iff rfl).mp hstate, halike.pid.symm.trans hpid⟩

theorem move {http : Bool} (hsound : Sound http c) (h : c.Negotiates) (hmove : Move http c d) :
    d.Negotiates := by
  cases hmove with
  | steady hsteady => exact h.steady hsteady
  | fail why a => exact h.childFailed why a
  | timeout _ i k hcall hkind hstate a =>
    -- The discovery that timed out is of a start that was not for the legacy protocol.
    refine childFailed ?_ _ a
    refine h.follow (l := []) (List.append_nil _).symm (by simp) le_rfl ?_ ?_
    · exact fun _ => Or.inr ⟨i, k, hcall, hkind⟩
    · intro hrestarting
      exact absurd (hstate.symm.trans hrestarting) State.noConfusion
  | hangUp why a =>
    refine childFailed ?_ why a
    unfold dropStdout
    split_ifs <;> exact h.calm rfl le_rfl rfl id fun hstate hpid => ⟨hstate, hpid⟩
  | wait now =>
    obtain ⟨t, b, hwait⟩ := c.advanceShutdown_eq now
    rw [hwait]
    exact h.calm rfl le_rfl rfl id fun hstate hpid => ⟨hstate, hpid⟩
  | exit hpid r killed a => exact h.exit hsound hpid r killed a
  | retry hpid killed =>
    unfold torn
    rw [teardown_eq]
    split_ifs <;>
      exact h.calm rfl le_rfl rfl (not_discovers fun _ => rfl) fun hstate hgone => ⟨hstate, hgone⟩
  | @fallen e may manual hdue hfallen a =>
    have hstate : e.state ≠ .restarting := by
      rw [hfallen.state]
      exact State.noConfusion
    exact (h.begin may hdue hfallen.deeds hfallen.starts hfallen.legacyNext hstate
      (not_discovers hfallen.calls)).scheduleRestart a
  | begun may manual hdue hbegun =>
    have hstate : d.state ≠ .restarting := by
      rw [hbegun.state]
      exact State.noConfusion
    refine h.begin may hdue hbegun.deeds (by rw [hbegun.starts]; exact Nat.le_succ _)
      hbegun.legacyNext hstate ?_
    rintro ⟨i, k, hk, hkind⟩
    refine ⟨?_, by rw [hbegun.starts]; exact Nat.succ_pos _⟩
    cases http with
    | true => exact (hsound.transfers rfl).2
    | false =>
      exact Bool.eq_false_iff.mpr fun hlegacy => hbegun.discover rfl hlegacy i k hk hkind
  | resume _ hpid =>
    refine h.follow (l := [.resumed]) rfl (by simp [Idle, Deed.start]) le_rfl id ?_
    intro hstate hgone
    rw [show c.resume.deeds = c.deeds ++ [.resumed] from rfl, due_concat]
    exact h.due hstate hgone
  | stop _ manual hhalt =>
    refine h.follow hhalt.deeds ?_ hhalt.starts.ge ?_ ?_
    · cases manual <;> simp [Idle, Deed.start]
    · rintro (hlegacy | hdiscovers)
      · rw [hhalt.legacyNext, Bool.and_eq_true] at hlegacy
        exact Or.inl hlegacy.2
      · exact not_discovers hhalt.calls hdiscovers
    · intro hrestarting hgone
      rcases hhalt.outcome with ⟨-, hstopped⟩ | ⟨hpid, -, hst, -, -⟩
      · exact absurd (hstopped.symm.trans hrestarting) State.noConfusion
      · cases manual with
        | true => exact absurd (hst.symm.trans hrestarting) State.noConfusion
        | false =>
          have hdue := h.due (hst.symm.trans hrestarting) (hpid.symm.trans hgone)
          rw [hhalt.deeds, hhalt.legacyNext]
          simpa using hdue
  | requeue _ _ =>
    have hspec := c.requeue_spec
    generalize c.requeue = d at hspec
    refine h.follow (l := [.resumed, .restarted]) ?_ ?_ hspec.starts.ge ?_ ?_
    · rw [hspec.deeds, List.append_assoc]
      rfl
    · simp [Idle, Deed.start]
    · rw [hspec.legacyNext]
      exact Or.imp_right (not_discovers hspec.calls)
    · intro _ _
      rw [hspec.deeds, due_concat]
      exact ⟨Reason.noConfusion, Reason.noConfusion⟩
  | recycle _ hpid elapsed =>
    have hspec := c.recycle_spec elapsed
    generalize c.recycle elapsed = d at hspec
    refine h.follow hspec.deeds (by simp [Idle, Deed.start]) hspec.starts.ge ?_ ?_
    · rw [hspec.legacyNext]
      exact Or.imp_right (not_discovers hspec.calls)
    · intro _ hgone
      exact absurd (hspec.pid.symm.trans hgone) hpid.ne'
  | reset =>
    rcases c.reset_spec with hsame | hcleared
    · rw [hsame]
      exact h
    · refine h.follow hcleared.deeds (by simp [Idle, Deed.start]) hcleared.starts.ge ?_ ?_
      · rintro (hlegacy | ⟨i, k, hk, hkind⟩)
        · exact absurd (hcleared.legacyNext.symm.trans hlegacy) Bool.noConfusion
        · rw [hcleared.calls] at hk
          exact Or.inr ⟨i, k, hk, hkind⟩
      · intro _ _
        rw [hcleared.deeds, due_concat]
        exact ⟨Reason.noConfusion, Reason.noConfusion⟩

end Negotiates
end Child

namespace Server

variable (J : JsonLibrary)

theorem throughout_negotiates (http : Bool) (cfg : ServerConfig) (es : List Event) :
    Throughout (step J)
      (fun s => s.http = http ∧ Child.Sound http s.child ∧ s.child.Negotiates)
      (init http cfg) es := by
  have hinit : Child.Sound http (init http cfg).child ∧ (init http cfg).child.Negotiates :=
    ⟨.init cfg, .init cfg⟩
  refine throughout_of_move J (P := fun c => Child.Sound http c ∧ c.Negotiates) ?_ ⟨rfl, hinit⟩ es
  rintro c d ⟨hsound, hnegotiates⟩ hmove
  exact ⟨hsound.move hmove, hnegotiates.move hsound hmove⟩

/-- Behind a start: the flag stays, and nothing is started. -/
structure Follows (c d : Child) : Prop where
  legacyNext : d.flags.legacyNext = c.flags.legacyNext
  deeds : ∃ ds, d.deeds = c.deeds ++ ds ∧ ∀ x ∈ ds, Child.Negotiates.Idle x

namespace Follows

variable {c d e : Child}

theorem of_eq (hlegacy : d.flags.legacyNext = c.flags.legacyNext) (hdeeds : d.deeds = c.deeds) :
    Follows c d :=
  ⟨hlegacy, [], by rw [hdeeds, List.append_nil], by simp⟩

theorem trans (h : Follows c d) (h' : Follows d e) : Follows c e := by
  obtain ⟨ds, hds, hidle⟩ := h.deeds
  obtain ⟨es, hes, hidle'⟩ := h'.deeds
  refine ⟨h'.legacyNext.trans h.legacyNext, ds ++ es, by rw [hes, hds, List.append_assoc], ?_⟩
  intro x hx
  exact (List.mem_append.mp hx).elim (hidle x) (hidle' x)

theorem note (h : Follows c d) (hlegacy : e.flags.legacyNext = d.flags.legacyNext) {x : Deed}
    (hdeeds : e.deeds = d.deeds ++ [x]) (hx : Child.Negotiates.Idle x) : Follows c e :=
  h.trans ⟨hlegacy, [x], hdeeds, by simpa using hx⟩

theorem scheduleRestart (c : Child) (a : FailAnswer) : Follows c (c.scheduleRestart a) := by
  have hspec := c.scheduleRestart_spec a
  generalize c.scheduleRestart a = d at hspec
  cases hspec with
  | never => exact of_eq rfl rfl
  | exhausted => exact (of_eq rfl rfl : Follows c c).note rfl rfl fun _ => rfl
  | restart => exact (of_eq rfl rfl : Follows c c).note rfl rfl fun _ => rfl

theorem childFailed (c : Child) (why : Status) (a : FailAnswer) :
    Follows c (c.childFailed why a) := by
  obtain ⟨b, hblame⟩ := c.blame_eq why
  obtain ⟨b', hgone⟩ := c.giveUp_eq why
  have hgiveUp : Follows c (c.giveUp why) := by
    rw [hgone]
    exact of_eq rfl rfl
  have hspec := c.childFailed_spec why a
  generalize c.childFailed why a = d at hspec
  cases hspec with
  | latched => exact of_eq rfl rfl
  | stopping =>
    rw [hblame]
    exact of_eq rfl rfl
  | stopped => exact hgiveUp
  | living =>
    obtain ⟨t, o, hstop⟩ := (c.giveUp why).beginStop_eq a.elapsed
    rw [hstop]
    exact hgiveUp.trans (of_eq rfl rfl)
  | legacy => exact hgiveUp.note rfl rfl fun _ => rfl
  | scheduled => exact hgiveUp.trans (scheduleRestart _ a)

theorem request (s : Server) (kind : CallKind) (timeoutMs : ℕ) (a : ListAnswer) :
    Follows s.child (s.request kind timeoutMs a).1.child := by
  have halike := (s.request_spec kind timeoutMs a).quiet.alike
  exact of_eq (halike.flag Flags.legacyNext fun _ => rfl) halike.deeds

theorem startAborted {u : Server} (h : Follows c u.child) (a : StartAnswer) :
    Follows c (u.startAborted a).child := by
  unfold Server.startAborted Server.scheduleRestart
  rw [child_withChild, child_invalidate]
  have hgone : Follows u.child (u.child.setState .failed).invalidate := of_eq rfl rfl
  exact (h.trans hgone).trans (scheduleRestart _ a.fail)

end Follows

theorem follows_startHttp (s : Server) (a : StartAnswer) :
    Follows s.child (s.startHttp a).1.child := by
  unfold startHttp
  split_ifs
  · exact Follows.startAborted (u := { s with adapter := false }) (.of_eq rfl rfl) a
  · let u : Server :=
      { s with
        child := { s.child with state := .probing, starts := s.child.starts + 1 }
        adapter := true
        scope := .own }
    have hsent : Follows s.child (u.request .discover u.child.cfg.probeTimeoutMs a.probe).1.child :=
      (Follows.of_eq rfl rfl : Follows s.child u.child).trans (.request u _ _ a.probe)
    change Follows s.child (probed (fun s => ({ s with adapter := false } : Server).startAborted a)
      (u.request .discover u.child.cfg.probeTimeoutMs a.probe)).1.child
    generalize u.request .discover u.child.cfg.probeTimeoutMs a.probe = r at hsent
    obtain ⟨v, _ | i⟩ := r
    · exact hsent.startAborted (u := { v with adapter := false }) a
    · exact hsent

theorem follows_startStdio (s : Server) (legacy : Bool) (a : StartAnswer) :
    Follows s.child (s.startStdio legacy a).1.child := by
  unfold startStdio
  cases a.spawn with
  | error f =>
    exact (Follows.of_eq rfl rfl : Follows s.child (s.child.setState .failed)).trans
      (.scheduleRestart _ a.fail)
  | ok pid =>
    dsimp only
    cases a.unregistered with
    | some f =>
      unfold startUnregistered scheduleRestart
      dsimp only
      rw [child_withChild, child_teardown]
      refine Follows.trans ?_ (.scheduleRestart _ a.fail)
      unfold Child.torn
      rw [Child.teardown_eq]
      cases a.ended <;> split_ifs <;> exact .of_eq rfl rfl
    | none =>
      unfold startProbing probeWith
      let u := (s.withChild (s.child.spawn pid)).withChild ((s.child.spawn pid).setState .probing)
      let kind : CallKind := if legacy then .legacyInitialize else .discover
      have hsent : Follows s.child (u.request kind u.child.cfg.probeTimeoutMs a.probe).1.child :=
        (Follows.of_eq rfl rfl : Follows s.child u.child).trans (.request u _ _ a.probe)
      change Follows s.child (probed (·.childFailed Status.mcpProtocol a.fail)
        (u.request kind u.child.cfg.probeTimeoutMs a.probe)).1.child
      generalize u.request kind u.child.cfg.probeTimeoutMs a.probe = r at hsent
      obtain ⟨v, _ | i⟩ := r
      · show Follows s.child (v.childFailed Status.mcpProtocol a.fail).child
        rw [child_childFailed]
        exact hsent.trans (.childFailed v.child _ a.fail)
      · exact hsent

/-- A start that is not refused is one start, and takes back what asks for another. -/
theorem start_spec (s : Server) {manual : Bool} {a : StartAnswer}
    (h : s.refusesStart a.busy = false) :
    (s.start manual a).1.child.flags.legacyNext = false ∧
      (s.start manual a).1.child.startList = s.child.startList ++
        [⟨if manual then .operator
          else if s.child.state = .restarting then Reason.due s.child.deeds else .first,
          s.child.flags.legacyNext⟩] := by
  have hfollows : Follows (s.renew manual).child (s.start manual a).1.child := by
    unfold start
    rw [if_neg (by rw [h]; exact Bool.noConfusion)]
    split_ifs
    · exact follows_startHttp _ a
    · exact follows_startStdio _ _ a
  refine ⟨hfollows.legacyNext, ?_⟩
  obtain ⟨ds, hds, hidle⟩ := hfollows.deeds
  have hrenew : (s.renew manual).child.startList = _ :=
    startsFrom_concat .first s.child.deeds _
  rw [Child.Negotiates.startList_append hds hidle, hrenew]
  rfl

/-- Among the starts of a run there is one for the negotiation at most between two starts of
the budget or of an operator, it is for the legacy protocol, and a start that is not refused
takes back what asks for it. -/
theorem negotiation_starts (http : Bool) (cfg : ServerConfig) (es : List Event) :
    let s := run (step J) (init http cfg) es
    (∀ pre seg post, s.child.startList = pre ++ seg ++ post →
        (∀ x ∈ seg, x.reason ≠ .budget ∧ x.reason ≠ .operator) →
        seg.countP (·.reason = .negotiation) ≤ 1) ∧
      (∀ x ∈ s.child.startList, x.reason = .negotiation → x.legacy = true) ∧
      ∀ manual a, s.refusesStart a.busy = false →
        (s.start manual a).1.child.flags.legacyNext = false ∧
        (s.start manual a).1.child.startList =
          s.child.startList ++ [⟨if manual then .operator
            else if s.child.state = .restarting then Reason.due s.child.deeds else .first,
              s.child.flags.legacyNext⟩] := by
  obtain ⟨-, -, hnegotiates⟩ := (throughout_negotiates J http cfg es).last
  generalize run (step J) (init http cfg) es = s at hnegotiates
  refine ⟨?_, ?_, ?_⟩
  · intro pre seg post hlist hseg
    have hfair := hnegotiates.fair
    rw [hlist] at hfair
    exact Fair.countP_le hfair hseg
  · intro x hx
    obtain ⟨pre, post, hlist⟩ := List.append_of_mem hx
    exact (hnegotiates.fair pre x post hlist).legacy
  · intro manual a hstart
    exact s.start_spec hstart

/-- A server that does not answer its discovery, and is started again for the legacy
protocol. -/
def silentRun : List Event :=
  [.tick (plainSweep 0 .running), .tick (plainSweep (2000 * nsPerMs) .running),
    .tick (plainSweep (2001 * nsPerMs) (.collected 0))]

theorem negotiation_starts_silent :
    (run (step muteLibrary) (init false frailServer) silentRun).child.startList =
        [⟨.first, false⟩, ⟨.negotiation, true⟩] ∧
      [Start.mk .first false, Start.mk .negotiation true].countP (·.reason = .negotiation) ≤ 1 := by
  have hlist : (run (step muteLibrary) (init false frailServer) silentRun).child.startList =
      [⟨.first, false⟩, ⟨.negotiation, true⟩] := by decide
  refine ⟨hlist, ?_⟩
  exact (negotiation_starts muteLibrary false frailServer silentRun).1 []
    [⟨.first, false⟩, ⟨.negotiation, true⟩] [] hlist (by decide)

end Server
end AsmFlow.Mcp
