import AsmFlow.Mcp.Works

/-!
# Every event is a few moves

The commands of an operator, the handlers of the event loop and the sweep, taken apart into
the moves of the record.
-/

namespace AsmFlow.Mcp

namespace Server

variable (s : Server)

/-! ## Starting -/

@[simp] theorem http_teardown (killed : Bool) : (s.teardown killed).http = s.http := by
  unfold teardown
  split_ifs <;> exact http_dropView _

@[simp] theorem child_teardown (killed : Bool) :
    (s.teardown killed).child = s.child.torn s.http killed := by
  unfold teardown Child.torn
  split_ifs
  · exact child_invalidate s
  · exact child_dropView _

theorem torn_stdio (c : Child) {http : Bool} (h : http = false) (killed : Bool) :
    c.torn http killed = c.teardown killed := by
  unfold Child.torn
  rw [h]
  rfl

theorem mayStart_of_start {busy : Bool} (h : s.refusesStart busy = false) :
    s.child.MayStart ∧ (s.http = true → s.adapter = false) := by
  unfold refusesStart at h
  simp only [Bool.or_eq_false_iff, beq_eq_false_iff_ne, decide_eq_false_iff_not, not_lt,
    Nat.le_zero, Bool.and_eq_false_imp] at h
  obtain ⟨⟨⟨⟨hloop, hdisabled⟩, hadapter⟩, hpid⟩, hpgid⟩ := h
  exact ⟨⟨hloop, hdisabled, hpid, hpgid⟩, fun hhttp => (hadapter hhttp).1⟩

/-- A start that could not spawn. -/
theorem fallen_renew {c : Child} (may : c.MayStart) (manual : Bool) :
    c.Fallen manual ((c.renew manual).setState .failed) :=
  ⟨rfl, rfl, rfl, rfl, rfl, may.pid, rfl, le_rfl, fun _ => rfl, rfl, fun hle => ⟨le_rfl, hle⟩⟩

theorem fallen_unregistered {c : Child} (manual : Bool) (pid : ℕ+) (r : ReapAnswer)
    (killed : Bool) :
    c.Fallen manual (((((c.renew manual).spawn pid).setState .failed).collect r).teardown killed) := by
  rw [Child.teardown_eq]
  cases r <;>
    exact ⟨rfl, rfl, rfl, rfl, rfl, rfl, rfl, Nat.le_succ _, fun _ => rfl, rfl,
      fun hle => ⟨le_rfl, hle⟩⟩

/-- A server that has begun is given up. -/
theorem Begun.fallen {c d : Child} {manual http : Bool} (h : c.Begun manual http d)
    (hpid : d.pid = 0) : c.Fallen manual (d.setState .failed).invalidate where
  cfg := h.cfg
  state := rfl
  stopping := h.stopping
  legacyNext := h.legacyNext
  manualStop := h.manualStop
  pid := hpid
  budget := h.budget
  starts := by
    show c.starts ≤ d.starts
    rw [h.starts]
    exact Nat.le_succ _
  calls := fun _ => rfl
  deeds := h.deeds
  clock := h.clock

/-- A request for a server that has begun. -/
theorem begun_request {c : Child} {u : Server} {manual http : Bool} (kind : CallKind)
    (hbegun : c.Begun manual http u.child) (hcalls : ∀ i, u.child.calls i = none)
    (hkind : http = false → c.flags.legacyNext = true → kind ≠ .discover) (timeoutMs : ℕ)
    (a : ListAnswer) : c.Begun manual http (u.request kind timeoutMs a).1.child := by
  have hrequest := u.request_spec kind timeoutMs a
  have halike := hrequest.quiet.alike
  exact
    { cfg := halike.cfg.trans hbegun.cfg
      state := hrequest.quiet.state.trans hbegun.state
      stopping := (halike.flag Flags.stopping fun _ => rfl).trans hbegun.stopping
      processFailure :=
        (halike.flag Flags.processFailure fun _ => rfl).trans hbegun.processFailure
      legacyNext := (halike.flag Flags.legacyNext fun _ => rfl).trans hbegun.legacyNext
      manualStop := (halike.flag Flags.manualStop fun _ => rfl).trans hbegun.manualStop
      manualRestart := (halike.flag Flags.manualRestart fun _ => rfl).trans hbegun.manualRestart
      stdoutFd := fun hhttp => halike.stdoutFd.trans (hbegun.stdoutFd hhttp)
      pid := fun hhttp => halike.pid.trans (hbegun.pid hhttp)
      budget := halike.budget.trans hbegun.budget
      starts := halike.starts.trans hbegun.starts
      discover := by
        intro hhttp hlegacy i k hk hdiscover
        obtain ⟨k', hk', -⟩ := hrequest.onlyOld (p := (· = .discover)) (hkind hhttp hlegacy) i k hk
          hdiscover
        rw [hcalls i] at hk'
        cases hk'
      deeds := halike.deeds.trans hbegun.deeds
      clock := by
        intro hle
        obtain ⟨hcu, hu⟩ := hbegun.clock hle
        obtain ⟨hur, hr⟩ := hrequest.quiet.clock hu
        exact ⟨hcu.trans hur, hr⟩ }

theorem goes_startProbing {t : Server} (hhttp : s.http = false) (may : s.child.MayStart)
    {manual : Bool} (due : s.child.Due manual) (ht : t.http = s.http)
    (hchild : t.child = s.child.renew manual) (pid : ℕ+) (a : StartAnswer) :
    s.Goes ((t.withChild (t.child.spawn pid)).startProbing s.child.flags.legacyNext a).1 := by
  have hbegun : s.child.Begun manual s.http ((t.child.spawn pid).setState .probing) := by
    rw [hchild, hhttp]
    exact ⟨rfl, rfl, rfl, rfl, rfl, rfl, rfl, fun _ => rfl, Bool.noConfusion, rfl, rfl,
      fun _ _ _ _ hk => (Option.noConfusion rfl (heq_of_eq hk)), rfl, fun hle => ⟨le_rfl, hle⟩⟩
  have hcalls (i : Fin maxCalls) : ((t.child.spawn pid).setState .probing).calls i = none := by
    rw [hchild]
    rfl
  let u := (t.withChild (t.child.spawn pid)).withChild ((t.child.spawn pid).setState .probing)
  let kind : CallKind := if s.child.flags.legacyNext then .legacyInitialize else .discover
  have hkind : s.http = false → s.child.flags.legacyNext = true → kind ≠ .discover := by
    intro _ hlegacy
    simp [kind, hlegacy]
  have hsent := begun_request (u := u) kind hbegun hcalls hkind u.child.cfg.probeTimeoutMs a.probe
  have hgoes : s.Goes (u.request kind u.child.cfg.probeTimeoutMs a.probe).1 :=
    .of_move ((u.request_spec kind _ a.probe).quiet.http.trans ht) (.begun may manual due hsent)
  unfold startProbing probeWith
  change s.Goes (probed (·.childFailed Status.mcpProtocol a.fail)
    (u.request kind u.child.cfg.probeTimeoutMs a.probe)).1
  generalize u.request kind u.child.cfg.probeTimeoutMs a.probe = r at hgoes
  obtain ⟨v, _ | i⟩ := r
  · exact hgoes.trans (v.goes_childFailed _ a.fail)
  · exact hgoes

theorem goes_startStdio {t : Server} (hhttp : s.http = false) (may : s.child.MayStart)
    {manual : Bool} (due : s.child.Due manual) (ht : t.http = s.http)
    (hchild : t.child = s.child.renew manual) (a : StartAnswer) :
    s.Goes (t.startStdio s.child.flags.legacyNext a).1 := by
  unfold startStdio
  cases a.spawn with
  | error f =>
    refine .of_move ht ?_
    have hfallen : Child.Move s.http s.child _ :=
      .fallen may manual due (fallen_renew may manual) a.fail
    rw [← hchild] at hfallen
    exact hfallen
  | ok pid =>
    dsimp only
    cases a.unregistered with
    | some f =>
      dsimp only
      refine .of_move ?_ ?_
      · exact (http_teardown _ _).trans ht
      have hfallen : Child.Move s.http s.child _ := .fallen may manual due
        (fallen_unregistered manual pid (a.ended.elim .gone .collected) a.killed) a.fail
      unfold startUnregistered scheduleRestart
      dsimp only
      rw [child_withChild, child_teardown, torn_stdio _ (by exact ht.trans hhttp)]
      rw [← hchild] at hfallen
      exact hfallen
    | none =>
      exact s.goes_startProbing hhttp may due ht hchild pid a

theorem goes_startHttp {t : Server} (hhttp : s.http = true) (may : s.child.MayStart)
    {manual : Bool} (due : s.child.Due manual) (ht : t.http = s.http)
    (hchild : t.child = s.child.renew manual) (a : StartAnswer) : s.Goes (t.startHttp a).1 := by
  have habort {u : Server} (hu : u.http = s.http)
      (hfallen : s.child.Fallen manual (u.child.setState .failed).invalidate) :
      s.Goes (u.startAborted a) := by
    refine .of_move ((http_invalidate _).trans hu) ?_
    unfold startAborted scheduleRestart
    rw [child_withChild, child_invalidate]
    exact .fallen may manual due hfallen a.fail
  unfold startHttp
  by_cases hmade : a.made = false
  · rw [if_pos hmade]
    refine habort ht ?_
    show s.child.Fallen manual (t.child.setState .failed).invalidate
    rw [hchild]
    exact ⟨rfl, rfl, rfl, rfl, rfl, may.pid, rfl, le_rfl, fun _ => rfl, rfl, fun hle => ⟨le_rfl, hle⟩⟩
  rw [if_neg hmade]
  let u : Server :=
    { t with
      child := { t.child with state := .probing, starts := t.child.starts + 1 }
      adapter := true
      scope := .own }
  have hbegun : s.child.Begun manual s.http u.child := by
    show s.child.Begun manual s.http { t.child with state := .probing, starts := t.child.starts + 1 }
    rw [hchild, hhttp]
    exact ⟨rfl, rfl, rfl, rfl, rfl, rfl, rfl, Bool.noConfusion, fun _ => may.pid, rfl, rfl,
      Bool.noConfusion, rfl, fun hle => ⟨le_rfl, hle⟩⟩
  have hcalls (i : Fin maxCalls) : u.child.calls i = none := by
    show t.child.calls i = none
    rw [hchild]
    rfl
  have hsent := begun_request (u := u) .discover hbegun hcalls (by simp [hhttp])
    u.child.cfg.probeTimeoutMs a.probe
  have hsame := (u.request_spec .discover u.child.cfg.probeTimeoutMs a.probe).quiet.http.trans ht
  change s.Goes (probed (fun s => ({ s with adapter := false } : Server).startAborted a)
    (u.request .discover u.child.cfg.probeTimeoutMs a.probe)).1
  generalize u.request .discover u.child.cfg.probeTimeoutMs a.probe = r at hsent hsame
  obtain ⟨v, _ | i⟩ := r
  · exact habort (u := { v with adapter := false }) hsame (Begun.fallen hsent (hsent.pid hhttp))
  · exact .of_move hsame (.begun may manual due hsent)

theorem goes_start {manual : Bool} (due : s.child.Due manual) (a : StartAnswer) :
    s.Goes (s.start manual a).1 := by
  unfold start
  by_cases hrefused : s.refusesStart a.busy = true
  · rw [if_pos hrefused]
    exact .refl s
  rw [if_neg hrefused]
  obtain ⟨may, -⟩ := s.mayStart_of_start (Bool.eq_false_iff.mpr hrefused)
  by_cases hhttp : s.http = true
  · rw [if_pos hhttp]
    exact s.goes_startHttp (t := s.renew manual) hhttp may due rfl rfl a
  · rw [if_neg hhttp]
    exact s.goes_startStdio (t := s.renew manual) (Bool.eq_false_iff.mpr hhttp) may due rfl rfl a

/-! ## The commands of an operator -/

/-- A stop, up to the reaping. -/
structure Heeded (c : Child) (manual : Bool) (d : Child) : Prop where
  cfg : d.cfg = c.cfg
  state : d.state = if manual then .stopped else c.state
  stopping : d.flags.stopping = true
  restartAfterStop : d.flags.restartAfterStop = c.flags.restartAfterStop
  manualRestart : d.flags.manualRestart = c.flags.manualRestart
  legacyNext : d.flags.legacyNext = (!manual && c.flags.legacyNext)
  manualStop : d.flags.manualStop = (manual || c.flags.manualStop)
  pid : d.pid = c.pid
  budget : d.budget = c.budget
  starts : d.starts = c.starts
  calls : ∀ i, d.calls i = none
  deeds : d.deeds = c.deeds ++ if manual then [.stopped] else []
  clock : d.clock = c.clock

namespace Heeded

theorem heed (c : Child) (manual : Bool) : Heeded c manual (c.heedStop manual).invalidate := by
  cases manual with
  | false =>
    exact ⟨rfl, rfl, rfl, rfl, rfl, rfl, rfl, rfl, rfl, rfl, fun _ => rfl,
      (List.append_nil _).symm, rfl⟩
  | true => exact ⟨rfl, rfl, rfl, rfl, rfl, rfl, rfl, rfl, rfl, rfl, fun _ => rfl, rfl, rfl⟩

variable {c d : Child} {manual : Bool} (h : Heeded c manual d)

include h

theorem closeStdin : Heeded c manual d.closeStdin := by
  unfold Child.closeStdin
  split_ifs
  · exact h
  · exact ⟨h.cfg, h.state, h.stopping, h.restartAfterStop, h.manualRestart, h.legacyNext,
      h.manualStop, h.pid, h.budget, h.starts, h.calls, h.deeds, h.clock⟩

theorem clock_le : c.clock ≤ maxU64 → c.clock ≤ d.clock ∧ d.clock ≤ maxU64 :=
  fun hle => ⟨h.clock.ge, h.clock.le.trans hle⟩

theorem standStill : c.Halted manual true d.standStill :=
  ⟨h.cfg, h.legacyNext, h.manualStop, h.budget, h.starts, h.calls, h.deeds, h.clock_le, Or.inl h.pid,
    Or.inl ⟨Or.inl rfl, rfl⟩⟩

theorem gone {e : Child} (hcfg : e.cfg = d.cfg) (hflags : e.flags.legacyNext = d.flags.legacyNext ∧
    e.flags.manualStop = d.flags.manualStop) (hbudget : e.budget = d.budget)
    (hstarts : e.starts = d.starts) (hdeeds : e.deeds = d.deeds) (hclock : e.clock = d.clock)
    (hpid : e.pid = 0) (killed : Bool) :
    c.Halted manual false (e.teardown killed).standStill := by
  rw [Child.teardown_eq]
  exact ⟨hcfg.trans h.cfg, hflags.1.trans h.legacyNext, hflags.2.trans h.manualStop,
    hbudget.trans h.budget, hstarts.trans h.starts, fun _ => rfl, hdeeds.trans h.deeds,
    fun hle => ⟨(hclock.trans h.clock).ge, (hclock.trans h.clock).le.trans hle⟩, Or.inr hpid,
    Or.inl ⟨Or.inr hpid, rfl⟩⟩

theorem armGrace (elapsed : ℕ) : c.Halted manual false (d.armGrace elapsed) := by
  obtain ⟨t, ht⟩ := d.armGrace_eq elapsed
  rw [ht]
  refine ⟨h.cfg, h.legacyNext, h.manualStop, h.budget, h.starts, h.calls, h.deeds, ?_,
    Or.inl h.pid, Or.inr ⟨h.pid, h.stopping, h.state, h.restartAfterStop, h.manualRestart⟩⟩
  intro hle
  obtain ⟨hcd, hd⟩ := h.clock_le hle
  obtain ⟨hde, he⟩ := (d.keeps_read elapsed).clock hd
  exact ⟨hcd.trans hde, he⟩

end Heeded

/-- A process that is collected is gone, and one that is not is left. -/
theorem reap_spec (c : Child) (a : ReapAnswer) :
    (c.reap a).2 = true ∧ 0 < c.pid ∧ (c.reap a).1 = c.collect a ∨
      (c.reap a).2 = false ∧ (c.reap a).1 = c := by
  unfold Child.reap
  split_ifs with hpid
  · exact Or.inr ⟨rfl, rfl⟩
  · cases a with
    | running => exact Or.inr ⟨rfl, rfl⟩
    | failed => exact Or.inr ⟨rfl, rfl⟩
    | collected status => exact Or.inl ⟨rfl, Nat.pos_of_ne_zero hpid, rfl⟩
    | gone => exact Or.inl ⟨rfl, Nat.pos_of_ne_zero hpid, rfl⟩

theorem goes_stop (manual : Bool) (a : StopAnswer) : s.Goes (s.stop manual a).1 := by
  unfold stop
  by_cases hdisabled : s.child.state = .disabled
  · rw [if_pos hdisabled]
    exact .refl s
  rw [if_neg hdisabled]
  by_cases hloop : s.child.state = .crashLoop
  · rw [if_pos hloop]
    exact .refl s
  rw [if_neg hloop]
  have hstate : ¬(s.child.state = .crashLoop ∨ s.child.state = .disabled) :=
    not_or.mpr ⟨hloop, hdisabled⟩
  have hheed := Heeded.heed s.child manual
  let t := (s.withChild (s.child.heedStop manual)).invalidate
  have ht : t.http = s.http := http_invalidate _
  have hchild : t.child = (s.child.heedStop manual).invalidate := child_invalidate _
  have hhalt {u : Server} (hu : u.http = s.http) (h : s.child.Halted manual s.http u.child) :
      s.Goes u := .of_move hu (.stop hstate manual h)
  show s.Goes (if t.http then (t.withChild t.child.standStill, Status.ok) else _).1
  by_cases hhttp : t.http = true
  · rw [if_pos hhttp]
    refine hhalt ht ?_
    rw [child_withChild, hchild, ← ht, hhttp]
    exact hheed.standStill
  rw [if_neg hhttp]
  have hstdio : s.http = false := ht.symm.trans (Bool.eq_false_iff.mpr hhttp)
  have hclosed := hheed.closeStdin
  rw [← hchild] at hclosed
  have hgone {c : Child} (h : s.child.Halted manual false (c.teardown a.killed).standStill) :
      s.Goes (((t.withChild c).teardown a.killed).withChild
        ((t.withChild c).teardown a.killed).child.standStill) := by
    refine hhalt ((http_teardown _ _).trans ht) ?_
    rw [child_withChild, child_teardown, torn_stdio _ (by exact ht.trans hstdio), hstdio]
    exact h
  dsimp only
  rw [child_withChild]
  by_cases hpid : t.child.closeStdin.pid = 0
  · rw [if_pos hpid]
    exact hgone (hclosed.gone rfl ⟨rfl, rfl⟩ rfl rfl rfl rfl hpid a.killed)
  rw [if_neg hpid]
  rcases reap_spec t.child.closeStdin a.reap with ⟨htrue, -, hcollect⟩ | ⟨hfalse, hsame⟩
  · have hreap : t.child.closeStdin.reap a.reap = (t.child.closeStdin.collect a.reap, true) :=
      Prod.ext hcollect htrue
    rw [hreap]
    refine hgone (hclosed.gone (e := t.child.closeStdin.collect a.reap) ?_ ?_ ?_ ?_ ?_ ?_ ?_ a.killed)
    all_goals cases a.reap <;> first | rfl | exact ⟨rfl, rfl⟩
  · have hreap : t.child.closeStdin.reap a.reap = (t.child.closeStdin, false) :=
      Prod.ext hsame hfalse
    rw [hreap]
    refine hhalt ht ?_
    rw [hstdio]
    exact hclosed.armGrace a.elapsed

theorem goes_manualStart (a : StartAnswer) : s.Goes (s.manualStart a).1 := by
  unfold manualStart
  split_ifs with hloop hdisabled hadapter hpid
  · exact .refl s
  · exact .refl s
  · exact .refl s
  · exact .refl s
  · have hresume : s.Goes (s.withChild s.child.resume) :=
      .of_move rfl (.resume (not_or.mpr ⟨hloop, hdisabled⟩) (Nat.eq_zero_of_not_pos hpid))
    exact hresume.trans (goes_start _ (Or.inl ⟨rfl, rfl⟩) a)

theorem goes_manualRestart (elapsed : ℕ) : s.Goes (s.manualRestart elapsed).1 := by
  unfold manualRestart
  by_cases hloop : s.child.state = .crashLoop
  · rw [if_pos hloop]
    exact .refl s
  rw [if_neg hloop]
  by_cases hdisabled : s.child.state = .disabled
  · rw [if_pos hdisabled]
    exact .refl s
  rw [if_neg hdisabled]
  have hstate : ¬(s.child.state = .crashLoop ∨ s.child.state = .disabled) :=
    not_or.mpr ⟨hloop, hdisabled⟩
  dsimp only
  by_cases hgone : s.http = true ∨ s.child.pid = 0
  · rw [if_pos (by exact hgone)]
    refine .of_move (http_invalidate _) ?_
    rw [child_withChild, child_invalidate]
    exact .requeue hstate hgone
  · rw [if_neg (by exact hgone)]
    rw [not_or] at hgone
    refine .of_move (http_invalidate _) ?_
    rw [child_withChild, child_invalidate]
    exact .recycle hstate (Nat.pos_of_ne_zero hgone.2) elapsed

theorem goes_reset : s.Goes s.reset.1 := .of_move rfl .reset

theorem goes_callTool (encoded : Bool) (a : ListAnswer) : s.Goes (s.callTool encoded a).1 := by
  have hrequest := Works.request s .toolTest CallKind.noConfusion s.child.cfg.listTimeoutMs a
  unfold callTool
  split_ifs
  · exact .refl s
  generalize s.request .toolTest s.child.cfg.listTimeoutMs a = r at hrequest
  obtain ⟨t, _ | i⟩ := r <;> exact hrequest.goes

theorem goes_toolTest (known encoded : Bool) (a : ListAnswer) :
    s.Goes (s.toolTest known encoded a).1 := by
  unfold toolTest
  split_ifs
  · exact .refl s
  · exact .refl s
  · exact .refl s
  · exact .refl s
  cases s.child.findCall .toolTest with
  | none => exact s.goes_callTool encoded a
  | some found =>
    obtain ⟨i, k⟩ := found
    dsimp only
    split_ifs
    · exact .refl s
    · exact (s.goes_release i).trans (goes_callTool _ encoded a)

/-! ## The event loop -/

section Loop

variable (J : JsonLibrary) (m : Memory)

theorem goes_onStdout (r : ReadAnswer) (a : AdvanceAnswer) (f : FailAnswer) :
    s.Goes (s.onStdout J m r a f) := by
  have hread : s.Goes (s.withChild (s.child.readStdout J m r).1) :=
    .of_talks rfl (s.child.talks_readStdout J m r)
  unfold onStdout
  dsimp only
  split_ifs
  · refine hread.trans (.of_move (http_childFailed _ _ _) ?_)
    unfold hangUp
    rw [child_childFailed]
    exact .hangUp _ f
  · exact hread.trans (goes_advance _ J m a)

theorem goes_onStderr (r : Option Fault) (f : FailAnswer) : s.Goes (s.onStderr r f) := by
  have hdrop : s.Goes (s.withChild { s.child with stderrFd := false }) :=
    .of_steady rfl (.of_eq rfl rfl rfl)
  unfold onStderr
  cases r with
  | none => exact .refl s
  | some why =>
    dsimp only
    split_ifs
    · exact hdrop
    · exact hdrop.trans (goes_childFailed _ _ f)

theorem goes_hear (line : Bytes) : s.Goes (s.hear J m line) :=
  .of_talks rfl (s.child.talks_onMessage J m line)

theorem works_conclude (i : Fin maxCalls) (status : Option Status) :
    s.Works (s.conclude i status) := by
  unfold conclude
  cases hcall : s.child.calls i with
  | none => exact .refl s
  | some k => exact .of_talks (s.child.talks_setCall hcall rfl)

theorem goes_onTransfer (i : Fin maxCalls) (status : Option Status) (cancel : Option Transfer)
    (a : AdvanceAnswer) : s.Goes (s.onTransfer J m i status cancel a) := by
  have hconclude := (s.works_conclude i status).goes
  unfold onTransfer
  cases cancel with
  | none => exact hconclude.trans (goes_advance _ J m a)
  | some t => exact (hconclude.trans (goes_authorize _ t)).trans (goes_advance _ J m a)

theorem goes_onNotified (fault : Option Fault) (get : Transfer) (getFault : Option Fault)
    (lists : ListKind → ListAnswer) (now : ℕ) (f : FailAnswer) :
    s.Goes (s.onNotified fault get getFault lists now f) := by
  have hnotified : s.Goes { s with notifyPending := false } := .of_eq rfl rfl
  unfold onNotified
  split_ifs
  · exact .refl s
  dsimp only
  cases fault with
  | some why => exact hnotified.trans (goes_childFailed _ _ f)
  | none =>
    have hget := hnotified.trans (goes_authorize _ get)
    dsimp only
    cases getFault with
    | some why => exact hget.trans (goes_childFailed _ _ f)
    | none =>
      have hbegin := hget.trans (works_beginInventory _ lists now).goes
      dsimp only
      split_ifs
      · exact hbegin.trans (goes_childFailed _ _ f)
      · exact hbegin

/-! ## The sweep -/

theorem goes_expireHttp (now : ℕ) (i : Fin maxCalls) (a : CancelAnswer) :
    s.Goes (s.expireHttp now i a).1 := by
  unfold expireHttp
  cases hcall : s.child.calls i with
  | none => exact .refl s
  | some k =>
    dsimp only
    split_ifs
    · exact .refl s
    · have hcall' : (s.authorize a.transfer).child.calls i = some k := by
        rw [calls_authorize, hcall]
      exact (s.goes_authorize a.transfer).trans
        (.of_talks rfl (Child.talks_complete _ hcall' _ _ _ _))

theorem goes_sweepCalls (a : SweepAnswer) : s.Goes (s.sweepCalls a).1 := by
  unfold sweepCalls
  by_cases hhttp : s.http = false
  · rw [if_pos hhttp]
    exact .of_talks rfl (s.child.talks_sweepCalls a.now a.emit)
  rw [if_neg hhttp]
  clear hhttp
  generalize List.finRange maxCalls = is
  generalize (none : Option Status) = first
  induction is generalizing s first with
  | nil => exact .refl s
  | cons i is ih =>
    rw [List.foldl_cons]
    exact (s.goes_expireHttp a.now i (a.cancel i)).trans (ih _ _)

theorem goes_flush (a : SweepAnswer) : s.Goes (s.flush a) := by
  have hwrite : s.Goes (s.withChild (s.child.writeStdin a.write).1) :=
    .of_talks rfl (s.child.talks_writeStdin a.write)
  unfold flush
  split_ifs
  · exact .refl s
  · dsimp only
    split_ifs
    · exact hwrite.trans (goes_childFailed _ _ a.writeFail)
    · exact hwrite

theorem goes_attend (a : SweepAnswer) : s.Goes (s.attend J a) := by
  have hsweep := s.goes_sweepCalls a
  unfold attend
  generalize s.sweepCalls a = r at hsweep
  obtain ⟨t, _ | st⟩ := r
  · exact hsweep.trans (t.goes_advance J a.memory a.advance)
  · exact hsweep.trans (t.goes_childFailed st a.callFail)

theorem goes_keepFresh (a : SweepAnswer) : s.Goes (s.keepFresh a) := by
  unfold keepFresh
  split_ifs
  · have hexpire : s.Goes { s with expiresNs := 0 } := .of_eq rfl rfl
    exact hexpire.trans (works_refreshInventory _ a.lists a.listed).goes
  · exact .refl s

theorem goes_startDue (a : SweepAnswer) : s.Goes (s.startDue a) := by
  unfold startDue
  split_ifs with hrestarting hearly hfirst
  · exact .refl s
  · exact s.goes_start (Or.inr (Or.inl hrestarting)) a.start
  · exact s.goes_start (Or.inr (Or.inr hfirst)) a.start
  · exact .refl s

theorem goes_sweepRest (a : SweepAnswer) : s.Goes (s.sweepRest J a) :=
  (((s.goes_flush a).trans (goes_attend _ J a)).trans (goes_keepFresh _ a)).trans
    (goes_startDue _ a)

theorem goes_teardown (hpid : s.child.pid = 0) (killed : Bool) :
    s.Goes (s.teardown killed) := by
  refine .of_move (s.http_teardown killed) ?_
  rw [child_teardown]
  exact .retry hpid killed

theorem goes_sweepGroup (hpid : s.child.pid = 0) (a : SweepAnswer) :
    s.Goes (s.sweepGroup J a) := by
  unfold sweepGroup
  split_ifs
  · exact s.goes_sweepRest J a
  have hteardown := s.goes_teardown hpid a.retried
  dsimp only
  split_ifs
  · exact hteardown
  · exact hteardown.trans (goes_sweepRest _ J a)

theorem child_onExit (a : FailAnswer) : (s.onExit a).child = s.child.onExit a := by
  unfold onExit Child.onExit
  split_ifs
  · rfl
  · rfl
  · exact child_childFailed _ _ _

theorem http_onExit (a : FailAnswer) : (s.onExit a).http = s.http := by
  unfold onExit
  split_ifs
  · rfl
  · rfl
  · exact http_childFailed _ _ _

/-- The process is gone when its end is settled. -/
theorem pid_onExit {c : Child} (hpid : c.pid = 0) (a : FailAnswer) : (c.onExit a).pid = 0 := by
  have hexit := c.onExit_spec a
  generalize c.onExit a = d at hexit
  cases hexit with
  | scheduled => exact (Child.pid_scheduleRestart _ a).trans hpid
  | failed => exact (Child.pid_childFailed _ _ a).trans hpid
  | _ => exact hpid

theorem goes_sweep (a : SweepAnswer) : s.Goes (s.sweep J a) := by
  unfold sweep
  by_cases hpid : s.child.pid = 0
  · rw [if_pos hpid]
    exact s.goes_sweepGroup J hpid a
  rw [if_neg hpid]
  rcases reap_spec s.child a.reap with ⟨htrue, hpos, hcollect⟩ | ⟨hfalse, hsame⟩
  · have hreap : s.child.reap a.reap = (s.child.collect a.reap, true) := Prod.ext hcollect htrue
    rw [hreap]
    let t := ((s.withChild (s.child.collect a.reap)).teardown a.killed).onExit a.exit
    have hchild : t.child = ((s.child.collect a.reap).torn s.http a.killed).onExit a.exit := by
      show (onExit _ _).child = _
      rw [child_onExit, child_teardown]
      rfl
    have hexit : s.Goes t := by
      refine .of_move ((http_onExit _ a.exit).trans (http_teardown _ a.killed)) ?_
      rw [hchild]
      exact .exit hpos a.reap a.killed a.exit
    have hgone : t.child.pid = 0 := by
      rw [hchild]
      refine pid_onExit ?_ a.exit
      unfold Child.torn
      rw [Child.teardown_eq]
      split_ifs <;> cases a.reap <;> rfl
    exact hexit.trans (goes_sweepGroup t J hgone a)
  · have hreap : s.child.reap a.reap = (s.child, false) := Prod.ext hsame hfalse
    rw [hreap]
    have hwait : s.Goes (s.withChild (s.child.advanceShutdown a.now)) := .of_move rfl (.wait a.now)
    exact hwait.trans (goes_sweepRest _ J a)

theorem goes_when {t : Server} (h : s.Goes t) (b : Bool) : s.Goes (if b then t else s) := by
  cases b with
  | false => exact .refl s
  | true => exact h

/-- Every event is a few moves of the record. -/
theorem goes_step (e : Event) : s.Goes (s.step J e) := by
  cases e with
  | stdout m r a f => exact s.goes_when (s.goes_onStdout J m r a f) s.child.stdoutFd
  | stderr r f => exact s.goes_when (s.goes_onStderr r f) s.child.stderrFd
  | message m line => exact s.goes_when (s.goes_hear J m line) s.http
  | transfer m i status cancel a =>
    exact s.goes_when (s.goes_onTransfer J m i status cancel a) s.http
  | notified fault get getFault lists now f =>
    exact s.goes_when (s.goes_onNotified fault get getFault lists now f) s.http
  | tick a => exact s.goes_sweep J a
  | start a => exact s.goes_manualStart a
  | stop manual a => exact s.goes_stop manual a
  | restart elapsed => exact s.goes_manualRestart elapsed
  | reset => exact s.goes_reset
  | discover lists now => exact (s.works_refreshInventory lists now).goes
  | toolTest known encoded a => exact s.goes_toolTest known encoded a

/-- What every move keeps holds of the record in every state of a run. -/
theorem throughout_of_move {http : Bool} {P : Child → Prop}
    (hmove : ∀ c d, P c → Child.Move http c d → P d) {s : Server} (hs : s.http = http ∧ P s.child)
    (es : List Event) : Library.Throughout (step J) (fun t => t.http = http ∧ P t.child) s es := by
  refine Library.throughout_of_invariant es ?_ hs
  rintro t e ⟨rfl, ht⟩
  obtain ⟨hhttp, hmoves⟩ := t.goes_step J e
  refine ⟨hhttp, ?_⟩
  generalize (t.step J e).child = d at hmoves
  induction hmoves with
  | refl => exact ht
  | tail _ hlast ih => exact hmove _ _ ih hlast

end Loop
end Server
end AsmFlow.Mcp
