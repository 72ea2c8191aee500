import AsmFlow.Providers.Sessions

/-!
# Verdicts are charged to the provider that produced them

Each report to a circuit should stand for a transfer that ended against the same
provider with that outcome. The exchange keeps one provider pointer, one verdict
and one claim for all its attempts, so the two can part: a fallback that claims
the next provider and then cannot be launched is released with the verdict on
the provider before it. The equivalence below says that nothing else goes wrong.
-/

namespace AsmFlow.Providers

open Library Routing

/-- The outcome was recorded against provider state `k`. -/
def Event.isReport (k : ℕ) (good : Bool) : Event → Bool
  | .reported j g => j == k && g == good
  | _ => false

/-- A transfer against provider state `k` ended with that outcome. -/
def Event.isTransfer (k : ℕ) (good : Bool) : Event → Bool
  | .finished j verdict => j == k && decide (0 ≤ verdict) == good
  | _ => false

def reportsOf (k : ℕ) (good : Bool) (trace : List Event) : ℕ := trace.countP (Event.isReport k good)

def transfersOf (k : ℕ) (good : Bool) (trace : List Event) : ℕ :=
  trace.countP (Event.isTransfer k good)

/-- No provider has been charged more often than it has earned. -/
def Charged (trace : List Event) : Prop :=
  ∀ k good, reportsOf k good trace ≤ transfersOf k good trace

/-- Every transfer has been reported, and the one in flight holds its claim. -/
structure Tallied (x : Exchange) (trace : List Event) : Prop where
  even : ∀ k good, reportsOf k good trace = transfersOf k good trace
  claimed : x.state = .active → x.counted = true ∧ ∃ k, x.statePtr = some k

/-- The steps between claim and hand-over all succeed. -/
structure StartEnv.Launches (env : StartEnv) : Prop where
  buildUrl : 0 ≤ env.buildUrl
  rewriteBody : 0 ≤ env.rewriteBody
  buildHeaders : 0 ≤ env.buildHeaders
  easyNew : env.easyNew = true
  configureEasy : 0 ≤ env.configureEasy
  multiAdd : env.multiAdd = true

theorem launch_status_iff (f : Focus) (env : StartEnv) : 0 ≤ (launch f env).2 ↔ env.Launches := by
  unfold launch
  dsimp only
  split_ifs with h₁ h₂ h₃ h₄ h₅ h₆
  · exact iff_of_false (not_le.mpr h₁) fun h => absurd h.buildUrl (not_le.mpr h₁)
  · exact iff_of_false (not_le.mpr h₂) fun h => absurd h.rewriteBody (not_le.mpr h₂)
  · exact iff_of_false (not_le.mpr h₃) fun h => absurd h.buildHeaders (not_le.mpr h₃)
  · exact iff_of_false (by decide : ¬(0 : Status) ≤ .nomem) fun h => by simp [h.easyNew] at h₄
  · exact iff_of_false (not_le.mpr h₅) fun h => absurd h.configureEasy (not_le.mpr h₅)
  · exact iff_of_false (by decide : ¬(0 : Status) ≤ .upConnectFailed)
      fun h => by simp [h.multiAdd] at h₆
  · exact iff_of_true (le_refl (0 : Status)) ⟨not_lt.mp h₁, not_lt.mp h₂, not_lt.mp h₃, by simpa using h₄,
      not_lt.mp h₅, by simpa using h₆⟩

/-- The target the selector would give an attempt started now. -/
def nextTarget (f : Focus) (env : StartEnv) : Option (Candidate × Option ℕ) :=
  match f.x.route with
  | none => none
  | some route => (chooseTarget f.table f.x route env).2

theorem attemptStart_of_none {f : Focus} {env : StartEnv} (h : nextTarget f env = none) :
    ∃ table st, st < 0 ∧ attemptStart f env = ({ f with table }, st) := by
  unfold nextTarget at h
  unfold attemptStart
  cases hroute : f.x.route with
  | none => exact ⟨f.table, .invalid, by decide, rfl⟩
  | some route =>
    rw [hroute] at h
    dsimp only at h ⊢
    generalize chooseTarget f.table f.x route env = choice at h
    obtain ⟨table, found⟩ := choice
    dsimp only at h
    subst h
    exact ⟨table, .routeNoTarget, by decide, rfl⟩

theorem attemptStart_of_some {f : Focus} {env : StartEnv} {c : Candidate} {rs : Option ℕ}
    (h : nextTarget f env = some (c, rs)) :
    ∃ table, attemptStart f env = launch (claim { f with table } c rs env.nowNs) env := by
  unfold nextTarget at h
  unfold attemptStart
  cases hroute : f.x.route with
  | none =>
    rw [hroute] at h
    cases h
  | some route =>
    rw [hroute] at h
    dsimp only at h ⊢
    generalize chooseTarget f.table f.x route env = choice at h
    obtain ⟨table, found⟩ := choice
    dsimp only at h
    subst h
    exact ⟨table, rfl⟩

/-- What a finished attempt looks like when another target is chosen. -/
def betweenAttempts (f : Focus) (r : FinishEnv) : Focus :=
  attemptTeardown (attemptRelease (endTransfer f (r.verdict f.x)) (r.verdict f.x) r.releaseNs)

/-- A fallback that finds a target gets it launched. -/
def FallbackLaunches (f : Focus) : ExchangeAction → Prop
  | .finish r =>
    f.x.state = .active → mayFallBack f.x (r.verdict f.x) = true →
      nextTarget (betweenAttempts f r) r.start ≠ none → r.start.Launches
  | _ => True

section Counts

variable (k : ℕ) (good : Bool) {trace more : List Event}

@[simp] theorem reportsOf_append :
    reportsOf k good (trace ++ more) = reportsOf k good trace + reportsOf k good more :=
  List.countP_append

@[simp] theorem transfersOf_append :
    transfersOf k good (trace ++ more) = transfersOf k good trace + transfersOf k good more :=
  List.countP_append

/-- Entries that are neither a report nor a transfer. -/
def Idle (more : List Event) : Prop :=
  ∀ e ∈ more, ∀ k good, e.isReport k good = false ∧ e.isTransfer k good = false

theorem Idle.reportsOf (h : Idle more) : reportsOf k good more = 0 := by
  apply List.countP_eq_zero.mpr
  intro e he
  rw [(h e he k good).1]
  exact Bool.false_ne_true

theorem Idle.transfersOf (h : Idle more) : transfersOf k good more = 0 := by
  apply List.countP_eq_zero.mpr
  intro e he
  rw [(h e he k good).2]
  exact Bool.false_ne_true

theorem Charged.idle (h : Charged trace) (hmore : Idle more) : Charged (trace ++ more) := by
  intro k good
  rw [reportsOf_append, transfersOf_append, hmore.reportsOf, hmore.transfersOf]
  exact h k good

/-- A transfer against a provider, the release of its claim, and the report. -/
theorem finished_released_counts {j : ℕ} {verdict : Status} {tail : List Event}
    (h : Reports j verdict tail) :
    reportsOf k good (.finished j verdict :: .released j :: tail) ≤
        transfersOf k good (.finished j verdict :: .released j :: tail) ∧
      (verdict ≠ .upCancelled →
        reportsOf k good (.finished j verdict :: .released j :: tail) =
          transfersOf k good (.finished j verdict :: .released j :: tail)) := by
  rcases h with ⟨hcancelled, rfl⟩ | ⟨-, hneg, rfl⟩ | ⟨-, hpos, rfl⟩
  · constructor
    · simp [reportsOf, Event.isReport]
    · exact fun hne => absurd hcancelled hne
  · have hdec : decide (0 ≤ verdict) = false := decide_eq_false (not_le.mpr hneg)
    have heq : reportsOf k good (.finished j verdict :: .released j :: [.reported j false]) =
        transfersOf k good (.finished j verdict :: .released j :: [.reported j false]) := by
      simp [reportsOf, transfersOf, List.countP_cons, Event.isReport, Event.isTransfer, hdec]
    exact ⟨heq.le, fun _ => heq⟩
  · have hdec : decide (0 ≤ verdict) = true := decide_eq_true hpos
    have heq : reportsOf k good (.finished j verdict :: .released j :: [.reported j true]) =
        transfersOf k good (.finished j verdict :: .released j :: [.reported j true]) := by
      simp [reportsOf, transfersOf, List.countP_cons, Event.isReport, Event.isTransfer, hdec]
    exact ⟨heq.le, fun _ => heq⟩

end Counts

section Steps

variable {f : Focus}

theorem idle_nil : Idle [] := fun _ he => absurd he List.not_mem_nil

/-- A release without a claim, or for a cancelled attempt, reports nothing. -/
theorem attemptRelease_idle {verdict : Status} (nowNs : Word)
    (h : f.x.counted = false ∨ verdict = .upCancelled) :
    ∃ more, Idle more ∧ (attemptRelease f verdict nowNs).trace = f.trace ++ more := by
  rcases attemptRelease_cases f verdict nowNs with
    ⟨-, heq⟩ | ⟨-, -, heq⟩ | ⟨k, table, tail, hcounted, -, -, -, hreports, heq⟩
  · exact ⟨[], idle_nil, by rw [heq, List.append_nil]⟩
  · exact ⟨[], idle_nil, by rw [heq, List.append_nil]; rfl⟩
  · have hcancelled : verdict = .upCancelled := by
      rcases h with h | h
      · rw [hcounted] at h
        cases h
      · exact h
    rcases hreports with ⟨-, rfl⟩ | ⟨hne, -, -⟩ | ⟨hne, -, -⟩
    · refine ⟨[.released k], ?_, by rw [heq]⟩
      intro e he
      rw [List.mem_singleton.mp he]
      exact fun _ _ => ⟨rfl, rfl⟩
    · exact absurd hcancelled hne
    · exact absurd hcancelled hne

theorem dispose_idle (f : Focus) (nowNs : Word) :
    ∃ more, Idle more ∧ (disposeExchange f nowNs).trace = f.trace ++ more :=
  attemptRelease_idle nowNs (Or.inr rfl)

/-- Answering the client says nothing of a provider beyond its release. -/
theorem answerClient_idle (f : Focus) (verdict : Status) (r : FinishEnv) :
    ∃ more, Idle more ∧
      (answerClient f verdict r).trace = (attemptRelease f verdict r.answerNs).trace ++ more := by
  unfold answerClient
  dsimp only
  split_ifs
  · exact ⟨[], idle_nil, by rw [List.append_nil]; rfl⟩
  · exact ⟨[], idle_nil, by rw [List.append_nil]⟩
  · refine ⟨[.committed], ?_, rfl⟩
    intro e he
    rw [List.mem_singleton.mp he]
    exact fun _ _ => ⟨rfl, rfl⟩
  · exact ⟨[], idle_nil, by rw [List.append_nil]⟩

/-- An attempt's end and the release of its claim, in the history. -/
theorem Tallied.released (h : Tallied f.x f.trace) (hactive : f.x.state = .active)
    (verdict : Status) (nowNs : Word) :
    ∃ k tail, Reports k verdict tail ∧ (attemptRelease (endTransfer f verdict) verdict nowNs).trace =
      f.trace ++ .finished k verdict :: .released k :: tail := by
  obtain ⟨hcounted, k, hptr⟩ := h.claimed hactive
  rw [endTransfer_of_claimed f hptr]
  rcases attemptRelease_cases ((f.onExchange fun x => { x with
      state := .finishing, result := verdict }).log (.finished k verdict)) verdict nowNs with
    ⟨hc, -⟩ | ⟨-, hp, -⟩ | ⟨j, table, tail, -, hp, -, -, hreports, heq⟩
  · exact absurd (hcounted.symm.trans hc) (by decide)
  · exact absurd (hptr.symm.trans hp) (Option.some_ne_none k)
  · obtain rfl : k = j := Option.some.inj (hptr.symm.trans hp)
    refine ⟨k, tail, hreports, ?_⟩
    rw [heq]
    simp [Focus.log, Focus.onExchange]

theorem charged_of_even {trace : List Event}
    (h : ∀ k good, reportsOf k good trace = transfersOf k good trace) : Charged trace :=
  fun k good => (h k good).le

/-- What stands in the record when a verdict allows a fallback. -/
theorem retryable_of_mayFallBack {x : Exchange} {verdict : Status}
    (h : mayFallBack x verdict = true) :
    x.conn ≠ none ∧ verdict < 0 ∧ verdict ≠ .upCancelled := by
  unfold mayFallBack at h
  split_ifs at h with _ _ _ hconn
  exact ⟨hconn, verdict_of_isRetryable h⟩

theorem Tallied.between (h : Tallied f.x f.trace) (hactive : f.x.state = .active) (r : FinishEnv)
    (hmay : mayFallBack f.x (r.verdict f.x) = true) (k : ℕ) (good : Bool) :
    reportsOf k good (betweenAttempts f r).trace = transfersOf k good (betweenAttempts f r).trace := by
  obtain ⟨j, tail, hreports, htrace⟩ := h.released hactive (r.verdict f.x) r.releaseNs
  obtain ⟨-, -, hne⟩ := retryable_of_mayFallBack hmay
  have hcounts := (finished_released_counts k good hreports).2 hne
  rw [betweenAttempts, attemptTeardown, Focus.onExchange, htrace, reportsOf_append,
    transfersOf_append, h.even k good, hcounts]

theorem betweenAttempts_x (f : Focus) (r : FinishEnv) :
    (betweenAttempts f r).x.counted = false ∧ (betweenAttempts f r).x.state = .finishing := by
  simp only [betweenAttempts, attemptTeardown, Focus.onExchange, attemptRelease_x]
  refine ⟨trivial, ?_⟩
  unfold endTransfer
  dsimp only
  split
  · rfl
  · rfl

/-- An attempt start leaves an even history even. -/
theorem tallied_started
    (h : ∀ k good, reportsOf k good f.trace = transfersOf k good f.trace)
    (hstate : f.x.state ≠ .active) (env : StartEnv) :
    Tallied (attemptStart f env).1.x (attemptStart f env).1.trace := by
  rcases attemptStart_cases f env with ⟨table, st, -, -, heq⟩ | ⟨table, c, rs, -, -, -, -, heq⟩
  · rw [heq]
    exact ⟨h, fun hactive => absurd hactive hstate⟩
  · obtain ⟨-, htrace, hst, -⟩ := launch_spec (claim { f with table } c rs env.nowNs) env
    rw [heq, htrace]
    refine ⟨fun k good => ?_, fun _ => ?_⟩
    · have hidle : Idle [.attempted c.index c.state] := by
        intro e he
        rw [List.mem_singleton.mp he]
        exact fun _ _ => ⟨rfl, rfl⟩
      simp only [claim, reportsOf_append, transfersOf_append, hidle.reportsOf, hidle.transfersOf]
      exact h k good
    · exact ⟨congrArg Standing.counted hst, c.state, congrArg Standing.statePtr hst⟩

/-- A history charged for what it earned stays so under whatever is idle. -/
theorem lands_of_idle {route : CfgRoute} {f' : Focus} (hf : Charged f.trace)
    (h : ∃ more, Idle more ∧ f'.trace = f.trace ++ more) (hx : f'.x = Exchange.zero) :
    Lands (fun _ => Tallied) (fun _ => Charged) route f' := by
  obtain ⟨more, hidle, heq⟩ := h
  refine ⟨?_, fun hlive => ?_⟩
  · rw [heq]
    exact hf.idle hidle
  · simp [hx, Exchange.live, Exchange.zero] at hlive

/-- The client is answered and the exchange disposed of, with no claim left open
that the verdict is not about. -/
theorem lands_answered {route : CfgRoute} {verdict : Status} {r : FinishEnv}
    (h : Charged (attemptRelease f verdict r.answerNs).trace) :
    Lands (fun _ => Tallied) (fun _ => Charged) route
      (disposeExchange ((answerClient f verdict r).onExchange forgetClient) r.answerNs) := by
  obtain ⟨more, hidle, heq⟩ := answerClient_idle f verdict r
  have hanswered : Charged ((answerClient f verdict r).onExchange forgetClient).trace := by
    simp only [Focus.onExchange, heq]
    exact h.idle hidle
  exact lands_of_idle hanswered (dispose_idle _ _) rfl

/-- Under the condition, the end of a transfer is charged once, where it belongs. -/
theorem Tallied.finished {route : CfgRoute} (h : Tallied f.x f.trace)
    (hactive : f.x.state = .active) (r : FinishEnv) (hU : FallbackLaunches f (.finish r)) :
    Lands (fun _ => Tallied) (fun _ => Charged) route
      (if (finishExchange f r).2 then (finishExchange f r).1
        else disposeExchange ((finishExchange f r).1.onExchange forgetClient) r.answerNs) := by
  rcases finishExchange_cases f r with ⟨-, heq⟩ | ⟨hmay, f', st, hfall, hcase⟩
  · rw [heq]
    apply lands_answered
    obtain ⟨k, tail, hreports, htrace⟩ := h.released hactive (r.verdict f.x) r.answerNs
    rw [htrace]
    intro j good
    have hcounts := (finished_released_counts j good hreports).1
    rw [reportsOf_append, transfersOf_append, h.even j good]
    exact Nat.add_le_add_left hcounts _
  · rw [mayFallBack_endTransfer] at hmay
    have heven := h.between hactive r hmay
    obtain ⟨hfree, hstate⟩ := betweenAttempts_x f r
    have hfall' : attemptStart (betweenAttempts f r) r.start = (f', st) := hfall
    have htallied := tallied_started heven (by rw [hstate]; decide) r.start
    rw [hfall'] at htallied
    rcases hcase with ⟨hst, heq⟩ | ⟨-, heq⟩
    · rw [heq]
      apply lands_answered
      cases hnext : nextTarget (betweenAttempts f r) r.start with
      | none =>
        obtain ⟨table, st', -, hrefused⟩ := attemptStart_of_none hnext
        rw [hrefused] at hfall'
        obtain ⟨rfl, -⟩ := Prod.mk.inj hfall'
        have hunclaimed :
            (({ betweenAttempts f r with table } : Focus).onExchange markFinishing).x.counted =
              false := hfree
        obtain ⟨more, hidle, htrace⟩ := attemptRelease_idle r.answerNs
          (Or.inl hunclaimed : _ ∨ r.verdict f.x = .upCancelled)
        rw [htrace]
        exact (charged_of_even heven).idle hidle
      | some found =>
        obtain ⟨c, rs⟩ := found
        obtain ⟨table, hclaimed⟩ := attemptStart_of_some hnext
        have hlaunch := hU hactive hmay (by rw [hnext]; exact Option.some_ne_none _)
        rw [← launch_status_iff (claim { betweenAttempts f r with table } c rs r.start.nowNs),
          ← hclaimed, hfall'] at hlaunch
        exact absurd hst (not_lt.mpr hlaunch)
    · rw [heq]
      exact ⟨charged_of_even htallied.even, fun _ => htallied⟩

/-- A claim released with a failure is charged to the provider it is on. -/
theorem attemptRelease_charges {k : ℕ} {verdict : Status} (nowNs : Word)
    (hcounted : f.x.counted = true) (hptr : f.x.statePtr = some k) (hneg : verdict < 0)
    (hne : verdict ≠ .upCancelled) :
    (attemptRelease f verdict nowNs).trace = f.trace ++ [.released k, .reported k false] := by
  rcases attemptRelease_cases f verdict nowNs with
    ⟨hc, -⟩ | ⟨-, hp, -⟩ | ⟨j, table, tail, -, hp, -, -, hreports, heq⟩
  · exact absurd (hcounted.symm.trans hc) (by decide)
  · exact absurd (hptr.symm.trans hp) (Option.some_ne_none k)
  · obtain rfl : k = j := Option.some.inj (hptr.symm.trans hp)
    rcases hreports with ⟨hc, -⟩ | ⟨-, -, rfl⟩ | ⟨-, hpos, -⟩
    · exact absurd hc hne
    · rw [heq]
    · exact absurd hneg (not_lt.mpr hpos)

/-- The defect: the next provider is claimed, not launched, and released with the
verdict on the one before it. -/
theorem failedFallback_trace {r : FinishEnv} (hactive : f.x.state = .active)
    (hmay : mayFallBack f.x (r.verdict f.x) = true)
    (hnext : nextTarget (betweenAttempts f r) r.start ≠ none) (hfails : ¬r.start.Launches) :
    ∃ i k more, Idle more ∧ (exchangeStep f (.finish r)).trace =
      (betweenAttempts f r).trace ++
        (.attempted i k :: .released k :: .reported k false :: more) := by
  obtain ⟨hconn, hneg, hne⟩ := retryable_of_mayFallBack hmay
  obtain ⟨⟨c, rs⟩, hsome⟩ := Option.ne_none_iff_exists'.mp hnext
  obtain ⟨table, hclaimed⟩ := attemptStart_of_some hsome
  obtain ⟨-, htrace, hstanding, -⟩ :=
    launch_spec (claim { betweenAttempts f r with table } c rs r.start.nowNs) r.start
  have hst : (attemptStart (betweenAttempts f r) r.start).2 < 0 := by
    rw [hclaimed, ← not_le, launch_status_iff]
    exact hfails
  rw [← hclaimed] at htrace hstanding
  rw [← mayFallBack_endTransfer] at hmay
  rcases finishExchange_cases f r with ⟨hno, -⟩ | ⟨-, f', st, hfall, hcase⟩
  · rw [hmay] at hno
    cases hno
  · have hstart : attemptStart (betweenAttempts f r) r.start = (f', st) := hfall
    rw [hstart] at hst htrace hstanding
    rcases hcase with ⟨-, heq⟩ | ⟨hpos, -⟩
    · have hclaimTrace : f'.trace =
          (betweenAttempts f r).trace ++ [.attempted c.index c.state] := htrace
      have hcounted : (f'.onExchange markFinishing).x.counted = true :=
        congrArg Standing.counted hstanding
      have hptr : (f'.onExchange markFinishing).x.statePtr = some c.state :=
        congrArg Standing.statePtr hstanding
      have hrelease := attemptRelease_charges r.answerNs hcounted hptr hneg hne
      obtain ⟨more, hmore, hanswer⟩ :=
        answerClient_idle (f'.onExchange markFinishing) (r.verdict f.x) r
      obtain ⟨last, hlast, hdispose⟩ := dispose_idle
        ((answerClient (f'.onExchange markFinishing) (r.verdict f.x) r).onExchange forgetClient)
        r.answerNs
      have hidle : Idle (more ++ last) := by
        intro e he
        rcases List.mem_append.mp he with he | he
        · exact hmore e he
        · exact hlast e he
      refine ⟨c.index, c.state, more ++ last, hidle, ?_⟩
      rcases exchangeStep_finish_cases f r with ⟨hno, -⟩ | ⟨-, hno, -⟩ | ⟨-, -, hstep⟩
      · exact absurd hactive hno
      · exact absurd hno hconn
      · rw [hstep, heq, if_neg Bool.false_ne_true, hdispose]
        change (answerClient (f'.onExchange markFinishing) (r.verdict f.x) r).trace ++ last = _
        rw [hanswer, hrelease]
        change f'.trace ++ _ ++ more ++ last = _
        rw [hclaimTrace]
        simp
    · exact absurd hst (not_lt.mpr hpos)

/-- A fallback that claims a provider and is not launched charges it for nothing. -/
theorem Tallied.overcharged (h : Tallied f.x f.trace) {r : FinishEnv}
    (hU : ¬FallbackLaunches f (.finish r)) : ¬Charged (exchangeStep f (.finish r)).trace := by
  simp only [FallbackLaunches, Classical.not_imp] at hU
  obtain ⟨hactive, hmay, hnext, hfails⟩ := hU
  obtain ⟨i, k, more, hmore, htrace⟩ := failedFallback_trace hactive hmay hnext hfails
  have heven := h.between hactive r hmay k false
  intro hcharged
  have hle := hcharged k false
  have hsplit : (.attempted i k :: .released k :: .reported k false :: more : List Event) =
      [.attempted i k, .released k, .reported k false] ++ more := rfl
  have hreport : reportsOf k false [.attempted i k, .released k, .reported k false] = 1 := by
    simp [reportsOf, Event.isReport]
  have htransfer : transfersOf k false [.attempted i k, .released k, .reported k false] = 0 := rfl
  rw [htrace, hsplit, reportsOf_append, reportsOf_append, transfersOf_append, transfersOf_append,
    hmore.reportsOf, hmore.transfersOf, hreport, htransfer] at hle
  omega

/-- Every step of an exchange that meets the condition keeps the accounts. -/
theorem Tallied.stepped {route : CfgRoute} (h : Tallied f.x f.trace) (e : ExchangeAction)
    (hU : FallbackLaunches f e) :
    Lands (fun _ => Tallied) (fun _ => Charged) route (exchangeStep f e) := by
  have hcharged : Charged f.trace := charged_of_even h.even
  have hsame : Lands (fun _ => Tallied) (fun _ => Charged) route f := ⟨hcharged, fun _ => h⟩
  cases e with
  | header line =>
    dsimp only [exchangeStep, onHeader]
    split_ifs
    · exact hsame
    · exact hsame
    · cases line with
      | statusLine => exact ⟨hcharged, fun _ => ⟨h.even, h.claimed⟩⟩
      | field => exact hsame
      | blank status eventStream writeHead =>
        dsimp only [headersComplete]
        split_ifs
        · exact ⟨hcharged, fun _ => ⟨h.even, h.claimed⟩⟩
        · exact ⟨hcharged, fun _ => ⟨h.even, h.claimed⟩⟩
        · have heven (k : ℕ) (good : Bool) :
              reportsOf k good ((f.trace ++ [.headSent]) ++ [.committed]) =
                transfersOf k good ((f.trace ++ [.headSent]) ++ [.committed]) := by
            rw [List.append_assoc, reportsOf_append, transfersOf_append, h.even k good]
            rfl
          exact ⟨charged_of_even heven, fun _ => ⟨heven, h.claimed⟩⟩
  | write o =>
    dsimp only [exchangeStep, onWrite]
    split_ifs
    · exact hsame
    · exact hsame
    · exact ⟨hcharged, fun _ => ⟨h.even, h.claimed⟩⟩
    · exact ⟨hcharged, fun _ => ⟨h.even, h.claimed⟩⟩
  | drained => exact ⟨hcharged, fun _ => ⟨h.even, h.claimed⟩⟩
  | finish r =>
    rcases exchangeStep_finish_cases f r with
      ⟨-, hstep⟩ | ⟨hactive, -, hstep⟩ | ⟨hactive, -, hstep⟩
    · rw [hstep]
      exact lands_of_idle hcharged (dispose_idle f _) rfl
    · obtain ⟨-, k, hptr⟩ := h.claimed hactive
      have hended : Charged (endTransfer f (r.verdict f.x)).trace := by
        rw [endTransfer_of_claimed f hptr]
        intro j good
        simp only [Focus.log, Focus.onExchange, reportsOf_append, transfersOf_append, h.even j good]
        have hnone : reportsOf j good [.finished k (r.verdict f.x)] = 0 := rfl
        omega
      obtain ⟨more, hidle, hreleased⟩ : ∃ more, Idle more ∧
          (attemptRelease (endTransfer f (r.verdict f.x)) .upCancelled r.releaseNs).trace =
            (endTransfer f (r.verdict f.x)).trace ++ more :=
        attemptRelease_idle r.releaseNs (Or.inr rfl)
      rw [hstep]
      apply lands_of_idle _ (dispose_idle _ _) rfl
      rw [hreleased]
      exact hended.idle hidle
    · rw [hstep]
      exact h.finished hactive r hU
  | detach nowNs =>
    have hgone : Charged ((((f.onExchange forgetClient).onExchange markCancelled).log
        .clientGone).log .cancelled).trace := by
      have hidle : Idle [.clientGone, .cancelled] := by
        intro e he
        simp only [List.mem_cons, List.not_mem_nil, or_false] at he
        rcases he with rfl | rfl
        · exact fun _ _ => ⟨rfl, rfl⟩
        · exact fun _ _ => ⟨rfl, rfl⟩
      simpa [Focus.log, Focus.onExchange] using hcharged.idle hidle
    exact lands_of_idle hgone (dispose_idle _ nowNs) rfl
  | abandon nowNs =>
    have hforget : Charged (f.onExchange forgetClient).trace := hcharged
    exact lands_of_idle hforget (dispose_idle _ nowNs) rfl
  | dispose nowNs => exact lands_of_idle hcharged (dispose_idle f nowNs) rfl

/-- A start that fails after its claim is released as cancelled, whatever failed. -/
theorem lands_opened (t : Table) (serial : ℕ) (s : StartRequest) :
    Lands (fun _ => Tallied) (fun _ => Charged) s.route
      (startStep ⟨t, { Exchange.zero with state := .starting, serial }, []⟩ s) := by
  have heven (k : ℕ) (good : Bool) : reportsOf k good [] = transfersOf k good [] := rfl
  generalize hf : (⟨t, { Exchange.zero with state := .starting, serial }, []⟩ : Focus) = f
  have htrace : f.trace = [] := by rw [← hf]
  have hcharged : Charged f.trace := by
    rw [htrace]
    exact charged_of_even heven
  have hstate : ((f.onExchange (openRecord s)).onExchange (prepare s)).x.state ≠ .active := by
    simp [← hf, Focus.onExchange, openRecord, prepare]
  have hprep (k : ℕ) (good : Bool) :
      reportsOf k good ((f.onExchange (openRecord s)).onExchange (prepare s)).trace =
        transfersOf k good ((f.onExchange (openRecord s)).onExchange (prepare s)).trace := by
    simp only [Focus.onExchange, htrace]
    exact heven k good
  have hstart := tallied_started hprep hstate s.start
  unfold startStep
  rcases startExchange_cases f s with
    ⟨st, hst, heq⟩ | ⟨st, hst, heq⟩ | ⟨f', st, hatt, ⟨hst, heq⟩ | ⟨hst, heq⟩⟩
  · have hopen : Charged (f.onExchange (openRecord s)).trace := hcharged
    rw [heq, if_pos hst]
    exact lands_of_idle hopen (dispose_idle _ _) rfl
  · have hopen : Charged (((f.onExchange (openRecord s)).onExchange (prepare s)).onExchange
        returnDoc).trace := hcharged
    rw [heq, if_pos hst]
    exact lands_of_idle hopen (dispose_idle _ _) rfl
  · rw [hatt] at hstart
    have hreturn : Charged (f'.onExchange returnDoc).trace := charged_of_even hstart.even
    rw [heq, if_pos hst]
    exact lands_of_idle hreturn (dispose_idle _ _) rfl
  · rw [hatt] at hstart
    rw [heq, if_neg (not_lt.mpr hst)]
    exact ⟨charged_of_even hstart.even, fun _ => hstart⟩

end Steps

section Runs

variable {w : World}

/-- The condition, on a step of the engine. -/
def LaunchesFallbacks (w : World) (a : Action) : Prop :=
  ∀ i e, a.target w = some (i, e) → FallbackLaunches (w.focus i) e

/-- Every exchange since boot has charged its providers for what they did. -/
def AllCharged (w : World) : Prop := ∀ h ∈ w.history, Charged h.trace

theorem Kept.allCharged (hw : Kept (fun _ => Tallied) (fun _ => Charged) w) : AllCharged w := by
  intro h hmem
  obtain ⟨n, hn⟩ := List.getElem?_of_mem hmem
  exact hw.safe n h hn

theorem kept_worldStep (hw : Kept (fun _ => Tallied) (fun _ => Charged) w) (a : Action)
    (hU : LaunchesFallbacks w a) :
    Kept (fun _ => Tallied) (fun _ => Charged) (worldStep w a) := by
  refine hw.stepped (World.worldStep_stepped hw.indexed a) ?_ ?_
  · intro i e route htarget _ htallied _
    exact Tallied.stepped htallied e (hU i e htarget)
  · intro i s _ _
    rw [occupy_focus]
    exact lands_opened w.table w.history.length s

/-- One step of the engine keeps the accounts exactly under the condition. -/
theorem allCharged_worldStep_iff (hw : Kept (fun _ => Tallied) (fun _ => Charged) w) (a : Action) :
    AllCharged (worldStep w a) ↔ LaunchesFallbacks w a := by
  constructor
  · intro hcharged
    by_contra hU
    obtain ⟨i, e, htarget, hfails⟩ : ∃ i e, a.target w = some (i, e) ∧
        ¬FallbackLaunches (w.focus i) e := by
      simpa [LaunchesFallbacks] using hU
    obtain ⟨r, rfl⟩ : ∃ r, e = .finish r := by
      cases e with
      | finish r => exact ⟨r, rfl⟩
      | _ => exact absurd trivial hfails
    have hlive : (w.slots i).live = true := by
      by_contra hidle
      have hfree : (w.slots i).state = .free := by simpa [Exchange.live] using hidle
      apply hfails
      intro hactive
      exact absurd (hfree.symm.trans hactive) (by decide)
    have haction : a = .finish i r := by
      cases a with
      | finish j r' =>
        obtain ⟨rfl, heq⟩ := Prod.mk.inj (Option.some.inj htarget)
        rw [ExchangeAction.finish.inj heq]
      | start s => cases htarget
      | look id alloc nowNs => cases htarget
      | header j line => cases htarget
      | write j o => cases htarget
      | drained c => cases hc : w.conns c <;> simp [Action.target, hc] at htarget
      | detach c nowNs => cases hc : w.conns c <;> simp [Action.target, hc] at htarget
      | abandon j nowNs => cases htarget
      | dispose j nowNs => cases htarget
    subst haction
    obtain ⟨h₀, hget⟩ : ∃ h₀, w.history[(w.slots i).serial]? = some h₀ :=
      ⟨_, List.getElem?_eq_getElem (hw.indexed.serial_lt i hlive)⟩
    have htrace : (w.focus i).trace = h₀.trace := by simp [World.focus, World.traceOf, hget]
    have htallied : Tallied (w.focus i).x (w.focus i).trace := by
      rw [htrace]
      exact hw.inv i h₀ hlive hget
    have hmem : ({ h₀ with trace := (exchangeStep (w.focus i) (.finish r)).trace } : History) ∈
        (worldStep w (.finish i r)).history := by
      apply List.mem_of_getElem?
      rw [worldStep, (World.finish_land hw.indexed hlive r).history, World.land_history, hget]
      simp
    exact htallied.overcharged hfails (hcharged _ hmem)
  · intro hU
    exact (kept_worldStep hw a hU).allCharged

/-- Every report in a run stands for a transfer that ended against the same
provider, one for one, exactly when no fallback that claimed a target failed to
be launched. -/
theorem verdicts_charged_iff (configured : Word) (as : List Action) :
    Throughout worldStep AllCharged (World.boot configured) as ↔
      Along worldStep LaunchesFallbacks (World.boot configured) as := by
  have hlegal : Along worldStep (fun _ _ => True) (World.boot configured) as :=
    (along_iff_forall_split _ as).mpr fun _ _ _ _ => trivial
  have hkeep : ∀ w a, Kept (fun _ => Tallied) (fun _ => Charged) w → True → AllCharged w →
      LaunchesFallbacks w a → Kept (fun _ => Tallied) (fun _ => Charged) (worldStep w a) :=
    fun w a hw _ _ hU => kept_worldStep hw a hU
  have hstep : ∀ w a, Kept (fun _ => Tallied) (fun _ => Charged) w → True → AllCharged w →
      (AllCharged (worldStep w a) ↔ LaunchesFallbacks w a) :=
    fun w a hw _ _ => allCharged_worldStep_iff hw a
  exact throughout_iff_along hkeep hstep (boot_kept configured)
    (boot_kept configured).allCharged hlegal

/-- Nothing between claim and hand-over goes wrong. -/
def smoothStart (nowNs : Word) : StartEnv :=
  { nowNs, allocProvider := fun _ => true, allocRoute := true, buildUrl := .ok, rewriteBody := .ok
    buildHeaders := .ok, easyNew := true, configureEasy := .ok, multiAdd := true }

/-- A request on a route of two providers that retries refused connections. -/
def twoProviderRequest : StartRequest :=
  let provider (id : UInt8) : CfgProvider :=
    { id := [id], adapter := .openaiDual, enabled := true, maxConcurrency := 4, capabilities := 3
      health := { failThr := 3, succThr := 1, cooldownMs := 1000 } }
  let target (i : ℤ) : RouteTarget :=
    { providerIndex := i, upstreamModel := [109], priority := 0, weight := 1 }
  let route : CfgRoute :=
    { id := [114], enabled := true, endpointFamilies := 3, policy := .priority, fbEnabled := true
      fbMaxAttempts := 2, fbRetryable := 1, targets := [target 0, target 1] }
  { conn := 0, route, familyBit := 1, wantsStream := false, initBuffers := .ok
    config := { providers := [provider 97, provider 98], routes := [route], limSseEventMax := 1024 }
    start := smoothStart 5, disposeNs := 5 }

/-- The first provider refuses the connection; `curl_multi_add_handle` refuses the
transfer to the second. -/
def refusedTwice : FinishEnv :=
  { curlResult := 7, connectUs := 0, releaseNs := 10, start := { smoothStart 10 with
      multiAdd := false }, answerNs := 10, forwardable := false }

def firstSlot : Slot := ⟨0, by decide⟩

/-- The second provider's circuit records a failure of a transfer it never saw. -/
theorem verdicts_charged_fails :
    ¬Throughout worldStep AllCharged (World.boot 0)
      [.start twoProviderRequest, .finish firstSlot refusedTwice] := by
  intro h
  have hcharged := h.last
  have hhistory : (run worldStep (World.boot 0)
      [.start twoProviderRequest, .finish firstSlot refusedTwice]).history.map History.trace =
        [[.attempted 0 0, .finished 0 .upConnectFailed, .released 0, .reported 0 false,
          .attempted 1 1, .released 1, .reported 1 false]] := by
    decide
  obtain ⟨entry, hmem, htrace⟩ := List.mem_map.mp (hhistory ▸ List.mem_singleton_self _)
  have hle := hcharged entry hmem 1 false
  rw [htrace] at hle
  exact absurd hle (by decide)

end Runs

end AsmFlow.Providers
