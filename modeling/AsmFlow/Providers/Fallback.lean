import AsmFlow.Library.Logs
import AsmFlow.Providers.Sessions

/-!
# Fallback is safe

Another target is tried only while the client has seen nothing, only after a
verdict the route calls retryable, never twice, and within the route's budget.
The flags, the tried set and the attempt counter of the record say the same as
the history does; that is the invariant.
-/

namespace AsmFlow.Providers

open Library Routing

/-- The target an attempt was made on. -/
def Event.index : Event → Option ℕ
  | .attempted i _ => some i
  | _ => none

/-- After this the client has seen something, or cannot be told any more. -/
def Event.closes : Event → Bool
  | .headSent => true
  | .committed => true
  | .cancelled => true
  | .clientGone => true
  | _ => false

def targetsOf (trace : List Event) : List ℕ := trace.filterMap Event.index

/-- The last thing that happened is a verdict in the route's retry mask, and the
provider it is about giving its slot back. -/
def FollowsRetry (route : CfgRoute) (trace : List Event) : Prop :=
  ∃ before k verdict after, trace = before ++ .finished k verdict :: after ∧
    isRetryable verdict (retryMaskOf route) = true ∧
    ∀ e ∈ after, e = .released k ∨ ∃ good, e = .reported k good

/-- What an attempt needs of the history before it. -/
structure Permitted (route : CfgRoute) (pre : List Event) (i : ℕ) : Prop where
  silent : ∀ e ∈ pre, e.closes = false
  fresh : i ∉ targetsOf pre
  budget : (targetsOf pre).length < (attemptBudget route).toNat
  retried : targetsOf pre ≠ [] → FollowsRetry route pre

/-- Every attempt of the history was permitted when it was made. -/
def Prudent (route : CfgRoute) (trace : List Event) : Prop :=
  Justified (fun pre e => ∀ i, e.index = some i → Permitted route pre i) trace

/-- The record agrees with the history. -/
structure Faithful (route : CfgRoute) (x : Exchange) (trace : List Event) : Prop where
  budget : x.maxAttempts = attemptBudget route
  mask : x.retryMask = retryMaskOf route
  tried : ∀ j < routingMaxTargets, triedBit x.tried j = true ↔ j ∈ targetsOf trace
  attempts : x.attempt.toNat = (targetsOf trace).length
  closed : ∀ e ∈ trace, e.closes = true →
    x.headSent = true ∨ x.committed = true ∨ x.cancelled = true ∨ x.conn = none
  claimed : x.state = .active → ∃ k, x.statePtr = some k

theorem attemptBudget_pos (route : CfgRoute) : 0 < (attemptBudget route).toNat := by
  unfold attemptBudget
  split_ifs with henabled hzero
  · decide
  · decide
  · exact Word.toNat_pos_of_ne_zero hzero

theorem attemptBudget_le (route : CfgRoute) :
    (attemptBudget route).toNat ≤ max 1 route.fbMaxAttempts.toNat := by
  unfold attemptBudget
  split_ifs
  · exact le_max_left _ _
  · exact le_max_left _ _
  · exact le_max_right _ _

section Traces

variable {route : CfgRoute} {trace more : List Event}

@[simp] theorem targetsOf_append : targetsOf (trace ++ more) = targetsOf trace ++ targetsOf more :=
  List.filterMap_append

theorem targetsOf_quiet (h : ∀ e ∈ more, e.index = none) : targetsOf more = [] := by
  rw [targetsOf, List.filterMap_eq_nil_iff]
  exact h

/-- Whatever is not an attempt needs no permission. -/
theorem Prudent.quiet (h : Prudent route trace) (hmore : ∀ e ∈ more, e.index = none) :
    Prudent route (trace ++ more) := by
  apply Justified.append h
  intro e he pre i hi
  rw [hmore e he] at hi
  cases hi

theorem Prudent.attempt (h : Prudent route trace) {i : ℕ} (k : ℕ)
    (hpermit : Permitted route trace i) : Prudent route (trace ++ [.attempted i k]) := by
  rw [Prudent, justified_concat]
  refine ⟨h, ?_⟩
  intro j hj
  obtain rfl : i = j := Option.some.inj hj
  exact hpermit

/-- A history is prudent when it ends like one that was, without an attempt more. -/
def Quiet (f f' : Focus) : Prop :=
  ∃ more, f'.trace = f.trace ++ more ∧ ∀ e ∈ more, e.index = none

theorem Quiet.refl (f : Focus) : Quiet f f := ⟨[], by simp, by simp⟩

theorem Quiet.trans {f f' f'' : Focus} (h : Quiet f f') (h' : Quiet f' f'') : Quiet f f'' := by
  obtain ⟨more, heq, hmore⟩ := h
  obtain ⟨more', heq', hmore'⟩ := h'
  refine ⟨more ++ more', by rw [heq', heq, List.append_assoc], ?_⟩
  intro e he
  rcases List.mem_append.mp he with he | he
  · exact hmore e he
  · exact hmore' e he

theorem Quiet.log (f : Focus) {e : Event} (he : e.index = none) : Quiet f (f.log e) :=
  ⟨[e], rfl, by simpa using he⟩

theorem Quiet.write (f : Focus) (g : Exchange → Exchange) : Quiet f (f.onExchange g) := Quiet.refl f

theorem Quiet.prudent {f f' : Focus} (h : Quiet f f') (hf : Prudent route f.trace) :
    Prudent route f'.trace := by
  obtain ⟨more, heq, hmore⟩ := h
  rw [heq]
  exact hf.quiet hmore

/-- A release adds nothing to the history but its own entries. -/
theorem attemptRelease_trace (f : Focus) (verdict : Status) (nowNs : Word) :
    ∃ more, (attemptRelease f verdict nowNs).trace = f.trace ++ more ∧
      ∀ e ∈ more, ∃ k, f.x.statePtr = some k ∧ (e = .released k ∨ ∃ good, e = .reported k good) := by
  rcases attemptRelease_cases f verdict nowNs with
    ⟨-, heq⟩ | ⟨-, -, heq⟩ | ⟨k, table, tail, -, hptr, -, -, hreports, heq⟩
  · exact ⟨[], by rw [heq, List.append_nil], by simp⟩
  · exact ⟨[], by rw [heq]; simp [Focus.onExchange], by simp⟩
  · refine ⟨.released k :: tail, by rw [heq], ?_⟩
    intro e he
    refine ⟨k, hptr, ?_⟩
    rcases List.mem_cons.mp he with rfl | he
    · exact Or.inl rfl
    · right
      rcases hreports with ⟨-, rfl⟩ | ⟨-, -, rfl⟩ | ⟨-, -, rfl⟩
      · simp at he
      · exact ⟨false, by simpa using he⟩
      · exact ⟨true, by simpa using he⟩

theorem quiet_release (f : Focus) (verdict : Status) (nowNs : Word) :
    Quiet f (attemptRelease f verdict nowNs) := by
  obtain ⟨more, heq, hmore⟩ := attemptRelease_trace f verdict nowNs
  refine ⟨more, heq, ?_⟩
  intro e he
  obtain ⟨k, -, rfl | ⟨good, rfl⟩⟩ := hmore e he
  · rfl
  · rfl

theorem quiet_dispose (f : Focus) (nowNs : Word) : Quiet f (disposeExchange f nowNs) :=
  (quiet_release f .upCancelled nowNs).trans (.write _ _)

theorem quiet_end (f : Focus) (verdict : Status) : Quiet f (endTransfer f verdict) := by
  have hwrite := Quiet.write f fun x => { x with state := .finishing, result := verdict }
  unfold endTransfer
  dsimp only
  split
  · exact hwrite
  · exact hwrite.trans (.log _ rfl)

theorem quiet_answer (f : Focus) (verdict : Status) (r : FinishEnv) :
    Quiet f (answerClient f verdict r) := by
  have hrel := quiet_release f verdict r.answerNs
  unfold answerClient
  dsimp only
  split_ifs
  · exact hrel.trans (.write _ _)
  · exact hrel
  · exact (hrel.trans (.write _ _)).trans (.log _ rfl)
  · exact hrel

end Traces

section Record

variable {route : CfgRoute} {f : Focus}

/-- The record may be written where nothing of the agreement stands. -/
theorem Faithful.written {x : Exchange} {trace : List Event} (h : Faithful route x trace)
    {y : Exchange} (hstanding : y.standing = x.standing)
    (hclaimed : y.state = .active → ∃ k, x.statePtr = some k) : Faithful route y trace := by
  have hconn : y.conn = x.conn := congrArg Standing.conn hstanding
  have hhead : y.headSent = x.headSent := congrArg Standing.headSent hstanding
  have hcommitted : y.committed = x.committed := congrArg Standing.committed hstanding
  have hcancelled : y.cancelled = x.cancelled := congrArg Standing.cancelled hstanding
  have hptr : y.statePtr = x.statePtr := congrArg Standing.statePtr hstanding
  have htried : y.tried = x.tried := congrArg Standing.tried hstanding
  have hattempt : y.attempt = x.attempt := congrArg Standing.attempt hstanding
  have hmax : y.maxAttempts = x.maxAttempts := congrArg Standing.maxAttempts hstanding
  have hmask : y.retryMask = x.retryMask := congrArg Standing.retryMask hstanding
  constructor
  · rw [hmax]
    exact h.budget
  · rw [hmask]
    exact h.mask
  · rw [htried]
    exact h.tried
  · rw [hattempt]
    exact h.attempts
  · rw [hconn, hhead, hcommitted, hcancelled]
    exact h.closed
  · intro hactive
    rw [hptr]
    exact hclaimed hactive

/-- A permitted attempt keeps the history prudent, and when it gets under way the
record agrees with it again. -/
theorem Faithful.started (h : Faithful route f.x f.trace) (hsafe : Prudent route f.trace)
    (hsilent : ∀ e ∈ f.trace, e.closes = false)
    (hroom : (targetsOf f.trace).length < (attemptBudget route).toNat)
    (hretried : targetsOf f.trace ≠ [] → FollowsRetry route f.trace) (env : StartEnv) :
    Prudent route (attemptStart f env).1.trace ∧
      Faithful route (attemptStart f env).1.x (attemptStart f env).1.trace := by
  rcases attemptStart_cases f env with ⟨table, st, -, -, heq⟩ |
    ⟨table, c, rs, -, hstate, hindex, huntried, heq⟩
  · rw [heq]
    exact ⟨hsafe, h⟩
  · have hfresh : c.index ∉ targetsOf f.trace := by
      intro hmem
      rw [← h.tried c.index hindex, huntried] at hmem
      exact Bool.false_ne_true hmem
    have hprudent := hsafe.attempt c.state ⟨hsilent, hfresh, hroom, hretried⟩
    have htargets : targetsOf (f.trace ++ [.attempted c.index c.state]) =
        targetsOf f.trace ++ [c.index] := by
      rw [targetsOf_append]
      rfl
    obtain ⟨-, htrace, hst, hlaunch⟩ := launch_spec (claim { f with table } c rs env.nowNs) env
    have hclaim : Faithful route (claim { f with table } c rs env.nowNs).x
        (f.trace ++ [.attempted c.index c.state]) := by
      refine ⟨h.budget, h.mask, ?_, ?_, ?_, ?_⟩
      · intro j hj
        have hset : triedBit (setTried f.x.tried c.index) j =
            (triedBit f.x.tried j || decide (c.index = j)) := triedBit_setTried hindex hj
        have htriedAll : (claim { f with table } c rs env.nowNs).x.tried =
            setTried f.x.tried c.index := rfl
        rw [htargets, List.mem_append, List.mem_singleton, ← h.tried j hj, htriedAll, hset,
          Bool.or_eq_true, decide_eq_true_iff, @eq_comm ℕ j]
      · have hbound := (attemptBudget route).toNat_lt
        have hcount : (claim { f with table } c rs env.nowNs).x.attempt = f.x.attempt + 1 := rfl
        rw [htargets, List.length_append, List.length_singleton, ← h.attempts, hcount]
        rw [← h.attempts] at hroom
        exact Word.toNat_add_one (by omega)
      · intro e he hcloses
        rcases List.mem_append.mp he with he | he
        · exact h.closed e he hcloses
        · rw [List.mem_singleton.mp he] at hcloses
          exact absurd hcloses (by simp [Event.closes])
      · intro _
        exact ⟨c.state, rfl⟩
    rw [heq, htrace]
    exact ⟨hprudent, hclaim.written hst fun _ => ⟨c.state, rfl⟩⟩

/-- Sending our head closes the exchange to fallback, and the flag says so. -/
theorem Faithful.headed (h : Faithful route f.x f.trace) (hsafe : Prudent route f.trace)
    (line : HeaderLine) : Lands Faithful Prudent route (onHeader f line) := by
  have hsame : Lands Faithful Prudent route f := ⟨hsafe, fun _ => h⟩
  unfold onHeader
  split_ifs
  · exact hsame
  · exact hsame
  · cases line with
    | statusLine => exact ⟨hsafe, fun _ => h.written rfl h.claimed⟩
    | field => exact hsame
    | blank status eventStream writeHead =>
      have hseen : Faithful route
          { f.x with status, upstreamSse := f.x.upstreamSse || eventStream } f.trace :=
        h.written rfl h.claimed
      dsimp only [headersComplete]
      split_ifs
      · exact ⟨hsafe, fun _ => hseen⟩
      · exact ⟨hsafe, fun _ => hseen⟩
      · have hquiet : ∀ e ∈ [Event.headSent, .committed], e.index = none := by
          simp [Event.index]
        have htargets : targetsOf ((f.trace ++ [.headSent]) ++ [.committed]) = targetsOf f.trace := by
          rw [List.append_assoc, targetsOf_append]
          exact (congrArg _ (targetsOf_quiet hquiet)).trans (List.append_nil _)
        refine ⟨?_, fun _ => ⟨h.budget, h.mask, ?_, ?_, fun _ _ _ => Or.inl rfl, h.claimed⟩⟩
        · have hprudent := hsafe.quiet hquiet
          simpa [Focus.log, Focus.onExchange] using hprudent
        · simp only [Focus.log, Focus.onExchange, htargets]
          exact h.tried
        · simp only [Focus.log, Focus.onExchange, htargets]
          exact h.attempts

theorem lands_disposed (hsafe : Prudent route f.trace) (nowNs : Word) :
    Lands Faithful Prudent route (disposeExchange f nowNs) := by
  refine ⟨(quiet_dispose f nowNs).prudent hsafe, ?_⟩
  intro hlive
  simp [disposeExchange_x, Exchange.live, Exchange.zero] at hlive

/-- What stands in the record when a fallback is allowed. -/
theorem mayFallBack_spec {x : Exchange} {verdict : Status} (h : mayFallBack x verdict = true) :
    x.committed = false ∧ x.headSent = false ∧ x.cancelled = false ∧ x.conn ≠ none ∧
      x.attempt.toNat < x.maxAttempts.toNat ∧ isRetryable verdict x.retryMask = true := by
  unfold mayFallBack at h
  split_ifs at h with hcommitted hhead hcancelled hconn hbudget
  rw [UInt64.le_iff_toNat_le, not_le] at hbudget
  exact ⟨by simpa using hcommitted, by simpa using hhead, by simpa using hcancelled, hconn,
    hbudget, h⟩

/-- The next attempt of a finished one: its verdict was retryable, and the client
is still waiting. -/
theorem Faithful.fellBack (h : Faithful route f.x f.trace) (hsafe : Prudent route f.trace)
    (hactive : f.x.state = .active) {verdict : Status}
    (hmay : mayFallBack (endTransfer f verdict).x verdict = true) (r : FinishEnv) :
    Prudent route (fallBack (endTransfer f verdict) verdict r).1.trace ∧
      Faithful route (fallBack (endTransfer f verdict) verdict r).1.x
        (fallBack (endTransfer f verdict) verdict r).1.trace := by
  obtain ⟨k, hptr⟩ := h.claimed hactive
  have hend : endTransfer f verdict =
      (f.onExchange fun x => { x with state := .finishing, result := verdict }).log
        (.finished k verdict) := endTransfer_of_claimed f hptr verdict
  obtain ⟨hcommitted, hhead, hcancelled, hconn, hbudget, hretry⟩ := mayFallBack_spec hmay
  rw [hend] at hcommitted hhead hcancelled hconn hbudget hretry ⊢
  obtain ⟨more, htrace, hmore⟩ := attemptRelease_trace
    ((f.onExchange fun x => { x with state := .finishing, result := verdict }).log
      (.finished k verdict)) verdict r.releaseNs
  have htail : (attemptTeardown (attemptRelease
      ((f.onExchange fun x => { x with state := .finishing, result := verdict }).log
        (.finished k verdict)) verdict r.releaseNs)).trace =
      f.trace ++ .finished k verdict :: more := by
    rw [attemptTeardown, Focus.onExchange, htrace]
    simp [Focus.log, Focus.onExchange]
  have hown : ∀ e ∈ more, e = .released k ∨ ∃ good, e = .reported k good := by
    intro e he
    obtain ⟨j, hj, he⟩ := hmore e he
    obtain rfl : k = j := Option.some.inj (hptr.symm.trans hj)
    exact he
  have hquiet : ∀ e ∈ Event.finished k verdict :: more, e.index = none ∧ e.closes = false := by
    intro e he
    rcases List.mem_cons.mp he with rfl | he
    · exact ⟨rfl, rfl⟩
    · rcases hown e he with rfl | ⟨good, rfl⟩
      · exact ⟨rfl, rfl⟩
      · exact ⟨rfl, rfl⟩
  have hopen : ∀ e ∈ f.trace, e.closes = false := by
    intro e he
    by_contra hcloses
    rcases h.closed e he (by simpa using hcloses) with hx | hx | hx | hx
    · simp [Focus.log, Focus.onExchange, hx] at hhead
    · simp [Focus.log, Focus.onExchange, hx] at hcommitted
    · simp [Focus.log, Focus.onExchange, hx] at hcancelled
    · exact hconn hx
  have htargets : targetsOf (f.trace ++ .finished k verdict :: more) = targetsOf f.trace := by
    rw [targetsOf_append, targetsOf_quiet fun e he => (hquiet e he).1, List.append_nil]
  have hfaithful : Faithful route (attemptTeardown (attemptRelease
      ((f.onExchange fun x => { x with state := .finishing, result := verdict }).log
        (.finished k verdict)) verdict r.releaseNs)).x (f.trace ++ .finished k verdict :: more) := by
    simp only [attemptTeardown, Focus.onExchange, attemptRelease_x, Focus.log]
    refine ⟨h.budget, h.mask, ?_, ?_, ?_, ?_⟩
    · rw [htargets]
      exact h.tried
    · rw [htargets]
      exact h.attempts
    · intro e he hcloses
      rcases List.mem_append.mp he with he | he
      · exact h.closed e he hcloses
      · rw [(hquiet e he).2] at hcloses
        cases hcloses
    · intro hfinishing
      cases hfinishing
  rw [← htail] at hfaithful htargets
  have hprudent : Prudent route (f.trace ++ .finished k verdict :: more) :=
    hsafe.quiet fun e he => (hquiet e he).1
  rw [← htail] at hprudent
  refine hfaithful.started hprudent ?_ ?_ ?_ r.start
  · intro e he
    rw [htail] at he
    rcases List.mem_append.mp he with he | he
    · exact hopen e he
    · exact (hquiet e he).2
  · rw [htargets, ← h.attempts, ← h.budget]
    exact hbudget
  · intro _
    refine ⟨f.trace, k, verdict, more, htail, ?_, hown⟩
    rw [← h.mask]
    exact hretry

/-- Every step of an exchange keeps its history prudent and its record faithful. -/
theorem Faithful.stepped (h : Faithful route f.x f.trace) (hsafe : Prudent route f.trace)
    (e : ExchangeAction) : Lands Faithful Prudent route (exchangeStep f e) := by
  cases e with
  | header line => exact h.headed hsafe line
  | write o =>
    have hsame : Lands Faithful Prudent route f := ⟨hsafe, fun _ => h⟩
    dsimp only [exchangeStep, onWrite]
    split_ifs
    · exact hsame
    · exact hsame
    · exact ⟨hsafe, fun _ => h.written rfl h.claimed⟩
    · exact ⟨hsafe, fun _ => h.written rfl h.claimed⟩
  | drained => exact ⟨hsafe, fun _ => h.written rfl h.claimed⟩
  | finish r =>
    rcases exchangeStep_finish_cases f r with
      ⟨-, hstep⟩ | ⟨-, -, hstep⟩ | ⟨hactive, -, hstep⟩
    · rw [hstep]
      exact lands_disposed hsafe _
    · rw [hstep]
      apply lands_disposed
      exact ((quiet_end f _).trans (quiet_release _ _ _)).prudent hsafe
    · rw [hstep]
      rcases finishExchange_cases f r with
        ⟨-, heq⟩ | ⟨hmay, f', st, hfall, ⟨-, heq⟩ | ⟨-, heq⟩⟩
      · rw [heq]
        apply lands_disposed
        exact ((quiet_end f _).trans (quiet_answer _ _ r)).prudent hsafe
      · obtain ⟨hprudent, -⟩ := h.fellBack hsafe hactive hmay r
        rw [hfall] at hprudent
        rw [heq]
        apply lands_disposed
        exact ((Quiet.write f' markFinishing).trans (quiet_answer _ _ r)).prudent hprudent
      · have hback := h.fellBack hsafe hactive hmay r
        rw [hfall] at hback
        rw [heq]
        exact ⟨hback.1, fun _ => hback.2⟩
  | detach nowNs =>
    apply lands_disposed
    have hgone : Quiet f (((f.onExchange forgetClient).onExchange markCancelled).log .clientGone) :=
      Quiet.log _ rfl
    exact (hgone.trans (.log _ rfl)).prudent hsafe
  | abandon nowNs =>
    have hforget : Prudent route (f.onExchange forgetClient).trace := hsafe
    exact lands_disposed hforget nowNs
  | dispose nowNs => exact lands_disposed hsafe nowNs

/-- The first attempt of a request. -/
theorem lands_started (t : Table) (serial : ℕ) (s : StartRequest) :
    Lands Faithful Prudent s.route
      (startStep ⟨t, { Exchange.zero with state := .starting, serial }, []⟩ s) := by
  have hnone : Prudent s.route [] := justified_nil
  generalize hf : (⟨t, { Exchange.zero with state := .starting, serial }, []⟩ : Focus) = f
  have htrace : f.trace = [] := by rw [← hf]
  have hprep : Faithful s.route ((f.onExchange (openRecord s)).onExchange (prepare s)).x
      ((f.onExchange (openRecord s)).onExchange (prepare s)).trace := by
    refine ⟨rfl, rfl, ?_, ?_, ?_, ?_⟩
    · intro j _
      simp [← hf, Focus.onExchange, openRecord, prepare, Exchange.zero, triedBit, targetsOf]
    · simp [← hf, Focus.onExchange, openRecord, prepare, Exchange.zero, targetsOf]
    · intro e he
      simp [Focus.onExchange, htrace] at he
    · intro hactive
      simp [← hf, Focus.onExchange, openRecord, prepare] at hactive
  have hempty : targetsOf ((f.onExchange (openRecord s)).onExchange (prepare s)).trace = [] := by
    simp [Focus.onExchange, htrace, targetsOf]
  have hstart := hprep.started (by simpa [Focus.onExchange, htrace] using hnone)
    (by simp [Focus.onExchange, htrace])
    (by rw [hempty]; exact attemptBudget_pos s.route) (fun hne => absurd hempty hne) s.start
  unfold startStep
  rcases startExchange_cases f s with
    ⟨st, hst, heq⟩ | ⟨st, hst, heq⟩ | ⟨f', st, hatt, ⟨hst, heq⟩ | ⟨hst, heq⟩⟩
  · rw [heq, if_pos hst]
    exact lands_disposed (by simpa [Focus.onExchange, htrace] using hnone) _
  · rw [heq, if_pos hst]
    exact lands_disposed (by simpa [Focus.onExchange, htrace] using hnone) _
  · rw [hatt] at hstart
    have hreturn : Prudent s.route (f'.onExchange returnDoc).trace := hstart.1
    rw [heq, if_pos hst]
    exact lands_disposed hreturn _
  · rw [hatt] at hstart
    rw [heq, if_neg (not_lt.mpr hst)]
    exact ⟨hstart.1, fun _ => hstart.2⟩

end Record

/-- What an exchange promises its client and its providers of fallback. A loaded
route allows at least one attempt. -/
structure FallbackSafe (h : History) : Prop where
  silent : ∀ pre i k post, h.trace = pre ++ .attempted i k :: post → ∀ e ∈ pre, e.closes = false
  distinct : (targetsOf h.trace).Nodup
  bounded : (targetsOf h.trace).length ≤ max 1 h.route.fbMaxAttempts.toNat
  retried : ∀ pre i k post, h.trace = pre ++ .attempted i k :: post → targetsOf pre ≠ [] →
    FollowsRetry h.route pre

theorem Prudent.fallbackSafe {h : History} (hp : Prudent h.route h.trace) : FallbackSafe h where
  silent := fun pre i k post heq => (hp pre _ post heq i rfl).silent
  distinct := by
    apply Justified.nodup
    exact hp.mono fun pre e hpermit i hi => (hpermit i hi).fresh
  bounded := by
    refine le_trans ?_ (attemptBudget_le h.route)
    apply Justified.length_le
    exact hp.mono fun pre e hpermit i hi => (hpermit i hi).budget
  retried := fun pre i k post heq => (hp pre _ post heq i rfl).retried

/-- However attempts, upstream bytes and disconnects interleave, no exchange falls
back when it must not. -/
theorem fallback_safe (configured : Word) (as : List Action) :
    Throughout worldStep (fun w => ∀ h ∈ w.history, FallbackSafe h) (World.boot configured) as := by
  have hall : Throughout worldStep (Kept Faithful Prudent) (World.boot configured) as := by
    apply throughout_of_invariant
    · intro w a hw
      refine hw.stepped (World.worldStep_stepped hw.indexed a) ?_ ?_
      · intro i e route _ _ hinv hsafe
        exact hinv.stepped hsafe e
      · intro i s _ _
        rw [occupy_focus]
        exact lands_started w.table w.history.length s
    · exact boot_kept configured
  apply hall.mono
  intro w hw h hmem
  obtain ⟨n, hn⟩ := List.getElem?_of_mem hmem
  exact (hw.safe n h hn).fallbackSafe

end AsmFlow.Providers
