import AsmFlow.Providers.Error
import AsmFlow.Routing.Select

/-!
# One exchange

The functions of `provider_exchange.asm` that start, judge and end the attempts
of a single request. Each works on a focus: the routing table, which it shares
with every other exchange, the exchange's own record, and a trace of what it did
to a provider or to its client. The trace is not in the daemon; it is what the
properties of whole runs are stated about. What libcurl, the JSON library and
the allocator answer is an argument.
-/

namespace AsmFlow.Providers

open Routing

/-- `AF_PX_*`, the states. -/
inductive ExchangeState
  | free
  | starting
  | active
  | finishing
  | done
  deriving DecidableEq, Repr

/-- `af_prov_exchange`; the flags are its `AF_PX_F_*` bits. `serial` numbers the
exchanges since boot and is not in the daemon's record. -/
structure Exchange where
  state : ExchangeState
  conn : Option ℕ
  easy : Bool
  config : Option Config
  route : Option CfgRoute
  target : Option RouteTarget
  provider : Option CfgProvider
  stream : Bool
  headSent : Bool
  committed : Bool
  paused : Bool
  upstreamSse : Bool
  added : Bool
  cancelled : Bool
  trailerSent : Bool
  statusSeen : Bool
  overflow : Bool
  counted : Bool
  hasDoc : Bool
  status : ℕ
  result : Status
  bodyBytes : Word
  sseLimit : Word
  tried : Word
  attempt : Word
  maxAttempts : Word
  retryMask : Word
  statePtr : Option ℕ
  wasProbe : Bool
  familyBit : Word
  reqCaps : Word
  attemptNs : Word
  serial : ℕ

/-- A zeroed record. -/
def Exchange.zero : Exchange :=
  { state := .free, conn := none, easy := false, config := none, route := none, target := none
    provider := none, stream := false, headSent := false, committed := false, paused := false
    upstreamSse := false, added := false, cancelled := false, trailerSent := false
    statusSeen := false, overflow := false, counted := false, hasDoc := false, status := 0
    result := 0, bodyBytes := 0, sseLimit := 0, tried := 0, attempt := 0, maxAttempts := 0
    retryMask := 0, statePtr := none, wasProbe := false, familyBit := 0, reqCaps := 0
    attemptNs := 0, serial := 0 }

/-- The exchange holds a concurrency slot of provider state `k`. -/
def Exchange.holds (x : Exchange) (k : ℕ) : Bool := x.counted && x.statePtr == some k

def Exchange.live (x : Exchange) : Bool := decide (x.state ≠ .free)

/-- What an exchange did, as far as its provider or its client can tell. -/
inductive Event
  | attempted (index state : ℕ)
  | finished (state : ℕ) (verdict : Status)
  | released (state : ℕ)
  | reported (state : ℕ) (good : Bool)
  | headSent
  | committed
  | cancelled
  | clientGone
  deriving DecidableEq, Repr

structure Focus where
  table : Table
  x : Exchange
  trace : List Event

/-- A write to the exchange's record. -/
def Focus.onExchange (f : Focus) (g : Exchange → Exchange) : Focus := { f with x := g f.x }

def Focus.log (f : Focus) (e : Event) : Focus := { f with trace := f.trace ++ [e] }

/-- What the steps of an attempt start meet, in the order they are taken. -/
structure StartEnv where
  nowNs : Word
  allocProvider : ℕ → Bool
  allocRoute : Bool
  buildUrl : Status
  rewriteBody : Status
  buildHeaders : Status
  easyNew : Bool
  configureEasy : Status
  multiAdd : Bool

/-- `af_prov_fill_request`, with the tried set and the clock reading. -/
def fillRequest (x : Exchange) (route : CfgRoute) (config : Config) (nowNs : Word) :
    RouteRequest :=
  { config, route, family := x.familyBit, caps := x.reqCaps, tried := x.tried, nowNs }

/-- The route's cursor, advanced first when the policy uses it. -/
def advanceCursor (t : Table) (rs : Option ℕ) (policy : Policy) : Table × Word :=
  match rs with
  | none => (t, 0)
  | some r =>
    if policy ≠ .roundRobin then (t, 0)
    else
      let t := t.onRoute r fun s => { s with cursor := s.cursor + 1 }
      (t, ((t.routes[r]?).map RouteState.cursor).getD 0)

def countServed (t : Table) : Option ℕ → Table
  | none => t
  | some r => t.onRoute r fun s => { s with served := s.served + 1 }

def countRefused (t : Table) : Option ℕ → Table
  | none => t
  | some r => t.onRoute r fun s => { s with refused := s.refused + 1 }

/-- The first half of `af_prov_attempt_start`: a candidate, with the route's
runtime record, or none. -/
def chooseTarget (t : Table) (x : Exchange) (route : CfgRoute) (env : StartEnv) :
    Table × Option (Candidate × Option ℕ) :=
  match x.config with
  | none => (t, none)
  | some config =>
    match routeCandidates (fillRequest x route config env.nowNs) env.allocProvider t
        routingMaxTargets with
    | (t, []) => (t, none)
    | (t, c :: cs) =>
      let (t, rs) := routingRoute t route.id env.allocRoute
      let (t, cursor) := advanceCursor t rs route.policy
      match (routeSelect route.policy (c :: cs) cursor).bind ((c :: cs)[·]?) with
      | none => (countRefused t rs, none)
      | some chosen => (t, some (chosen, rs))

/-- The choice is recorded and the concurrency slot claimed. -/
def claim (f : Focus) (c : Candidate) (rs : Option ℕ) (nowNs : Word) : Focus :=
  let probe := ((f.table.providers[c.state]?).map fun s => (healthBegin s).2).getD false
  { table := countServed (f.table.onProvider c.state fun s => (healthBegin s).1) rs
    x := { f.x with
      tried := setTried f.x.tried c.index, target := some c.target, provider := some c.provider
      statePtr := some c.state, wasProbe := probe, counted := true
      attempt := f.x.attempt + 1, attemptNs := nowNs }
    trace := f.trace ++ [.attempted c.index c.state] }

/-- The second half: the steps that can fail after the claim, and the hand-over
to libcurl. -/
def launch (f : Focus) (env : StartEnv) : Focus × Status :=
  if env.buildUrl < 0 then (f, env.buildUrl)
  else if env.rewriteBody < 0 then (f, env.rewriteBody)
  else if env.buildHeaders < 0 then (f, env.buildHeaders)
  else if env.easyNew = false then (f, .nomem)
  else
    let f := f.onExchange fun x => { x with easy := true }
    if env.configureEasy < 0 then (f, env.configureEasy)
    else if env.multiAdd = false then (f, .upConnectFailed)
    else
      (f.onExchange fun x => { x with
        added := true, state := .active, status := 0, bodyBytes := 0, upstreamSse := false }, .ok)

/-- `af_prov_attempt_start`. -/
def attemptStart (f : Focus) (env : StartEnv) : Focus × Status :=
  match f.x.route with
  | none => (f, .invalid)
  | some route =>
    match chooseTarget f.table f.x route env with
    | (table, none) => ({ f with table }, .routeNoTarget)
    | (table, some (c, rs)) => launch (claim { f with table } c rs env.nowNs) env

/-- The observed latency in microseconds; zero when the clock reads earlier. -/
def attemptLatency (x : Exchange) (nowNs : Word) : Word :=
  if nowNs < x.attemptNs then 0 else (nowNs - x.attemptNs) / 1000

/-- `af_prov_attempt_release`: the slot goes back, and unless the attempt was
cancelled its outcome is recorded against the circuit. -/
def attemptRelease (f : Focus) (verdict : Status) (nowNs : Word) : Focus :=
  if f.x.counted = false then f
  else
    let x := { f.x with counted := false }
    match x.statePtr with
    | none => { f with x }
    | some k =>
      let table := f.table.onProvider k (healthEnd · x.wasProbe)
      let trace := f.trace ++ [.released k]
      if verdict = .upCancelled then { table, x, trace }
      else if verdict < 0 then
        { table := table.onProvider k (healthFailure · x.provider nowNs), x
          trace := trace ++ [.reported k false] }
      else
        { table := table.onProvider k (healthSuccess · x.provider (attemptLatency x nowNs)), x
          trace := trace ++ [.reported k true] }

/-- `af_prov_may_fall_back`. -/
def mayFallBack (x : Exchange) (verdict : Status) : Bool :=
  if x.committed then false
  else if x.headSent then false
  else if x.cancelled then false
  else if x.conn = none then false
  else if x.maxAttempts ≤ x.attempt then false
  else isRetryable verdict x.retryMask

/-- `af_prov_attempt_teardown`. -/
def attemptTeardown (f : Focus) : Focus :=
  f.onExchange fun x => { x with added := false, easy := false }

/-- The exchange's part of `af_prov_exchange_dispose`, the zeroing of
`af_prov_slot_release` included. -/
def disposeExchange (f : Focus) (nowNs : Word) : Focus :=
  (attemptRelease f .upCancelled nowNs).onExchange fun _ => Exchange.zero

def forgetClient (x : Exchange) : Exchange := { x with conn := none }

def markCancelled (x : Exchange) : Exchange := { x with cancelled := true }

def clearPaused (x : Exchange) : Exchange := { x with paused := false }

/-- What a request brings, and what the functions it meets answer. -/
structure StartRequest where
  conn : ℕ
  route : CfgRoute
  config : Config
  familyBit : Word
  wantsStream : Bool
  initBuffers : Status
  start : StartEnv
  disposeNs : Word

/-- The fallback budget: one attempt unless the route enables more. -/
def attemptBudget (route : CfgRoute) : Word :=
  if route.fbEnabled = false then 1
  else if route.fbMaxAttempts = 0 then 1
  else route.fbMaxAttempts

def retryMaskOf (route : CfgRoute) : Word := if route.fbEnabled then route.fbRetryable else 0

/-- The fields taken from the request once the family is known to be served. -/
def prepare (s : StartRequest) (x : Exchange) : Exchange :=
  { x with
    hasDoc := true, stream := s.wantsStream
    reqCaps := if s.wantsStream then x.reqCaps ||| capStreaming else x.reqCaps
    config := some s.config, sseLimit := s.config.limSseEventMax
    maxAttempts := attemptBudget s.route, retryMask := retryMaskOf s.route }

/-- The document goes back to the caller. -/
def returnDoc (x : Exchange) : Exchange := { x with hasDoc := false }

/-- The request's own fields, written as soon as the slot is taken. -/
def openRecord (s : StartRequest) (x : Exchange) : Exchange :=
  { x with conn := some s.conn, route := some s.route, familyBit := s.familyBit }

/-- `af_prov_exchange_start` on a slot just taken, up to the decision to keep it. -/
def startExchange (f : Focus) (s : StartRequest) : Focus × Status :=
  let f := f.onExchange (openRecord s)
  if s.route.endpointFamilies &&& s.familyBit = 0 then (f, .routeNoTarget)
  else
    let f := f.onExchange (prepare s)
    if s.initBuffers < 0 then (f.onExchange returnDoc, s.initBuffers)
    else
      match attemptStart f s.start with
      | (f, status) => if status < 0 then (f.onExchange returnDoc, status) else (f, status)

/-- What libcurl reports of a finished transfer, and what the rest of
`af_prov_exchange_finish` meets. -/
structure FinishEnv where
  curlResult : ℕ
  connectUs : Word
  releaseNs : Word
  start : StartEnv
  answerNs : Word
  forwardable : Bool

def FinishEnv.transport (r : FinishEnv) : Status := classifyCurl r.curlResult r.connectUs

/-- The verdict on the attempt: the transport's, or the status line's. -/
def FinishEnv.verdict (r : FinishEnv) (x : Exchange) : Status :=
  if r.transport < 0 then r.transport else classifyStatus x.status

def markFinishing (x : Exchange) : Exchange := { x with state := .finishing }

/-- The transfer has ended and its verdict is known. -/
def endTransfer (f : Focus) (verdict : Status) : Focus :=
  let f := f.onExchange fun x => { x with state := .finishing, result := verdict }
  match f.x.statePtr with
  | none => f
  | some k => f.log (.finished k verdict)

/-- `.no_fallback` up to `.detach`: the client is told. -/
def answerClient (f : Focus) (verdict : Status) (r : FinishEnv) : Focus :=
  let f := attemptRelease f verdict r.answerNs
  if f.x.headSent then f.onExchange fun x => { x with trailerSent := true }
  else if r.transport < 0 then f
  else if r.forwardable then (f.onExchange fun x => { x with committed := true }).log .committed
  else f

/-- The attempt after this one, with the status of its start. -/
def fallBack (f : Focus) (verdict : Status) (r : FinishEnv) : Focus × Status :=
  attemptStart (attemptTeardown (attemptRelease f verdict r.releaseNs)) r.start

/-- `af_prov_exchange_finish` for a client that is still there; the flag says
whether another attempt is in flight. -/
def finishExchange (f : Focus) (r : FinishEnv) : Focus × Bool :=
  let verdict := r.verdict f.x
  let f := endTransfer f verdict
  if mayFallBack f.x verdict then
    match fallBack f verdict r with
    | (f, status) =>
      if status < 0 then
        (answerClient (f.onExchange markFinishing) verdict r, false)
      else (f, true)
  else (answerClient f verdict r, false)

/-- A line of the upstream's header block, as `af_prov_on_header` tells them apart. -/
inductive HeaderLine
  | statusLine
  | field
  | blank (status : ℕ) (eventStream : Bool) (writeHead : Status)
  deriving DecidableEq, Repr

/-- `af_prov_headers_complete`: a streamed success writes our head now. -/
def headersComplete (f : Focus) (status : ℕ) (eventStream : Bool) (writeHead : Status) : Focus :=
  let f := f.onExchange fun x => { x with status, upstreamSse := x.upstreamSse || eventStream }
  if f.x.stream = false ∨ f.x.upstreamSse = false ∨ status < 200 ∨ 300 ≤ status then f
  else if writeHead < 0 then f
  else
    ((f.onExchange fun x => { x with headSent := true, committed := true }).log .headSent).log
      .committed

/-- `af_prov_on_header`. -/
def onHeader (f : Focus) (line : HeaderLine) : Focus :=
  if f.x.state ≠ .active then f
  else if f.x.conn = none then f
  else
    match line with
    | .statusLine => f.onExchange fun x => { x with upstreamSse := false, statusSeen := true }
    | .field => f
    | .blank status eventStream writeHead => headersComplete f status eventStream writeHead

/-- What the buffers under `af_prov_on_write` answer. -/
structure WriteEnv where
  len : Word
  pendingHigh : Bool
  feedOverflow : Bool
  accumulate : Status

/-- `af_prov_on_write`, for the flags of the exchange. -/
def onWrite (f : Focus) (o : WriteEnv) : Focus :=
  if f.x.state ≠ .active then f
  else if f.x.conn = none then f
  else if f.x.headSent && o.pendingHigh then f.onExchange fun x => { x with paused := true }
  else
    f.onExchange fun x => { x with
      bodyBytes := x.bodyBytes + o.len
      overflow := x.overflow || (if x.headSent then o.feedOverflow else decide (o.accumulate < 0)) }

/-- The part of the record that says what the exchange has claimed, what it has
tried and where its client stands. -/
structure Standing where
  conn : Option ℕ
  route : Option CfgRoute
  headSent : Bool
  committed : Bool
  cancelled : Bool
  counted : Bool
  statePtr : Option ℕ
  tried : Word
  attempt : Word
  maxAttempts : Word
  retryMask : Word
  serial : ℕ

def Exchange.standing (x : Exchange) : Standing :=
  ⟨x.conn, x.route, x.headSent, x.committed, x.cancelled, x.counted, x.statePtr, x.tried,
    x.attempt, x.maxAttempts, x.retryMask, x.serial⟩

theorem holds_of_standing {x y : Exchange} (h : y.standing = x.standing) (k : ℕ) :
    y.holds k = x.holds k := by
  have hcounted : y.counted = x.counted := congrArg Standing.counted h
  have hptr : y.statePtr = x.statePtr := congrArg Standing.statePtr h
  simp only [Exchange.holds, hcounted, hptr]

section Specs

variable (f : Focus) (env : StartEnv)

/-- Launching touches nothing but the transfer: on failure the state stays, on
success it is active. -/
theorem launch_spec :
    (launch f env).1.table = f.table ∧ (launch f env).1.trace = f.trace ∧
      (launch f env).1.x.standing = f.x.standing ∧
      (((launch f env).2 < 0 ∧ (launch f env).1.x.state = f.x.state) ∨
        ((launch f env).2 = .ok ∧ (launch f env).1.x.state = .active)) := by
  unfold launch
  dsimp only
  split_ifs with h₁ h₂ h₃ h₄ h₅ h₆
  · exact ⟨rfl, rfl, rfl, Or.inl ⟨h₁, rfl⟩⟩
  · exact ⟨rfl, rfl, rfl, Or.inl ⟨h₂, rfl⟩⟩
  · exact ⟨rfl, rfl, rfl, Or.inl ⟨h₃, rfl⟩⟩
  · exact ⟨rfl, rfl, rfl, Or.inl ⟨(by decide : Status.nomem < 0), rfl⟩⟩
  · exact ⟨rfl, rfl, rfl, Or.inl ⟨h₅, rfl⟩⟩
  · exact ⟨rfl, rfl, rfl, Or.inl ⟨(by decide : Status.upConnectFailed < 0), rfl⟩⟩
  · exact ⟨rfl, rfl, rfl, Or.inr ⟨rfl, rfl⟩⟩

@[simp] theorem countServed_activeOf (t : Table) (rs : Option ℕ) (k : ℕ) :
    (countServed t rs).activeOf k = t.activeOf k := by
  cases rs <;> rfl

@[simp] theorem countRefused_activeOf (t : Table) (rs : Option ℕ) (k : ℕ) :
    (countRefused t rs).activeOf k = t.activeOf k := by
  cases rs <;> rfl

@[simp] theorem advanceCursor_providers (t : Table) (rs : Option ℕ) (policy : Policy) :
    (advanceCursor t rs policy).1.providers = t.providers := by
  unfold advanceCursor
  cases rs with
  | none => rfl
  | some r =>
    dsimp only
    split_ifs <;> rfl

/-- Choosing keeps every count of transfers, and what it chooses is in range and
not tried. -/
theorem chooseTarget_spec (t : Table) (x : Exchange) (route : CfgRoute) :
    (∀ k, (chooseTarget t x route env).1.activeOf k = t.activeOf k) ∧
      ∀ c rs, (chooseTarget t x route env).2 = some (c, rs) →
        c.state < (chooseTarget t x route env).1.providers.length ∧
          c.index < routingMaxTargets ∧ triedBit x.tried c.index = false := by
  unfold chooseTarget
  cases x.config with
  | none => exact ⟨fun _ => rfl, by simp⟩
  | some config =>
    obtain ⟨hkeep, hoffer⟩ := routeCandidates_spec (fillRequest x route config env.nowNs)
      env.allocProvider t routingMaxTargets
    dsimp only
    generalize routeCandidates (fillRequest x route config env.nowNs) env.allocProvider t
      routingMaxTargets = walk at hkeep hoffer
    obtain ⟨t', cs⟩ := walk
    cases cs with
    | nil => exact ⟨hkeep, by simp⟩
    | cons c cs =>
      dsimp only
      generalize hrs : routingRoute t' route.id env.allocRoute = found
      have hproviders : found.1.providers = t'.providers := by
        rw [← hrs, routingRoute_providers]
      have hcursor := advanceCursor_providers found.1 found.2 route.policy
      generalize advanceCursor found.1 found.2 route.policy = advanced at hcursor
      have hactive (k : ℕ) : advanced.1.activeOf k = t.activeOf k := by
        rw [← hkeep k]
        simp only [Table.activeOf, hcursor, hproviders]
      cases hsel : (routeSelect route.policy (c :: cs) advanced.2).bind ((c :: cs)[·]?) with
      | none =>
        dsimp only
        refine ⟨fun k => ?_, by simp⟩
        rw [countRefused_activeOf]
        exact hactive k
      | some chosen =>
        refine ⟨hactive, ?_⟩
        intro c' rs' heq
        obtain ⟨rfl, -⟩ := Prod.mk.inj (Option.some.inj heq)
        obtain ⟨j, -, hj⟩ := Option.bind_eq_some_iff.mp hsel
        have hmem : chosen ∈ c :: cs := List.mem_of_getElem? hj
        have hc := hoffer chosen hmem
        refine ⟨?_, hc.index_lt, hc.untried⟩
        rw [hcursor, hproviders]
        exact hc.state_lt

/-- Everything an attempt start can do: refuse with no claim made, or claim the
target it chose and launch. -/
theorem attemptStart_cases :
    (∃ table st, (∀ k, table.activeOf k = f.table.activeOf k) ∧ st < 0 ∧
        attemptStart f env = ({ f with table }, st)) ∨
      ∃ table c rs, (∀ k, table.activeOf k = f.table.activeOf k) ∧
        c.state < table.providers.length ∧ c.index < routingMaxTargets ∧
        triedBit f.x.tried c.index = false ∧
        attemptStart f env = launch (claim { f with table } c rs env.nowNs) env := by
  unfold attemptStart
  cases f.x.route with
  | none => exact Or.inl ⟨f.table, .invalid, fun _ => rfl, by decide, rfl⟩
  | some route =>
    obtain ⟨hkeep, hchosen⟩ := chooseTarget_spec env f.table f.x route
    dsimp only
    generalize chooseTarget f.table f.x route env = choice at hkeep hchosen
    obtain ⟨table, found⟩ := choice
    cases found with
    | none => exact Or.inl ⟨table, .routeNoTarget, hkeep, by decide, rfl⟩
    | some pair =>
      obtain ⟨c, rs⟩ := pair
      obtain ⟨hstate, hindex, huntried⟩ := hchosen c rs rfl
      exact Or.inr ⟨table, c, rs, hkeep, hstate, hindex, huntried, rfl⟩

/-- The outcomes of a start on a slot just taken. -/
theorem startExchange_cases (s : StartRequest) :
    (∃ st < 0, startExchange f s = (f.onExchange (openRecord s), st)) ∨
      (∃ st < 0, startExchange f s =
        (((f.onExchange (openRecord s)).onExchange (prepare s)).onExchange returnDoc, st)) ∨
      ∃ f' st, attemptStart ((f.onExchange (openRecord s)).onExchange (prepare s)) s.start =
          (f', st) ∧
        ((st < 0 ∧ startExchange f s = (f'.onExchange returnDoc, st)) ∨
          (0 ≤ st ∧ startExchange f s = (f', st))) := by
  unfold startExchange
  dsimp only
  by_cases hfamily : s.route.endpointFamilies &&& s.familyBit = 0
  · exact Or.inl ⟨.routeNoTarget, by decide, by rw [if_pos hfamily]⟩
  · rw [if_neg hfamily]
    by_cases hbuffers : s.initBuffers < 0
    · exact Or.inr (Or.inl ⟨s.initBuffers, hbuffers, by rw [if_pos hbuffers]⟩)
    · rw [if_neg hbuffers]
      right
      right
      generalize attemptStart ((f.onExchange (openRecord s)).onExchange (prepare s)) s.start = step
      obtain ⟨f', st⟩ := step
      refine ⟨f', st, rfl, ?_⟩
      by_cases hst : st < 0
      · exact Or.inl ⟨hst, if_pos hst⟩
      · exact Or.inr ⟨not_lt.mp hst, if_neg hst⟩

/-- The outcomes of a finish: the client is answered at once, or after a
fallback that did not start, or another attempt is in flight. -/
theorem finishExchange_cases (r : FinishEnv) :
    (mayFallBack (endTransfer f (r.verdict f.x)).x (r.verdict f.x) = false ∧
        finishExchange f r =
          (answerClient (endTransfer f (r.verdict f.x)) (r.verdict f.x) r, false)) ∨
      (mayFallBack (endTransfer f (r.verdict f.x)).x (r.verdict f.x) = true ∧
        ∃ f' st, fallBack (endTransfer f (r.verdict f.x)) (r.verdict f.x) r = (f', st) ∧
          ((st < 0 ∧ finishExchange f r =
              (answerClient (f'.onExchange markFinishing) (r.verdict f.x) r, false)) ∨
            (0 ≤ st ∧ finishExchange f r = (f', true)))) := by
  unfold finishExchange
  dsimp only
  by_cases hmay : mayFallBack (endTransfer f (r.verdict f.x)).x (r.verdict f.x) = true
  · rw [if_pos hmay]
    right
    generalize fallBack (endTransfer f (r.verdict f.x)) (r.verdict f.x) r = step
    obtain ⟨f', st⟩ := step
    refine ⟨hmay, f', st, rfl, ?_⟩
    by_cases hst : st < 0
    · exact Or.inl ⟨hst, if_pos hst⟩
    · exact Or.inr ⟨not_lt.mp hst, if_neg hst⟩
  · rw [if_neg hmay]
    exact Or.inl ⟨Bool.eq_false_iff.mpr hmay, rfl⟩

theorem endTransfer_of_claimed {k : ℕ} (hptr : f.x.statePtr = some k) (verdict : Status) :
    endTransfer f verdict =
      (f.onExchange fun x => { x with state := .finishing, result := verdict }).log
        (.finished k verdict) := by
  simp [endTransfer, Focus.onExchange, hptr]

/-- Whether another attempt is allowed does not depend on the transfer's state. -/
theorem mayFallBack_endTransfer (verdict : Status) :
    mayFallBack (endTransfer f verdict).x verdict = mayFallBack f.x verdict := by
  unfold endTransfer
  dsimp only
  split
  · rfl
  · rfl

/-- What a release reports of the provider, after giving the slot back. -/
def Reports (k : ℕ) (verdict : Status) (tail : List Event) : Prop :=
  (verdict = .upCancelled ∧ tail = []) ∨
    (verdict ≠ .upCancelled ∧ verdict < 0 ∧ tail = [.reported k false]) ∨
    (verdict ≠ .upCancelled ∧ 0 ≤ verdict ∧ tail = [.reported k true])

/-- Everything a release can do: nothing without a claim, and with one give it
back once and report at most once. -/
theorem attemptRelease_cases (verdict : Status) (nowNs : Word) :
    (f.x.counted = false ∧ attemptRelease f verdict nowNs = f) ∨
      (f.x.counted = true ∧ f.x.statePtr = none ∧
        attemptRelease f verdict nowNs = f.onExchange fun x => { x with counted := false }) ∨
      ∃ k table tail, f.x.counted = true ∧ f.x.statePtr = some k ∧
        table.activeOf k = f.table.activeOf k - 1 ∧
        (∀ j, j ≠ k → table.activeOf j = f.table.activeOf j) ∧ Reports k verdict tail ∧
        attemptRelease f verdict nowNs =
          ⟨table, { f.x with counted := false }, f.trace ++ .released k :: tail⟩ := by
  unfold attemptRelease
  cases hcounted : f.x.counted with
  | false => exact Or.inl ⟨rfl, by simp⟩
  | true =>
    right
    cases hptr : f.x.statePtr with
    | none => exact Or.inl ⟨rfl, rfl, by simp [hptr, Focus.onExchange]⟩
    | some k =>
      right
      have hself : (f.table.onProvider k (healthEnd · f.x.wasProbe)).activeOf k =
          f.table.activeOf k - 1 := onProvider_activeOf_end f.x.wasProbe
      have hother (j : ℕ) (hj : j ≠ k) :
          (f.table.onProvider k (healthEnd · f.x.wasProbe)).activeOf j = f.table.activeOf j :=
        onProvider_activeOf_of_ne hj.symm
      by_cases hcancelled : verdict = .upCancelled
      · exact ⟨k, _, [], rfl, rfl, hself, hother, Or.inl ⟨hcancelled, rfl⟩, by
          simp [hptr, hcancelled]⟩
      · by_cases hneg : verdict < 0
        · refine ⟨k, (f.table.onProvider k (healthEnd · f.x.wasProbe)).onProvider k
            (healthFailure · f.x.provider nowNs), [.reported k false], rfl, rfl, ?_, ?_,
            Or.inr (Or.inl ⟨hcancelled, hneg, rfl⟩), by simp [hptr, hcancelled, hneg]⟩
          · rw [onProvider_activeOf_of_eq fun s => healthFailure_active s f.x.provider nowNs]
            exact hself
          · intro j hj
            rw [onProvider_activeOf_of_ne hj.symm]
            exact hother j hj
        · refine ⟨k, (f.table.onProvider k (healthEnd · f.x.wasProbe)).onProvider k
            (healthSuccess · f.x.provider
              (attemptLatency { f.x with counted := false } nowNs)), [.reported k true], rfl, rfl,
            ?_, ?_, Or.inr (Or.inr ⟨hcancelled, not_lt.mp hneg, rfl⟩),
            by simp [hptr, hcancelled, hneg]⟩
          · rw [onProvider_activeOf_of_eq fun s => healthSuccess_active s f.x.provider _]
            exact hself
          · intro j hj
            rw [onProvider_activeOf_of_ne hj.symm]
            exact hother j hj

/-- A release changes nothing of the record but the claim. -/
theorem attemptRelease_x (verdict : Status) (nowNs : Word) :
    (attemptRelease f verdict nowNs).x = { f.x with counted := false } := by
  rcases attemptRelease_cases f verdict nowNs with ⟨hc, h⟩ | ⟨-, -, h⟩ | ⟨k, t, l, -, -, -, -, -, h⟩
  · rw [h, ← hc]
  · rw [h]
    rfl
  · rw [h]

end Specs
end AsmFlow.Providers
