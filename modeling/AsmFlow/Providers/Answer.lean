import AsmFlow.Http.Endpoints
import AsmFlow.Providers.Fallback

/-!
# The answer of a finished exchange

`af_prov_exchange_finish` with what the client is told: the buffered body of the
upstream, forwarded or replaced by a catalogue error. The body is cleared with
the attempt that received it, before it is known whether a fallback finds
another target, so a fallback that finds none has lost what it would have sent.
-/

namespace AsmFlow.Providers

open Routing Http

/-- `herr_map`. -/
def herrMap : List (Status × ErrorId) :=
  [(.upConnectFailed, .upstreamConnect), (.upDnsFailed, .upstreamConnect),
    (.upConnectTimeout, .upstreamTimeout), (.upTimeout, .upstreamTimeout),
    (.upTls, .upstreamTls), (.upMalformed, .upstreamInvalid), (.upStatus, .upstreamInvalid),
    (.upHttp502, .upstreamInvalid), (.upHttp503, .upstreamInvalid),
    (.upHttp504, .upstreamTimeout)]

/-- `af_prov_error_id`. -/
def errorId (verdict : Status) : ErrorId := (herrMap.lookup verdict).getD .upstreamInvalid

variable {O : Type}

/-- What a delivery meets: the JSON library's verdict on a text within the limits of a
configuration, whether the response buffer takes a body, and the end of a stream. -/
structure DeliverEnv (O : Type) where
  readsObject : Config → Bytes → Bool
  takes : Bytes → Bool
  endStream : Conn O → Conn O

/-- The checks of `af_prov_deliver_buffered`: a success passes, an error only as a JSON object. -/
def forwardable (o : DeliverEnv O) (x : Exchange) (body : Bytes) : Bool :=
  if 200 ≤ x.status ∧ x.status < 300 then true
  else if body = [] then false
  else
    match x.config with
    | none => false
    | some config => o.readsObject config body

/-- `af_prov_deliver_buffered`; the flag says whether the exchange is now committed. -/
def deliverBuffered (s : Server O) (o : DeliverEnv O) (x : Exchange) (body : Bytes) (c : Conn O) :
    Conn O × Bool :=
  if forwardable o x body = false then ((s.sendError c .upstreamInvalid).1, false)
  else if body ≠ [] ∧ o.takes body = false then
    ((s.sendError { c with response := [] } .upstreamInvalid).1, false)
  else ((Conn.commit s.post { c with response := body } x.status .none).1, true)

/-- An exchange with `PX_RESPONSE` and its client's connection. -/
structure Answering (O : Type) where
  focus : Focus
  response : Bytes
  client : Conn O

/-- What `.no_fallback` up to `.detach` does to the client's connection. -/
def tellClient (s : Server O) (o : DeliverEnv O) (a : Answering O) (verdict : Status)
    (r : FinishEnv) : Conn O :=
  let c :=
    if a.focus.x.headSent then o.endStream a.client
    else if r.transport < 0 then (s.sendError a.client (errorId verdict)).1
    else (deliverBuffered s o a.focus.x a.response a.client).1
  { c with upstream := false }

/-- `.no_fallback` up to `.detach`, for the exchange and its client. -/
def tell (s : Server O) (o : DeliverEnv O) (a : Answering O) (verdict : Status) (r : FinishEnv) :
    Answering O :=
  { a with
    focus := answerClient a.focus verdict
      { r with forwardable := (deliverBuffered s o a.focus.x a.response a.client).2 }
    client := tellClient s o a verdict r }

/-- `af_prov_exchange_finish`; the teardown before the next attempt clears the body. -/
def finishAnswer (s : Server O) (o : DeliverEnv O) (a : Answering O) (r : FinishEnv) :
    Answering O × Bool :=
  let verdict := r.verdict a.focus.x
  let f := endTransfer a.focus verdict
  if mayFallBack f.x verdict then
    match fallBack f verdict r with
    | (f, status) =>
      if status < 0 then
        (tell s o { a with focus := f.onExchange markFinishing, response := [] } verdict r, false)
      else ({ a with focus := f, response := [] }, true)
  else (tell s o { a with focus := f } verdict r, false)

/-- The same exchange on a route whose fallback accepts no outcome. -/
def withoutFallback (a : Answering O) : Answering O :=
  { a with focus := a.focus.onExchange fun x => { x with retryMask := 0 } }

/-- A server whose responses are recorded, with what becomes of each commit. -/
def recorder (s : Server (List Reply)) (verdict : List Reply → Reply → Status) :
    Server (List Reply) :=
  { s with post := fun sent r => (sent ++ [r], verdict sent r) }

/-- The upstream's answer is AsmFlow's own generic error, word for word. -/
def AlreadyGeneric (s : Server (List Reply)) (a : Answering (List Reply)) : Prop :=
  a.focus.x.status = ErrorId.upstreamInvalid.status ∧
    a.client.requestId = (if a.client.requestId = [] then s.newId a.client.drawn
      else a.client.requestId) ∧
    a.response = s.errorBody .upstreamInvalid a.client.requestId

/-- The upstream's own error would be relayed to the client, yet is worth a fallback. -/
def RetriesRelayable (o : DeliverEnv (List Reply)) (a : Answering (List Reply)) (r : FinishEnv) :
    Prop :=
  mayFallBack a.focus.x (r.verdict a.focus.x) = true ∧ 0 ≤ r.transport ∧
    forwardable o a.focus.x a.response = true ∧ o.takes a.response = true

section Frames

/-- The part of the record a delivery reads. -/
structure Delivery where
  headSent : Bool
  status : ℕ
  config : Option Config

def Exchange.delivery (x : Exchange) : Delivery := ⟨x.headSent, x.status, x.config⟩

variable (f : Focus)

theorem endTransfer_delivery (verdict : Status) :
    (endTransfer f verdict).x.delivery = f.x.delivery := by
  unfold endTransfer
  dsimp only
  split <;> rfl

theorem attemptRelease_delivery (verdict : Status) (nowNs : Word) :
    (attemptRelease f verdict nowNs).x.delivery = f.x.delivery := by
  rcases attemptRelease_cases f verdict nowNs with ⟨-, heq⟩ | ⟨-, -, heq⟩ |
    ⟨k, table, tail, -, -, -, -, -, heq⟩
  · rw [heq]
  · rw [heq]
    rfl
  · rw [heq]
    rfl

/-- A launch that fails leaves the status of the attempt before it. -/
theorem launch_delivery (env : StartEnv) (h : (launch f env).2 < 0) :
    (launch f env).1.x.delivery = f.x.delivery := by
  unfold launch at h ⊢
  dsimp only at h ⊢
  split_ifs at h ⊢ with h₁ h₂ h₃ h₄ h₅ h₆
  · rfl
  · rfl
  · rfl
  · rfl
  · rfl
  · rfl
  · exact absurd h (show ¬Status.ok < 0 by decide)

theorem attemptStart_delivery (env : StartEnv) (h : (attemptStart f env).2 < 0) :
    (attemptStart f env).1.x.delivery = f.x.delivery := by
  rcases attemptStart_cases f env with ⟨table, st, -, -, heq⟩ |
    ⟨table, c, rs, -, -, -, -, heq⟩
  · rw [heq]
  · rw [heq] at h ⊢
    rw [launch_delivery _ env h]
    rfl

/-- A fallback that finds nobody changes nothing a delivery reads of the record. -/
theorem fallBack_delivery (verdict : Status) (r : FinishEnv) (h : (fallBack f verdict r).2 < 0) :
    (fallBack f verdict r).1.x.delivery = f.x.delivery := by
  unfold fallBack at h ⊢
  rw [attemptStart_delivery _ r.start h]
  exact attemptRelease_delivery f verdict r.releaseNs

end Frames

section Answers

variable {s : Server O} {o : DeliverEnv O} {a : Answering O} {r : FinishEnv}

/-- The exchange's part of the answer is `finishExchange`, with the code's verdict on the body. -/
theorem finishAnswer_focus (s : Server O) (o : DeliverEnv O) (a : Answering O) (r : FinishEnv) :
    ∃ b, (finishAnswer s o a r).1.focus =
        (finishExchange a.focus { r with forwardable := b }).1 ∧
      (finishAnswer s o a r).2 = (finishExchange a.focus { r with forwardable := b }).2 := by
  have hverdict (b : Bool) :
      ({ r with forwardable := b } : FinishEnv).verdict a.focus.x = r.verdict a.focus.x := rfl
  have hback (b : Bool) (f : Focus) (verdict : Status) :
      fallBack f verdict { r with forwardable := b } = fallBack f verdict r := rfl
  unfold finishAnswer finishExchange
  simp only [hverdict, hback]
  generalize r.verdict a.focus.x = verdict
  generalize endTransfer a.focus verdict = f
  by_cases hmay : mayFallBack f.x verdict = true
  · simp only [if_pos hmay]
    by_cases hfail : (fallBack f verdict r).2 < 0
    · simp only [if_pos hfail]
      exact ⟨_, rfl, trivial⟩
    · simp only [if_neg hfail]
      exact ⟨false, trivial, trivial⟩
  · simp only [if_neg hmay]
    exact ⟨_, rfl, trivial⟩

theorem deliverBuffered_congr {x y : Exchange} (h : y.delivery = x.delivery) (body : Bytes)
    (c : Conn O) : deliverBuffered s o y body c = deliverBuffered s o x body c := by
  have hstatus : y.status = x.status := congrArg Delivery.status h
  have hconfig : y.config = x.config := congrArg Delivery.config h
  have hforward : forwardable o y body = forwardable o x body := by
    unfold forwardable
    rw [hstatus, hconfig]
  unfold deliverBuffered
  rw [hforward, hstatus]

/-- What the client is told depends on the record only through what a delivery reads. -/
theorem tellClient_congr {b : Answering O} (verdict : Status) (r : FinishEnv)
    (hx : b.focus.x.delivery = a.focus.x.delivery) (hbody : b.response = a.response)
    (hclient : b.client = a.client) : tellClient s o b verdict r = tellClient s o a verdict r := by
  have hhead : b.focus.x.headSent = a.focus.x.headSent := congrArg Delivery.headSent hx
  unfold tellClient
  rw [hhead, hbody, hclient, deliverBuffered_congr hx]

theorem isRetryable_zero (verdict : Status) : isRetryable verdict 0 = false := by
  unfold isRetryable
  cases retryMap.lookup verdict with
  | none => rfl
  | some bit => simp

/-- Without fallback the client is told of the attempt as it ended. -/
theorem finishAnswer_withoutFallback (s : Server O) (o : DeliverEnv O) (a : Answering O)
    (r : FinishEnv) :
    (finishAnswer s o (withoutFallback a) r).1.client =
      tellClient s o a (r.verdict a.focus.x) r := by
  have hverdict : r.verdict (withoutFallback a).focus.x = r.verdict a.focus.x := rfl
  have hmay : mayFallBack (endTransfer (withoutFallback a).focus (r.verdict a.focus.x)).x
      (r.verdict a.focus.x) = false := by
    rw [mayFallBack_endTransfer]
    simp [mayFallBack, withoutFallback, Focus.onExchange, isRetryable_zero]
  unfold finishAnswer
  simp only [hverdict, hmay, Bool.false_eq_true, if_false]
  exact tellClient_congr _ _ (endTransfer_delivery _ _) rfl rfl

/-- With fallback it is told of an attempt whose body is gone. -/
theorem finishAnswer_exhausted (hmay : mayFallBack a.focus.x (r.verdict a.focus.x) = true)
    (hnobody : (fallBack (endTransfer a.focus (r.verdict a.focus.x))
      (r.verdict a.focus.x) r).2 < 0) :
    (finishAnswer s o a r).1.client =
      tellClient s o { a with response := [] } (r.verdict a.focus.x) r := by
  have hmay' : mayFallBack (endTransfer a.focus (r.verdict a.focus.x)).x
      (r.verdict a.focus.x) = true := by
    rw [mayFallBack_endTransfer]
    exact hmay
  unfold finishAnswer
  simp only [hmay', if_true, hnobody]
  refine tellClient_congr _ _ ?_ rfl rfl
  have hback := fallBack_delivery _ _ r hnobody
  rw [endTransfer_delivery] at hback
  exact hback

/-- An attempt that is not retried is answered alike. -/
theorem finishAnswer_final (hmay : mayFallBack a.focus.x (r.verdict a.focus.x) = false) :
    (finishAnswer s o a r).1.client = tellClient s o a (r.verdict a.focus.x) r := by
  have hmay' : mayFallBack (endTransfer a.focus (r.verdict a.focus.x)).x
      (r.verdict a.focus.x) = false := by
    rw [mayFallBack_endTransfer]
    exact hmay
  unfold finishAnswer
  simp only [hmay', Bool.false_eq_true, if_false]
  exact tellClient_congr _ _ (endTransfer_delivery _ _) rfl rfl

end Answers

section Recorded

variable {s : Server (List Reply)} {o : DeliverEnv (List Reply)} {a : Answering (List Reply)}
  {r : FinishEnv} {v : List Reply → Reply → Status}

theorem recorder_commit (c : Conn (List Reply)) (status : ℕ) (flags : HeadFlags) :
    (Conn.commit (recorder s v).post c status flags).1.outbox =
      c.outbox ++ [c.reply status flags] := by
  unfold Conn.commit recorder
  dsimp only
  split_ifs <;> rfl

/-- The id an error is answered under: the request's, or one drawn for it. -/
def errorRequestId (s : Server (List Reply)) (c : Conn (List Reply)) : Bytes :=
  if c.requestId = [] then s.newId c.drawn else c.requestId

theorem recorder_sendError (c : Conn (List Reply)) (id : ErrorId) :
    ((recorder s v).sendError c id).1.outbox =
      c.outbox ++ [{ c.reply id.status id.headFlags with
        requestId := errorRequestId s c, body := s.errorBody id (errorRequestId s c) }] := by
  unfold Server.sendError errorRequestId
  dsimp only
  rw [recorder_commit]
  split_ifs <;> rfl

/-- The error in place of a body that does not pass is the same for every such body. -/
theorem deliverBuffered_refused (x : Exchange) (body : Bytes) (c : Conn (List Reply))
    (h : forwardable o x body = false ∨ body ≠ [] ∧ o.takes body = false) :
    (deliverBuffered (recorder s v) o x body c).1.outbox =
      ((recorder s v).sendError c .upstreamInvalid).1.outbox := by
  unfold deliverBuffered
  rcases h with h | h
  · rw [if_pos h]
  · by_cases hforward : forwardable o x body = false
    · rw [if_pos hforward]
    · rw [if_neg hforward, if_pos h, recorder_sendError, recorder_sendError]
      rfl

theorem deliverBuffered_relayed (x : Exchange) (body : Bytes) (c : Conn (List Reply))
    (hforward : forwardable o x body = true) (htakes : body ≠ [] → o.takes body = true) :
    (deliverBuffered (recorder s v) o x body c).1.outbox =
      c.outbox ++ [{ c.reply x.status .none with body := body }] := by
  have htaken : ¬(body ≠ [] ∧ o.takes body = false) := by
    rintro ⟨hne, hrefused⟩
    simp [htakes hne] at hrefused
  unfold deliverBuffered
  rw [if_neg (by simp [hforward]), if_neg htaken, recorder_commit]
  rfl

/-- An error worth a fallback is not a success. -/
theorem status_of_isRetryable {status : ℕ} {mask : Word}
    (h : isRetryable (classifyStatus status) mask = true) : ¬(200 ≤ status ∧ status < 300) := by
  rintro ⟨hlow, hhigh⟩
  have hok : classifyStatus status = .ok := by
    unfold classifyStatus
    rw [if_neg (by omega), if_pos hhigh]
  have hneg := (verdict_of_isRetryable h).1
  rw [hok] at hneg
  exact absurd hneg (by decide)

/-- The upstream's error and the generic one are the same response exactly if the upstream sent
the generic one. -/
theorem relayed_eq_generic_iff :
    (a.client.outbox ++ [{ a.client.reply a.focus.x.status .none with body := a.response }] =
        a.client.outbox ++ [{ a.client.reply ErrorId.upstreamInvalid.status
            ErrorId.upstreamInvalid.headFlags with
          requestId := errorRequestId s a.client
          body := s.errorBody .upstreamInvalid (errorRequestId s a.client) }]) ↔
      AlreadyGeneric s a := by
  rw [List.append_cancel_left_eq, List.cons_eq_cons]
  simp only [Conn.reply, Reply.mk.injEq, AlreadyGeneric, errorRequestId]
  constructor
  · rintro ⟨⟨hstatus, -, hid, -, hbody⟩, -⟩
    exact ⟨hstatus, hid, by rw [← hid] at hbody; exact hbody⟩
  · rintro ⟨hstatus, hid, hbody⟩
    exact ⟨⟨hstatus, rfl, hid, trivial, by rw [← hid]; exact hbody⟩, trivial⟩

/-- **A fallback that finds nobody leaves the client's answer alone exactly if it took no
relayable error from it, or one that reads like AsmFlow's own.** -/
theorem exhausted_answer_iff (s : Server (List Reply)) (v : List Reply → Reply → Status)
    (hnobody : (fallBack (endTransfer a.focus (r.verdict a.focus.x))
      (r.verdict a.focus.x) r).2 < 0) :
    (finishAnswer (recorder s v) o a r).1.client.outbox =
        (finishAnswer (recorder s v) o (withoutFallback a) r).1.client.outbox ↔
      (RetriesRelayable o a r → AlreadyGeneric s a) := by
  rw [finishAnswer_withoutFallback]
  by_cases hmay : mayFallBack a.focus.x (r.verdict a.focus.x) = true
  · rw [finishAnswer_exhausted hmay hnobody]
    obtain ⟨-, hhead, -, -, -, hretry⟩ := mayFallBack_spec hmay
    unfold tellClient
    simp only [hhead, Bool.false_eq_true, if_false]
    by_cases htransport : r.transport < 0
    · simp only [if_pos htransport, true_iff]
      intro hrelay
      exact absurd htransport (not_lt.mpr hrelay.2.1)
    · simp only [if_neg htransport]
      have hverdict : r.verdict a.focus.x = classifyStatus a.focus.x.status := by
        unfold FinishEnv.verdict
        rw [if_neg htransport]
      rw [hverdict] at hretry
      have hstatus := status_of_isRetryable hretry
      have hempty : forwardable o a.focus.x [] = false := by
        simp [forwardable, hstatus]
      rw [deliverBuffered_refused _ _ _ (Or.inl hempty)]
      by_cases hrelay : forwardable o a.focus.x a.response = true ∧ o.takes a.response = true
      · have hretries : RetriesRelayable o a r := ⟨hmay, not_lt.mp htransport, hrelay⟩
        rw [deliverBuffered_relayed _ _ _ hrelay.1 fun _ => hrelay.2, recorder_sendError, eq_comm,
          relayed_eq_generic_iff]
        simp [hretries]
      · have hrefused : forwardable o a.focus.x a.response = false ∨
            a.response ≠ [] ∧ o.takes a.response = false := by
          by_cases hforward : forwardable o a.focus.x a.response = true
          · refine Or.inr ⟨?_, by simpa [hforward] using hrelay⟩
            intro hnil
            rw [hnil, hempty] at hforward
            cases hforward
          · exact Or.inl (by simpa using hforward)
        rw [deliverBuffered_refused _ _ _ hrefused]
        refine iff_of_true rfl fun h => absurd h.2.2 hrelay
  · rw [finishAnswer_final (by simpa using hmay)]
    refine iff_of_true rfl fun h => absurd h.1 hmay

/-- The exchange of a route with one provider, whose answer has arrived. -/
def lonely (status : ℕ) (body : Bytes) : Answering (List Reply) :=
  let provider : CfgProvider :=
    { id := [97], adapter := .openaiDual, enabled := true, maxConcurrency := 4
      capabilities := 3, health := { failThr := 3, succThr := 1, cooldownMs := 1000 } }
  let target : RouteTarget :=
    { providerIndex := 0, upstreamModel := [109], priority := 1, weight := 1 }
  let route : CfgRoute :=
    { id := [114], enabled := true, endpointFamilies := 3, policy := .priority
      fbEnabled := true, fbMaxAttempts := 2, fbRetryable := 16, targets := [target] }
  { focus :=
      { table := ⟨[{ ProvState.fresh [97] with active := 1 }], []⟩
        x := { Exchange.zero with
          state := .active, conn := some 0, easy := true, added := true, hasDoc := true
          config := some ⟨[provider], [route], 65536⟩, route := some route
          target := some target, provider := some provider, statePtr := some 0
          counted := true, tried := 1, attempt := 1, maxAttempts := 2, retryMask := 16
          familyBit := 1, reqCaps := 1, status := status }
        trace := [] }
    response := body
    client := { Conn.fresh [] with endpoint := .responses, requestId := [120], upstream := true } }

/-- A transfer libcurl calls complete, and a next start that would meet no other obstacle. -/
def completeTransfer : FinishEnv where
  curlResult := 0
  connectUs := 1
  releaseNs := 10
  start :=
    { nowNs := 10, allocProvider := fun _ => true, allocRoute := true, buildUrl := .ok
      rewriteBody := .ok, buildHeaders := .ok, easyNew := true, configureEasy := .ok
      multiAdd := true }
  answerNs := 11
  forwardable := true

/-- A daemon whose catalogue bodies are the request ids. -/
def plainServer : Server (List Reply) where
  headerMax := 16384
  bodyMax := 1048576
  authType := .none
  authHeader := none
  authSecret := []
  newId := fun _ => [120]
  errorBody := fun _ id => id
  page := fun _ _ => none
  generate := fun _ _ _ => none
  exchange := fun _ _ _ => .error .internal
  post := fun sent r => (sent ++ [r], .ok)

/-- A text that starts like an object is taken for one. -/
def bracesDeliver : DeliverEnv (List Reply) where
  readsObject := fun _ body => body.head? == some 123
  takes := fun _ => true
  endStream := id

/-- A 503 without a body: the generic answer is what the client gets in both cases. -/
theorem exhausted_answer_empty :
    (finishAnswer (recorder plainServer fun _ _ => .ok) bracesDeliver (lonely 503 [])
        completeTransfer).1.client.outbox =
      (finishAnswer (recorder plainServer fun _ _ => .ok) bracesDeliver
        (withoutFallback (lonely 503 [])) completeTransfer).1.client.outbox := by
  refine (exhausted_answer_iff plainServer (fun _ _ => .ok) (by decide)).mpr ?_
  rintro ⟨-, -, hforward, -⟩
  exact absurd hforward (by decide)

/-- A 503 with a JSON object for a body, on a route without a second target. -/
theorem exhausted_answer_loses_body :
    ¬ ∀ (s : Server (List Reply)) (v : List Reply → Reply → Status)
      (o : DeliverEnv (List Reply)) (a : Answering (List Reply)) (r : FinishEnv),
      (fallBack (endTransfer a.focus (r.verdict a.focus.x)) (r.verdict a.focus.x) r).2 < 0 →
      (finishAnswer (recorder s v) o a r).1.client.outbox =
        (finishAnswer (recorder s v) o (withoutFallback a) r).1.client.outbox := by
  intro h
  have hsame := h plainServer (fun _ _ => .ok) bracesDeliver (lonely 503 [123, 125])
    completeTransfer (by decide)
  exact absurd hsame (by decide)

end Recorded
end AsmFlow.Providers
