import AsmFlow.Http.Response
import AsmFlow.Library.Lines
import AsmFlow.Mcp.Framing
import AsmFlow.Mcp.Rpc
import AsmFlow.Mcp.Stdout

/-!
# Event streams of MCP servers

`mcp_http_sse.asm`, and how `af_mcp_http_complete` ends the call of a POST that was answered
with an event stream. The flags of a call that only the negotiation of the era reads are left
out.
-/

namespace AsmFlow.McpHttp

open Http (ascii)
open Library
open Mcp (Call Child JsonLibrary Memory Message maxCalls)

/-- `AF_MCP_HTTP_ADAPTER_*`. -/
inductive Adapter
  | modern
  | legacy
  deriving DecidableEq, Repr

/-- `AF_MCP_HTTP_SESSION_MAX`, also the limit of `LH_LAST_EVENT`. -/
def sessionMax : ℕ := 4096

/-- `AF_MCP_HTTP_EVENT_COUNT_MAX`. -/
def eventCountMax : ℕ := 1024

/-- A line of an event stream. -/
inductive Field
  | blank
  | data (value : Bytes)
  | id (value : Bytes)
  | other
  deriving DecidableEq, Repr

/-- The value of a field, without one leading space. -/
def fieldValue (v : Bytes) : Bytes := if v.head? = some 0x20 then v.tail else v

/-- `.line`, up to what is done with it. -/
def Field.of (line : Bytes) : Field :=
  let l := Mcp.trimCr line
  if l = [] then .blank
  else if l.head? = some 0x3A then .other
  else if ascii "data:" <+: l then .data (fieldValue (l.drop 5))
  else if ascii "id:" <+: l then .id (fieldValue (l.drop 3))
  else .other

/-- What the decoder keeps between two lines: `HX_SSE_EVENT`, `HX_SSE_EVENTS`, and
`LH_LAST_EVENT` of the legacy adapter. -/
structure Reader where
  event : Buffer
  events : ℕ
  lastEvent : Buffer

namespace Reader

variable (m : Memory) (adapter : Adapter) (r : Reader)

/-- `.append_data`: a line feed goes between two values. -/
def appendData (v : Bytes) : Reader × Status :=
  let joined := if r.event.data = [] then (r.event, Status.ok) else r.event.appendByte m.alloc 10
  if joined.2 < 0 then ({ r with event := joined.1 }, joined.2)
  else
    let full := joined.1.append m.alloc v
    ({ r with event := full.1 }, full.2)

/-- `.id_value`, which only the legacy adapter has. -/
def setLastEvent (v : Bytes) : Reader × Status :=
  if adapter ≠ .legacy then (r, Status.ok)
  else
    let kept := r.lastEvent.clear.append m.alloc v
    ({ r with lastEvent := kept.1 }, kept.2)

/-- A line that is not blank. -/
def field : Field → Reader × Status
  | .data v => r.appendData m v
  | .id v => r.setLastEvent m adapter v
  | _ => (r, Status.ok)

/-- What a transfer begins with. -/
def start (eventLimit : ℕ) (lastEvent : Buffer) : Reader := ⟨Buffer.init eventLimit, 0, lastEvent⟩

/-- An event has been delivered. -/
def next : Reader := { r with event := r.event.clear, events := r.events + 1 }

/-- The complete events of the lines of a body up to the first one over a limit, and whether
there is nothing else in them. -/
def feed : Reader → List Bytes → List Bytes × Bool
  | r, [] => ([], decide (r.event.data = []))
  | r, l :: ls =>
    if Field.of l = .blank then
      if r.event.data = [] then feed r ls
      else if eventCountMax ≤ r.events then ([], false)
      else (r.event.data :: (feed r.next ls).1, (feed r.next ls).2)
    else
      if (r.field m adapter (.of l)).2 < 0 then ([], false)
      else feed (r.field m adapter (.of l)).1 ls

end Reader

/-- The decoder at work: the server, the reader, and `AF_MCP_HTTP_F_FINAL_SEEN`. -/
structure Stream where
  child : Child
  reader : Reader
  finalSeen : Bool

/-- The state of a call is `AF_MCP_CALL_PENDING`. -/
def pending (c : Child) (i : Fin maxCalls) : Bool := (c.calls i).any fun k => !k.done

/-- The state of a call is `AF_MCP_CALL_DONE`. -/
def ended (c : Child) (i : Fin maxCalls) : Bool := (c.calls i).any Call.done

namespace Stream

variable (J : JsonLibrary) (m : Memory) (adapter : Adapter) (i : Fin maxCalls)

/-- `af_mcp_http_sse_dispatch`, for the call of a POST. -/
def dispatch (s : Stream) : Stream × Status :=
  if s.reader.event.data = [] then (s, Status.ok)
  else if eventCountMax ≤ s.reader.events then (s, Status.limit)
  else if pending s.child i = false then (s, Status.mcpProtocol)
  else
    let heard := s.child.onMessage J m s.reader.event.data
    if heard.2 < 0 then ({ s with child := heard.1 }, heard.2)
    else if heard.1.unmatched ≠ s.child.unmatched then
      ({ s with child := heard.1 }, Status.mcpProtocol)
    else if ended heard.1 i then
      if s.finalSeen then
        (⟨heard.1, { s.reader with events := s.reader.events + 1 }, true⟩, Status.mcpProtocol)
      else (⟨heard.1, s.reader.next, true⟩, Status.ok)
    else (⟨heard.1, s.reader.next, s.finalSeen⟩, Status.ok)

def takeLine (s : Stream) (l : Bytes) : Stream × Status :=
  if Field.of l = .blank then s.dispatch J m i
  else
    ({ s with reader := (s.reader.field m adapter (.of l)).1 },
      (s.reader.field m adapter (.of l)).2)

/-- `.next_line`, until a line fails. -/
def takeLines : List Bytes → Stream → Stream × Status
  | [], s => (s, Status.ok)
  | l :: ls, s =>
    let t := s.takeLine J m adapter i l
    if t.2 < 0 then t else takeLines ls t.1

/-- `af_mcp_http_sse_consume`: a line without an end is truncated. -/
def consume (s : Stream) (body : Bytes) : Stream × Status :=
  let t := takeLines J m adapter i (lines 10 body).1
    { s with reader := { s.reader with event := s.reader.event.clear } }
  if t.2 < 0 then t
  else if (lines 10 body).2 = [] then (t.1, Status.ok)
  else (t.1, Status.mcpProtocol)

end Stream

/-! ## The end of a call -/

/-- `af_mcp_http_finish_error`: a call that is done keeps its status. -/
def finishError (c : Child) (i : Fin maxCalls) (st : Status) : Child :=
  match c.calls i with
  | none => c
  | some k => if k.done then c else c.setCall i (some { k with done := true, status := st })

/-- `af_mcp_http_classify_correlated`. -/
def classifyCorrelated (c : Child) (i : Fin maxCalls) : Child :=
  match c.calls i with
  | none => c
  | some k =>
    if k.errorCode = -32022 then c.setCall i (some { k with status := Status.mcpVersion })
    else if k.errorCode = -32020 then
      c.setCall i (some { k with status := Status.mcpHeaderMismatch })
    else c

section Complete

variable (J : JsonLibrary) (m : Memory) (adapter : Adapter) (i : Fin maxCalls)

/-- How the call ends when the decoder is through. -/
def concludeSse (t : Stream × Status) : Child :=
  if t.2 < 0 then finishError t.1.child i Status.mcpProtocol
  else if t.1.finalSeen = false then finishError t.1.child i Status.mcpProtocol
  else if ended t.1.child i = false then finishError t.1.child i Status.mcpProtocol
  else classifyCorrelated t.1.child i

/-- `.sse` of `af_mcp_http_complete`, with `.limit_failure` for a body that the callback of
libcurl could not keep. -/
def completeSse (c : Child) (eventLimit : ℕ) (lastEvent : Buffer) (overflow : Bool)
    (body : Bytes) : Child :=
  if overflow then finishError c i Status.limit
  else concludeSse i (Stream.consume J m adapter i ⟨c, .start eventLimit lastEvent, false⟩ body)

end Complete

/-- A call that ended with success. -/
def Succeeded (c : Child) (i : Fin maxCalls) : Prop :=
  ∃ k, c.calls i = some k ∧ k.done = true ∧ k.status = Status.ok

/-- A call that ended with an error. -/
def Failed (c : Child) (i : Fin maxCalls) : Prop :=
  ∃ k, c.calls i = some k ∧ k.done = true ∧ k.status < 0

/-- A call ends with success under a condition, and with an error otherwise. -/
structure EndsAs (c : Child) (i : Fin maxCalls) (good : Prop) : Prop where
  succeeds : good → Succeeded c i
  fails : ¬ good → Failed c i

/-- What `af_mcp_request` leaves of the call that the POST carries: it is pending, without an
error code, and its id is its own. -/
structure Carried (c : Child) (i : Fin maxCalls) (k : Call) : Prop where
  call : c.calls i = some k
  isPending : k.done = false
  errorCode : k.errorCode = 0
  found : c.callFind k.id = some (i, k)

/-! ## What the events say -/

section Events

variable (J : JsonLibrary) (m : Memory)

/-- An event is a request or a notification of the server. -/
def IsRequest (c : Child) (e : Bytes) : Prop := c.classify J m e = .request

/-- An event is the response to a call, with a result that can be stored. -/
def Answers (c : Child) (k : Call) (e : Bytes) : Prop :=
  ∃ payload, c.classify J m e = .response k.id payload none ∧
    ¬ (Child.storeResult J m payload).2 < 0

/-- An event is the response to another pending call. -/
def AnswersOther (c : Child) (i : Fin maxCalls) (e : Bytes) : Prop :=
  ∃ id payload error j k, c.classify J m e = .response id payload error ∧
    c.callFind id = some (j, k) ∧ j ≠ i ∧ k.done = false

/-- Events that leave a call pending and are no failure. -/
def Passing (i : Fin maxCalls) : Child → List Bytes → Prop
  | _, [] => True
  | c, e :: es => (IsRequest J m c e ∨ AnswersOther J m c i e) ∧ Passing i (c.onMessage J m e).1 es

/-- Among the events is the response, behind events that leave the call pending. -/
def Answered (i : Fin maxCalls) (k : Call) (c : Child) (es : List Bytes) : Prop :=
  ∃ pre e post, es = pre ++ e :: post ∧ Passing J m i c pre ∧ Answers J m c k e

/-- The events of a body, and whether there is nothing else in it. -/
def bodyEvents (adapter : Adapter) (r : Reader) (body : Bytes) : List Bytes × Bool :=
  ((r.feed m adapter (lines 10 body).1).1,
    (r.feed m adapter (lines 10 body).1).2 && decide ((lines 10 body).2 = []))

end Events

section Proofs

variable {J : JsonLibrary} {m : Memory} {adapter : Adapter} {i : Fin maxCalls} {k : Call}

theorem onMessage_cfg (c : Child) (e : Bytes) : (c.onMessage J m e).1.cfg = c.cfg := by
  unfold Child.onMessage
  cases c.classify J m e with
  | contaminated => rfl
  | request => rfl
  | response id payload error =>
    dsimp only
    cases c.callFind id with
    | none => rfl
    | some found =>
      dsimp only
      split_ifs <;> rfl

theorem classify_onMessage (c : Child) (e e' : Bytes) :
    (c.onMessage J m e).1.classify J m e' = c.classify J m e' := by
  rw [Child.classify, Child.classify, onMessage_cfg]

theorem answered_cons (c : Child) (e : Bytes) (es : List Bytes) :
    Answered J m i k c (e :: es) ↔ Answers J m c k e ∨
      (IsRequest J m c e ∨ AnswersOther J m c i e) ∧
        Answered J m i k (c.onMessage J m e).1 es := by
  have hsame (e' : Bytes) :
      Answers J m (c.onMessage J m e).1 k e' ↔ Answers J m c k e' := by
    simp only [Answers, classify_onMessage]
  constructor
  · rintro ⟨pre, e', post, heq, hpre, hanswers⟩
    cases pre with
    | nil =>
      obtain ⟨rfl, rfl⟩ := List.cons.inj heq
      exact Or.inl hanswers
    | cons d pre =>
      obtain ⟨rfl, rfl⟩ := List.cons.inj heq
      exact Or.inr ⟨hpre.1, pre, e', post, rfl, hpre.2, (hsame e').mpr hanswers⟩
  · rintro (hanswers | ⟨hpass, pre, e', post, rfl, hpre, hanswers⟩)
    · exact ⟨[], e, es, rfl, trivial, hanswers⟩
    · exact ⟨e :: pre, e', post, rfl, ⟨hpass, hpre⟩, (hsame e').mp hanswers⟩

theorem callFind_some {c : Child} {id : ℤ} {j : Fin maxCalls} {k : Call}
    (h : c.callFind id = some (j, k)) : c.calls j = some k ∧ (k.id : ℤ) = id := by
  obtain ⟨x, -, hx⟩ := List.exists_of_findSome?_eq_some h
  cases hcall : c.calls x with
  | none =>
    rw [hcall] at hx
    cases hx
  | some k' =>
    rw [hcall, Option.bind_some] at hx
    split_ifs at hx with hid
    obtain ⟨rfl, rfl⟩ := Prod.mk.inj (Option.some.inj hx)
    exact ⟨hcall, by simpa using hid⟩

/-- What is found first is still found first when a slot changes that was not a hit, or was a
hit behind it. -/
theorem findSome?_other {α β : Type} {f g : α → Option (α × β)} {j : α} {r : α × β}
    {xs : List α} (hf : ∀ x v, f x = some v → v.1 = x) (hother : ∀ x, x ≠ j → g x = f x)
    (hj : f j = none → g j = none) (hr : r.1 ≠ j) (h : xs.findSome? f = some r) :
    xs.findSome? g = some r := by
  induction xs with
  | nil => cases h
  | cons x xs ih =>
    rw [List.findSome?_cons] at h ⊢
    by_cases hx : x = j
    · subst hx
      cases hfx : f x with
      | none =>
        rw [hfx] at h
        rw [hj hfx]
        exact ih h
      | some v =>
        rw [hfx] at h
        obtain rfl := Option.some.inj h
        exact absurd (hf x _ hfx) hr
    · rw [hother x hx]
      cases hfx : f x with
      | none =>
        rw [hfx] at h
        exact ih h
      | some v =>
        rw [hfx] at h
        exact h

theorem callFind_setCall {c : Child} {j : Fin maxCalls} {kj kj' : Call} {id : ℤ}
    (hj : c.calls j = some kj) (hid : kj'.id = kj.id) (hne : j ≠ i)
    (h : c.callFind id = some (i, k)) : (c.setCall j (some kj')).callFind id = some (i, k) := by
  unfold Child.callFind Child.findWhere at h ⊢
  refine findSome?_other (j := j) ?_ ?_ ?_ (Ne.symm hne) h
  · intro x v hv
    cases hx : c.calls x with
    | none =>
      rw [hx] at hv
      cases hv
    | some kx =>
      rw [hx, Option.bind_some] at hv
      split_ifs at hv
      exact (congrArg Prod.fst (Option.some.inj hv)).symm
  · intro x hx
    simp [Child.setCall, Function.update_of_ne hx]
  · intro hnone
    rw [hj, Option.bind_some] at hnone
    simp only [Child.setCall, Function.update_self, Option.bind_some, hid]
    split_ifs at hnone ⊢
    rfl

/-- What one event does to the call that is waited for. -/
inductive Heard (J : JsonLibrary) (m : Memory) (c : Child) (i : Fin maxCalls) (k : Call)
    (e : Bytes) : Prop
  /-- The call still waits. -/
  | passed (hpass : IsRequest J m c e ∨ AnswersOther J m c i e) (hnot : ¬ Answers J m c k e)
      (hok : (c.onMessage J m e).2 = Status.ok)
      (hunmatched : (c.onMessage J m e).1.unmatched = c.unmatched)
      (hcarried : Carried (c.onMessage J m e).1 i k)
  /-- The call has its result. -/
  | answered (hanswers : Answers J m c k e)
      (hok : (c.onMessage J m e).2 = Status.ok)
      (hunmatched : (c.onMessage J m e).1.unmatched = c.unmatched)
      (hcall : ∃ k', (c.onMessage J m e).1.calls i = some k' ∧ k'.done = true ∧
        k'.status = Status.ok ∧ k'.errorCode = 0)
  /-- The call has an error. -/
  | failed (hnot : ¬ Answers J m c k e) (hnot' : ¬ (IsRequest J m c e ∨ AnswersOther J m c i e))
      (hok : (c.onMessage J m e).2 = Status.ok)
      (hunmatched : (c.onMessage J m e).1.unmatched = c.unmatched)
      (hcall : ∃ k', (c.onMessage J m e).1.calls i = some k' ∧ k'.done = true ∧ k'.status < 0)
  /-- The event is refused, and the call still waits. -/
  | refused (hnot : ¬ Answers J m c k e) (hnot' : ¬ (IsRequest J m c e ∨ AnswersOther J m c i e))
      (hbad : (c.onMessage J m e).2 < 0 ∨ (c.onMessage J m e).1.unmatched ≠ c.unmatched)
      (hcall : (c.onMessage J m e).1.calls i = some k)

theorem heard {c : Child} (h : Carried c i k) (e : Bytes) : Heard J m c i k e := by
  obtain ⟨hcall, hpending, herror, hfound⟩ := h
  cases hclass : c.classify J m e with
  | contaminated =>
    refine .refused ?_ ?_ ?_ ?_
    · rintro ⟨payload, hp, -⟩
      cases hclass.symm.trans hp
    · rintro (hreq | ⟨_, _, _, _, _, hp, -⟩)
      · cases hclass.symm.trans hreq
      · cases hclass.symm.trans hp
    · left
      simp only [Child.onMessage, hclass]
      decide
    · simpa only [Child.onMessage, hclass] using hcall
  | request =>
    refine .passed (Or.inl hclass) ?_ ?_ ?_ ?_
    · rintro ⟨payload, hp, -⟩
      cases hclass.symm.trans hp
    · simp only [Child.onMessage, hclass]
    · simp only [Child.onMessage, hclass]
    · simp only [Child.onMessage, hclass]
      exact ⟨hcall, hpending, herror, hfound⟩
  | response id payload error =>
    have hid {p : Mcp.Json} (hp : c.classify J m e = .response k.id p none) :
        c.callFind id = some (i, k) := by
      obtain ⟨hid, -, -⟩ := Message.response.inj (hclass.symm.trans hp)
      rw [hid]
      exact hfound
    have hnotRequest : ¬ IsRequest J m c e := by
      intro hreq
      cases hclass.symm.trans hreq
    have hother (ho : AnswersOther J m c i e) :
        ∃ j k', c.callFind id = some (j, k') ∧ j ≠ i ∧ k'.done = false := by
      obtain ⟨id', p, er, j, k', hp, hrest⟩ := ho
      obtain ⟨rfl, -, -⟩ := Message.response.inj (hclass.symm.trans hp)
      exact ⟨j, k', hrest⟩
    cases hfind : c.callFind id with
    | none =>
      refine .refused ?_ ?_ ?_ ?_
      · rintro ⟨p, hp, -⟩
        cases hfind.symm.trans (hid hp)
      · rintro (hreq | ho)
        · exact hnotRequest hreq
        · obtain ⟨j, k', hj, -⟩ := hother ho
          cases hfind.symm.trans hj
      · right
        simp [Child.onMessage, hclass, hfind, Child.unmatch]
      · simpa only [Child.onMessage, hclass, hfind, Child.unmatch] using hcall
    | some found =>
      obtain ⟨j, kj⟩ := found
      obtain ⟨hj, hkj⟩ := callFind_some hfind
      by_cases hdone : kj.done = true
      · refine .refused ?_ ?_ ?_ ?_
        · rintro ⟨p, hp, -⟩
          obtain ⟨rfl, rfl⟩ := Prod.mk.inj (Option.some.inj (hfind.symm.trans (hid hp)))
          rw [hpending] at hdone
          cases hdone
        · rintro (hreq | ho)
          · exact hnotRequest hreq
          · obtain ⟨j', k', hj', -, hk'⟩ := hother ho
            obtain ⟨rfl, rfl⟩ := Prod.mk.inj (Option.some.inj (hfind.symm.trans hj'))
            rw [hk'] at hdone
            cases hdone
        · right
          simp [Child.onMessage, hclass, hfind, hdone, Child.unmatch]
        · simpa only [Child.onMessage, hclass, hfind, hdone, Child.unmatch, if_true] using hcall
      · have hheard : c.onMessage J m e = (c.correlate J m j kj e id payload error, Status.ok) := by
          simp [Child.onMessage, hclass, hfind, hdone]
        by_cases hji : j = i
        · subst hji
          obtain rfl : kj = k := Option.some.inj (hj.symm.trans hcall)
          have hunmatched : (c.onMessage J m e).1.unmatched = c.unmatched := by
            rw [hheard]
            rfl
          have hcalls : (c.onMessage J m e).1.calls j = some
              { kj with
                done := true
                status := if (Child.storeResult J m payload).2 < 0
                  then (Child.storeResult J m payload).2
                  else if error.isSome then Status.mcpProtocol else Status.ok
                result := (Child.storeResult J m payload).1.data
                errorCode := error.getD kj.errorCode } := by
            rw [hheard]
            exact Function.update_self _ _ _
          have hnot : ¬ (IsRequest J m c e ∨ AnswersOther J m c j e) := by
            rintro (hreq | ho)
            · exact hnotRequest hreq
            · obtain ⟨j', k', hj', hne, -⟩ := hother ho
              exact hne (Prod.mk.inj (Option.some.inj (hj'.symm.trans hfind))).1
          by_cases hstored : (Child.storeResult J m payload).2 < 0
          · refine .failed ?_ hnot (by rw [hheard]) hunmatched ⟨_, hcalls, rfl, ?_⟩
            · rintro ⟨p, hp, hp'⟩
              obtain ⟨-, rfl, -⟩ := Message.response.inj (hclass.symm.trans hp)
              exact hp' hstored
            · rw [if_pos hstored]
              exact hstored
          · cases error with
            | none =>
              refine .answered ⟨payload, ?_, hstored⟩ (by rw [hheard]) hunmatched
                ⟨_, hcalls, rfl, ?_, herror⟩
              · rw [hclass, ← hkj]
              · simp [hstored]
            | some code =>
              refine .failed ?_ hnot (by rw [hheard]) hunmatched ⟨_, hcalls, rfl, ?_⟩
              · rintro ⟨p, hp, -⟩
                obtain ⟨-, -, hnone⟩ := Message.response.inj (hclass.symm.trans hp)
                cases hnone
              · simp only [hstored, if_false, Option.isSome_some, if_true]
                exact (by decide : Status.mcpProtocol < 0)
        · refine .passed (Or.inr ⟨id, payload, error, j, kj, hclass, hfind, hji, by simpa using hdone⟩)
            ?_ ?_ ?_ ?_
          · rintro ⟨p, hp, -⟩
            exact hji (Prod.mk.inj (Option.some.inj (hfind.symm.trans (hid hp)))).1
          · rw [hheard]
          · rw [hheard]
            rfl
          · rw [hheard]
            refine ⟨?_, hpending, herror, ?_⟩
            · exact (Function.update_of_ne (Ne.symm hji) _ _).trans hcall
            · exact callFind_setCall hj rfl hji hfound

theorem EndsAs.iff {c : Child} {good good' : Prop} (h : EndsAs c i good) :
    EndsAs c i good' ↔ (good ↔ good') := by
  have hexcl : ¬ (Succeeded c i ∧ Failed c i) := by
    rintro ⟨⟨k, hk, -, hok⟩, k', hk', -, hneg⟩
    obtain rfl := Option.some.inj (hk.symm.trans hk')
    rw [hok] at hneg
    exact absurd hneg (by decide)
  constructor
  · intro h'
    constructor
    · intro hgood
      by_contra hbad
      exact hexcl ⟨h.succeeds hgood, h'.fails hbad⟩
    · intro hgood
      by_contra hbad
      exact hexcl ⟨h'.succeeds hgood, h.fails hbad⟩
  · intro hiff
    exact ⟨fun hgood => h.succeeds (hiff.mpr hgood), fun hbad => h.fails fun hg => hbad (hiff.mp hg)⟩

theorem finishError_pending {c : Child} (hcall : c.calls i = some k) (hpending : k.done = false)
    {st : Status} (hst : st < 0) : Failed (finishError c i st) i := by
  refine ⟨{ k with done := true, status := st }, ?_, rfl, hst⟩
  simp [finishError, hcall, hpending, Child.setCall]

theorem concludeSse_pending {t : Stream × Status} (hcall : t.1.child.calls i = some k)
    (hpending : k.done = false) : Failed (concludeSse i t) i := by
  have hended : ended t.1.child i = false := by simp [ended, hcall, hpending]
  have hfinish := finishError_pending hcall hpending (by decide : Status.mcpProtocol < 0)
  unfold concludeSse
  split_ifs
  · exact hfinish
  · exact hfinish
  · exact hfinish

theorem finishError_done {c : Child} {k' : Call} (hcall : c.calls i = some k')
    (hdone : k'.done = true) (st : Status) : finishError c i st = c := by
  simp [finishError, hcall, hdone]

/-- A call that has its result when the decoder is through keeps it. -/
theorem concludeSse_succeeded {t : Stream × Status} {k' : Call}
    (hcall : t.1.child.calls i = some k') (hdone : k'.done = true) (hok : k'.status = Status.ok)
    (herror : k'.errorCode = 0) : Succeeded (concludeSse i t) i := by
  have hkept : Succeeded t.1.child i := ⟨k', hcall, hdone, hok⟩
  have hclassified : classifyCorrelated t.1.child i = t.1.child := by
    simp [classifyCorrelated, hcall, herror]
  unfold concludeSse
  rw [finishError_done hcall hdone, hclassified]
  split_ifs
  all_goals exact hkept

/-- A call that has an error when the decoder is through keeps one. -/
theorem concludeSse_failed {t : Stream × Status} {k' : Call}
    (hcall : t.1.child.calls i = some k') (hdone : k'.done = true) (hbad : k'.status < 0) :
    Failed (concludeSse i t) i := by
  have hkept : Failed t.1.child i := ⟨k', hcall, hdone, hbad⟩
  have hset {st : Status} (hst : st < 0) :
      Failed (t.1.child.setCall i (some { k' with status := st })) i :=
    ⟨{ k' with status := st }, Function.update_self i _ _, hdone, hst⟩
  unfold concludeSse
  rw [finishError_done hcall hdone]
  split_ifs
  · exact hkept
  · exact hkept
  · exact hkept
  · simp only [classifyCorrelated, hcall]
    split_ifs
    · exact hset (by decide)
    · exact hset (by decide)
    · exact hkept

/-- Nothing that follows touches a call that is done. -/
theorem takeLines_done {s : Stream} {k' : Call} (hcall : s.child.calls i = some k')
    (hdone : k'.done = true) (ls : List Bytes) :
    (s.takeLines J m adapter i ls).1.child = s.child := by
  induction ls generalizing s with
  | nil => rfl
  | cons l ls ih =>
    have hline : (s.takeLine J m adapter i l).1.child = s.child := by
      have hpending : pending s.child i = false := by simp [pending, hcall, hdone]
      unfold Stream.takeLine Stream.dispatch
      split_ifs <;> rfl
    rw [Stream.takeLines]
    split_ifs
    · exact hline
    · rw [ih (by rw [hline]; exact hcall), hline]

/-- An event that is over the count, or finds the call done, is an error. -/
theorem dispatch_of_event {s : Stream} (h : Carried s.child i k) (hdata : s.reader.event.data ≠ []) :
    s.dispatch J m i =
      if eventCountMax ≤ s.reader.events then (s, Status.limit)
      else if (s.child.onMessage J m s.reader.event.data).2 < 0 then
        ({ s with child := (s.child.onMessage J m s.reader.event.data).1 },
          (s.child.onMessage J m s.reader.event.data).2)
      else if (s.child.onMessage J m s.reader.event.data).1.unmatched ≠ s.child.unmatched then
        ({ s with child := (s.child.onMessage J m s.reader.event.data).1 }, Status.mcpProtocol)
      else if ended (s.child.onMessage J m s.reader.event.data).1 i then
        if s.finalSeen then
          (⟨(s.child.onMessage J m s.reader.event.data).1,
            { s.reader with events := s.reader.events + 1 }, true⟩, Status.mcpProtocol)
        else (⟨(s.child.onMessage J m s.reader.event.data).1, s.reader.next, true⟩, Status.ok)
      else
        (⟨(s.child.onMessage J m s.reader.event.data).1, s.reader.next, s.finalSeen⟩, Status.ok) := by
  have hpending : pending s.child i = true := by simp [pending, h.call, h.isPending]
  simp [Stream.dispatch, hdata, hpending]

/-- However the lines end, the call ends with success exactly when its response is among
their events. -/
theorem takeLines_ends {s : Stream} (h : Carried s.child i k) (hfinal : s.finalSeen = false)
    (ls : List Bytes) (st : Status) :
    EndsAs (concludeSse i ((s.takeLines J m adapter i ls).1, st)) i
      (Answered J m i k s.child (s.reader.feed m adapter ls).1) := by
  have hnone (c : Child) : ¬ Answered J m i k c [] := by
    rintro ⟨pre, e, post, heq, -⟩
    simp at heq
  have hfails {c : Child} {good : Prop} (hbad : ¬ good) (hc : Failed c i) : EndsAs c i good :=
    ⟨fun hgood => absurd hgood hbad, fun _ => hc⟩
  have hokStatus : ¬ Status.ok < 0 := by decide
  have hprotocol : Status.mcpProtocol < 0 := by decide
  induction ls generalizing s with
  | nil => exact hfails (hnone _) (concludeSse_pending h.call h.isPending)
  | cons l ls ih =>
    rw [Stream.takeLines, Reader.feed, Stream.takeLine]
    by_cases hblank : Field.of l = .blank
    · simp only [hblank, if_true]
      by_cases hdata : s.reader.event.data = []
      · have hskip : s.dispatch J m i = (s, Status.ok) := by simp [Stream.dispatch, hdata]
        rw [hskip, if_neg hokStatus, if_pos hdata]
        exact ih h hfinal
      · rw [dispatch_of_event h hdata, if_neg hdata]
        by_cases hcount : eventCountMax ≤ s.reader.events
        · simp only [hcount, if_true]
          rw [if_pos (show Status.limit < 0 by decide)]
          exact hfails (hnone _) (concludeSse_pending h.call h.isPending)
        · simp only [hcount, if_false]
          rw [answered_cons]
          cases heard (J := J) (m := m) h s.reader.event.data with
          | passed hpass hnot hok hunmatched hcarried =>
            have hended : ended (s.child.onMessage J m s.reader.event.data).1 i = false := by
              simp [ended, hcarried.call, hcarried.isPending]
            simp only [hok, hunmatched, hended, hokStatus, ne_eq, not_true_eq_false,
              Bool.false_eq_true, if_false]
            have hrest := ih (s := ⟨_, s.reader.next, s.finalSeen⟩) hcarried hfinal
            rw [hrest.iff]
            exact ⟨fun ha => Or.inr ⟨hpass, ha⟩,
              fun ha => ha.elim (fun ha => absurd ha hnot) And.right⟩
          | answered hanswers hok hunmatched hcall =>
            obtain ⟨k', hk', hdone, hstatus, herror⟩ := hcall
            have hended : ended (s.child.onMessage J m s.reader.event.data).1 i = true := by
              simp [ended, hk', hdone]
            simp only [hok, hunmatched, hended, hfinal, hokStatus, ne_eq, not_true_eq_false,
              Bool.false_eq_true, if_false, if_true]
            refine ⟨fun _ => ?_, fun hbad => absurd (Or.inl hanswers) hbad⟩
            exact concludeSse_succeeded (by rw [takeLines_done hk' hdone]; exact hk') hdone hstatus
              herror
          | failed hnot hnot' hok hunmatched hcall =>
            obtain ⟨k', hk', hdone, hstatus⟩ := hcall
            have hended : ended (s.child.onMessage J m s.reader.event.data).1 i = true := by
              simp [ended, hk', hdone]
            simp only [hok, hunmatched, hended, hfinal, hokStatus, ne_eq, not_true_eq_false,
              Bool.false_eq_true, if_false, if_true]
            refine hfails (fun ha => ha.elim hnot fun hr => hnot' hr.1) ?_
            exact concludeSse_failed (by rw [takeLines_done hk' hdone]; exact hk') hdone hstatus
          | refused hnot hnot' hbad hcall =>
            refine hfails (fun ha => ha.elim hnot fun hr => hnot' hr.1) ?_
            by_cases hneg : (s.child.onMessage J m s.reader.event.data).2 < 0
            · simp only [hneg, if_true]
              exact concludeSse_pending hcall h.isPending
            · have hunmatched := hbad.resolve_left hneg
              simp only [hneg, if_false, if_pos hunmatched, hprotocol, if_true]
              exact concludeSse_pending hcall h.isPending
    · simp only [hblank, if_false]
      by_cases hbad : (s.reader.field m adapter (.of l)).2 < 0
      · simp only [hbad, if_true]
        exact hfails (hnone _) (concludeSse_pending h.call h.isPending)
      · simp only [hbad, if_false]
        exact ih h hfinal

/-- The events of a body are its complete events within the limits, the last one is the
response, and the others are requests or notifications. -/
def WellFormed (J : JsonLibrary) (m : Memory) (k : Call) (c : Child) (overflow : Bool)
    (events : List Bytes × Bool) : Prop :=
  overflow = false ∧ events.2 = true ∧
    ∃ pre e, events.1 = pre ++ [e] ∧ (∀ d ∈ pre, IsRequest J m c d) ∧ Answers J m c k e

/-- Where the response is reached, it is all that is left of the body, and no response to
another call stands in front of it. -/
def EndsTheBody (J : JsonLibrary) (m : Memory) (i : Fin maxCalls) (k : Call) (c : Child)
    (overflow : Bool) (events : List Bytes × Bool) : Prop :=
  overflow = false → ∀ pre e post, events.1 = pre ++ e :: post → Passing J m i c pre →
    Answers J m c k e → post = [] ∧ events.2 = true ∧ ∀ d ∈ pre, IsRequest J m c d

theorem completeSse_ends {c : Child} (h : Carried c i k) (eventLimit : ℕ)
    (lastEvent : Buffer) (overflow : Bool) (body : Bytes) :
    EndsAs (completeSse J m adapter i c eventLimit lastEvent overflow body) i
      (overflow = false ∧ Answered J m i k c
        (bodyEvents m adapter (.start eventLimit lastEvent) body).1) := by
  cases overflow with
  | true =>
    have hfailed := finishError_pending h.call h.isPending (by decide : Status.limit < 0)
    exact ⟨fun hboth => absurd hboth.1 (by decide), fun _ => hfailed⟩
  | false =>
    have hrun (st : Status) := @takeLines_ends J m adapter i k
      ⟨c, .start eventLimit lastEvent, false⟩ h rfl (lines 10 body).1 st
    have hbody : EndsAs (completeSse J m adapter i c eventLimit lastEvent false body) i
        (Answered J m i k c (bodyEvents m adapter (.start eventLimit lastEvent) body).1) := by
      unfold completeSse Stream.consume
      simp only [Bool.false_eq_true, if_false]
      split_ifs
      · exact hrun _
      · exact hrun _
      · exact hrun _
    rw [hbody.iff]
    exact ⟨fun ha => ⟨rfl, ha⟩, And.right⟩

theorem passing_of_requests {c : Child} {pre : List Bytes} (h : ∀ d ∈ pre, IsRequest J m c d) :
    Passing J m i c pre := by
  induction pre generalizing c with
  | nil => trivial
  | cons d pre ih =>
    refine ⟨Or.inl (h d List.mem_cons_self), ih fun d' hd' => ?_⟩
    rw [IsRequest, classify_onMessage]
    exact h d' (List.mem_cons_of_mem d hd')

/-- A call ends with success just for a well-formed body exactly when nothing follows the
response and nothing but requests and notifications stands in front of it. -/
theorem completeSse_iff {c : Child} (h : Carried c i k) (eventLimit : ℕ) (lastEvent : Buffer)
    (overflow : Bool) (body : Bytes) :
    EndsAs (completeSse J m adapter i c eventLimit lastEvent overflow body) i
        (WellFormed J m k c overflow
          (bodyEvents m adapter (.start eventLimit lastEvent) body)) ↔
      EndsTheBody J m i k c overflow
        (bodyEvents m adapter (.start eventLimit lastEvent) body) := by
  rw [(completeSse_ends h eventLimit lastEvent overflow body).iff]
  generalize bodyEvents m adapter (.start eventLimit lastEvent) body = events
  constructor
  · rintro hiff hover pre e post hevents hpre hanswers
    obtain ⟨-, hclean, pre', e', hevents', hrequests, hanswers'⟩ :=
      hiff.mp ⟨hover, pre, e, post, hevents, hpre, hanswers⟩
    rw [hevents] at hevents'
    rcases List.eq_nil_or_concat post with rfl | ⟨rest, d, rfl⟩
    · obtain ⟨rfl, -⟩ := List.append_inj' hevents' rfl
      exact ⟨rfl, hclean, hrequests⟩
    · -- the response would be among the requests
      have hmem : e ∈ pre' := by
        rw [List.concat_eq_append, ← List.cons_append, ← List.append_assoc] at hevents'
        rw [← (List.append_inj' hevents' rfl).1]
        simp
      obtain ⟨payload, hresponse, -⟩ := hanswers
      cases hresponse.symm.trans (hrequests e hmem)
  · intro hends
    constructor
    · rintro ⟨hover, pre, e, post, hevents, hpre, hanswers⟩
      obtain ⟨rfl, hclean, hrequests⟩ := hends hover pre e post hevents hpre hanswers
      exact ⟨hover, hclean, pre, e, hevents, hrequests, hanswers⟩
    · rintro ⟨hover, -, pre, e, hevents, hrequests, hanswers⟩
      exact ⟨hover, pre, e, [], hevents, passing_of_requests hrequests, hanswers⟩

end Proofs

/-! ## A response, and a notification behind it -/

private def answerText : Bytes :=
  ascii "\x7b\"jsonrpc\":\"2.0\",\"id\":1,\"result\":\x7b\x7d\x7d"

private def noteText : Bytes := ascii "\x7b\"jsonrpc\":\"2.0\",\"method\":\"m\"\x7d"

/-- A library that knows these two texts. -/
private def twoTexts : JsonLibrary where
  parse _ text :=
    if text = answerText then
      some (.object [("jsonrpc", .string "2.0"), ("id", .integer 1), ("result", .object [])])
    else if text = noteText then
      some (.object [("jsonrpc", .string "2.0"), ("method", .string "m")])
    else none
  dump _ := some (ascii "\x7b\x7d")

private def ampleMemory : Memory := ⟨fun _ => true, fun _ => true, fun _ => true⟩

private def httpServer : Mcp.ServerConfig := Mcp.Child.smallServer

private def firstSlot : Fin maxCalls := ⟨0, by decide⟩

/-- The server, with one call. -/
private def waiting : Child := (Child.init httpServer).issue firstSlot .toolTest 0

private def theCall : Call := ⟨1, .toolTest, 0, false, Status.ok, [], 0⟩

/-- A text as one event. -/
private def eventOf (text : Bytes) : Bytes := ascii "data: " ++ text ++ [10, 10]

theorem waiting_carried : Carried waiting firstSlot theCall :=
  ⟨by decide, rfl, rfl, by decide⟩

theorem completeSse_alone :
    EndsAs (completeSse twoTexts ampleMemory .modern firstSlot waiting 1024 (Buffer.init sessionMax) false
        (eventOf answerText)) firstSlot
      (WellFormed twoTexts ampleMemory theCall waiting false
        (bodyEvents ampleMemory .modern (.start 1024 (Buffer.init sessionMax))
          (eventOf answerText))) := by
  refine (completeSse_iff waiting_carried 1024 (Buffer.init sessionMax) false
    (eventOf answerText)).mpr ?_
  have hevents : bodyEvents ampleMemory .modern (.start 1024 (Buffer.init sessionMax))
      (eventOf answerText) = ([answerText], true) := by
    decide
  rw [hevents]
  intro _ pre e post heq _ _
  have hlen := congrArg List.length heq
  simp only [List.length_append, List.length_cons, List.length_nil] at hlen
  obtain rfl : pre = [] := List.eq_nil_of_length_eq_zero (by omega)
  obtain rfl : post = [] := List.eq_nil_of_length_eq_zero (by omega)
  simp

/-- The notification behind the response is refused, and the call keeps its success. -/
theorem completeSse_late :
    ¬ ∀ (J : JsonLibrary) (m : Memory) (adapter : Adapter) (i : Fin maxCalls) (k : Call) (c : Child)
      (eventLimit : ℕ) (lastEvent : Buffer) (overflow : Bool) (body : Bytes), Carried c i k →
        EndsAs (completeSse J m adapter i c eventLimit lastEvent overflow body) i
          (WellFormed J m k c overflow
            (bodyEvents m adapter (.start eventLimit lastEvent) body)) := by
  intro h
  have hends := h twoTexts ampleMemory .modern firstSlot theCall waiting 1024 (Buffer.init sessionMax) false
    (eventOf answerText ++ eventOf noteText) waiting_carried
  have hevents : bodyEvents ampleMemory .modern (.start 1024 (Buffer.init sessionMax))
      (eventOf answerText ++ eventOf noteText) = ([answerText, noteText], true) := by
    decide
  rw [hevents] at hends
  have hmalformed : ¬ WellFormed twoTexts ampleMemory theCall waiting false
      ([answerText, noteText], true) := by
    rintro ⟨-, -, pre, e, heq, -, payload, hresponse, -⟩
    have hlast := congrArg List.getLast? heq
    simp only [List.getLast?_append, List.getLast?_singleton, Option.some_or] at hlast
    obtain rfl : noteText = e := Option.some.inj hlast
    have hnote : waiting.classify twoTexts ampleMemory noteText = .request := by rfl
    cases hnote.symm.trans hresponse
  obtain ⟨k, hk, -, hneg⟩ := hends.fails hmalformed
  have hstatus : ((completeSse twoTexts ampleMemory .modern firstSlot waiting 1024 (Buffer.init sessionMax)
      false (eventOf answerText ++ eventOf noteText)).calls firstSlot).map Call.status =
        some Status.ok := by
    decide
  rw [hk] at hstatus
  rw [Option.some.inj hstatus] at hneg
  exact absurd hneg (by decide)

end AsmFlow.McpHttp
