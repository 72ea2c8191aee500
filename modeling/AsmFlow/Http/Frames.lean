import AsmFlow.Http.Incremental

/-!
# What the callbacks leave alone

No callback looks at the count of header bytes, and but for the start of a new
message none changes it. A connection that is live, neither suspended nor
closing, stays so until a callback stops the parse.
-/

namespace AsmFlow.Http

open Library

variable {O : Type}

namespace Conn

/-- The same connection at another count of header bytes. -/
@[simps] def withHeader (c : Conn O) (h : ℕ) : Conn O := { c with headerBytes := h }

/-- `d` is as suspended, closing and draining as `c`, and has not unfinished its header
section. -/
structure Steady (c d : Conn O) : Prop where
  upstream : d.upstream = c.upstream
  closing : d.closing = c.closing
  draining : d.draining = c.draining
  headersDone : c.headersDone = true → d.headersDone = true

theorem Steady.refl (c : Conn O) : Steady c c := ⟨rfl, rfl, rfl, id⟩

theorem Steady.trans {c d e : Conn O} (h₁ : Steady c d) (h₂ : Steady d e) : Steady c e :=
  ⟨h₂.upstream.trans h₁.upstream, h₂.closing.trans h₁.closing, h₂.draining.trans h₁.draining,
    fun h => h₂.headersDone (h₁.headersDone h)⟩

/-- What `f` does to `c` it does at every count of header bytes, which it keeps. -/
def Does {α : Type} (f : Conn O → Conn O × α) (c : Conn O) (Q : Conn O → α → Prop) : Prop :=
  ∃ d a, (∀ h, f (c.withHeader h) = (d.withHeader h, a)) ∧ Q d a

theorem Does.at {α : Type} {f : Conn O → Conn O × α} {c : Conn O} {Q : Conn O → α → Prop}
    (h : Does f c Q) :
    (∀ n, f (c.withHeader n) = ((f c).1.withHeader n, (f c).2)) ∧
      ∃ d, (f c).1 = d.withHeader c.headerBytes ∧ Q d (f c).2 := by
  obtain ⟨d, a, heq, hQ⟩ := h
  have hself : f c = (d.withHeader c.headerBytes, a) := heq c.headerBytes
  rw [hself]
  exact ⟨heq, d, rfl, hQ⟩

theorem Does.mono {α : Type} {f : Conn O → Conn O × α} {c : Conn O} {Q R : Conn O → α → Prop}
    (h : Does f c Q) (hQR : ∀ d a, Q d a → R d a) : Does f c R := by
  obtain ⟨d, a, heq, hQ⟩ := h
  exact ⟨d, a, heq, hQR d a hQ⟩

/-- A callback goes on, or stops the parse with a fault. -/
def Continues (c d : Conn O) (stop : Option Hpe) : Prop :=
  Steady c d ∧ (stop = none ∨ (stop = some .user ∧ d.fault.isSome = true))

/-- What an error response is made from. -/
def voice (c : Conn O) : O × Endpoint × Option ErrorId × Bool × Bytes × ℕ :=
  (c.outbox, c.endpoint, c.fault, c.responded, c.requestId, c.drawn)

/-- A callback that only reads more of the header section or the body. -/
def Passes (c d : Conn O) (stop : Option Hpe) : Prop :=
  Continues c d stop ∧ (stop = none → d.voice = c.voice ∧ d.headersDone = c.headersDone)

theorem setFault_does (id : ErrorId) (c : Conn O) :
    ∃ d, (∀ h, (c.withHeader h).setFault id = d.withHeader h) ∧ Steady c d ∧
      d.fault.isSome = true := by
  cases hfault : c.fault with
  | none =>
    refine ⟨{ c with fault := some id }, ?_, ⟨rfl, rfl, rfl, fun h => h⟩, rfl⟩
    intro h
    simp only [setFault, withHeader_fault, hfault]
    rfl
  | some f =>
    refine ⟨c, ?_, Steady.refl c, by rw [hfault]; rfl⟩
    intro h
    simp only [setFault, withHeader_fault, hfault]

/-- A callback that refuses. -/
theorem Does.refuses {f : Conn O → Conn O × Option Hpe} {c d : Conn O} (id : ErrorId)
    (hd : Steady c d) (h : ∀ n, f (c.withHeader n) = (d.withHeader n).refuse id) :
    Does f c (Passes c) := by
  obtain ⟨e, heq, hsteady, hfault⟩ := setFault_does id d
  refine ⟨e, some .user, ?_, ⟨hd.trans hsteady, Or.inr ⟨rfl, hfault⟩⟩, fun hnone => by cases hnone⟩
  intro n
  rw [h, refuse, heq]

/-- A callback that goes on. -/
theorem Does.goesOn {f : Conn O → Conn O × Option Hpe} {c d : Conn O} (hd : Steady c d)
    (hvoice : d.voice = c.voice) (hdone : d.headersDone = c.headersDone)
    (h : ∀ n, f (c.withHeader n) = (d.withHeader n, none)) : Does f c (Passes c) :=
  ⟨d, none, h, ⟨hd, Or.inl rfl⟩, fun _ => ⟨hvoice, hdone⟩⟩

theorem commit_does (post : O → Reply → O × Status) (status : ℕ) (flags : HeadFlags)
    (c : Conn O) : Does (fun c => c.commit post status flags) c (fun d _ => Steady c d) := by
  have hreply : ∀ h, (c.withHeader h).reply status flags = c.reply status flags := fun _ => rfl
  rcases hpost : post c.outbox (c.reply status flags) with ⟨outbox, st⟩
  by_cases hst : st < 0
  · refine ⟨{ c with outbox := outbox }, st, ?_, ⟨rfl, rfl, rfl, fun h => h⟩⟩
    intro h
    simp only [commit, withHeader_outbox, hreply, hpost, if_pos hst]
    rfl
  · refine ⟨{ c with outbox := outbox, responded := true }, .ok, ?_, ⟨rfl, rfl, rfl, fun h => h⟩⟩
    intro h
    simp only [commit, withHeader_outbox, hreply, hpost, if_neg hst]
    rfl

end Conn

namespace Server

open Conn

variable (s : Server O)

/-! ## The callbacks -/

theorem onUrl_does (p : Bytes) (c : Conn O) : Does (fun c => onUrl c p) c (Passes c) := by
  cases hp : extend targetMax c.target p with
  | none =>
    apply Does.refuses .headersTooLarge (Steady.refl c)
    intro h
    simp only [onUrl, withHeader_target, hp]
  | some grown =>
    apply Does.goesOn (⟨rfl, rfl, rfl, fun h => h⟩ : Steady c { c with target := grown }) rfl rfl
    intro h
    simp only [onUrl, withHeader_target, hp]
    rfl

theorem nextName_does (c : Conn O) :
    (∀ h, nextName (c.withHeader h) = (nextName c).withHeader h) ∧ Steady c (nextName c) ∧
      (nextName c).voice = c.voice ∧ (nextName c).headersDone = c.headersDone := by
  by_cases hvalue : c.value = []
  · constructor
    · intro h
      simp only [nextName, withHeader_value, if_pos hvalue]
    · rw [nextName, if_pos hvalue]
      exact ⟨Steady.refl c, rfl, rfl⟩
  · constructor
    · intro h
      simp only [nextName, withHeader_value, if_neg hvalue]
      rfl
    · rw [nextName, if_neg hvalue]
      exact ⟨⟨rfl, rfl, rfl, fun h => h⟩, rfl, rfl⟩

theorem onHeaderField_does (p : Bytes) (c : Conn O) :
    Does (fun c => onHeaderField c p) c (Passes c) := by
  obtain ⟨hnext, hsteady, hvoice, hdone⟩ := nextName_does c
  cases hp : extend nameMax (nextName c).name p with
  | none =>
    apply Does.refuses .headersTooLarge hsteady
    intro h
    simp only [onHeaderField, hnext, withHeader_name, hp]
  | some grown =>
    have hnamed : Steady (nextName c) { nextName c with name := grown } :=
      ⟨rfl, rfl, rfl, fun h => h⟩
    apply Does.goesOn (hsteady.trans hnamed) hvoice hdone
    intro h
    simp only [onHeaderField, hnext, withHeader_name, hp]
    rfl

theorem onHeaderValue_does (p : Bytes) (c : Conn O) :
    Does (fun c => onHeaderValue c p) c (Passes c) := by
  cases hp : extend valueMax c.value p with
  | none =>
    apply Does.refuses .headersTooLarge (Steady.refl c)
    intro h
    simp only [onHeaderValue, withHeader_value, hp]
  | some grown =>
    apply Does.goesOn (⟨rfl, rfl, rfl, fun h => h⟩ : Steady c { c with value := grown }) rfl rfl
    intro h
    simp only [onHeaderValue, withHeader_value, hp]
    rfl

theorem onBody_does (p : Bytes) (c : Conn O) : Does (fun c => s.onBody c p) c (Passes c) := by
  by_cases hlarge : s.bodyMax < c.bodyBytes + p.length
  · apply Does.refuses .bodyTooLarge (Steady.refl c)
    intro h
    simp only [onBody, withHeader_bodyBytes, if_pos hlarge]
  · cases hp : extend s.bodyMax c.body p with
    | none =>
      have hcounted : Steady c { c with bodyBytes := c.bodyBytes + p.length } :=
        ⟨rfl, rfl, rfl, fun h => h⟩
      apply Does.refuses .bodyTooLarge hcounted
      intro h
      simp only [onBody, withHeader_bodyBytes, withHeader_body, if_neg hlarge, hp]
      rfl
    | some grown =>
      have hstored : Steady c { c with bodyBytes := c.bodyBytes + p.length, body := grown } :=
        ⟨rfl, rfl, rfl, fun h => h⟩
      apply Does.goesOn hstored rfl rfl
      intro h
      simp only [onBody, withHeader_bodyBytes, withHeader_body, if_neg hlarge, hp]
      rfl

theorem onSpan_does (p : Bytes) (kind : Span) (c : Conn O) :
    Does (fun c => s.onSpan c p kind) c (Passes c) := by
  cases kind with
  | url => exact onUrl_does p c
  | headerField => exact onHeaderField_does p c
  | headerValue => exact onHeaderValue_does p c
  | body => exact s.onBody_does p c

theorem onContentLength_does (c : Conn O) : Does onContentLength c (Passes c) := by
  by_cases hhave : (c.haveCl || c.haveTe) = true
  · apply Does.refuses .smuggling (Steady.refl c)
    intro h
    simp only [onContentLength, withHeader_haveCl, withHeader_haveTe, if_pos hhave]
  · cases hparse : parseU64 c.value with
    | none =>
      apply Does.refuses .smuggling (Steady.refl c)
      intro h
      simp only [onContentLength, withHeader_haveCl, withHeader_haveTe, withHeader_value,
        if_neg hhave, hparse]
    | some n =>
      have hdeclared : Steady c { c with contentLength := some n, haveCl := true } :=
        ⟨rfl, rfl, rfl, fun h => h⟩
      apply Does.goesOn hdeclared rfl rfl
      intro h
      simp only [onContentLength, withHeader_haveCl, withHeader_haveTe, withHeader_value,
        if_neg hhave, hparse]
      rfl

theorem onTransferEncoding_does (c : Conn O) : Does onTransferEncoding c (Passes c) := by
  by_cases hhave : (c.haveTe || c.haveCl) = true
  · apply Does.refuses .smuggling (Steady.refl c)
    intro h
    simp only [onTransferEncoding, withHeader_haveCl, withHeader_haveTe, if_pos hhave]
  · by_cases hchunked : isCi c.value (ascii "chunked") = true
    · apply Does.goesOn (⟨rfl, rfl, rfl, fun h => h⟩ : Steady c { c with haveTe := true }) rfl rfl
      intro h
      simp only [onTransferEncoding, withHeader_haveCl, withHeader_haveTe, withHeader_value,
        if_neg hhave, if_pos hchunked]
      rfl
    · apply Does.refuses .smuggling (Steady.refl c)
      intro h
      simp only [onTransferEncoding, withHeader_haveCl, withHeader_haveTe, withHeader_value,
        if_neg hhave, if_neg hchunked]

theorem onContentType_does (c : Conn O) : Does onContentType c (Passes c) := by
  cases hgrown : extend valueMax c.ctype c.value with
  | none =>
    apply Does.refuses .headersTooLarge (Steady.refl c)
    intro h
    simp only [onContentType, withHeader_ctype, withHeader_value, hgrown]
  | some ctype =>
    have htyped : Steady c { c with ctype := ctype, haveCtype := true } :=
      ⟨rfl, rfl, rfl, fun h => h⟩
    apply Does.goesOn htyped rfl rfl
    intro h
    simp only [onContentType, withHeader_ctype, withHeader_value, hgrown]
    rfl

theorem onCredential_does (c : Conn O) : Does onCredential c (Passes c) := by
  by_cases hhave : c.haveAuth = true
  · apply Does.refuses .smuggling (Steady.refl c)
    intro h
    simp only [onCredential, withHeader_haveAuth, if_pos hhave]
  · cases hgrown : extend valueMax c.auth c.value with
    | none =>
      apply Does.refuses .headersTooLarge (Steady.refl c)
      intro h
      simp only [onCredential, withHeader_haveAuth, withHeader_auth, withHeader_value,
        if_neg hhave, hgrown]
    | some auth =>
      have hpresented : Steady c { c with
          auth := auth
          authAllocated := c.authAllocated || !c.value.isEmpty
          haveAuth := true } := ⟨rfl, rfl, rfl, fun h => h⟩
      apply Does.goesOn hpresented rfl rfl
      intro h
      simp only [onCredential, withHeader_haveAuth, withHeader_auth, withHeader_value,
        if_neg hhave, hgrown]
      rfl

theorem onHeaderValueComplete_does (c : Conn O) :
    Does s.onHeaderValueComplete c (Passes c) := by
  by_cases hcl : isCi c.name (ascii "content-length") = true
  · obtain ⟨d, a, heq, hd⟩ := onContentLength_does c
    refine ⟨d, a, ?_, hd⟩
    intro h
    simp only [onHeaderValueComplete, withHeader_name, if_pos hcl, heq]
  · by_cases hte : isCi c.name (ascii "transfer-encoding") = true
    · obtain ⟨d, a, heq, hd⟩ := onTransferEncoding_does c
      refine ⟨d, a, ?_, hd⟩
      intro h
      simp only [onHeaderValueComplete, withHeader_name, if_neg hcl, if_pos hte, heq]
    · by_cases hctype : isCi c.name (ascii "content-type") = true
      · obtain ⟨d, a, heq, hd⟩ := onContentType_does c
        refine ⟨d, a, ?_, hd⟩
        intro h
        simp only [onHeaderValueComplete, withHeader_name, if_neg hcl, if_neg hte, if_pos hctype,
          heq]
      · by_cases hauth : s.isCredential c.name = true
        · obtain ⟨d, a, heq, hd⟩ := onCredential_does c
          refine ⟨d, a, ?_, hd⟩
          intro h
          simp only [onHeaderValueComplete, withHeader_name, if_neg hcl, if_neg hte,
            if_neg hctype, if_pos hauth, heq]
        · apply Does.goesOn (Steady.refl c) rfl rfl
          intro h
          simp only [onHeaderValueComplete, withHeader_name, if_neg hcl, if_neg hte,
            if_neg hctype, if_neg hauth]

theorem onHeadersComplete_does (line : RequestLine) (c : Conn O) :
    Does (fun c => s.onHeadersComplete c line) c (Continues c) := by
  have hdone : Steady c { c with headersDone := true, method := line.method } :=
    ⟨rfl, rfl, rfl, fun _ => rfl⟩
  by_cases hversion : line.major ≠ 1 ∨ 1 < line.minor
  · refine (Does.refuses .version hdone ?_).mono fun _ _ h => h.1
    intro h
    simp only [onHeadersComplete, if_pos hversion]
    rfl
  · by_cases hupgrade : line.upgrade = true
    · refine (Does.refuses .malformed hdone ?_).mono fun _ _ h => h.1
      intro h
      simp only [onHeadersComplete, if_neg hversion, if_pos hupgrade]
      rfl
    · have hkept : Steady c { c with
          headersDone := true
          method := line.method
          keepAlive := c.keepAlive || line.keepAlive } := ⟨rfl, rfl, rfl, fun _ => rfl⟩
      by_cases htarget : c.target.head? ≠ some 47
      · refine (Does.refuses .malformed hkept ?_).mono fun _ _ h => h.1
        intro h
        simp only [onHeadersComplete, if_neg hversion, if_neg hupgrade, withHeader_target,
          if_pos htarget]
        rfl
      · have hresolved : Steady c { c with
            headersDone := true
            method := line.method
            keepAlive := c.keepAlive || line.keepAlive
            endpoint := resolveEndpoint c.target } := ⟨rfl, rfl, rfl, fun _ => rfl⟩
        cases hlarge : s.declaredTooLarge { c with
            headersDone := true
            method := line.method
            keepAlive := c.keepAlive || line.keepAlive
            endpoint := resolveEndpoint c.target } with
        | true =>
          refine (Does.refuses .bodyTooLarge hresolved ?_).mono fun _ _ h => h.1
          intro h
          simp only [onHeadersComplete, if_neg hversion, if_neg hupgrade, withHeader_target,
            if_neg htarget]
          exact if_pos hlarge
        | false =>
          refine ⟨_, none, ?_, hresolved, Or.inl rfl⟩
          intro h
          simp only [onHeadersComplete, if_neg hversion, if_neg hupgrade, withHeader_target,
            if_neg htarget]
          exact if_neg (by rw [Bool.not_eq_true]; exact hlarge)

/-! ## Answers -/

theorem sendError_does (id : ErrorId) (c : Conn O) :
    Does (fun c => s.sendError c id) c (fun d _ => Steady c d) := by
  by_cases hid : c.requestId = []
  · obtain ⟨d, st, heq, hd⟩ := commit_does s.post id.status id.headFlags
      { s.assignRequestId c with response := s.errorBody id (s.assignRequestId c).requestId }
    refine ⟨d, st, ?_, hd.upstream, hd.closing, hd.draining, hd.headersDone⟩
    intro h
    simp only [sendError, withHeader_requestId, if_pos hid]
    exact heq h
  · obtain ⟨d, st, heq, hd⟩ := commit_does s.post id.status id.headFlags
      { c with response := s.errorBody id c.requestId }
    refine ⟨d, st, ?_, hd.upstream, hd.closing, hd.draining, hd.headersDone⟩
    intro h
    simp only [sendError, withHeader_requestId, if_neg hid]
    exact heq h

theorem showPage_does (c : Conn O) : Does s.showPage c (fun d _ => Steady c d) := by
  cases hpage : s.page c.endpoint c.requests with
  | none =>
    refine ⟨{ c with response := [] }, .nomem, ?_, rfl, rfl, rfl, fun h => h⟩
    intro h
    simp only [showPage, withHeader_endpoint, withHeader_requests, hpage]
    rfl
  | some shown =>
    obtain ⟨status, body⟩ := shown
    obtain ⟨d, st, heq, hd⟩ := commit_does s.post status .none { c with response := body }
    refine ⟨d, st, ?_, hd.upstream, hd.closing, hd.draining, hd.headersDone⟩
    intro h
    simp only [showPage, withHeader_endpoint, withHeader_requests, hpage]
    exact heq h

/-- A request is answered, or handed over. -/
def Handles (c d : Conn O) (st : Status) : Prop :=
  Steady c d ∨ (st = .ok ∧ Steady { c with upstream := true } d)

/-- An error answer in place of what `f` does. -/
theorem does_sendError {f : Conn O → Conn O × Status} {c d : Conn O} (id : ErrorId)
    (hd : Steady c d) (h : ∀ n, f (c.withHeader n) = s.sendError (d.withHeader n) id) :
    Does f c (Handles c) := by
  obtain ⟨e, st, heq, hsteady⟩ := s.sendError_does id d
  refine ⟨e, st, ?_, Or.inl (hd.trans hsteady)⟩
  intro n
  rw [h]
  exact heq n

theorem generation_does (c : Conn O) : Does s.generation c (Handles c) := by
  by_cases hlength : c.haveCl = false ∧ c.haveTe = false
  · apply s.does_sendError .lengthRequired (Steady.refl c)
    intro h
    simp only [generation, withHeader_haveCl, withHeader_haveTe, if_pos hlength]
  · by_cases htype : c.haveCtype = false ∨ startsCi c.ctype (ascii "application/json") = false
    · apply s.does_sendError .unsupportedCtype (Steady.refl c)
      intro h
      simp only [generation, withHeader_haveCl, withHeader_haveTe, withHeader_haveCtype,
        withHeader_ctype, if_neg hlength]
      rcases htype with hnone | hother
      · rw [if_pos hnone]
      · rw [if_pos hother, ite_self]
    · obtain ⟨hsome, hjson⟩ := not_or.mp htype
      by_cases hbody : c.body = []
      · apply s.does_sendError .invalidJson (Steady.refl c)
        intro h
        simp only [generation, withHeader_haveCl, withHeader_haveTe, withHeader_haveCtype,
          withHeader_ctype, withHeader_body, if_neg hlength, if_neg hsome, if_neg hjson,
          if_pos hbody]
      · cases hgenerate : s.generate c.endpoint c.body c.requests with
        | some id =>
          apply s.does_sendError id (Steady.refl c)
          intro h
          simp only [generation, withHeader_haveCl, withHeader_haveTe, withHeader_haveCtype,
            withHeader_ctype, withHeader_body, withHeader_endpoint, withHeader_requests,
            if_neg hlength, if_neg hsome, if_neg hjson, if_neg hbody, hgenerate]
        | none =>
          refine ⟨{ c with upstream := true }, .ok, ?_, Or.inr ⟨rfl, Steady.refl _⟩⟩
          intro h
          simp only [generation, withHeader_haveCl, withHeader_haveTe, withHeader_haveCtype,
            withHeader_ctype, withHeader_body, withHeader_endpoint, withHeader_requests,
            if_neg hlength, if_neg hsome, if_neg hjson, if_neg hbody, hgenerate]
          rfl

theorem checkAuth_withHeader (c : Conn O) (h : ℕ) :
    s.checkAuth (c.withHeader h) = s.checkAuth c := rfl

theorem answer_does (c : Conn O) : Does s.answer c (Handles c) := by
  cases hfault : c.fault with
  | some id =>
    apply s.does_sendError id (Steady.refl c)
    intro h
    simp only [answer, withHeader_fault, hfault]
  | none =>
    by_cases hunknown : c.endpoint = .unknown
    · apply s.does_sendError .unknownPath (Steady.refl c)
      intro h
      simp only [answer, withHeader_fault, hfault, withHeader_endpoint, if_pos hunknown]
    · cases hauth : s.checkAuth c with
      | some id =>
        obtain ⟨d, heq, hsteady, -⟩ := setFault_does id c
        apply s.does_sendError id hsteady
        intro h
        simp only [answer, withHeader_fault, hfault, withHeader_endpoint, if_neg hunknown,
          checkAuth_withHeader, hauth, heq]
      | none =>
        by_cases hgenerates : c.endpoint.generates = true
        · by_cases hpost : c.method = methodPost
          · obtain ⟨d, st, heq, hd⟩ := s.generation_does c
            refine ⟨d, st, ?_, hd⟩
            intro h
            simp only [answer, withHeader_fault, hfault, withHeader_endpoint,
              if_neg hunknown, checkAuth_withHeader, hauth, if_pos hgenerates,
              withHeader_method, if_pos hpost, heq]
          · apply s.does_sendError .methodPostOnly (Steady.refl c)
            intro h
            simp only [answer, withHeader_fault, hfault, withHeader_endpoint,
              if_neg hunknown, checkAuth_withHeader, hauth, if_pos hgenerates,
              withHeader_method, if_neg hpost]
        · by_cases hget : c.method = methodGet
          · obtain ⟨d, st, heq, hd⟩ := s.showPage_does c
            refine ⟨d, st, ?_, Or.inl hd⟩
            intro h
            simp only [answer, withHeader_fault, hfault, withHeader_endpoint,
              if_neg hunknown, checkAuth_withHeader, hauth, if_neg hgenerates,
              withHeader_method, if_pos hget, heq]
          · apply s.does_sendError .methodGetOnly (Steady.refl c)
            intro h
            simp only [answer, withHeader_fault, hfault, withHeader_endpoint,
              if_neg hunknown, checkAuth_withHeader, hauth, if_neg hgenerates,
              withHeader_method, if_neg hget]

theorem dispatch_does (c : Conn O) : Does s.dispatch c (Handles c) := by
  obtain ⟨d, st, heq, hd⟩ := s.answer_does (s.assignRequestId c)
  refine ⟨d, st, heq, ?_⟩
  rcases hd with hd | ⟨hst, hd⟩
  · exact Or.inl ⟨hd.upstream, hd.closing, hd.draining, hd.headersDone⟩
  · exact Or.inr ⟨hst, hd.upstream, hd.closing, hd.draining, hd.headersDone⟩

/-! ## One call -/

/-- What a callback leaves that does not start a new message. -/
def Outcome (c d : Conn O) (stop : Option Hpe) : Prop :=
  d.draining = c.draining ∧ (c.headersDone = true → d.headersDone = true) ∧
    match stop with
    | none => d.upstream = c.upstream ∧ d.closing = c.closing
    | some .paused => d.upstream = true ∧ d.closing = c.closing
    | some .user => d.upstream = c.upstream ∧ (d.closing = true ∨ d.fault.isSome = true)
    | some (.bad _) => d.upstream = c.upstream ∧ d.closing = c.closing

theorem Outcome.of_continues {c d : Conn O} {stop : Option Hpe} (h : Continues c d stop) :
    Outcome c d stop := by
  obtain ⟨hsteady, rfl | ⟨rfl, hfault⟩⟩ := h
  · exact ⟨hsteady.draining, hsteady.headersDone, hsteady.upstream, hsteady.closing⟩
  · exact ⟨hsteady.draining, hsteady.headersDone, hsteady.upstream, Or.inr hfault⟩

/-- A callback that starts a new message, whatever the count was. -/
def Resets (f : Conn O → Conn O × Option Hpe) (c : Conn O) : Prop :=
  ∃ d : Conn O, (∀ h, f (c.withHeader h) = (d.resetMessage, none)) ∧ d.closing = c.closing

theorem onMessageComplete_cases (c : Conn O) (hidle : c.upstream = false) :
    Does s.onMessageComplete c (Outcome c) ∨ Resets s.onMessageComplete c := by
  obtain ⟨d, st, heq, hd⟩ := s.dispatch_does { c with messageDone := true }
  have hdispatch : ∀ h, s.dispatch { c.withHeader h with messageDone := true } =
      (d.withHeader h, st) := heq
  by_cases hst : st < 0
  · have hsteady : Steady { c with messageDone := true } d := by
      rcases hd with hd | ⟨rfl, -⟩
      · exact hd
      · exact absurd hst (by decide)
    obtain ⟨e, hfault, hfaulted, -⟩ := setFault_does .internal d
    left
    refine ⟨{ e with closing := true }, some .user, ?_, ?_⟩
    · intro h
      simp only [onMessageComplete, hdispatch, if_pos hst, hfault]
      rfl
    · exact ⟨hfaulted.draining.trans hsteady.draining,
        fun h => hfaulted.headersDone (hsteady.headersDone h),
        hfaulted.upstream.trans hsteady.upstream, Or.inl rfl⟩
  · have hafter : ∀ h, s.onMessageComplete (c.withHeader h) =
        afterDispatch ({ d with requests := d.requests + 1 }.withHeader h) := by
      intro h
      simp only [onMessageComplete, hdispatch, if_neg hst]
      rfl
    have hclosing : d.closing = c.closing := by
      rcases hd with hd | ⟨-, hd⟩
      · exact hd.closing
      · exact hd.closing
    have hdraining : d.draining = c.draining := by
      rcases hd with hd | ⟨-, hd⟩
      · exact hd.draining
      · exact hd.draining
    have hdone : c.headersDone = true → d.headersDone = true := by
      rcases hd with hd | ⟨-, hd⟩
      · exact hd.headersDone
      · exact hd.headersDone
    by_cases hup : d.upstream = true
    · left
      refine ⟨{ d with requests := d.requests + 1 }, some .paused, ?_, hdraining, hdone, hup,
        hclosing⟩
      intro h
      rw [hafter]
      exact if_pos hup
    · have hidle' : d.upstream = c.upstream := by
        rw [hidle]
        exact Bool.not_eq_true _ ▸ hup
      by_cases hend : d.keepAlive = false ∨ d.fault.isSome = true
      · left
        refine ⟨{ d with requests := d.requests + 1, closing := true }, some .user, ?_,
          hdraining, hdone, hidle', Or.inl rfl⟩
        intro h
        rw [hafter, afterDispatch]
        exact (if_neg hup).trans (if_pos hend)
      · right
        refine ⟨{ d with requests := d.requests + 1 }, ?_, hclosing⟩
        intro h
        rw [hafter, afterDispatch]
        exact (if_neg hup).trans (if_neg hend)

/-- Everything one call can do to a connection that is not suspended. -/
theorem call_cases (c : Conn O) (x : Call) (hidle : c.upstream = false) :
    Does (fun c => s.call c x) c (Outcome c) ∨ Resets (fun c => s.call c x) c := by
  cases x with
  | span kind p =>
    exact Or.inl ((s.onSpan_does p kind c).mono fun _ _ h => Outcome.of_continues h.1)
  | messageBegin => exact Or.inr ⟨c, fun _ => rfl, rfl⟩
  | headerFieldComplete =>
    exact Or.inl ⟨c, none, fun _ => rfl, rfl, id, rfl, rfl⟩
  | headerValueComplete =>
    exact Or.inl ((s.onHeaderValueComplete_does c).mono fun _ _ h => Outcome.of_continues h.1)
  | headersComplete line =>
    exact Or.inl ((s.onHeadersComplete_does line c).mono fun _ _ => Outcome.of_continues)
  | messageComplete => exact s.onMessageComplete_cases c hidle
  | unset => exact Or.inl ⟨c, none, fun _ => rfl, rfl, id, rfl, rfl⟩
  | bad e => exact Or.inl ⟨c, some (.bad e), fun _ => rfl, rfl, id, rfl, rfl⟩

/-! ## Several calls -/

/-- `f` carries the count of header bytes along. -/
def Keeps {α : Type} (f : Conn O → Conn O × α) (c : Conn O) : Prop :=
  (∀ h, f (c.withHeader h) = ((f c).1.withHeader h, (f c).2)) ∧
    (f c).1.headerBytes = c.headerBytes ∧ (c.headersDone = true → (f c).1.headersDone = true)

/-- `f` starts the count anew, whatever it was. -/
def Forgets {α : Type} (f : Conn O → Conn O × α) (c : Conn O) : Prop :=
  (∀ h, f (c.withHeader h) = f c) ∧ (f c).1.headerBytes = 0

theorem Forgets.of_resets {f : Conn O → Conn O × Option Hpe} {c : Conn O} (h : Resets f c) :
    Forgets f c := by
  obtain ⟨d, heq, -⟩ := h
  have hself : f c = (d.resetMessage, none) := heq c.headerBytes
  constructor
  · intro n
    rw [heq n, hself]
  · rw [hself]
    rfl

theorem call_counts (c : Conn O) (x : Call) (hidle : c.upstream = false) :
    Keeps (fun c => s.call c x) c ∨ Forgets (fun c => s.call c x) c := by
  rcases s.call_cases c x hidle with hdoes | hresets
  · left
    obtain ⟨hblind, d, hd, houtcome⟩ := hdoes.at
    refine ⟨hblind, by rw [hd]; rfl, ?_⟩
    intro hdone
    rw [hd]
    exact houtcome.2.1 hdone
  · exact Or.inr (.of_resets hresets)

/-- A connection that is neither suspended nor at its end. -/
structure Live (c : Conn O) : Prop where
  upstream : c.upstream = false
  closing : c.closing = false
  draining : c.draining = false

/-- How calls leave a live connection, by what stopped them. -/
def Left (c : Conn O) : Option Hpe → Prop
  | none => Live c
  | some .paused => c.upstream = true ∧ c.closing = false ∧ c.draining = false
  | some .user =>
    c.upstream = false ∧ c.draining = false ∧ (c.closing = true ∨ c.fault.isSome = true)
  | some (.bad _) => Live c

theorem call_left {c : Conn O} (hlive : Live c) (x : Call) :
    Left (s.call c x).1 (s.call c x).2 := by
  rcases s.call_cases c x hlive.upstream with hdoes | ⟨d, heq, hclosing⟩
  · obtain ⟨-, d, hd, hdraining, -, houtcome⟩ := hdoes.at
    have hupstream := hlive.upstream
    have hclosing := hlive.closing
    have hdrained := hdraining.trans hlive.draining
    rw [hd]
    cases hstop : (s.call c x).2 with
    | none =>
      rw [hstop] at houtcome
      exact ⟨houtcome.1.trans hupstream, houtcome.2.trans hclosing, hdrained⟩
    | some e =>
      rw [hstop] at houtcome
      cases e with
      | paused => exact ⟨houtcome.1, houtcome.2.trans hclosing, hdrained⟩
      | user => exact ⟨houtcome.1.trans hupstream, hdrained, houtcome.2⟩
      | bad e => exact ⟨houtcome.1.trans hupstream, houtcome.2.trans hclosing, hdrained⟩
  · have hself : s.call c x = (d.resetMessage, none) := heq c.headerBytes
    rw [hself]
    exact ⟨rfl, hclosing.trans hlive.closing, rfl⟩

theorem perform_left {c : Conn O} (hlive : Live c) (cs : List (Call × ℕ)) :
    Left (perform s.call c cs).1 ((perform s.call c cs).2.map Prod.fst) := by
  induction cs generalizing c with
  | nil => exact hlive
  | cons x cs ih =>
    obtain ⟨x, n⟩ := x
    have hcall := s.call_left hlive x
    rw [perform_cons]
    cases hstop : (s.call c x).2 with
    | none =>
      rw [hstop] at hcall
      exact ih hcall
    | some e =>
      rw [hstop] at hcall
      exact hcall

theorem perform_counts {c : Conn O} (hlive : Live c) (cs : List (Call × ℕ)) :
    Keeps (fun c => perform s.call c cs) c ∨ Forgets (fun c => perform s.call c cs) c := by
  induction cs generalizing c with
  | nil => exact Or.inl ⟨fun _ => rfl, rfl, id⟩
  | cons x cs ih =>
    obtain ⟨x, n⟩ := x
    have hcall := s.call_left hlive x
    rcases s.call_counts c x hlive.upstream with ⟨hblind, hbytes, hdone⟩ | ⟨hblind, hbytes⟩
    · unfold Keeps Forgets
      simp only [perform_cons, hblind]
      dsimp only at hbytes hdone
      cases hstop : (s.call c x).2 with
      | none =>
        rw [hstop] at hcall
        rcases ih hcall with ⟨hrest, hrestbytes, hrestdone⟩ | ⟨hrest, hrestbytes⟩
        · exact Or.inl ⟨hrest, hrestbytes.trans hbytes, fun h => hrestdone (hdone h)⟩
        · exact Or.inr ⟨hrest, hrestbytes⟩
      | some e => exact Or.inl ⟨fun _ => rfl, hbytes, hdone⟩
    · right
      unfold Forgets
      simp only [perform_cons, hblind]
      refine ⟨fun _ => trivial, ?_⟩
      cases hstop : (s.call c x).2 with
      | none =>
        rw [hstop] at hcall
        rcases ih hcall with ⟨-, hrestbytes, -⟩ | ⟨-, hrestbytes⟩
        · exact hrestbytes.trans hbytes
        · exact hrestbytes
      | some e => exact hbytes

/-! ## Refusals -/

theorem commit_posts (post : O → Reply → O × Status) (c : Conn O) (status : ℕ)
    (flags : HeadFlags) :
    (c.commit post status flags).1.outbox = (post c.outbox (c.reply status flags)).1 := by
  unfold commit
  dsimp only
  split_ifs <;> rfl

theorem commit_voice {c d : Conn O} (h : c.voice = d.voice) (hfault : c.fault.isSome = true)
    (post : O → Reply → O × Status) (status : ℕ) (flags : HeadFlags) {b b' : Bytes}
    (hbody : b = b') :
    (Conn.commit post { c with response := b } status flags).1.outbox =
      (Conn.commit post { d with response := b' } status flags).1.outbox := by
  subst hbody
  simp only [voice, Prod.mk.injEq] at h
  obtain ⟨houtbox, hendpoint, hfaults, -, hid, -⟩ := h
  have hreply : reply { c with response := b } status flags =
      reply { d with response := b } status flags := by
    simp only [reply, hendpoint, hid, ← hfaults, hfault, Bool.true_or, Bool.not_true,
      Bool.and_false]
  rw [commit_posts, commit_posts, hreply]
  exact congrArg (fun o => (post o _).1) houtbox

theorem voice_setFault {c d : Conn O} (h : c.voice = d.voice) (id : ErrorId) :
    (c.setFault id).voice = (d.setFault id).voice ∧ (c.setFault id).fault.isSome = true := by
  have hfaults : c.fault = d.fault := congrArg (fun v => v.2.2.1) h
  simp only [voice, Prod.mk.injEq] at h
  obtain ⟨houtbox, hendpoint, -, hresponded, hid, hdrawn⟩ := h
  unfold setFault
  rw [← hfaults]
  cases hfault : c.fault with
  | none => simp [voice, houtbox, hendpoint, hresponded, hid, hdrawn]
  | some f => simp [voice, houtbox, hendpoint, hresponded, hid, hdrawn, ← hfaults, hfault]

theorem sendError_voice {c d : Conn O} (h : c.voice = d.voice) (hfault : c.fault.isSome = true)
    (id : ErrorId) : (s.sendError c id).1.outbox = (s.sendError d id).1.outbox := by
  have hids : c.requestId = d.requestId := congrArg (fun v => v.2.2.2.2.1) h
  have hdrawns : c.drawn = d.drawn := congrArg (fun v => v.2.2.2.2.2) h
  have hassigned : (s.assignRequestId c).voice = (s.assignRequestId d).voice := by
    simp only [voice, Prod.mk.injEq] at h
    simp [voice, assignRequestId, h]
  by_cases hid : c.requestId = []
  · have hbody : s.errorBody id (s.assignRequestId c).requestId =
        s.errorBody id (s.assignRequestId d).requestId := by
      simp only [assignRequestId, hdrawns]
    simp only [sendError, if_pos hid, if_pos (hids ▸ hid)]
    exact commit_voice hassigned hfault _ _ _ hbody
  · simp only [sendError, if_neg hid, if_neg (hids ▸ hid)]
    exact commit_voice h hfault _ _ _ (congrArg (s.errorBody id) hids)

/-- What a refusal says depends on the connection's voice alone. -/
theorem refuse_outbox {c d : Conn O} (h : c.voice = d.voice) (id : ErrorId) :
    (s.refuse c id).outbox = (s.refuse d id).outbox := by
  obtain ⟨hvoice, hfault⟩ := voice_setFault h id
  have hresponded : (c.setFault id).responded = (d.setFault id).responded :=
    congrArg (fun v => v.2.2.2.1) hvoice
  have hfaults : (c.setFault id).fault = (d.setFault id).fault :=
    congrArg (fun v => v.2.2.1) hvoice
  simp only [refuse, ← hresponded, ← hfaults]
  split_ifs
  · exact congrArg (fun v => v.1) hvoice
  · exact s.sendError_voice hvoice hfault _

theorem commit_accepted (haccepts : ∀ o r, ¬(s.post o r).2 < 0) (c : Conn O) (status : ℕ)
    (flags : HeadFlags) :
    (c.commit s.post status flags).1 =
      { c with outbox := (s.post c.outbox (c.reply status flags)).1, responded := true } := by
  have hst := haccepts c.outbox (c.reply status flags)
  unfold commit
  dsimp only
  rw [if_neg hst]

theorem sendError_accepted (haccepts : ∀ o r, ¬(s.post o r).2 < 0) (c : Conn O) (id : ErrorId) :
    (s.sendError c id).1.responded = true ∧
      (s.sendError c id).1.headerBytes = c.headerBytes ∧
      (s.sendError c id).1.headersDone = c.headersDone ∧
      (s.sendError c id).1.upstream = c.upstream := by
  unfold sendError
  dsimp only
  rw [s.commit_accepted haccepts]
  split_ifs
  · exact ⟨rfl, rfl, rfl, rfl⟩
  · exact ⟨rfl, rfl, rfl, rfl⟩

/-- A refusal ends the connection; it has been answered where responses are accepted. -/
theorem refuse_ends (haccepts : ∀ o r, ¬(s.post o r).2 < 0) (c : Conn O) (id : ErrorId) :
    (s.refuse c id).closing = true ∧ (s.refuse c id).upstream = c.upstream ∧
      (s.refuse c id).responded = true ∧ (s.refuse c id).headerBytes = c.headerBytes ∧
      (s.refuse c id).headersDone = c.headersDone := by
  have hset : (c.setFault id).upstream = c.upstream ∧
      (c.setFault id).headerBytes = c.headerBytes ∧
      (c.setFault id).headersDone = c.headersDone := by
    unfold setFault
    cases c.fault with
    | none => exact ⟨rfl, rfl, rfl⟩
    | some f => exact ⟨rfl, rfl, rfl⟩
  obtain ⟨hupstream, hbytes, hdone⟩ := hset
  unfold refuse
  dsimp only
  split_ifs with hresponded
  · exact ⟨rfl, hupstream, hresponded, hbytes, hdone⟩
  · obtain ⟨hsent, hsentbytes, hsentdone, hsentup⟩ :=
      s.sendError_accepted haccepts (c.setFault id) ((c.setFault id).fault.getD id)
    exact ⟨rfl, hsentup.trans hupstream, hsent, hsentbytes.trans hbytes, hsentdone.trans hdone⟩

end Server
end AsmFlow.Http
