import AsmFlow.Http.Feed
import AsmFlow.Library.Runs

/-!
# One thing at a time

What happens to a connection, cut as finely as it can be: the parser makes a
callback, the feed counts or refuses, an exchange answers, the sweep gives up. A
feed is a sequence of such moves, so what holds along every sequence of moves
holds of the server.
-/

namespace AsmFlow.Http

open Library

variable {P O : Type}

/-- A connection, and what its parser has stopped with. -/
structure Dialogue (O : Type) where
  conn : Conn O
  errno : Option Hpe
  deriving DecidableEq, Repr

inductive Move
  | call (x : Call)
  | count (n : ℕ)
  | refuse (id : ErrorId)
  /-- A read that does not fit the inbox. -/
  | overflow
  | deliver
  | resume
  | drain
  | sweep
  deriving DecidableEq, Repr

def Dialogue.start (outbox : O) : Dialogue O := ⟨Conn.fresh outbox, none⟩

/-- A request has been begun and is not finished, on a connection the sweep may answer. -/
def Conn.Unanswered (c : Conn O) : Prop :=
  c.upstream = false ∧ c.closing = false ∧ c.headerBytes ≠ 0 ∧ c.messageDone = false

instance (c : Conn O) : Decidable c.Unanswered :=
  inferInstanceAs (Decidable (_ ∧ _ ∧ _ ∧ _))

namespace Conn

/-- `c`, with all that an answer changes as in `d`. -/
def answered (c d : Conn O) : Conn O :=
  { c with
    outbox := d.outbox, responded := d.responded, fault := d.fault, response := d.response
    requestId := d.requestId, drawn := d.drawn, upstream := d.upstream }

/-- `d` differs from `c` only in what an answer changes. -/
def Answers (c d : Conn O) : Prop := d = c.answered d

theorem Answers.refl (c : Conn O) : Answers c c := rfl

theorem Answers.trans {c d e : Conn O} (h₁ : Answers c d) (h₂ : Answers d e) : Answers c e :=
  (show e = d.answered e from h₂).trans (congrArg (fun x => x.answered e) h₁)

theorem Answers.ended {c d : Conn O} (h : Answers c d) :
    Answers { c with closing := true } { d with closing := true } :=
  (congrArg (fun x : Conn O => ({ x with closing := true } : Conn O)) h :)

theorem setFault_answers (c : Conn O) (id : ErrorId) : Answers c (c.setFault id) := by
  unfold setFault
  cases c.fault with
  | none => rfl
  | some f => rfl

theorem commit_answers (post : O → Reply → O × Status) (c : Conn O) (status : ℕ)
    (flags : HeadFlags) : Answers c (c.commit post status flags).1 := by
  unfold commit
  dsimp only
  split_ifs
  · rfl
  · rfl

/-- `c`, with all that reading on in a message changes as in `d`. -/
def collected (c d : Conn O) : Conn O :=
  { c with
    target := d.target, name := d.name, value := d.value, body := d.body
    bodyBytes := d.bodyBytes, contentLength := d.contentLength, fault := d.fault
    haveCl := d.haveCl, haveTe := d.haveTe, haveAuth := d.haveAuth, haveCtype := d.haveCtype
    auth := d.auth, authAllocated := d.authAllocated, ctype := d.ctype }

/-- `d` differs from `c` only in what a message is collected in. -/
def Collects (c d : Conn O) : Prop := d = c.collected d

theorem Collects.trans {c d e : Conn O} (h₁ : Collects c d) (h₂ : Collects d e) :
    Collects c e :=
  (show e = d.collected e from h₂).trans (congrArg (fun x => x.collected e) h₁)

theorem refuse_collects (c : Conn O) (id : ErrorId) : Collects c (c.refuse id).1 := by
  unfold refuse setFault
  cases c.fault with
  | none => rfl
  | some f => rfl

theorem Collects.refuse {c d : Conn O} (h : Collects c d) (id : ErrorId) :
    Collects c (d.refuse id).1 := h.trans (d.refuse_collects id)

end Conn

/-- A callback that goes on collecting a message. -/
def Call.Collecting : Call → Prop
  | .messageBegin => False
  | .headersComplete _ => False
  | .messageComplete => False
  | _ => True

namespace Server

open Conn

variable (s : Server O) (T : Parser P)

/-- The sweep: a request that was begun and never finished is told so. -/
def timeout (c : Conn O) : Conn O :=
  if c.Unanswered then { (s.sendError c .requestTimeout).1 with closing := true } else c

/-- A move. A parser that has stopped makes no callbacks. -/
def move (l : Dialogue O) : Move → Dialogue O
  | .call x => if l.errno = none then ⟨(s.call l.conn x).1, (s.call l.conn x).2⟩ else l
  | .count n => { l with conn := countHeaderBytes l.conn n }
  | .refuse id => { l with conn := s.refuse l.conn id }
  | .overflow =>
    if l.conn.upstream then
      { l with conn := { l.conn with upstream := false, closing := true, draining := true } }
    else { l with conn := { l.conn.setFault .bodyTooLarge with closing := true } }
  | .deliver => if l.conn.upstream then { l with conn := s.deliver l.conn } else l
  | .resume =>
    if l.conn.upstream then l
    else ⟨{ l.conn with responded := false }, resumeErrno l.errno⟩
  | .drain => { l with conn := { l.conn with draining := true } }
  | .sweep => { l with conn := s.timeout l.conn }

/-! ## What answering leaves alone -/

theorem sendError_answers (c : Conn O) (id : ErrorId) : Answers c (s.sendError c id).1 := by
  unfold sendError
  split_ifs
  · refine Answers.trans ?_ (commit_answers _ _ _ _)
    exact rfl
  · refine Answers.trans ?_ (commit_answers _ _ _ _)
    exact rfl

theorem showPage_answers (c : Conn O) : Answers c (s.showPage c).1 := by
  unfold showPage
  cases s.page c.endpoint c.requests with
  | none => rfl
  | some page =>
    refine Answers.trans ?_ (commit_answers _ _ _ _)
    exact rfl

theorem generation_answers (c : Conn O) : Answers c (s.generation c).1 := by
  unfold generation
  split_ifs
  · exact s.sendError_answers c _
  · exact s.sendError_answers c _
  · exact s.sendError_answers c _
  · exact s.sendError_answers c _
  · cases s.generate c.endpoint c.body c.requests with
    | some id => exact s.sendError_answers c id
    | none => rfl

theorem deliver_answers (c : Conn O) : Answers c (s.deliver c) := by
  unfold deliver
  cases s.exchange c.endpoint c.body c.requests with
  | response status flags body =>
    have hbody : Answers c { c with response := body } := rfl
    exact (hbody.trans (commit_answers _ _ _ _)).trans rfl
  | error id => exact (s.sendError_answers c id).trans rfl

/-- A refusal answers, on a connection that ends. -/
theorem refuse_answers (c : Conn O) (id : ErrorId) :
    Answers { c with closing := true } (s.refuse c id) := by
  have hfault := c.setFault_answers id
  unfold refuse
  dsimp only
  split_ifs
  · exact hfault.ended
  · exact (hfault.trans (s.sendError_answers _ _)).ended

/-- A callback that goes on collecting does nothing else. -/
theorem call_collects (c : Conn O) {x : Call} (hx : x.Collecting) :
    Collects c (s.call c x).1 := by
  cases x with
  | span kind p =>
    cases kind with
    | url =>
      simp only [call, onSpan, onUrl]
      cases extend targetMax c.target p with
      | none => exact c.refuse_collects _
      | some target => rfl
    | headerField =>
      have hnext : Collects c (nextName c) := by
        unfold nextName
        split_ifs
        · rfl
        · rfl
      simp only [call, onSpan, onHeaderField]
      cases extend nameMax (nextName c).name p with
      | none => exact hnext.refuse _
      | some name => exact hnext.trans rfl
    | headerValue =>
      simp only [call, onSpan, onHeaderValue]
      cases extend valueMax c.value p with
      | none => exact c.refuse_collects _
      | some value => rfl
    | body =>
      simp only [call, onSpan, onBody]
      split_ifs
      · exact c.refuse_collects _
      · cases extend s.bodyMax c.body p with
        | none =>
          have hcounted : Collects c { c with bodyBytes := c.bodyBytes + p.length } := rfl
          exact hcounted.refuse _
        | some body => rfl
  | headerFieldComplete => rfl
  | headerValueComplete =>
    simp only [call, onHeaderValueComplete]
    split_ifs
    · unfold onContentLength
      split_ifs
      · exact c.refuse_collects _
      · cases parseU64 c.value with
        | none => exact c.refuse_collects _
        | some n => rfl
    · unfold onTransferEncoding
      split_ifs
      · exact c.refuse_collects _
      · rfl
      · exact c.refuse_collects _
    · unfold onContentType
      cases extend valueMax c.ctype c.value with
      | none => exact c.refuse_collects _
      | some ctype => rfl
    · unfold onCredential
      split_ifs
      · exact c.refuse_collects _
      · cases extend valueMax c.auth c.value with
        | none => exact c.refuse_collects _
        | some auth => rfl
    · rfl
  | unset => rfl
  | bad e => rfl
  | messageBegin => exact hx.elim
  | headersComplete line => exact hx.elim
  | messageComplete => exact hx.elim

/-- A move that is neither a callback nor a count answers, or ends the connection. -/
theorem move_answers (l : Dialogue O) {m : Move} (hcall : ∀ x, m ≠ .call x)
    (hcount : ∀ n, m ≠ .count n) :
    ∃ closing draining, (l.conn.closing = true → closing = true) ∧
      Answers { l.conn with closing := closing, draining := draining } (s.move l m).conn := by
  have hsame {d : Conn O} (h : Answers l.conn d) : ∃ closing draining,
      (l.conn.closing = true → closing = true) ∧
        Answers { l.conn with closing := closing, draining := draining } d :=
    ⟨l.conn.closing, l.conn.draining, id, h⟩
  cases m with
  | call x => exact absurd rfl (hcall x)
  | count n => exact absurd rfl (hcount n)
  | refuse id => exact ⟨true, l.conn.draining, fun _ => rfl, s.refuse_answers l.conn id⟩
  | overflow =>
    rw [move]
    split_ifs
    · exact ⟨true, true, fun _ => rfl, rfl⟩
    · exact ⟨true, l.conn.draining, fun _ => rfl, (l.conn.setFault_answers .bodyTooLarge).ended⟩
  | deliver =>
    rw [move]
    split_ifs
    · exact hsame (s.deliver_answers l.conn)
    · exact hsame rfl
  | resume =>
    rw [move]
    split_ifs
    · exact hsame rfl
    · exact hsame rfl
  | drain => exact ⟨l.conn.closing, true, id, rfl⟩
  | sweep =>
    rw [move, timeout]
    split_ifs
    · exact ⟨true, l.conn.draining, fun _ => rfl,
        (s.sendError_answers l.conn .requestTimeout).ended⟩
    · exact hsame rfl

/-! ## The handler -/

/-- The method of an endpoint. -/
def methodOf (ep : Endpoint) : ℕ := if ep.generates then methodPost else methodGet

/-- Nothing but its credential keeps a request from the handler of its endpoint. -/
def Otherwise (c : Conn O) : Prop :=
  c.fault = none ∧ c.endpoint ≠ .unknown ∧ c.method = methodOf c.endpoint

/-- The handler of its endpoint runs for a request. -/
def Runs (c : Conn O) : Prop := s.checkAuth c = none ∧ Otherwise c

def handler (c : Conn O) : Conn O × Status :=
  if c.endpoint.generates then s.generation c else s.showPage c

/-- A request is answered by the handler, or with an error. -/
theorem answer_cases (c : Conn O) :
    (s.Runs c ∧ s.answer c = s.handler c) ∨
      (¬s.Runs c ∧ ∃ id, s.answer c = s.sendError c id ∨
        s.answer c = s.sendError (c.setFault id) id) := by
  unfold Runs Otherwise answer handler methodOf
  cases hfault : c.fault with
  | some id => exact Or.inr ⟨fun h => (nomatch h.2.1), id, Or.inl rfl⟩
  | none =>
    dsimp only
    by_cases hknown : c.endpoint = .unknown
    · rw [if_pos hknown]
      exact Or.inr ⟨fun h => h.2.2.1 hknown, _, Or.inl rfl⟩
    · rw [if_neg hknown]
      cases hauth : s.checkAuth c with
      | some id => exact Or.inr ⟨fun h => (nomatch h.1), id, Or.inr rfl⟩
      | none =>
        dsimp only
        cases hgenerates : c.endpoint.generates with
        | true =>
          by_cases hmethod : c.method = methodPost
          · exact Or.inl ⟨⟨rfl, rfl, hknown, hmethod⟩, if_pos hmethod⟩
          · exact Or.inr ⟨fun h => hmethod h.2.2.2, _, Or.inl (if_neg hmethod)⟩
        | false =>
          by_cases hmethod : c.method = methodGet
          · exact Or.inl ⟨⟨rfl, rfl, hknown, hmethod⟩, if_pos hmethod⟩
          · exact Or.inr ⟨fun h => hmethod h.2.2.2, _, Or.inl (if_neg hmethod)⟩

/-- The dispatcher only answers. -/
theorem dispatch_answers (c : Conn O) : Answers c (s.dispatch c).1 := by
  unfold dispatch
  have hid : Answers c (s.assignRequestId c) := rfl
  rcases s.answer_cases (s.assignRequestId c) with ⟨-, heq⟩ | ⟨-, id, heq | heq⟩
  · rw [heq, handler]
    split_ifs
    · exact hid.trans (s.generation_answers _)
    · exact hid.trans (s.showPage_answers _)
  · rw [heq]
    exact hid.trans (s.sendError_answers _ _)
  · rw [heq]
    exact (hid.trans (setFault_answers _ _)).trans (s.sendError_answers _ _)

/-! ## The feed as moves -/

/-- What a sequence of moves can make of a dialogue. -/
def Reaches (l m : Dialogue O) : Prop := ∃ ms, run s.move l ms = m

variable {s}

theorem Reaches.refl (l : Dialogue O) : s.Reaches l l := ⟨[], rfl⟩

theorem Reaches.trans {k l m : Dialogue O} (h₁ : s.Reaches k l) (h₂ : s.Reaches l m) :
    s.Reaches k m := by
  obtain ⟨ms, rfl⟩ := h₁
  obtain ⟨ns, rfl⟩ := h₂
  exact ⟨ms ++ ns, run_append k ms ns⟩

theorem reaches_move (l : Dialogue O) (m : Move) : s.Reaches l (s.move l m) := ⟨[m], rfl⟩

/-- The callbacks of one call of the parser. -/
theorem reaches_perform (c : Conn O) (cs : List (Call × ℕ)) :
    s.Reaches ⟨c, none⟩
      ⟨(perform s.call c cs).1, (perform s.call c cs).2.map Prod.fst⟩ := by
  induction cs generalizing c with
  | nil => exact Reaches.refl _
  | cons x cs ih =>
    obtain ⟨x, n⟩ := x
    have hfirst : s.Reaches ⟨c, none⟩ ⟨(s.call c x).1, (s.call c x).2⟩ := reaches_move _ (.call x)
    rw [perform_cons]
    cases hstop : (s.call c x).2 with
    | none =>
      rw [hstop] at hfirst
      exact hfirst.trans (ih _)
    | some e =>
      rw [hstop] at hfirst
      exact hfirst

theorem reaches_execute (r : Reader P O) (d : Bytes) :
    s.Reaches ⟨r.conn, r.errno⟩ ⟨(s.execute T r d).1.conn, (s.execute T r d).1.errno⟩ := by
  obtain ⟨c, p, errno⟩ := r
  cases errno with
  | some e => exact Reaches.refl _
  | none =>
    have hcalls := reaches_perform (s := s) c (joined Call.join (T.trace p 0 d))
    unfold execute
    dsimp only
    generalize perform s.call c (joined Call.join (T.trace p 0 d)) = r at hcalls
    obtain ⟨conn, _ | ⟨e, n⟩⟩ := r
    · exact hcalls
    · exact hcalls

theorem reaches_stopped (c : Conn O) (errno : Option Hpe) (e : Hpe) (consumed : ℕ) :
    s.Reaches ⟨c, errno⟩ ⟨s.stopped c e consumed, errno⟩ := by
  have hcount : s.Reaches ⟨c, errno⟩ ⟨countHeaderBytes c consumed, errno⟩ :=
    reaches_move _ (.count consumed)
  unfold stopped
  dsimp only
  split_ifs
  · exact hcount
  · exact hcount
  · exact hcount.trans (reaches_move _ (.refuse (faultOf e)))

/-- A feed is a sequence of moves. -/
theorem reaches_feed (x : Client P O) :
    s.Reaches ⟨x.conn, x.errno⟩ ⟨(s.feed T x).conn, (s.feed T x).errno⟩ := by
  have hoffer : ∀ n, s.Reaches ⟨x.conn, x.errno⟩ ⟨(s.offer T x n).conn, (s.offer T x n).errno⟩ := by
    intro n
    have hcalls := reaches_execute (s := s) T x.toReader (x.inbox.take n)
    unfold offer
    generalize s.execute T x.toReader (x.inbox.take n) = r at hcalls
    obtain ⟨r, _ | ⟨e, consumed⟩⟩ := r
    · have hcount : s.Reaches ⟨x.conn, x.errno⟩ ⟨countHeaderBytes r.conn n, r.errno⟩ :=
        hcalls.trans (reaches_move _ (.count n))
      dsimp only
      split_ifs
      · exact hcount.trans (reaches_move _ (.refuse .headersTooLarge))
      · exact hcount
    · exact hcalls.trans (reaches_stopped r.conn r.errno e consumed)
  unfold feed
  split_ifs
  · exact Reaches.refl _
  · exact Reaches.refl _
  · exact reaches_move _ (.refuse .headersTooLarge)
  · exact hoffer _

/-- So is a read. -/
theorem reaches_readable (x : Client P O) (d : Bytes) :
    s.Reaches ⟨x.conn, x.errno⟩ ⟨(s.readable T x d).conn, (s.readable T x d).errno⟩ := by
  have hover := reaches_move (s := s) ⟨x.conn, x.errno⟩ .overflow
  unfold readable
  split_ifs with hdraining hfits hup
  · exact Reaches.refl _
  · exact reaches_feed T { x with inbox := x.inbox ++ d }
  · rw [move, if_pos hup] at hover
    exact hover
  · rw [move, if_neg hup] at hover
    exact hover.trans
      (reaches_feed T { x with conn := { x.conn.setFault .bodyTooLarge with closing := true } })

/-- So is the end of an exchange, with the feed behind it. -/
theorem reaches_exchangeDone (x : Client P O) :
    s.Reaches ⟨x.conn, x.errno⟩ ⟨(s.exchangeDone T x).conn, (s.exchangeDone T x).errno⟩ := by
  unfold exchangeDone
  by_cases hup : x.conn.upstream = false
  · rw [if_pos hup]
    exact Reaches.refl _
  · rw [if_neg hup]
    have hdeliver : s.Reaches ⟨x.conn, x.errno⟩ ⟨s.deliver x.conn, x.errno⟩ := by
      have hmove := reaches_move (s := s) ⟨x.conn, x.errno⟩ .deliver
      rw [move, if_pos (Bool.not_eq_false _ ▸ hup)] at hmove
      exact hmove
    have hresume : s.Reaches ⟨x.conn, x.errno⟩
        ⟨{ s.deliver x.conn with responded := false }, resumeErrno x.errno⟩ :=
      hdeliver.trans (reaches_move _ .resume)
    dsimp only
    split_ifs
    · exact hresume.trans
        (reaches_feed T ⟨resume { x.toReader with conn := s.deliver x.conn }, x.inbox⟩)
    · exact hresume.trans (reaches_move _ .drain)

end Server
end AsmFlow.Http
