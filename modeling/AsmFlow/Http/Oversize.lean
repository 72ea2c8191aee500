import AsmFlow.Http.Sections

/-!
# What is answered as too large

A connection is refused with 431 by the count of its header section, and by a
target, a header name or a header value that the buffer it is kept in does not
take. Of a connection that keeps header sections apart, each feed is refused
exactly where the one or the other is exceeded.
-/

namespace AsmFlow.Http

open Library Conn

variable {P O : Type}

namespace Server

/-! ## One callback -/

section

variable {s : Server O} {c : Conn O}

variable (s) in
/-- A callback that brings more of a target, a header name or a header value than the buffer
it is kept in takes. -/
def Overlong (c : Conn O) : Call → Prop
  | .span .url p => targetMax < c.target.length + p.length
  | .span .headerField p => nameMax < (nextName c).name.length + p.length
  | .span .headerValue p => valueMax < c.value.length + p.length
  | .headerValueComplete =>
    isCi c.name (ascii "content-length") = false ∧
      isCi c.name (ascii "transfer-encoding") = false ∧
      if isCi c.name (ascii "content-type") then valueMax < c.ctype.length + c.value.length
      else s.isCredential c.name = true ∧ c.haveAuth = false ∧
        valueMax < c.auth.length + c.value.length
  | _ => False

theorem extend_eq_none {max : ℕ} {data p : Bytes} :
    extend max data p = none ↔ max < data.length + p.length := by
  unfold extend
  split_ifs with h
  · exact iff_of_false nofun (not_lt.mpr h)
  · exact iff_of_true rfl (not_le.mp h)

theorem refuse_stops (hc : c.fault = none) (id : ErrorId) :
    (c.refuse id).2 = some .user ∧ (c.refuse id).1.fault = some id := by
  unfold Conn.refuse setFault
  rw [hc]
  exact ⟨rfl, rfl⟩

/-- What a callback answers to a piece that its buffer takes, or does not. -/
theorem spill_iff {max : ℕ} {data p : Bytes} (take : Bytes → Conn O)
    (htake : ∀ grown, (take grown).fault = none) {d : Conn O} (hd : d.fault = none)
    {r : Conn O × Option Hpe}
    (hr : r = match extend max data p with
      | none => d.refuse .headersTooLarge
      | some grown => (take grown, none)) :
    (r.1.fault = some .headersTooLarge ↔ max < data.length + p.length) ∧
      (max < data.length + p.length → r.2 = some .user) := by
  subst hr
  rw [← extend_eq_none]
  cases extend max data p with
  | none =>
    obtain ⟨hstop, hfault⟩ := refuse_stops hd .headersTooLarge
    exact ⟨iff_of_true hfault rfl, fun _ => hstop⟩
  | some grown =>
    refine ⟨iff_of_false ?_ nofun, nofun⟩
    rw [htake grown]
    nofun

theorem refuse_other (hc : c.fault = none) {id : ErrorId} (hid : id ≠ .headersTooLarge) :
    (c.refuse id).1.fault ≠ some .headersTooLarge := by
  rw [(refuse_stops hc id).2]
  exact fun h => hid (Option.some.inj h)

theorem onContentLength_other (hc : c.fault = none) :
    (onContentLength c).1.fault ≠ some .headersTooLarge := by
  unfold onContentLength
  split_ifs
  · exact refuse_other hc (by decide)
  · cases parseU64 c.value with
    | none => exact refuse_other hc (by decide)
    | some n =>
      intro h
      cases hc.symm.trans h

theorem onTransferEncoding_other (hc : c.fault = none) :
    (onTransferEncoding c).1.fault ≠ some .headersTooLarge := by
  unfold onTransferEncoding
  split_ifs
  · exact refuse_other hc (by decide)
  · intro h
    cases hc.symm.trans h
  · exact refuse_other hc (by decide)

/-- A second credential is not refused for its size. -/
theorem onCredential_tooLarge (hc : c.fault = none) :
    ((onCredential c).1.fault = some .headersTooLarge ↔
        c.haveAuth = false ∧ valueMax < c.auth.length + c.value.length) ∧
      (c.haveAuth = false ∧ valueMax < c.auth.length + c.value.length →
        (onCredential c).2 = some .user) := by
  unfold onCredential
  cases c.haveAuth with
  | true =>
    rw [if_pos rfl]
    exact ⟨iff_of_false (refuse_other hc (by decide)) (fun h => nomatch h.1), fun h => nomatch h.1⟩
  | false =>
    rw [if_neg Bool.false_ne_true]
    simp only [true_and]
    exact spill_iff (fun grown =>
      { c with
          auth := grown
          authAllocated := c.authAllocated || !c.value.isEmpty
          haveAuth := true }) (fun _ => hc) hc rfl

/-- One callback but the end of a message. -/
theorem call_tooLarge (hc : c.fault = none) {x : Call} (hend : x ≠ .messageComplete) :
    ((s.call c x).1.fault = some .headersTooLarge ↔ s.Overlong c x) ∧
      (s.Overlong c x → (s.call c x).2 = some .user) := by
  have hnever {d : Conn O} (hd : d.fault ≠ some .headersTooLarge) {α : Prop} :
      (d.fault = some .headersTooLarge ↔ False) ∧ (False → α) := ⟨iff_of_false hd id, False.elim⟩
  have hnone {d : Conn O} (hd : d.fault = none) : d.fault ≠ some .headersTooLarge := by
    rw [hd]
    nofun
  cases x with
  | span kind p =>
    cases kind with
    | url => exact spill_iff (fun grown => { c with target := grown }) (fun _ => hc) hc rfl
    | headerField =>
      have hnext : (nextName c).fault = none := by
        unfold nextName
        split_ifs
        · exact hc
        · exact hc
      exact spill_iff (fun grown => { nextName c with name := grown }) (fun _ => hnext)
        hnext rfl
    | headerValue =>
      exact spill_iff (fun grown => { c with value := grown }) (fun _ => hc) hc rfl
    | body =>
      refine hnever ?_
      unfold call onSpan onBody
      dsimp only
      split_ifs
      · exact refuse_other hc (by decide)
      · cases extend s.bodyMax c.body p with
        | none => exact refuse_other (by exact hc) (by decide)
        | some body => exact hnone hc
  | headerValueComplete =>
    change ((s.onHeaderValueComplete c).1.fault = some .headersTooLarge ↔ _) ∧
      (_ → (s.onHeaderValueComplete c).2 = some .user)
    unfold Overlong onHeaderValueComplete
    cases hlength : isCi c.name (ascii "content-length") with
    | true =>
      simp only [if_true, Bool.true_eq_false, false_and]
      exact hnever (onContentLength_other hc)
    | false =>
      cases hcoding : isCi c.name (ascii "transfer-encoding") with
      | true =>
        simp only [Bool.false_eq_true, if_false, if_true, Bool.true_eq_false, false_and, and_false]
        exact hnever (onTransferEncoding_other hc)
      | false =>
        simp only [Bool.false_eq_true, if_false, true_and]
        cases isCi c.name (ascii "content-type") with
        | true =>
          exact spill_iff (fun grown => { c with ctype := grown, haveCtype := true }) (fun _ => hc)
            hc rfl
        | false =>
          simp only [Bool.false_eq_true, if_false]
          cases s.isCredential c.name with
          | false =>
            simp only [Bool.false_eq_true, if_false, false_and]
            exact hnever (hnone hc)
          | true =>
            simp only [if_true, true_and]
            exact onCredential_tooLarge hc
  | headersComplete line =>
    refine hnever ?_
    unfold call onHeadersComplete
    dsimp only
    split_ifs
    · exact refuse_other (by exact hc) (by decide)
    · exact refuse_other (by exact hc) (by decide)
    · exact refuse_other (by exact hc) (by decide)
    · exact refuse_other (by exact hc) (by decide)
    · exact hnone hc
  | messageBegin => exact hnever (hnone rfl)
  | headerFieldComplete => exact hnever (hnone hc)
  | unset => exact hnever (hnone hc)
  | bad e => exact hnever (hnone hc)
  | messageComplete => exact absurd rfl hend

theorem checkAuth_other (c : Conn O) : s.checkAuth c ≠ some .headersTooLarge := by
  have hrefuse {id : ErrorId} (hid : id ≠ .headersTooLarge) : some id ≠ some .headersTooLarge :=
    fun h => hid (Option.some.inj h)
  have htoken (token : Bytes) : s.checkToken token ≠ some .headersTooLarge := by
    unfold checkToken
    split_ifs
    · nofun
    · exact hrefuse (by decide)
  unfold checkAuth
  cases s.authType with
  | none => nofun
  | bearerEnv =>
    simp only [if_true]
    split_ifs
    · exact hrefuse (by decide)
    · exact hrefuse (by decide)
    · exact hrefuse (by decide)
    · exact hrefuse (by decide)
    · exact hrefuse (by decide)
    · exact hrefuse (by decide)
    · exact htoken _
  | headerEnv =>
    simp only [reduceCtorEq, if_false]
    split_ifs
    · exact hrefuse (by decide)
    · exact hrefuse (by decide)
    · exact hrefuse (by decide)
    · exact htoken _

theorem commit_fault (post : O → Reply → O × Status) (c : Conn O) (status : ℕ)
    (flags : HeadFlags) : (c.commit post status flags).1.fault = c.fault := by
  unfold commit
  dsimp only
  split_ifs
  · rfl
  · rfl

theorem sendError_fault (c : Conn O) (id : ErrorId) : (s.sendError c id).1.fault = c.fault := by
  unfold sendError
  dsimp only
  rw [commit_fault]
  split_ifs
  · rfl
  · rfl

theorem setFault_other (hc : c.fault ≠ some .headersTooLarge) {id : ErrorId}
    (hid : id ≠ .headersTooLarge) : (c.setFault id).fault ≠ some .headersTooLarge := by
  unfold setFault
  cases hfault : c.fault with
  | none => exact fun h => hid (Option.some.inj h)
  | some f => exact hc

theorem sendError_other (hc : c.fault ≠ some .headersTooLarge) (id : ErrorId) :
    (s.sendError c id).1.fault ≠ some .headersTooLarge := by
  rw [sendError_fault]
  exact hc

theorem generation_other (hc : c.fault ≠ some .headersTooLarge) :
    (s.generation c).1.fault ≠ some .headersTooLarge := by
  unfold generation
  split_ifs
  · exact sendError_other hc _
  · exact sendError_other hc _
  · exact sendError_other hc _
  · exact sendError_other hc _
  · cases s.generate c.endpoint c.body c.requests with
    | some id => exact sendError_other hc id
    | none => exact hc

theorem showPage_other (hc : c.fault ≠ some .headersTooLarge) :
    (s.showPage c).1.fault ≠ some .headersTooLarge := by
  unfold showPage
  cases s.page c.endpoint c.requests with
  | none => exact hc
  | some page =>
    dsimp only
    rw [commit_fault]
    exact hc

/-- Dispatching a request refuses it for much, but not for its size. -/
theorem dispatch_other (hc : c.fault ≠ some .headersTooLarge) :
    (s.dispatch c).1.fault ≠ some .headersTooLarge := by
  unfold dispatch answer
  generalize hassigned : s.assignRequestId c = d
  have hd : d.fault ≠ some .headersTooLarge := by
    rw [← hassigned]
    exact hc
  cases hfault : d.fault with
  | some id => exact sendError_other hd id
  | none =>
    dsimp only
    by_cases hunknown : d.endpoint = .unknown
    · rw [if_pos hunknown]
      exact sendError_other hd _
    · rw [if_neg hunknown]
      cases hauth : s.checkAuth d with
      | some id =>
        have hid : id ≠ .headersTooLarge := by
          rintro rfl
          exact checkAuth_other d hauth
        exact sendError_other (setFault_other hd hid) id
      | none =>
        dsimp only
        split_ifs
        · exact generation_other hd
        · exact sendError_other hd _
        · exact showPage_other hd
        · exact sendError_other hd _

theorem onMessageComplete_other (hc : c.fault = none) :
    (s.onMessageComplete c).1.fault ≠ some .headersTooLarge := by
  have hdispatched := dispatch_other (s := s) (c := { c with messageDone := true }) (by
    rw [hc]
    nofun)
  unfold onMessageComplete
  generalize s.dispatch { c with messageDone := true } = r at hdispatched
  obtain ⟨d, st⟩ := r
  dsimp only
  unfold afterDispatch
  split_ifs
  · exact setFault_other hdispatched (by decide)
  · exact hdispatched
  · exact hdispatched
  · nofun

/-- Callbacks that go on go on without a fault. -/
theorem call_faultless (hc : c.fault = none) {x : Call} (hgoes : (s.call c x).2 = none) :
    (s.call c x).1.fault = none := by
  by_cases hbegin : x = .messageBegin
  · subst hbegin
    rfl
  · by_cases hend : x = .messageComplete
    · subst hend
      change (s.onMessageComplete c).2 = none at hgoes
      change (s.onMessageComplete c).1.fault = none
      unfold onMessageComplete afterDispatch at hgoes ⊢
      dsimp only at hgoes ⊢
      split_ifs at hgoes ⊢
      rfl
    · exact ((call_silent hbegin hend).2.1 hgoes).trans hc

theorem perform_faultless {cs : List (Call × ℕ)} (hc : c.fault = none)
    (hgoes : (perform s.call c cs).2 = none) : (perform s.call c cs).1.fault = none := by
  induction cs generalizing c with
  | nil => exact hc
  | cons x cs ih =>
    obtain ⟨x, n⟩ := x
    rw [perform_cons] at hgoes ⊢
    cases hx : (s.call c x).2 with
    | some e =>
      rw [hx] at hgoes
      cases hgoes
    | none =>
      rw [hx] at hgoes
      exact ih (call_faultless hc hx) hgoes

/-! ## One call of the parser -/

/-- One of the callbacks brings more than its buffer takes. -/
def SpillsOver (s : Server O) (c : Conn O) (cs : List (Call × ℕ)) : Prop :=
  ∃ pre x n post, cs = pre ++ (x, n) :: post ∧ (perform s.call c pre).2 = none ∧
    s.Overlong (perform s.call c pre).1 x

theorem SpillsOver.stops {cs : List (Call × ℕ)} (hc : c.fault = none) (h : s.SpillsOver c cs) :
    (perform s.call c cs).2.isSome ∧ (perform s.call c cs).1.fault = some .headersTooLarge := by
  obtain ⟨pre, x, n, post, rfl, hgoes, hover⟩ := h
  have hend : x ≠ .messageComplete := by
    rintro rfl
    exact hover
  obtain ⟨hfault, hstop⟩ := call_tooLarge (perform_faultless hc hgoes) hend
  rw [perform_append, hgoes]
  dsimp only
  rw [perform_cons, hstop hover]
  exact ⟨rfl, hfault.mpr hover⟩

/-- The connection is not at its end before that is answered. -/
theorem SpillsOver.closing {cs : List (Call × ℕ)} (hlive : Live c) (hc : c.fault = none)
    (h : s.SpillsOver c cs) :
    (perform s.call c cs).1.closing = false := by
  obtain ⟨pre, x, n, post, rfl, hgoes, hover⟩ := h
  have hleft := s.perform_left hlive pre
  rw [hgoes] at hleft
  have hinside : x ≠ .messageBegin ∧ x ≠ .messageComplete :=
    ⟨by rintro rfl; exact hover, by rintro rfl; exact hover⟩
  have hsilent := (call_silent (s := s) (c := (perform s.call c pre).1) hinside.1 hinside.2).1
  rw [perform_append, hgoes]
  dsimp only
  rw [perform_cons, (call_tooLarge (perform_faultless hc hgoes) hinside.2).2 hover]
  exact hsilent.closing.trans hleft.closing

/-- Callbacks that stop have stopped for a size exactly where one brings too much. -/
theorem perform_tooLarge {cs : List (Call × ℕ)} (hc : c.fault = none)
    (hstops : (perform s.call c cs).2.isSome) :
    (perform s.call c cs).1.fault = some .headersTooLarge ↔ s.SpillsOver c cs := by
  refine ⟨fun hlarge => ?_, fun h => (h.stops hc).2⟩
  rcases hr : perform s.call c cs with ⟨d, _ | ⟨e, n⟩⟩
  · rw [hr] at hstops
    cases hstops
  · rw [hr] at hlarge
    obtain ⟨pre, x, post, hcs, hgoes, hact⟩ := stops_at hr
    have hlast : (s.call (perform s.call c pre).1 x).1.fault = some .headersTooLarge := by
      rw [hact]
      exact hlarge
    have hfaultless := perform_faultless hc hgoes
    by_cases hend : x = .messageComplete
    · subst hend
      exact absurd hlast (onMessageComplete_other hfaultless)
    · exact ⟨pre, x, n, post, hcs, hgoes, (call_tooLarge hfaultless hend).1.mp hlast⟩

end

section

variable (s : Server (List Reply)) (T : Parser P)

/-- The header section of the request that is read exceeds the ceiling: it has filled it and
goes on, or the feed takes it there. -/
def Outgrows (x : Client (P × Tally) (List Reply)) : Prop :=
  (T.phase x.parser.1 = .head ∧ s.headerMax ≤ x.parser.2.headed) ∨
    ((s.execute T.tallied x.toReader (s.fedBytes x)).2 = none ∧
      T.phase (s.tallyBehind T x).1 = .head ∧ s.headerMax < (s.tallyBehind T x).2.headed)

/-- The feed brings a target, a header name or a header value over the size of its buffer. -/
def Spills (x : Client (P × Tally) (List Reply)) : Prop :=
  s.SpillsOver x.conn (joined Call.join (T.trace x.parser.1 0 (s.fedBytes x)))

/-- The connection has answered 431 to the request it read, and ends. -/
def AnsweredTooLarge (x : Client (P × Tally) (List Reply)) : Prop :=
  x.conn.closing = true ∧ x.conn.fault = some .headersTooLarge ∧
    x.conn.outbox.getLast?.map Reply.status = some 431

variable {s T} {x : Client (P × Tally) (List Reply)}

theorem refuse_answeredTooLarge (hpost : ∀ o r, s.post o r = (o ++ [r], .ok))
    {c : Conn (List Reply)} (hresponded : c.responded = false) (hfault : c.fault = none) :
    (s.refuse c .headersTooLarge).closing = true ∧
      (s.refuse c .headersTooLarge).fault = some .headersTooLarge ∧
      (s.refuse c .headersTooLarge).outbox.getLast?.map Reply.status = some 431 := by
  obtain ⟨hanswers, -, -, hrefused, -, htold⟩ := refuse_told hpost c .headersTooLarge
  rw [hfault] at hrefused htold
  obtain ⟨r, hlast, hstatus⟩ := htold hresponded
  refine ⟨(congrArg Conn.closing hanswers :), hrefused, ?_⟩
  rw [hlast, List.getLast?_concat]
  exact congrArg some hstatus

theorem Level.fault (h : s.Level T x) (hlive : Live x.conn) : x.conn.fault = none :=
  h.abreast.fault hlive.closing

/-- The parser goes on, so nothing was too much for its buffer. -/
theorem Level.spills_iff (h : s.Level T x) (hlive : Live x.conn)
    {r : Reader (P × Tally) (List Reply)} {stop : Option (Hpe × ℕ)}
    (hexec : s.execute T.tallied x.toReader (s.fedBytes x) = (r, stop)) :
    (s.Spills T x → stop.isSome) ∧
      (stop.isSome → (r.conn.fault = some .headersTooLarge ↔ s.Spills T x)) := by
  obtain ⟨hconn, hstop, -⟩ := s.execute_of_land T.tallied x.conn x.parser (s.fedBytes x)
  rw [← h.reader, hexec, Parser.trace_tallied] at hconn hstop
  change stop = _ at hstop
  have hfault := h.fault hlive
  constructor
  · intro hspills
    obtain ⟨hstops, -⟩ := SpillsOver.stops hfault hspills
    rw [hstop]
    exact hstops
  · intro hstops
    rw [hstop] at hstops
    rw [hconn]
    exact perform_tooLarge hfault hstops

/-- A stop is answered with 431 where a size was the fault. -/
theorem stopped_answeredTooLarge (hpost : ∀ o r, s.post o r = (o ++ [r], .ok))
    {c : Conn (List Reply)} {e : Hpe} {n : ℕ} {g : Tally} (hhalts : Halts g c e)
    (hopen : c.fault = some .headersTooLarge → c.closing = false) :
    ((s.stopped c e n).closing = true ∧ (s.stopped c e n).fault = some .headersTooLarge ∧
      (s.stopped c e n).outbox.getLast?.map Reply.status = some 431) ↔
      c.fault = some .headersTooLarge := by
  obtain ⟨k, hcount⟩ := countHeaderBytes_eq c n
  have hother (id : ErrorId) (hid : id ≠ .headersTooLarge) (hc : c.fault ≠ some .headersTooLarge) :
      (c.fault.getD id) ≠ .headersTooLarge := by
    cases hfault : c.fault with
    | none => exact hid
    | some f =>
      rintro rfl
      exact hc hfault
  unfold Server.stopped
  rw [hcount]
  dsimp only
  by_cases hpaused : e = .paused
  · subst hpaused
    have hfault : c.fault = none := hhalts.2.2.2.1
    rw [if_pos rfl]
    refine iff_of_false (fun h => ?_) (fun h => ?_)
    · cases hfault.symm.trans h.2.1
    · cases hfault.symm.trans h
  · rw [if_neg hpaused]
    by_cases hclosing : (c.withHeader k).closing = true
    · rw [if_pos hclosing]
      have hends : c.closing = true := hclosing
      refine iff_of_false (fun h => ?_) (fun h => ?_)
      · cases hends.symm.trans (hopen h.2.1)
      · cases hends.symm.trans (hopen h)
    · rw [if_neg hclosing]
      obtain ⟨hanswers, -, -, hrefused, -, htold⟩ :=
        refuse_told hpost (c.withHeader k) (faultOf e)
      change _ = some (c.fault.getD (faultOf e)) at hrefused
      constructor
      · rintro ⟨-, hlarge, -⟩
        by_contra hc
        refine hother (faultOf e) ?_ hc (Option.some.inj (hrefused.symm.trans hlarge))
        unfold faultOf
        split
        · decide
        · decide
        · decide
        · decide
        · decide
      · intro hc
        have hunanswered : c.responded = false := by
          cases e with
          | paused => exact absurd rfl hpaused
          | user => exact hhalts.2.elim (fun h => h.1) fun h => absurd h.1 hclosing
          | bad e => exact hhalts.2.elim (fun h => h.1) fun h => absurd h.1 hclosing
        obtain ⟨r, hlast, hstatus⟩ := htold hunanswered
        change r.status = (c.fault.getD (faultOf e)).status at hstatus
        rw [hc] at hrefused hstatus
        refine ⟨(congrArg Conn.closing hanswers :), hrefused, ?_⟩
        rw [hlast, List.getLast?_concat]
        exact congrArg some hstatus

/-- **A feed is answered with 431 exactly where the header section of the request exceeds the
ceiling, or a part of it the buffer it is kept in.** -/
theorem Level.tooLarge_iff (hpost : ∀ o r, s.post o r = (o ++ [r], .ok)) (hT : T.EndsLast)
    (h : s.Level T x) (hlive : Live x.conn) (hinbox : x.inbox ≠ []) (hapart : s.Apart T x) :
    AnsweredTooLarge (s.feed T.tallied x) ↔ s.Outgrows T x ∨ s.Spills T x := by
  have hexit := feed_exit (s := s) (T := T) h.abreast.upstream hinbox
  have hfull := h.full_iff hinbox hapart
  generalize s.feed T.tallied x = y at hexit ⊢
  cases hexit with
  | full hroom =>
    exact iff_of_true (refuse_answeredTooLarge hpost h.abreast.responded (h.fault hlive))
      (Or.inl (Or.inl (hfull.mp hroom)))
  | @large r hroom hexec hlarge =>
    obtain ⟨hph, hheaded⟩ := (h.large_iff hpost hT hinbox hapart hexec).mp hlarge
    obtain ⟨-, -, habreast⟩ := h.goes hpost hT hexec
    obtain ⟨k, hcharged⟩ := countHeaderBytes_eq r.conn (s.offered x.conn x.inbox.length)
    change s.charged x r.conn = r.conn.withHeader k at hcharged
    rw [hcharged]
    have hleft := s.execute_left T.tallied hlive x.parser (s.fedBytes x)
    rw [← h.reader, hexec] at hleft
    exact iff_of_true (refuse_answeredTooLarge hpost habreast.responded
      (habreast.fault hleft.closing)) (Or.inl (Or.inr ⟨by rw [hexec], hph, hheaded⟩))
  | @on r hroom hexec hsmall =>
    have hlarge := h.large_iff hpost hT hinbox hapart hexec
    obtain ⟨k, hcharged⟩ := countHeaderBytes_eq r.conn (s.offered x.conn x.inbox.length)
    change s.charged x r.conn = r.conn.withHeader k at hcharged
    have hleft := s.execute_left T.tallied hlive x.parser (s.fedBytes x)
    rw [← h.reader, hexec] at hleft
    refine iff_of_false (fun hanswered => ?_) ?_
    · have hclosing := hanswered.1
      change (s.charged x r.conn).closing = true at hclosing
      rw [hcharged] at hclosing
      cases hleft.closing.symm.trans hclosing
    · rintro ((hends | ⟨-, hends⟩) | hspills)
      · exact hroom (hfull.mpr hends)
      · exact hsmall (hlarge.mpr hends)
      · cases (h.spills_iff hlive hexec).1 hspills
  | @stopped r e n hroom hexec =>
    obtain ⟨-, -, hhalts⟩ := h.halts hpost hT hexec
    have hfault := (h.spills_iff hlive hexec).2 rfl
    have hopen : r.conn.fault = some .headersTooLarge → r.conn.closing = false := by
      intro hc
      have hconn := (s.execute_of_land T.tallied x.conn x.parser (s.fedBytes x)).1
      rw [← h.reader, hexec, Parser.trace_tallied] at hconn
      rw [show r.conn = _ from hconn]
      exact SpillsOver.closing hlive (h.fault hlive) (hfault.mp hc)
    refine (stopped_answeredTooLarge hpost hhalts hopen).trans (hfault.trans ⟨Or.inr, ?_⟩)
    rintro ((hends | ⟨hgo, -⟩) | hspills)
    · exact absurd (hfull.mpr hends) hroom
    · rw [hexec] at hgo
      cases hgo
    · exact hspills

/-! ## Runs -/

variable (T) in
/-- The count is that of the header section that is read, and requests and responses are
level. -/
structure PerMessage (s : Server (List Reply)) (x : Client (P × Tally) (List Reply)) : Prop where
  counted : x.errno = none → x.conn.draining = false →
    x.conn.headerBytes ≤ x.parser.2.headed ∧
      (T.phase x.parser.1 = .head → x.conn.headerBytes = x.parser.2.headed)
  within : x.conn.closing = false → x.conn.draining = false → x.parser.2.headed ≤ s.headerMax
  told : x.conn.outbox.length ≤ x.parser.2.begun
  owed : x.conn.closing = false → x.conn.draining = false →
    x.conn.outbox.length + (if x.conn.upstream then 1 else (T.phase x.parser.1).owing) =
      x.parser.2.begun

variable (s T) in
/-- Every feed to a connection that reads on is answered with 431 exactly where the header
section outgrows the ceiling or its buffers, and after each of its bytes one response has
been given to each request that is over. -/
def ToldApart (x : Client (P × Tally) (List Reply)) (a : Episode) : Prop :=
  ∀ y ∈ s.feeds x a, y.errno = none → Live y.conn → y.inbox ≠ [] →
    (AnsweredTooLarge (s.feed T.tallied y) ↔ s.Outgrows T y ∨ s.Spills T y) ∧
      ∀ j, (s.execute T.tallied y.toReader ((s.fedBytes y).take j)).2 = none →
        (s.execute T.tallied y.toReader ((s.fedBytes y).take j)).1.conn.outbox.length +
            (T.phase (s.tallyAt T y j).1).owing = (s.tallyAt T y j).2.begun

theorem Tracked.perMessage (h : s.Tracked T x) : PerMessage T s x := by
  have htold := h.told
  rcases h with hlevel | hwaiting | hrefused | hstopped | hdrained
  · refine ⟨fun _ _ => ⟨hlevel.abreast.bytes, hlevel.counted⟩, fun _ _ => hlevel.within, htold,
      fun _ _ => ?_⟩
    rw [hlevel.abreast.upstream, if_neg Bool.false_ne_true]
    exact hlevel.abreast.told
  · refine ⟨fun herrno _ => ?_, fun _ _ => hwaiting.within, htold, fun _ _ => ?_⟩
    · cases hwaiting.errno.symm.trans herrno
    · rw [hwaiting.upstream, if_pos rfl]
      exact hwaiting.told
  · exact ⟨fun _ _ => ⟨hrefused.counted.le, fun _ => hrefused.counted⟩,
      fun hopen => absurd hrefused.closing (by simp [hopen]), htold,
      fun hopen => absurd hrefused.closing (by simp [hopen])⟩
  · obtain ⟨e, herrno, -⟩ := hstopped.errno
    refine ⟨fun hgoes _ => ?_, fun hopen => absurd hstopped.closing (by simp [hopen]), htold,
      fun hopen => absurd hstopped.closing (by simp [hopen])⟩
    cases herrno.symm.trans hgoes
  · exact ⟨fun _ hopen => absurd hdrained.draining (by simp [hopen]),
      fun _ hopen => absurd hdrained.draining (by simp [hopen]), htold,
      fun _ hopen => absurd hdrained.draining (by simp [hopen])⟩

/-- What is fed to a connection that reads on finds it level. -/
theorem Tracked.level (hpost : ∀ o r, s.post o r = (o ++ [r], .ok)) (h : s.Tracked T x)
    {a : Episode} {y : Client (P × Tally) (List Reply)} (hy : s.feeds x a = some y)
    (herrno : y.errno = none) (hlive : Live y.conn) : s.Level T y := by
  cases a with
  | read d =>
    unfold feeds at hy
    dsimp only at hy
    split_ifs at hy
    · obtain rfl := Option.some.inj hy
      rcases h with hlevel | hwaiting | hrefused | hstopped | hdrained
      · exact hlevel.withInbox _
      · cases hwaiting.errno.symm.trans herrno
      · cases hrefused.closing.symm.trans hlive.closing
      · cases hstopped.closing.symm.trans hlive.closing
      · cases hdrained.draining.symm.trans hlive.draining
    · obtain rfl := Option.some.inj hy
      cases hlive.closing
  | exchangeDone =>
    unfold feeds at hy
    dsimp only at hy
    split_ifs at hy with hkeeps
    obtain rfl := Option.some.inj hy
    rcases h with hlevel | hwaiting | hrefused | hstopped | hdrained
    · exact absurd hkeeps.1 (by simp [hlevel.abreast.upstream])
    · exact hwaiting.resumed hpost
    · exact absurd hkeeps.1 (by simp [hrefused.upstream])
    · exact absurd hkeeps.1 (by simp [hstopped.upstream])
    · exact absurd hkeeps.1 (by simp [hdrained.upstream])
  | written => cases hy
  | sweep => cases hy

theorem Tracked.toldApart (hpost : ∀ o r, s.post o r = (o ++ [r], .ok)) (hT : T.EndsLast)
    (h : s.Tracked T x) {a : Episode} (ha : s.SetApart T x a) : s.ToldApart T x a := by
  intro y hy herrno hlive hinbox
  have hlevel := h.level hpost hy herrno hlive
  refine ⟨hlevel.tooLarge_iff hpost hT hlive hinbox (ha.1 y hy), fun j hgo => ?_⟩
  have hexecute := hlevel.abreast.execute (x := y.parser) hpost hT ((s.fedBytes y).take j)
  rw [← hlevel.reader] at hexecute
  rcases hexecute with ⟨-, habreast⟩ | ⟨e, n, hstop, -⟩
  · exact habreast.told
  · rw [hgo] at hstop
    cases hstop

/-- **In every run that keeps header sections apart, the count is that of the section being
read, 431 answers exactly what is too large, and no request is answered twice.** -/
theorem headers_per_message (s : Server (List Reply)) (T : Parser P) (hT : T.EndsLast)
    (as : List Episode)
    (h : Along (s.recorded.episode T.tallied) (s.recorded.SetApart T)
      (Client.fresh T.tallied.start []) as) :
    Throughout (s.recorded.episode T.tallied) (PerMessage T s.recorded)
        (Client.fresh T.tallied.start []) as ∧
      Along (s.recorded.episode T.tallied) (s.recorded.ToldApart T)
        (Client.fresh T.tallied.start []) as := by
  have hpost : ∀ o r, s.recorded.post o r = (o ++ [r], .ok) := fun _ _ => rfl
  have htracked : Throughout (s.recorded.episode T.tallied) (s.recorded.Tracked T)
      (Client.fresh T.tallied.start []) as :=
    throughout_of_along (fun x a hx ha => tracked_episode hpost hT hx ha) tracked_start h
  constructor
  · exact htracked.mono fun x hx => hx.perMessage
  · exact along_of_along (fun x a hx ha => tracked_episode hpost hT hx ha)
      (fun x a hx ha => hx.toldApart hpost hT ha) tracked_start h

end

/-! ## Without the tally -/

section

variable (s : Server O) (T : Parser P)

/-- The reader, its tally forgotten. -/
def untallied (r : Reader (P × Tally) O) : Reader P O := ⟨r.conn, r.parser.1, r.errno⟩

def untalliedClient (x : Client (P × Tally) O) : Client P O := ⟨untallied x.toReader, x.inbox⟩

theorem execute_untallied (r : Reader (P × Tally) O) (d : Bytes) :
    s.execute T (untallied r) d =
      (untallied (s.execute T.tallied r d).1, (s.execute T.tallied r d).2) := by
  obtain ⟨c, x, errno⟩ := r
  unfold execute untallied
  cases errno with
  | some e => rfl
  | none =>
    dsimp only
    rw [Parser.trace_tallied]
    rcases perform s.call c (joined Call.join (T.trace x.1 0 d)) with ⟨c', _ | ⟨e, n⟩⟩
    · rw [← Parser.after_tallied]
    · dsimp only
      rw [← Parser.after_tallied]

theorem offer_untallied (x : Client (P × Tally) O) (n : ℕ) :
    s.offer T (untalliedClient x) n = untalliedClient (s.offer T.tallied x n) := by
  have hexecute := s.execute_untallied T x.toReader (x.inbox.take n)
  unfold offer
  rw [show s.execute T (untalliedClient x).toReader ((untalliedClient x).inbox.take n) = _
    from hexecute]
  rcases s.execute T.tallied x.toReader (x.inbox.take n) with ⟨r, _ | ⟨e, k⟩⟩
  · dsimp only [untallied]
    split_ifs
    · rfl
    · rfl
  · rfl

theorem feed_untallied (x : Client (P × Tally) O) :
    s.feed T (untalliedClient x) = untalliedClient (s.feed T.tallied x) := by
  unfold feed
  change (if x.conn.upstream then _ else if x.inbox = [] then _ else
    if x.conn.headersDone = false ∧ s.headerMax ≤ x.conn.headerBytes then _ else _) = _
  split_ifs
  · rfl
  · rfl
  · rfl
  · exact s.offer_untallied T x _

/-- The tally only watches. -/
theorem episode_untallied (x : Client (P × Tally) O) (a : Episode) :
    s.episode T (untalliedClient x) a = untalliedClient (s.episode T.tallied x a) := by
  cases a with
  | read d =>
    unfold episode readable
    dsimp only
    change (if x.conn.draining then _ else
      if x.inbox.length + d.length ≤ s.headerMax + s.bodyMax + readChunk then _ else
      if x.conn.upstream then _ else _) = _
    split_ifs
    · rfl
    · exact s.feed_untallied T { x with inbox := x.inbox ++ d }
    · rfl
    · exact s.feed_untallied T
        { x with conn := { x.conn.setFault .bodyTooLarge with closing := true } }
  | exchangeDone =>
    unfold episode exchangeDone
    dsimp only
    change (if x.conn.upstream = false then _ else
      if (s.deliver x.conn).keepAlive then _ else _) = untalliedClient
        (if x.conn.upstream = false then _ else if (s.deliver x.conn).keepAlive then _ else _)
    split_ifs
    · rfl
    · exact s.feed_untallied T ⟨resume { x.toReader with conn := s.deliver x.conn }, x.inbox⟩
    · rfl
  | written =>
    unfold episode written
    dsimp only
    change (if x.conn.upstream = false ∧ x.conn.closing then _ else _) = _
    split_ifs
    · rfl
    · rfl
  | sweep =>
    unfold episode
    dsimp only
    change (if x.conn.upstream then _ else _) = _
    split_ifs
    · rfl
    · rfl

end

section

variable (s : Server (List Reply)) (T : Parser P)

instance (x : Client (P × Tally) (List Reply)) : Decidable (s.Charged T x) :=
  inferInstanceAs (Decidable (_ ∨ (_ ∧ ¬(_ ∧ (Call.messageBegin ∉ _) ∧ _))))

instance (x : Client (P × Tally) (List Reply)) : Decidable (s.Apart T x) :=
  inferInstanceAs (Decidable (_ → _ ∧ _ ∧ _))

instance (x : Client (P × Tally) (List Reply)) (a : Episode) : Decidable (s.SetApart T x a) :=
  inferInstanceAs (Decidable ((∀ y ∈ s.feeds x a, s.Apart T y) ∧ _))

instance (x : Client (P × Tally) (List Reply)) : Decidable (s.Outgrows T x) :=
  inferInstanceAs (Decidable (_ ∨ _))

instance (x : Client (P × Tally) (List Reply)) : Decidable (AnsweredTooLarge x) :=
  inferInstanceAs (Decidable (_ ∧ _ ∧ _))

end

end Server

theorem Reading.endsLast : Reading.parser.EndsLast := by
  intro r b pre post hcalls
  have hlast : ∀ c ∈ (Reading.next r b).2.dropLast, c ≠ .messageComplete := by
    cases r with
    | final m n =>
      cases n with
      | zero => simp [Reading.next, Reading.headersEnd]
      | succ n => simp [Reading.next]
    | body n =>
      cases n with
      | zero => simp [Reading.next]
      | succ n => simp [Reading.next]
    | start | method | version | valueEnd => simp [Reading.next]
    | url | line | name | value =>
      simp only [Reading.next]
      split_ifs <;> simp
  by_contra hpost
  change (Reading.next r b).2 = _ at hcalls
  rw [hcalls, List.dropLast_append_of_ne_nil (List.cons_ne_nil _ _),
    List.dropLast_cons_of_ne_nil hpost] at hlast
  exact hlast .messageComplete (by simp) rfl

/-- A request in two reads, and the next one behind it in one. -/
theorem headers_per_message_reads :
    Throughout (smallest.recorded.episode Reading.parser.tallied)
        (Server.PerMessage Reading.parser smallest.recorded)
        (Client.fresh Reading.parser.tallied.start [])
        [.read (ascii "POST /no"), .read (ascii "pe HTTP/1.1\r\nContent-Length: 0\r\n\r\n"),
          .read (posted 0), .written] ∧
      Along (smallest.recorded.episode Reading.parser.tallied)
        (smallest.recorded.ToldApart Reading.parser)
        (Client.fresh Reading.parser.tallied.start [])
        [.read (ascii "POST /no"), .read (ascii "pe HTTP/1.1\r\nContent-Length: 0\r\n\r\n"),
          .read (posted 0), .written] :=
  Server.headers_per_message smallest Reading.parser Reading.endsLast _ (by decide)

/-- A header section of a little over a thousand bytes, one name of which is longer than a
name may be. -/
def longNamed : Client (Reading × Tally) (List Reply) :=
  { Client.fresh Reading.parser.tallied.start [] with
    inbox := ascii "POST / HTTP/1.1\r\n" ++ filler 1025 }

/-- A request whose body is about as long as the header section may be, in one read. -/
def longBodied : Client (Reading × Tally) (List Reply) :=
  run (smallest.recorded.episode Reading.parser.tallied)
    (Client.fresh Reading.parser.tallied.start []) [.read (posted 4052 ++ filler 4052)]

namespace Server

/-- An offer the parser goes on after, which takes the section over its ceiling. -/
theorem offer_large {s : Server O} {T : Parser P} {x r : Reader P O} {d : Bytes}
    (h : s.execute T x d = (r, none))
    (hlarge : s.headersLarge (countHeaderBytes r.conn d.length) = true) :
    s.offer T ⟨x, d⟩ d.length =
      ⟨{ r with conn := s.refuse (countHeaderBytes r.conn d.length) .headersTooLarge }, d⟩ := by
  unfold offer
  dsimp only
  rw [List.take_length, h]
  dsimp only
  rw [if_pos hlarge]

end Server

theorem Reading.inside_tallied (g : Tally) :
    Reading.parser.tallied.Inside fun n => (.body n, g) := fun _ _ => rfl

section LongBodied

open Server

/-- Where the header section leaves the connection of `longBodied`. -/
@[irreducible] def talliedConn : Conn (List Reply) :=
  (smallest.recorded.execute Reading.parser.tallied
    ⟨Conn.fresh [], Reading.parser.tallied.start, none⟩ (posted 4052)).1.conn

theorem execute_talliedConn :
    smallest.recorded.execute Reading.parser.tallied
        ⟨Conn.fresh [], Reading.parser.tallied.start, none⟩ (posted 4052) =
      (⟨talliedConn, (.body 4051, ⟨1, 45⟩), none⟩, none) := by
  have hends :
      let r := smallest.recorded.execute Reading.parser.tallied
        ⟨Conn.fresh [], Reading.parser.tallied.start, none⟩ (posted 4052)
      r.1.parser = (.body 4051, ⟨1, 45⟩) ∧ r.1.errno = none ∧ r.2 = none := by decide
  unfold talliedConn
  generalize smallest.recorded.execute Reading.parser.tallied
    ⟨Conn.fresh [], Reading.parser.tallied.start, none⟩ (posted 4052) = x at *
  obtain ⟨⟨c, p, e⟩, stop⟩ := x
  obtain ⟨rfl, rfl, rfl⟩ := hends
  rfl

theorem talliedConn_empty : talliedConn.bodyBytes = 0 ∧ talliedConn.body = [] := by
  decide +kernel

/-- The last byte of the body is answered, and the bytes of the read are counted behind it. -/
theorem execute_overrun :
    let r := smallest.recorded.execute Reading.parser.tallied
      ⟨{ talliedConn with bodyBytes := 4051, body := filler 4051 }, (.body 0, ⟨1, 45⟩), none⟩ [120]
    r.2 = none ∧ r.1.parser.2.begun = 1 ∧
      smallest.recorded.headersLarge (countHeaderBytes r.1.conn 4097) = true ∧
      (smallest.recorded.refuse (countHeaderBytes r.1.conn 4097)
        .headersTooLarge).outbox.map Reply.status = [404, 431] := by
  decide +kernel

theorem length_longBody : (posted 4052 ++ filler 4052).length = 4097 := by
  have hhead : (posted 4052).length = 45 := by decide
  have hbody : (filler 4052).length = 4052 := List.length_replicate
  rw [List.length_append, hhead, hbody]

theorem longBodied_answers :
    longBodied.parser.2.begun = 1 ∧ longBodied.conn.outbox.map Reply.status = [404, 431] := by
  obtain ⟨hbytes, hbody⟩ := talliedConn_empty
  obtain ⟨hgoes, hbegun, hlarge, hanswers⟩ := execute_overrun
  generalize hlast : smallest.recorded.execute Reading.parser.tallied
    ⟨{ talliedConn with bodyBytes := 4051, body := filler 4051 }, (.body 0, ⟨1, 45⟩), none⟩
      [120] = x at *
  obtain ⟨r, stop⟩ := x
  obtain rfl : stop = none := hgoes
  have hplay := play_append_whole (Reading.inside_tallied ⟨1, 45⟩)
    (smallest.recorded.play_of_execute Reading.parser.tallied execute_talliedConn) hbytes hbody
    (by decide) hlast
  have hrun := (smallest.recorded.execute_of_play Reading.parser.tallied
    (congrArg Prod.snd hplay)).trans hplay
  generalize hd : posted 4052 ++ filler 4052 = d at *
  have hlength : d.length = 4097 := hd ▸ length_longBody
  rw [← hlength] at hlarge hanswers
  have hne : d ≠ [] := List.ne_nil_of_length_pos (by rw [hlength]; decide)
  have hoffered : smallest.recorded.offered (Conn.fresh []) d.length = d.length := by
    rw [hlength]
    decide
  have hclient : longBodied =
      ⟨⟨smallest.recorded.refuse (countHeaderBytes r.conn d.length) .headersTooLarge, r.parser,
        r.errno⟩, d⟩ := by
    unfold longBodied
    rw [run_cons, run_nil, hd]
    refine (readable_fits rfl (hlength.le.trans (by decide))).trans ?_
    rw [smallest.recorded.feed_live _ ⟨rfl, rfl, rfl⟩ _ hne (by decide), hoffered]
    exact offer_large hrun hlarge
  rw [hclient]
  exact ⟨hbegun, hanswers⟩

end LongBodied
set_option maxRecDepth 20000 in
/-- The long name is answered with 431, though the section is far from the ceiling; and the
request with the long body is answered twice. -/
theorem headers_not_per_message :
    Server.AnsweredTooLarge (smallest.recorded.feed Reading.parser.tallied longNamed) ∧
      ¬smallest.recorded.Outgrows Reading.parser longNamed ∧
      longBodied.parser.2.begun = 1 ∧ longBodied.conn.outbox.map Reply.status = [404, 431] :=
  ⟨by decide, by decide, longBodied_answers⟩

end AsmFlow.Http
