import AsmFlow.Core.Id
import AsmFlow.Http.Frames
import AsmFlow.Http.Moves

/-!
# Whose id a response carries

The id of a request is drawn when the message is dispatched, or by the first
error that finds no id; no message clears it. A ledger keeps, beside the
connection, for which message each id was drawn and which message each response
answers.
-/

namespace AsmFlow.Http

open Library

/-- The ids of a run, in the order they are drawn; a failed draw leaves none. -/
def drawnId (clock : ℕ → Except Status ℕ) (random : ℕ → Bytes) (k : ℕ) : Bytes :=
  match Id.generate (clock k) (random k) with
  | .ok id => id
  | .error _ => []

theorem drawnId_valid {clock : ℕ → Except Status ℕ} {random : ℕ → Bytes} {k : ℕ}
    (h : drawnId clock random k ≠ []) :
    Id.isValidUlid (drawnId clock random k) = true ∧
      Id.generate (clock k) (random k) = .ok (drawnId clock random k) := by
  unfold drawnId at h ⊢
  cases hgen : Id.generate (clock k) (random k) with
  | error e =>
    rw [hgen] at h
    exact absurd rfl h
  | ok id => exact ⟨Id.generate_valid hgen, rfl⟩

namespace Server

/-- A server whose ids are generated and whose responses are recorded, with what becomes of
each commit. -/
def identified (s : Server (List Reply)) (clock : ℕ → Except Status ℕ) (random : ℕ → Bytes)
    (verdict : List Reply → Reply → Status) : Server (List Reply) :=
  { s with newId := drawnId clock random, post := fun sent r => (sent ++ [r], verdict sent r) }

/-- The body of a response is an error that names the id, a page, or what an exchange
answered. -/
def Wrote (s : Server (List Reply)) (id : Bytes) (r : Reply) : Prop :=
  r.requestId = id ∧
    ((∃ e, r.body = s.errorBody e id) ∨ (∃ ep n status, s.page ep n = some (status, r.body)) ∨
      ∃ ep body n status flags, s.exchange ep body n = .response status flags r.body)

/-- `d` is `c` after at most one response, which carries the id of `c`. -/
structure Sends (s : Server (List Reply)) (c d : Conn (List Reply)) : Prop where
  requestId : d.requestId = c.requestId
  drawn : d.drawn = c.drawn
  outbox : d.outbox = c.outbox ∨ ∃ r, d.outbox = c.outbox ++ [r] ∧ s.Wrote c.requestId r

variable {s : Server (List Reply)}

theorem Sends.refl (c : Conn (List Reply)) : s.Sends c c := ⟨rfl, rfl, Or.inl rfl⟩

theorem commit_sends (hpost : ∀ o r, (s.post o r).1 = o ++ [r]) {c : Conn (List Reply)}
    (status : ℕ) (flags : HeadFlags)
    (hbody : s.Wrote c.requestId (c.reply status flags)) :
    s.Sends c (c.commit s.post status flags).1 := by
  have hsent := hpost c.outbox (c.reply status flags)
  unfold Conn.commit
  generalize s.post c.outbox (c.reply status flags) = r at hsent
  obtain ⟨outbox, st⟩ := r
  dsimp only at hsent ⊢
  split_ifs
  · exact ⟨rfl, rfl, Or.inr ⟨_, hsent, hbody⟩⟩
  · exact ⟨rfl, rfl, Or.inr ⟨_, hsent, hbody⟩⟩

/-- An error of a message that has an id. -/
theorem sendError_sends (hpost : ∀ o r, (s.post o r).1 = o ++ [r]) {c : Conn (List Reply)}
    (hid : c.requestId ≠ []) (e : ErrorId) : s.Sends c (s.sendError c e).1 := by
  unfold sendError
  dsimp only
  rw [if_neg hid]
  have hsends := commit_sends (c := { c with response := s.errorBody e c.requestId }) hpost
    e.status e.headFlags ⟨rfl, Or.inl ⟨e, rfl⟩⟩
  exact ⟨hsends.requestId, hsends.drawn, hsends.outbox⟩

/-- An error of a message that has none draws one. -/
theorem sendError_draws {c : Conn (List Reply)} (hid : c.requestId = []) (e : ErrorId)
    (hdraw : s.newId c.drawn ≠ []) :
    s.sendError c e = s.sendError (s.assignRequestId c) e := by
  unfold sendError
  dsimp only
  rw [if_pos hid, if_neg (show (s.assignRequestId c).requestId ≠ [] from hdraw)]

theorem showPage_sends (hpost : ∀ o r, (s.post o r).1 = o ++ [r]) (c : Conn (List Reply)) :
    s.Sends c (s.showPage c).1 := by
  unfold showPage
  cases hpage : s.page c.endpoint c.requests with
  | none => exact ⟨rfl, rfl, Or.inl rfl⟩
  | some shown =>
    obtain ⟨status, body⟩ := shown
    have hsends := commit_sends (c := { c with response := body }) hpost status .none
      ⟨rfl, Or.inr (Or.inl ⟨_, _, _, hpage⟩)⟩
    exact ⟨hsends.requestId, hsends.drawn, hsends.outbox⟩

theorem generation_sends (hpost : ∀ o r, (s.post o r).1 = o ++ [r]) {c : Conn (List Reply)}
    (hid : c.requestId ≠ []) : s.Sends c (s.generation c).1 := by
  unfold generation
  split_ifs
  · exact sendError_sends hpost hid _
  · exact sendError_sends hpost hid _
  · exact sendError_sends hpost hid _
  · exact sendError_sends hpost hid _
  · cases s.generate c.endpoint c.body c.requests with
    | some id => exact sendError_sends hpost hid id
    | none => exact ⟨rfl, rfl, Or.inl rfl⟩

theorem setFault_same (c : Conn O) (id : ErrorId) :
    (c.setFault id).outbox = c.outbox ∧ (c.setFault id).requestId = c.requestId ∧
      (c.setFault id).drawn = c.drawn ∧ (c.setFault id).upstream = c.upstream := by
  unfold Conn.setFault
  cases c.fault with
  | none => exact ⟨rfl, rfl, rfl, rfl⟩
  | some f => exact ⟨rfl, rfl, rfl, rfl⟩

/-- A dispatched message is answered under its own id. -/
theorem answer_sends (hpost : ∀ o r, (s.post o r).1 = o ++ [r]) {c : Conn (List Reply)}
    (hid : c.requestId ≠ []) : s.Sends c (s.answer c).1 := by
  rcases s.answer_cases c with ⟨-, hanswer⟩ | ⟨-, id, hanswer | hanswer⟩
  · rw [hanswer]
    unfold handler
    split_ifs
    · exact generation_sends hpost hid
    · exact showPage_sends hpost c
  · rw [hanswer]
    exact sendError_sends hpost hid id
  · obtain ⟨houtbox, hrequestId, hdrawn, -⟩ := setFault_same c id
    have hsends := sendError_sends hpost (hrequestId.symm ▸ hid) id
    rw [hanswer]
    exact ⟨hsends.requestId.trans hrequestId, hsends.drawn.trans hdrawn, by
      rw [← houtbox, ← hrequestId]
      exact hsends.outbox⟩

/-- What an exchange answers goes out under the id of its message. -/
theorem deliver_sends (hpost : ∀ o r, (s.post o r).1 = o ++ [r]) {c : Conn (List Reply)}
    (hid : c.requestId ≠ []) : s.Sends c (s.deliver c) := by
  unfold deliver
  cases hanswer : s.exchange c.endpoint c.body c.requests with
  | response status flags body =>
    have hsends := commit_sends (c := { c with response := body }) hpost status flags
      ⟨rfl, Or.inr (Or.inr ⟨_, _, _, _, _, hanswer⟩)⟩
    exact ⟨hsends.requestId, hsends.drawn, hsends.outbox⟩
  | error id =>
    have hsends := sendError_sends hpost hid id
    exact ⟨hsends.requestId, hsends.drawn, hsends.outbox⟩

end Server

/-! ## Callbacks that neither answer nor draw -/

namespace Conn

variable {O : Type}

/-- `d` has answered and drawn what `c` had, and is not newly suspended. -/
structure Quiet (c d : Conn O) : Prop where
  outbox : d.outbox = c.outbox
  requestId : d.requestId = c.requestId
  drawn : d.drawn = c.drawn
  upstream : d.upstream = true → c.upstream = true

theorem setFault_quiet (c : Conn O) (id : ErrorId) : Quiet c (c.setFault id) := by
  obtain ⟨houtbox, hrequestId, hdrawn, hup⟩ := Server.setFault_same c id
  exact ⟨houtbox, hrequestId, hdrawn, fun h => hup.symm.trans h⟩

theorem Quiet.refl (c : Conn O) : Quiet c c := ⟨rfl, rfl, rfl, id⟩

theorem Quiet.trans {c d e : Conn O} (h₁ : Quiet c d) (h₂ : Quiet d e) : Quiet c e :=
  ⟨h₂.outbox.trans h₁.outbox, h₂.requestId.trans h₁.requestId, h₂.drawn.trans h₁.drawn,
    fun h => h₁.upstream (h₂.upstream h)⟩

theorem Quiet.refuse {c d : Conn O} (h : Quiet c d) (id : ErrorId) : Quiet c (d.refuse id).1 :=
  h.trans (d.setFault_quiet id)

end Conn

namespace Server

open Conn

variable {O : Type} (s : Server O)

theorem onSpan_quiet (c : Conn O) (p : Bytes) (kind : Span) : Quiet c (s.onSpan c p kind).1 := by
  cases kind with
  | url =>
    unfold onSpan onUrl
    cases extend targetMax c.target p with
    | none => exact c.setFault_quiet _
    | some target => exact ⟨rfl, rfl, rfl, id⟩
  | headerField =>
    have hnext : Quiet c (nextName c) := by
      unfold nextName
      split_ifs
      · exact Quiet.refl c
      · exact ⟨rfl, rfl, rfl, id⟩
    unfold onSpan onHeaderField
    cases extend nameMax (nextName c).name p with
    | none => exact hnext.trans (setFault_quiet _ _)
    | some name => exact hnext.trans ⟨rfl, rfl, rfl, id⟩
  | headerValue =>
    unfold onSpan onHeaderValue
    cases extend valueMax c.value p with
    | none => exact c.setFault_quiet _
    | some value => exact ⟨rfl, rfl, rfl, id⟩
  | body =>
    unfold onSpan onBody
    split_ifs
    · exact c.setFault_quiet _
    · cases extend s.bodyMax c.body p with
      | none =>
        dsimp only
        exact Quiet.refuse (by exact ⟨rfl, rfl, rfl, id⟩) _
      | some body => exact ⟨rfl, rfl, rfl, id⟩

theorem onHeaderValueComplete_quiet (c : Conn O) : Quiet c (s.onHeaderValueComplete c).1 := by
  unfold onHeaderValueComplete
  split_ifs
  · unfold onContentLength
    split_ifs
    · exact c.setFault_quiet _
    · cases parseU64 c.value with
      | none => exact c.setFault_quiet _
      | some n => exact ⟨rfl, rfl, rfl, id⟩
  · unfold onTransferEncoding
    split_ifs
    · exact c.setFault_quiet _
    · exact ⟨rfl, rfl, rfl, id⟩
    · exact c.setFault_quiet _
  · unfold onContentType
    cases extend valueMax c.ctype c.value with
    | none => exact c.setFault_quiet _
    | some ctype => exact ⟨rfl, rfl, rfl, id⟩
  · unfold onCredential
    split_ifs
    · exact c.setFault_quiet _
    · cases extend valueMax c.auth c.value with
      | none => exact c.setFault_quiet _
      | some auth => exact ⟨rfl, rfl, rfl, id⟩
  · exact Quiet.refl c

theorem onHeadersComplete_quiet (c : Conn O) (line : RequestLine) :
    Quiet c (s.onHeadersComplete c line).1 := by
  unfold onHeadersComplete
  dsimp only
  split_ifs
  · exact Quiet.refuse (by exact ⟨rfl, rfl, rfl, id⟩) _
  · exact Quiet.refuse (by exact ⟨rfl, rfl, rfl, id⟩) _
  · exact Quiet.refuse (by exact ⟨rfl, rfl, rfl, id⟩) _
  · exact Quiet.refuse (by exact ⟨rfl, rfl, rfl, id⟩) _
  · exact ⟨rfl, rfl, rfl, id⟩

theorem call_quiet (c : Conn O) {x : Call} (hx : x ≠ .messageComplete) : Quiet c (s.call c x).1 := by
  cases x with
  | span kind p => exact s.onSpan_quiet c p kind
  | messageBegin => exact ⟨rfl, rfl, rfl, nofun⟩
  | headerFieldComplete => exact Quiet.refl c
  | headerValueComplete => exact s.onHeaderValueComplete_quiet c
  | headersComplete line => exact s.onHeadersComplete_quiet c line
  | messageComplete => exact absurd rfl hx
  | unset => exact Quiet.refl c
  | bad e => exact Quiet.refl c

/-- A callback on a connection that is not suspended suspends it exactly where it says so. -/
theorem call_upstream {c : Conn O} (hidle : c.upstream = false) (x : Call)
    (hup : (s.call c x).1.upstream = true) : (s.call c x).2 = some .paused := by
  rcases s.call_cases c x hidle with hdoes | ⟨d, heq, -⟩
  · obtain ⟨-, d, hd, -, -, houtcome⟩ := hdoes.at
    have hd : (s.call c x).1 = d.withHeader c.headerBytes := hd
    rw [hd] at hup
    cases hstop : (s.call c x).2 with
    | none =>
      rw [hstop] at houtcome
      exact absurd (houtcome.1.symm.trans hup) (by simp [hidle])
    | some e =>
      rw [hstop] at houtcome
      cases e with
      | paused => rfl
      | user => exact absurd (houtcome.1.symm.trans hup) (by simp [hidle])
      | bad e => exact absurd (houtcome.1.symm.trans hup) (by simp [hidle])
  · have hself : s.call c x = (d.resetMessage, none) := heq c.headerBytes
    rw [hself] at hup
    cases hup

/-- The end of a message answers under the id it draws. -/
theorem onMessageComplete_sends {s : Server (List Reply)}
    (hpost : ∀ o r, (s.post o r).1 = o ++ [r]) {c : Conn (List Reply)}
    (hid : s.newId c.drawn ≠ []) : s.Sends (s.assignRequestId c) (s.onMessageComplete c).1 := by
  have hsends : s.Sends (s.assignRequestId c)
      (s.dispatch { c with messageDone := true }).1 := by
    have h := answer_sends (s := s) (c := s.assignRequestId { c with messageDone := true })
      hpost hid
    exact ⟨h.requestId, h.drawn, h.outbox⟩
  unfold onMessageComplete
  generalize s.dispatch { c with messageDone := true } = r at hsends
  obtain ⟨d, st⟩ := r
  dsimp only at hsends ⊢
  split_ifs
  · obtain ⟨houtbox, hrequestId, hdrawn, -⟩ := setFault_same d .internal
    refine ⟨hrequestId.trans hsends.requestId, hdrawn.trans hsends.drawn, ?_⟩
    show (d.setFault .internal).outbox = _ ∨ _
    rw [houtbox]
    exact hsends.outbox
  · unfold afterDispatch
    split_ifs
    · exact ⟨hsends.requestId, hsends.drawn, hsends.outbox⟩
    · exact ⟨hsends.requestId, hsends.drawn, hsends.outbox⟩
    · exact ⟨hsends.requestId, hsends.drawn, hsends.outbox⟩

/-- An error that finds no id answers under the one it draws. -/
theorem sendError_fresh {s : Server (List Reply)} (hpost : ∀ o r, (s.post o r).1 = o ++ [r])
    {c : Conn (List Reply)} (hnone : c.requestId = []) (hid : s.newId c.drawn ≠ []) (e : ErrorId) :
    s.Sends (s.assignRequestId c) (s.sendError c e).1 := by
  rw [sendError_draws hnone e hid]
  exact sendError_sends hpost hid e

theorem sendError_upstream (c : Conn O) (id : ErrorId) :
    (s.sendError c id).1.upstream = c.upstream := by
  obtain ⟨-, d, hd, hsteady⟩ := (s.sendError_does id c).at
  have hd : (s.sendError c id).1 = d.withHeader c.headerBytes := hd
  rw [hd]
  exact hsteady.upstream

end Server

/-! ## The ledger -/

/-- A connection with the number of its messages that are over, the message each id was
drawn for, and the message each response answers. -/
structure Ledger where
  dialogue : Dialogue (List Reply)
  message : ℕ
  draws : List ℕ
  told : List (ℕ × Reply)

namespace Ledger

variable (s : Server (List Reply))

def start : Ledger := ⟨Dialogue.start [], 0, [], []⟩

/-- A message is over when it is answered, or when the exchange it waited for is. -/
def ends (l : Dialogue (List Reply)) (m : Move) : Bool :=
  match m with
  | .call .messageComplete => decide (l.errno = none ∧ (s.move l m).errno ≠ some .paused)
  | .resume => decide (l.conn.upstream = false ∧ l.errno = some .paused)
  | _ => false

def step (t : Ledger) (m : Move) : Ledger :=
  let d := s.move t.dialogue m
  { dialogue := d
    message := if ends s t.dialogue m then t.message + 1 else t.message
    draws := t.draws ++ List.replicate (d.conn.drawn - t.dialogue.conn.drawn) t.message
    told := t.told ++
      (d.conn.outbox.drop t.dialogue.conn.outbox.length).map fun r => (t.message, r) }

/-- The id was drawn for the message. -/
def Generated (t : Ledger) (m : ℕ) (id : Bytes) : Prop :=
  id ≠ [] ∧ ∃ k, t.draws[k]? = some m ∧ s.newId k = id

/-- Every response carries an id of the message it answers, in its head and its body. -/
def Attributed (t : Ledger) : Prop := ∀ e ∈ t.told, ∃ id, t.Generated s e.1 id ∧ s.Wrote id e.2

/-- The draw of a move succeeds, and an error of a message that was not dispatched finds no
id of an earlier one. -/
def Fresh (t : Ledger) (m : Move) : Prop :=
  match m with
  | .call .messageComplete =>
    t.dialogue.errno = none → s.newId t.dialogue.conn.drawn ≠ []
  | .refuse _ =>
    t.dialogue.conn.responded = false →
      t.dialogue.conn.requestId = [] ∧ s.newId t.dialogue.conn.drawn ≠ []
  | .sweep =>
    t.dialogue.conn.Unanswered →
      t.dialogue.conn.requestId = [] ∧ s.newId t.dialogue.conn.drawn ≠ []
  | _ => True

/-- The invariant of runs. -/
structure Kept (t : Ledger) : Prop where
  count : t.draws.length = t.dialogue.conn.drawn
  attributed : t.Attributed s
  held : t.dialogue.conn.upstream = true → t.Generated s t.message t.dialogue.conn.requestId
  running : t.dialogue.errno = none → t.dialogue.conn.upstream = false

variable {s} {t : Ledger}

theorem start_kept : Kept s start where
  count := rfl
  attributed e he := by cases he
  held h := by cases h
  running _ := rfl

/-- What was drawn stays drawn. -/
theorem Generated.grow {u : Ledger} {m : ℕ} {id : Bytes} (h : t.Generated s m id) {more : List ℕ}
    (hdraws : u.draws = t.draws ++ more) : u.Generated s m id := by
  obtain ⟨hne, k, hk, hid⟩ := h
  refine ⟨hne, k, ?_, hid⟩
  have hlt : k < t.draws.length := (List.getElem?_eq_some_iff.mp hk).1
  rw [hdraws, List.getElem?_append_left hlt]
  exact hk

/-- The responses of a move that writes at most one, under an id of the message. -/
theorem Attributed.told {u : Ledger} (h : t.Attributed s) {more : List ℕ}
    (hdraws : u.draws = t.draws ++ more) {c d : Conn (List Reply)} (hsends : s.Sends c d)
    (htold : u.told = t.told ++ (d.outbox.drop c.outbox.length).map fun r => (t.message, r))
    (hid : d.outbox ≠ c.outbox → u.Generated s t.message c.requestId) : u.Attributed s := by
  intro e he
  rw [htold, List.mem_append] at he
  rcases he with hold | hnew
  · obtain ⟨id, hgen, hwrote⟩ := h e hold
    exact ⟨id, hgen.grow hdraws, hwrote⟩
  · rcases hsends.outbox with hnone | ⟨r, hone, hwrote⟩
    · rw [hnone, List.drop_length] at hnew
      cases hnew
    · rw [hone, List.drop_left] at hnew
      obtain rfl := List.mem_singleton.mp hnew
      refine ⟨c.requestId, hid fun hsame => ?_, hwrote⟩
      rw [hone] at hsame
      exact absurd (List.append_right_eq_self.mp hsame) (List.cons_ne_nil r [])

/-- A move that neither answers nor draws. -/
theorem kept_quiet (h : t.Kept s) {m : Move}
    (hquiet : t.dialogue.conn.Quiet (s.move t.dialogue m).conn)
    (hends : (s.move t.dialogue m).conn.upstream = true → ends s t.dialogue m = false)
    (hrunning : (s.move t.dialogue m).errno = none →
      (s.move t.dialogue m).conn.upstream = false) : (t.step s m).Kept s := by
  have hsame : (t.step s m).draws = t.draws := by
    show t.draws ++ List.replicate ((s.move t.dialogue m).conn.drawn - t.dialogue.conn.drawn) t.message = t.draws
    rw [hquiet.drawn, Nat.sub_self]
    exact List.append_nil _
  have hsends : s.Sends t.dialogue.conn (s.move t.dialogue m).conn :=
    ⟨hquiet.requestId, hquiet.drawn, Or.inl hquiet.outbox⟩
  have hdraws : (t.step s m).draws = t.draws ++ [] := hsame.trans (List.append_nil _).symm
  refine ⟨?_, h.attributed.told hdraws hsends rfl (absurd hquiet.outbox), ?_, hrunning⟩
  · rw [hsame]
    exact h.count.trans hquiet.drawn.symm
  · intro hup
    have hmessage : (t.step s m).message = t.message := by
      show (if ends s t.dialogue m then t.message + 1 else t.message) = t.message
      rw [hends hup]
      rfl
    have hid : (t.step s m).dialogue.conn.requestId = t.dialogue.conn.requestId := hquiet.requestId
    rw [hmessage, hid]
    exact (h.held (hquiet.upstream hup)).grow hdraws

/-- A move that answers under an id it draws. -/
theorem kept_draws (h : t.Kept s) {m : Move} (hid : s.newId t.dialogue.conn.drawn ≠ [])
    (hsends : s.Sends (s.assignRequestId t.dialogue.conn) (s.move t.dialogue m).conn)
    (hends : (s.move t.dialogue m).conn.upstream = true → ends s t.dialogue m = false)
    (hrunning : (s.move t.dialogue m).errno = none →
      (s.move t.dialogue m).conn.upstream = false) : (t.step s m).Kept s := by
  have hdrawn : (s.move t.dialogue m).conn.drawn = t.dialogue.conn.drawn + 1 := hsends.drawn
  have hdraws : (t.step s m).draws = t.draws ++ [t.message] := by
    show t.draws ++ List.replicate ((s.move t.dialogue m).conn.drawn - t.dialogue.conn.drawn) t.message =
      t.draws ++ [t.message]
    rw [hdrawn, Nat.add_sub_cancel_left]
    rfl
  have hgenerated : (t.step s m).Generated s t.message (s.newId t.dialogue.conn.drawn) := by
    refine ⟨hid, t.dialogue.conn.drawn, ?_, rfl⟩
    rw [hdraws, ← h.count]
    exact List.getElem?_concat_length
  refine ⟨?_, h.attributed.told hdraws hsends rfl fun _ => hgenerated, ?_, hrunning⟩
  · rw [hdraws, List.length_append, h.count]
    exact hdrawn.symm
  · intro hup
    have hmessage : (t.step s m).message = t.message := by
      show (if ends s t.dialogue m then t.message + 1 else t.message) = t.message
      rw [hends hup]
      rfl
    have hown : (t.step s m).dialogue.conn.requestId = s.newId t.dialogue.conn.drawn :=
      hsends.requestId
    rw [hmessage, hown]
    exact hgenerated

/-- The end of an exchange, whose message has its id. -/
theorem kept_deliver (hpost : ∀ o r, (s.post o r).1 = o ++ [r]) (h : t.Kept s) :
    (t.step s .deliver).Kept s := by
  by_cases hup : t.dialogue.conn.upstream = true
  · have hheld := h.held hup
    have hmove : s.move t.dialogue .deliver =
        ⟨s.deliver t.dialogue.conn, t.dialogue.errno⟩ := if_pos hup
    have hsends := Server.deliver_sends hpost hheld.1
    have hidle : (s.deliver t.dialogue.conn).upstream = false := rfl
    have hdraws : (t.step s .deliver).draws = t.draws ++ [] := by
      show t.draws ++ List.replicate ((s.move t.dialogue .deliver).conn.drawn -
        t.dialogue.conn.drawn) t.message = t.draws ++ []
      rw [hmove, hsends.drawn, Nat.sub_self]
      rfl
    refine ⟨?_, h.attributed.told hdraws (hmove ▸ hsends) rfl fun _ => hheld.grow hdraws, ?_, ?_⟩
    · rw [hdraws, List.append_nil]
      show t.draws.length = (s.move t.dialogue .deliver).conn.drawn
      rw [hmove, hsends.drawn, h.count]
    · intro hstill
      have hstill : (s.move t.dialogue .deliver).conn.upstream = true := hstill
      rw [hmove, hidle] at hstill
      cases hstill
    · intro _
      show (s.move t.dialogue .deliver).conn.upstream = false
      rw [hmove, hidle]
  · have hmove : s.move t.dialogue .deliver = t.dialogue := if_neg hup
    refine kept_quiet h ?_ (fun _ => rfl) ?_
    · rw [hmove]
      exact Conn.Quiet.refl _
    · intro _
      rw [hmove]
      exact Bool.not_eq_true _ ▸ hup

/-- One move keeps the invariant. -/
theorem kept_step (hpost : ∀ o r, (s.post o r).1 = o ++ [r]) (h : t.Kept s) (m : Move)
    (hfresh : t.Fresh s m) : (t.step s m).Kept s := by
  have hquiet : ∀ {m : Move}, t.dialogue.conn.Quiet (s.move t.dialogue m).conn →
      (s.move t.dialogue m).errno = t.dialogue.errno → ends s t.dialogue m = false →
      (t.step s m).Kept s := by
    intro m hconn herrno hends
    refine kept_quiet h hconn (fun _ => hends) fun hnone => ?_
    rw [Bool.eq_false_iff]
    intro hup
    have hidle := h.running (herrno.symm.trans hnone)
    rw [hconn.upstream hup] at hidle
    cases hidle
  have hdraws : ∀ {m : Move}, s.newId t.dialogue.conn.drawn ≠ [] →
      s.Sends (s.assignRequestId t.dialogue.conn) (s.move t.dialogue m).conn →
      (s.move t.dialogue m).conn.upstream = t.dialogue.conn.upstream →
      (s.move t.dialogue m).errno = t.dialogue.errno → ends s t.dialogue m = false →
      (t.step s m).Kept s := by
    intro m hid hsends hup herrno hends
    refine kept_draws h hid hsends (fun _ => hends) fun hnone => ?_
    rw [hup]
    exact h.running (herrno.symm.trans hnone)
  cases m with
  | call x =>
    by_cases herrno : t.dialogue.errno = none
    · have hmove : s.move t.dialogue (.call x) =
          ⟨(s.call t.dialogue.conn x).1, (s.call t.dialogue.conn x).2⟩ := if_pos herrno
      have hpaused : (s.move t.dialogue (.call x)).conn.upstream = true →
          (s.move t.dialogue (.call x)).errno = some .paused := by
        rw [hmove]
        exact s.call_upstream (h.running herrno) x
      have hrunning : (s.move t.dialogue (.call x)).errno = none →
          (s.move t.dialogue (.call x)).conn.upstream = false := by
        intro hnone
        rw [Bool.eq_false_iff]
        intro hup
        rw [hpaused hup] at hnone
        cases hnone
      by_cases hx : x = .messageComplete
      · subst hx
        refine kept_draws h (hfresh herrno) ?_ ?_ hrunning
        · rw [hmove]
          exact Server.onMessageComplete_sends hpost (hfresh herrno)
        · intro hup
          exact decide_eq_false fun hover => hover.2 (hpaused hup)
      · refine kept_quiet h ?_ (fun _ => ?_) hrunning
        · rw [hmove]
          exact s.call_quiet _ hx
        · unfold ends
          cases x with
          | messageComplete => exact absurd rfl hx
          | _ => rfl
    · have hmove : s.move t.dialogue (.call x) = t.dialogue := if_neg herrno
      refine hquiet (by rw [hmove]; exact Conn.Quiet.refl _) (by rw [hmove]) ?_
      unfold ends
      cases x with
      | messageComplete => exact decide_eq_false fun hover => herrno hover.1
      | _ => rfl
  | count n =>
    have hconn : t.dialogue.conn.Quiet (Server.countHeaderBytes t.dialogue.conn n) := by
      unfold Server.countHeaderBytes
      split_ifs
      · exact Conn.Quiet.refl _
      · exact ⟨rfl, rfl, rfl, id⟩
    exact hquiet hconn rfl rfl
  | refuse id =>
    have hfault := t.dialogue.conn.setFault_quiet id
    have hresponded : (t.dialogue.conn.setFault id).responded = t.dialogue.conn.responded := by
      unfold Conn.setFault
      cases t.dialogue.conn.fault with
      | none => rfl
      | some f => rfl
    cases hanswered : t.dialogue.conn.responded with
    | true =>
      refine hquiet ?_ rfl rfl
      show t.dialogue.conn.Quiet (s.refuse t.dialogue.conn id)
      unfold Server.refuse
      dsimp only
      rw [hresponded, hanswered, if_pos rfl]
      exact ⟨hfault.outbox, hfault.requestId, hfault.drawn, hfault.upstream⟩
    | false =>
      obtain ⟨hnone, hid⟩ := hfresh hanswered
      have hrefuse : s.refuse t.dialogue.conn id =
          { (s.sendError (t.dialogue.conn.setFault id)
              ((t.dialogue.conn.setFault id).fault.getD id)).1 with closing := true } := by
        unfold Server.refuse
        dsimp only
        rw [hresponded, hanswered, if_neg Bool.false_ne_true]
      obtain ⟨houtbox, hrequestId, hdrawn, hup⟩ := Server.setFault_same t.dialogue.conn id
      have hsends := Server.sendError_fresh hpost (hrequestId.trans hnone) (hdrawn.symm ▸ hid)
        ((t.dialogue.conn.setFault id).fault.getD id)
      have hassigned : (s.assignRequestId (t.dialogue.conn.setFault id)).requestId =
          s.newId t.dialogue.conn.drawn := congrArg s.newId hdrawn
      refine hdraws hid ?_ ?_ rfl rfl
      · show s.Sends _ (s.refuse t.dialogue.conn id)
        rw [hrefuse]
        refine ⟨hsends.requestId.trans hassigned, hsends.drawn.trans (congrArg (· + 1) hdrawn), ?_⟩
        have hbox := hsends.outbox
        rw [hassigned] at hbox
        exact houtbox ▸ hbox
      · show (s.refuse t.dialogue.conn id).upstream = _
        rw [hrefuse]
        exact (s.sendError_upstream _ _).trans hup
  | overflow =>
    by_cases hup : t.dialogue.conn.upstream = true
    · have hmove : s.move t.dialogue .overflow = { t.dialogue with
          conn := { t.dialogue.conn with upstream := false, closing := true, draining := true } } :=
        if_pos hup
      refine hquiet ?_ (by rw [hmove]) rfl
      rw [hmove]
      exact ⟨rfl, rfl, rfl, nofun⟩
    · have hmove : s.move t.dialogue .overflow = { t.dialogue with
          conn := { t.dialogue.conn.setFault .bodyTooLarge with closing := true } } := if_neg hup
      have hfault := t.dialogue.conn.setFault_quiet .bodyTooLarge
      refine hquiet ?_ (by rw [hmove]) rfl
      rw [hmove]
      exact ⟨hfault.outbox, hfault.requestId, hfault.drawn, hfault.upstream⟩
  | deliver => exact kept_deliver hpost h
  | resume =>
    by_cases hup : t.dialogue.conn.upstream = true
    · have hmove : s.move t.dialogue .resume = t.dialogue := if_pos hup
      refine hquiet (by rw [hmove]; exact Conn.Quiet.refl _) (by rw [hmove]) ?_
      exact decide_eq_false fun hover => absurd (hup.symm.trans hover.1) (by decide)
    · have hmove : s.move t.dialogue .resume =
          ⟨{ t.dialogue.conn with responded := false }, Server.resumeErrno t.dialogue.errno⟩ :=
        if_neg hup
      have hidle : (s.move t.dialogue .resume).conn.upstream = false := by
        rw [hmove]
        exact Bool.not_eq_true _ ▸ hup
      refine kept_quiet h ?_ (fun hstill => ?_) fun _ => hidle
      · rw [hmove]
        exact ⟨rfl, rfl, rfl, id⟩
      · rw [hidle] at hstill
        cases hstill
  | drain => exact hquiet ⟨rfl, rfl, rfl, id⟩ rfl rfl
  | sweep =>
    by_cases hwaits : t.dialogue.conn.Unanswered
    · obtain ⟨hnone, hid⟩ := hfresh hwaits
      have hmove : s.move t.dialogue .sweep = { t.dialogue with
          conn := { (s.sendError t.dialogue.conn .requestTimeout).1 with closing := true } } :=
        congrArg (Dialogue.mk · t.dialogue.errno) (if_pos hwaits)
      have hsends := Server.sendError_fresh hpost hnone hid .requestTimeout
      refine hdraws hid ?_ ?_ rfl rfl
      · rw [hmove]
        exact ⟨hsends.requestId, hsends.drawn, hsends.outbox⟩
      · rw [hmove]
        exact s.sendError_upstream _ _
    · have hmove : s.move t.dialogue .sweep = t.dialogue :=
        congrArg (Dialogue.mk · t.dialogue.errno) (if_neg hwaits)
      exact hquiet (by rw [hmove]; exact Conn.Quiet.refl _) rfl rfl

/-! ## Runs -/

/-- Responses to different messages carry different ids. -/
def Distinct (t : Ledger) : Prop :=
  ∀ e ∈ t.told, ∀ f ∈ t.told, e.1 ≠ f.1 → e.2.requestId ≠ f.2.requestId

/-- The response to every message carries a valid id that was generated for it. -/
def Named (s : Server (List Reply)) (t : Ledger) : Prop :=
  ∀ e ∈ t.told, ∃ id, Id.isValidUlid id = true ∧ t.Generated s e.1 id ∧ s.Wrote id e.2

/-- The handler of an endpoint runs only for a message whose id has been generated. -/
def Guarded (s : Server (List Reply)) (t : Ledger) (m : Move) : Prop :=
  m = .call .messageComplete → t.dialogue.errno = none → s.Runs t.dialogue.conn →
    Id.isValidUlid (s.newId t.dialogue.conn.drawn) = true

theorem Kept.named {clock : ℕ → Except Status ℕ} {random : ℕ → Bytes}
    {verdict : List Reply → Reply → Status} (h : t.Kept (s.identified clock random verdict)) :
    t.Named (s.identified clock random verdict) := by
  intro e he
  obtain ⟨id, hgen, hwrote⟩ := h.attributed e he
  obtain ⟨hne, k, hk, hid⟩ := hgen
  have hid : drawnId clock random k = id := hid
  refine ⟨id, ?_, ⟨hne, k, hk, hid⟩, hwrote⟩
  rw [← hid]
  exact (drawnId_valid (hid.symm ▸ hne)).1

theorem Kept.distinct {clock : ℕ → Except Status ℕ} {random : ℕ → Bytes}
    {verdict : List Reply → Reply → Status}
    (hdistinct : ∀ j k, (random j).length = 10 → random j = random k → j = k)
    (h : t.Kept (s.identified clock random verdict)) : t.Distinct := by
  intro e he f hf hne hsame
  obtain ⟨id, ⟨hid, j, hj, hgen⟩, hwrote⟩ := h.attributed e he
  obtain ⟨id', ⟨hid', k, hk, hgen'⟩, hwrote'⟩ := h.attributed f hf
  have hgen : drawnId clock random j = id := hgen
  have hgen' : drawnId clock random k = id' := hgen'
  have heq : id = id' := hwrote.1.symm.trans (hsame.trans hwrote'.1)
  have hfirst := (drawnId_valid (hgen.symm ▸ hid)).2
  have hsecond := (drawnId_valid (hgen'.symm ▸ hid')).2
  rw [hgen] at hfirst
  rw [hgen', ← heq] at hsecond
  have hjk := hdistinct j k (Id.length_of_generate hfirst) (Id.generate_inj hfirst hsecond)
  rw [hjk, hk] at hj
  exact hne (Option.some.inj hj).symm

end Ledger

open Ledger in
/-- Along runs in which every draw succeeds and no error finds the id of an earlier
message, every response carries a valid id of its own message, in head and body, no two
messages share one, and no handler runs without one. -/
theorem responses_identified (s : Server (List Reply)) (clock : ℕ → Except Status ℕ)
    (random : ℕ → Bytes) (verdict : List Reply → Reply → Status)
    (hdistinct : ∀ j k, (random j).length = 10 → random j = random k → j = k) (ms : List Move)
    (hfresh : Along (step (s.identified clock random verdict))
      (fun t m => t.Fresh (s.identified clock random verdict) m) start ms) :
    Throughout (step (s.identified clock random verdict))
        (fun t => t.Named (s.identified clock random verdict) ∧ t.Distinct) start ms ∧
      Along (step (s.identified clock random verdict))
        (fun t m => t.Guarded (s.identified clock random verdict) m) start ms := by
  constructor
  · have hkept : Throughout (step (s.identified clock random verdict))
        (fun t => t.Kept (s.identified clock random verdict)) start ms :=
      throughout_of_along (fun t m h hm => kept_step (fun _ _ => rfl) h m hm) start_kept hfresh
    exact hkept.mono fun t h => ⟨h.named, h.distinct hdistinct⟩
  · refine hfresh.mono ?_
    rintro t m h rfl herrno -
    exact (drawnId_valid (h herrno)).1

/-! ## Two messages on one connection -/

/-- A request for a page. -/
def shown : List Move :=
  [.call .messageBegin, .call (.span .url (ascii "/healthz")),
    .call (.headersComplete ⟨methodGet, 1, 1, false, true⟩), .call .messageComplete]

/-- A message that is refused while it is parsed. -/
def broken : List Move :=
  [.call .messageBegin, .call (.bad .other), .count 1, .refuse .malformed]

/-- A server without credentials, whose pages are empty. -/
def anonymous : Server (List Reply) where
  headerMax := 4096
  bodyMax := 65536
  authType := .none
  authHeader := none
  authSecret := []
  newId _ := []
  errorBody _ id := id
  page _ _ := some (200, [])
  generate _ _ _ := none
  exchange _ _ _ := .error .internal
  post sent _ := (sent, .ok)

/-- A kernel that delivers randomness twice. -/
def twice (k : ℕ) : Bytes := if k < 2 then List.replicate 9 0 ++ [UInt8.ofNat k] else []

theorem twice_distinct (j k : ℕ) (hlen : (twice j).length = 10) (h : twice j = twice k) : j = k := by
  have hj : j < 2 := by
    by_contra hj
    rw [twice, if_neg hj] at hlen
    cases hlen
  have hk : k < 2 := by
    by_contra hk
    rw [h, twice, if_neg hk] at hlen
    cases hlen
  interval_cases j <;> interval_cases k <;> first | rfl | exact absurd h (by decide)

def posting : Server (List Reply) :=
  anonymous.identified (fun _ => .ok 1700000000000) twice fun _ _ => .ok

open Ledger in
theorem shown_identified :
    Throughout (step posting) (fun t => t.Named posting ∧ t.Distinct) start shown ∧
      Along (step posting) (fun t m => t.Guarded posting m) start shown :=
  responses_identified anonymous (fun _ => .ok 1700000000000) twice (fun _ _ => .ok) twice_distinct
    shown ⟨trivial, trivial, trivial, fun _ => by decide, trivial⟩

open Ledger in
/-- The refusal of the second message goes out under the id of the first; and where the
kernel delivers no randomness the handler runs without an id. -/
theorem refusal_reuses_id :
    ¬Throughout (step posting) (fun t => t.Named posting ∧ t.Distinct) start (shown ++ broken) ∧
      ¬Along (step (anonymous.identified (fun _ => .ok 1700000000000) (fun _ => []) fun _ _ => .ok))
        (fun t m => t.Guarded
          (anonymous.identified (fun _ => .ok 1700000000000) (fun _ => []) fun _ _ => .ok) m)
        start shown := by
  constructor
  · intro h
    have hdistinct := h.last.2
    unfold Distinct at hdistinct
    revert hdistinct
    decide
  · rintro ⟨-, -, -, hguarded, -⟩
    have hruns : (anonymous.identified (fun _ => .ok 1700000000000) (fun _ => []) fun _ _ => .ok).Runs
        (run (step (anonymous.identified (fun _ => .ok 1700000000000) (fun _ => []) fun _ _ => .ok))
          start (shown.take 3)).dialogue.conn := by
      unfold Server.Runs Server.Otherwise
      decide
    have hvalid := hguarded rfl (by decide) hruns
    revert hvalid
    decide

end AsmFlow.Http
