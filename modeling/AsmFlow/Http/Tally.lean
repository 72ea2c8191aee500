import AsmFlow.Http.Requests
import AsmFlow.Library.Joined

/-!
# Requests and responses, counted

The parser counts, beside its work, how many requests the bytes it was given
begin and how many bytes of the last one's header section they hold. After every
byte that it goes on behind, a connection has given one response to each request
that is over, and none to the one it reads.
-/

namespace AsmFlow.Http

open Library Conn

variable {P : Type}

/-- The requests that were begun, and the bytes of the header section of the last. -/
structure Tally where
  begun : ℕ
  headed : ℕ
  deriving DecidableEq, Repr

def Call.isBad : Call → Bool
  | .bad _ => true
  | _ => false

theorem Phase.steps_cut {ph ph' : Phase} {xs ys : List Call}
    (h : ph.steps (xs ++ ys) = some ph') :
    ∃ mid, ph.steps xs = some mid ∧ mid.steps ys = some ph' := by
  have hnone (zs : List Call) :
      zs.foldl (fun acc x => acc.bind fun ph => ph.step x) (none : Option Phase) = none := by
    induction zs with
    | nil => rfl
    | cons z zs ih => exact ih
  cases hmid : ph.steps xs with
  | none =>
    unfold steps at h hmid
    rw [List.foldl_append, hmid, hnone] at h
    cases h
  | some mid => exact ⟨mid, rfl, (steps_append hmid ys).symm.trans h⟩

namespace Parser

variable (T : Parser P)

/-- The end of a message is the last thing a byte brings about. -/
def EndsLast : Prop :=
  ∀ p b pre post, (T.next p b).2 = pre ++ .messageComplete :: post → post = []

/-- The byte begins a message, or is refused where none has begun. -/
def asks (p : P) (b : UInt8) : Bool :=
  decide (.messageBegin ∈ (T.next p b).2) ||
    (decide (T.phase p = .idle) && (T.next p b).2.any Call.isBad)

def count (p : P) (b : UInt8) (g : Tally) : Tally where
  begun := if T.asks p b then g.begun + 1 else g.begun
  headed :=
    if .messageBegin ∈ (T.next p b).2 then 1
    else if T.phase p = .head then g.headed + 1
    else g.headed

/-- The parser, with its tally. -/
def tallied : Parser (P × Tally) where
  next x b := (((T.next x.1 b).1, T.count x.1 b x.2), (T.next x.1 b).2)
  start := (T.start, ⟨0, 0⟩)
  phase x := T.phase x.1
  start_idle := T.start_idle
  orderly x b := T.orderly x.1 b

variable {T}

theorem EndsLast.tallied (h : T.EndsLast) : T.tallied.EndsLast := fun x b => h x.1 b

theorem EndsLast.separates (h : T.EndsLast) : T.Separates := by
  intro p b hcall
  obtain ⟨pre, post, hcalls⟩ := List.append_of_mem hcall
  obtain rfl := h p b pre post hcalls
  have hsteps := T.orderly p b
  rw [hcalls] at hsteps
  obtain ⟨mid, -, hlast⟩ := Phase.steps_cut hsteps
  cases mid with
  | body => exact (Option.some.inj hlast).symm
  | idle => cases hlast
  | head => cases hlast

end Parser

/-! ## One callback -/

namespace Conn

/-- `d` has answered nothing that `c` had not, and is to be closed if `c` is. -/
structure Silent {O : Type} (c d : Conn O) : Prop where
  outbox : d.outbox = c.outbox
  responded : d.responded = c.responded
  upstream : d.upstream = c.upstream
  closing : d.closing = c.closing

theorem Silent.of_collects {O : Type} {c d : Conn O} (h : Collects c d) : Silent c d :=
  ⟨(congrArg Conn.outbox h :), (congrArg Conn.responded h :), (congrArg Conn.upstream h :),
    (congrArg Conn.closing h :)⟩

end Conn

namespace Server

section

variable {O : Type} {s : Server O} {c : Conn O}

theorem onHeadersComplete_silent (line : RequestLine) :
    Silent c (s.onHeadersComplete c line).1 ∧
      ((s.onHeadersComplete c line).2 = none →
        (s.onHeadersComplete c line).1.fault = c.fault) ∧
      (s.onHeadersComplete c line).2 ≠ some .paused := by
  have hrefuse {d : Conn O} (hd : Silent c d) (id : ErrorId) : Silent c (d.refuse id).1 ∧
      ((d.refuse id).2 = none → (d.refuse id).1.fault = c.fault) ∧
      (d.refuse id).2 ≠ some .paused := by
    have h := Silent.of_collects (d.refuse_collects id)
    refine ⟨⟨h.outbox.trans hd.outbox, h.responded.trans hd.responded,
      h.upstream.trans hd.upstream, h.closing.trans hd.closing⟩, nofun, nofun⟩
  unfold onHeadersComplete
  dsimp only
  split_ifs
  · exact hrefuse (by exact ⟨rfl, rfl, rfl, rfl⟩) _
  · exact hrefuse (by exact ⟨rfl, rfl, rfl, rfl⟩) _
  · exact hrefuse (by exact ⟨rfl, rfl, rfl, rfl⟩) _
  · exact hrefuse (by exact ⟨rfl, rfl, rfl, rfl⟩) _
  · exact ⟨⟨rfl, rfl, rfl, rfl⟩, fun _ => rfl, nofun⟩

/-- A callback that goes on collecting goes on without a fault. -/
theorem call_fault {x : Call} (hx : x.Collecting) (hgoes : (s.call c x).2 = none) :
    (s.call c x).1.fault = c.fault := by
  have hpasses {f : Conn O → Conn O × Option Hpe} (h : Does f c (Passes c))
      (hnone : (f c).2 = none) : (f c).1.fault = c.fault := by
    obtain ⟨-, d, hd, -, hvoice⟩ := h.at
    rw [hd]
    exact congrArg (fun v => v.2.2.1) (hvoice hnone).1
  cases x with
  | span kind p => exact hpasses (s.onSpan_does p kind c) hgoes
  | headerValueComplete => exact hpasses (s.onHeaderValueComplete_does c) hgoes
  | headerFieldComplete => rfl
  | unset => rfl
  | bad e => rfl
  | messageBegin => exact hx.elim
  | headersComplete line => exact hx.elim
  | messageComplete => exact hx.elim

/-- Inside a message nothing is answered. -/
theorem call_silent {x : Call} (hbegin : x ≠ .messageBegin) (hend : x ≠ .messageComplete) :
    Silent c (s.call c x).1 ∧ ((s.call c x).2 = none → (s.call c x).1.fault = c.fault) ∧
      (s.call c x).2 ≠ some .paused := by
  have hunpaused : (s.call c x).2 ≠ some .paused := fun h => hend (call_paused h)
  by_cases hx : x.Collecting
  · exact ⟨Silent.of_collects (s.call_collects c hx), call_fault hx, hunpaused⟩
  · cases x with
    | messageBegin => exact absurd rfl hbegin
    | headersComplete line => exact onHeadersComplete_silent line
    | messageComplete => exact absurd rfl hend
    | _ => exact absurd trivial hx

end

/-! ## One response -/

/-- `d` is `c` with one more response. -/
structure Told (c d : Conn (List Reply)) : Prop where
  outbox : d.outbox.length = c.outbox.length + 1
  responded : d.responded = true
  upstream : d.upstream = c.upstream
  fault : d.fault = c.fault

variable {s : Server (List Reply)} {c : Conn (List Reply)}

theorem commit_told (hpost : ∀ o r, s.post o r = (o ++ [r], .ok)) (c : Conn (List Reply))
    (status : ℕ) (flags : HeadFlags) :
    Told c (c.commit s.post status flags).1 ∧ (c.commit s.post status flags).2 = .ok ∧
      (c.commit s.post status flags).1.outbox = c.outbox ++ [c.reply status flags] := by
  unfold commit
  rw [hpost]
  have haccepted : ¬Status.ok < 0 := by decide
  dsimp only
  rw [if_neg haccepted]
  exact ⟨⟨by simp, rfl, rfl, rfl⟩, rfl, rfl⟩

theorem sendError_told (hpost : ∀ o r, s.post o r = (o ++ [r], .ok)) (c : Conn (List Reply))
    (id : ErrorId) : Told c (s.sendError c id).1 ∧ (s.sendError c id).2 = .ok ∧
      ∃ r, (s.sendError c id).1.outbox = c.outbox ++ [r] ∧ r.status = id.status := by
  have hcommit (d : Conn (List Reply)) (hd : d.outbox = c.outbox ∧ d.upstream = c.upstream ∧
      d.fault = c.fault) : Told c (d.commit s.post id.status id.headFlags).1 ∧
        (d.commit s.post id.status id.headFlags).2 = .ok ∧
        ∃ r, (d.commit s.post id.status id.headFlags).1.outbox = c.outbox ++ [r] ∧
          r.status = id.status := by
    obtain ⟨houtbox, hupstream, hfault⟩ := hd
    obtain ⟨htold, hst, hlast⟩ := commit_told hpost d id.status id.headFlags
    refine ⟨⟨?_, htold.responded, htold.upstream.trans hupstream, htold.fault.trans hfault⟩, hst,
      _, hlast.trans (by rw [houtbox]), rfl⟩
    rw [htold.outbox, houtbox]
  unfold sendError
  split_ifs
  · exact hcommit _ ⟨rfl, rfl, rfl⟩
  · exact hcommit _ ⟨rfl, rfl, rfl⟩

/-- How a handler leaves a request that has not been answered: with one response, suspended,
or failed without any. -/
inductive Handled (c : Conn (List Reply)) : Conn (List Reply) × Status → Prop
  | told {d : Conn (List Reply)} (houtbox : d.outbox.length = c.outbox.length + 1)
      (hup : d.upstream = c.upstream) : Handled c (d, .ok)
  | suspended {d : Conn (List Reply)} (houtbox : d.outbox = c.outbox) (hup : d.upstream = true)
      (hfault : c.fault = none ∧ d.fault = none) : Handled c (d, .ok)
  | failed {d : Conn (List Reply)} {st : Status} (houtbox : d.outbox = c.outbox)
      (hup : d.upstream = c.upstream) (hst : st < 0) : Handled c (d, st)

theorem handled_sendError (hpost : ∀ o r, s.post o r = (o ++ [r], .ok)) (c : Conn (List Reply))
    (id : ErrorId) : Handled c (s.sendError c id) := by
  obtain ⟨htold, hst, -⟩ := sendError_told hpost c id
  have h : Handled c ((s.sendError c id).1, .ok) := .told htold.outbox htold.upstream
  rwa [← hst] at h

theorem handled_handler (hpost : ∀ o r, s.post o r = (o ++ [r], .ok)) (hfault : c.fault = none) :
    Handled c (s.handler c) := by
  unfold handler
  split_ifs
  · unfold generation
    split_ifs
    · exact handled_sendError hpost c _
    · exact handled_sendError hpost c _
    · exact handled_sendError hpost c _
    · exact handled_sendError hpost c _
    · cases s.generate c.endpoint c.body c.requests with
      | some id => exact handled_sendError hpost c id
      | none => exact .suspended rfl rfl ⟨hfault, hfault⟩
  · unfold showPage
    cases s.page c.endpoint c.requests with
    | none => exact .failed rfl rfl (by decide)
    | some page =>
      obtain ⟨status, body⟩ := page
      obtain ⟨htold, hst, -⟩ := commit_told hpost { c with response := body } status .none
      have h : Handled c (({ c with response := body }.commit s.post status .none).1, .ok) :=
        .told htold.outbox htold.upstream
      rwa [← hst] at h

theorem handled_dispatch (hpost : ∀ o r, s.post o r = (o ++ [r], .ok)) (c : Conn (List Reply)) :
    Handled c (s.dispatch c) := by
  have hsame {d : Conn (List Reply)} {r : Conn (List Reply) × Status} (h : Handled d r)
      (houtbox : d.outbox = c.outbox) (hup : d.upstream = c.upstream)
      (hfault : d.fault = none → c.fault = none) : Handled c r := by
    cases h with
    | told hone hstays => exact .told (hone.trans (by rw [houtbox])) (hstays.trans hup)
    | suspended hnone hwaits hfaults =>
      exact .suspended (hnone.trans houtbox) hwaits ⟨hfault hfaults.1, hfaults.2⟩
    | failed hnone hstays hst => exact .failed (hnone.trans houtbox) (hstays.trans hup) hst
  unfold dispatch
  rcases s.answer_cases (s.assignRequestId c) with ⟨hruns, heq⟩ | ⟨-, id, heq | heq⟩
  · rw [heq]
    exact hsame (handled_handler hpost hruns.2.1) rfl rfl id
  · rw [heq]
    exact hsame (handled_sendError hpost _ id) rfl rfl (fun h => h)
  · rw [heq]
    obtain ⟨htold, hst, -⟩ := sendError_told hpost ((s.assignRequestId c).setFault id) id
    obtain ⟨houtbox, hup⟩ : ((s.assignRequestId c).setFault id).outbox = c.outbox ∧
        ((s.assignRequestId c).setFault id).upstream = c.upstream := by
      unfold setFault
      cases (s.assignRequestId c).fault with
      | none => exact ⟨rfl, rfl⟩
      | some f => exact ⟨rfl, rfl⟩
    have h : Handled c ((s.sendError ((s.assignRequestId c).setFault id) id).1, .ok) :=
      .told (htold.outbox.trans (by rw [houtbox])) (htold.upstream.trans hup)
    rwa [← hst] at h

/-- How the end of a message leaves a connection: answered and ready for the next, suspended,
or at its end. -/
inductive Completes (c : Conn (List Reply)) : Conn (List Reply) × Option Hpe → Prop
  | answered {d : Conn (List Reply)} (houtbox : d.outbox.length = c.outbox.length + 1) :
      Completes c (d.resetMessage, none)
  | suspended {d : Conn (List Reply)} (houtbox : d.outbox = c.outbox) (hup : d.upstream = true)
      (hfault : d.fault = none) (hbytes : d.headerBytes = c.headerBytes)
      (hmessage : d.messageDone = true) (hdone : d.headersDone = c.headersDone) :
      Completes c (d, some .paused)
  | ended {d : Conn (List Reply)} (houtbox : d.outbox.length ≤ c.outbox.length + 1)
      (hup : d.upstream = false) (hclosing : d.closing = true)
      (hdone : d.headersDone = c.headersDone) : Completes c (d, some .user)

theorem onMessageComplete_completes (hpost : ∀ o r, s.post o r = (o ++ [r], .ok))
    (hup : c.upstream = false) : Completes c (s.onMessageComplete c) := by
  have hhandled := handled_dispatch hpost { c with messageDone := true }
  have hanswers := s.dispatch_answers { c with messageDone := true }
  unfold onMessageComplete
  generalize s.dispatch { c with messageDone := true } = r at hhandled hanswers
  obtain ⟨d, st⟩ := r
  have hdone : d.headersDone = c.headersDone := (congrArg Conn.headersDone hanswers :)
  have hbytes : d.headerBytes = c.headerBytes := (congrArg Conn.headerBytes hanswers :)
  have hmessage : d.messageDone = true := (congrArg Conn.messageDone hanswers :)
  have hok : ¬Status.ok < 0 := by decide
  dsimp only
  cases hhandled with
  | told houtbox hstays =>
    rw [if_neg hok]
    unfold afterDispatch
    have hidle : ¬d.upstream = true := by simp [hstays.trans hup]
    rw [if_neg hidle]
    split_ifs
    · exact .ended houtbox.le (hstays.trans hup) rfl hdone
    · exact .answered houtbox
  | suspended houtbox hwaits hfault =>
    rw [if_neg hok]
    unfold afterDispatch
    rw [if_pos hwaits]
    exact .suspended houtbox hwaits hfault.2 hbytes hmessage hdone
  | failed houtbox hstays hst =>
    rw [if_pos hst]
    have hfaulted : (d.setFault .internal).outbox = d.outbox ∧
        (d.setFault .internal).upstream = d.upstream ∧
        (d.setFault .internal).headersDone = d.headersDone := by
      unfold setFault
      cases d.fault with
      | none => exact ⟨rfl, rfl, rfl⟩
      | some f => exact ⟨rfl, rfl, rfl⟩
    obtain ⟨hbox, hupstream, hheaders⟩ := hfaulted
    refine .ended ?_ (hupstream.trans (hstays.trans hup)) rfl (hheaders.trans hdone)
    show (d.setFault .internal).outbox.length ≤ _
    rw [hbox, houtbox]
    exact Nat.le_succ _

end Server

/-! ## Request by request -/

/-- Only the end of a message leads out of it. -/
theorem Phase.step_inside {ph ph' : Phase} (hinside : ph ≠ .idle) {x : Call}
    (hx : ph.step x = some ph') (hend : x ≠ .messageComplete) : ph' ≠ .idle := by
  by_cases hcollecting : x.Collecting
  · rw [step_collecting hcollecting hx]
    exact hinside
  · cases x with
    | messageBegin =>
      cases ph with
      | idle => exact absurd rfl hinside
      | head => cases hx
      | body => cases hx
    | messageComplete => exact absurd rfl hend
    | headersComplete line =>
      cases ph with
      | idle => exact absurd rfl hinside
      | head =>
        cases hx
        nofun
      | body => cases hx
    | _ => exact absurd trivial hcollecting

/-- The request that is being read is owed a response. -/
def Phase.owing : Phase → ℕ
  | .idle => 0
  | _ => 1

theorem Phase.owing_inside {ph : Phase} (h : ph ≠ .idle) : ph.owing = 1 := by
  cases ph with
  | idle => exact absurd rfl h
  | head => rfl
  | body => rfl

namespace Server

/-- A connection has given one response to each request that is over, none to the one it
reads, and has counted no more than its header section. -/
structure Abreast (ph : Phase) (g : Tally) (c : Conn (List Reply)) : Prop where
  upstream : c.upstream = false
  responded : c.responded = false
  inPhase : c.InPhase ph
  fault : c.closing = false → c.fault = none
  told : c.outbox.length + ph.owing = g.begun
  bytes : c.headerBytes ≤ g.headed

/-- What a stop leaves: a request that waits for its exchange, or one that is refused and
may still be answered, or one that was the last. -/
def Halts (g : Tally) (c : Conn (List Reply)) : Hpe → Prop
  | .paused => c.upstream = true ∧ c.messageDone = true ∧ c.headersDone = true ∧ c.fault = none ∧
      c.outbox.length + 1 = g.begun ∧ c.headerBytes ≤ g.headed
  | _ => c.upstream = false ∧
      ((c.responded = false ∧ c.outbox.length + 1 ≤ g.begun) ∨
        (c.closing = true ∧ c.headersDone = true ∧ c.outbox.length ≤ g.begun))

inductive Goes (ph : Phase) (g : Tally) : Conn (List Reply) × Option Hpe → Prop
  | on {c : Conn (List Reply)} (h : Abreast ph g c) : Goes ph g (c, none)
  | stops {c : Conn (List Reply)} {e : Hpe} (h : Halts g c e) : Goes ph g (c, some e)

variable {s : Server (List Reply)} {c : Conn (List Reply)} {ph ph' : Phase} {g : Tally}

theorem Abreast.mono (h : Abreast ph g c) {g' : Tally} (hbegun : g'.begun = g.begun)
    (hheaded : g.headed ≤ g'.headed) : Abreast ph g' c :=
  ⟨h.upstream, h.responded, h.inPhase, h.fault, h.told.trans hbegun.symm, h.bytes.trans hheaded⟩

/-- A callback inside a message. -/
theorem Abreast.call (h : Abreast ph g c) (hinside : ph ≠ .idle) {x : Call}
    (hx : ph.step x = some ph') (hend : x ≠ .messageComplete) :
    ph' ≠ .idle ∧ Goes ph' g (s.call c x) := by
  have hbegin : x ≠ .messageBegin := by
    rintro rfl
    cases ph with
    | idle => exact hinside rfl
    | head => cases hx
    | body => cases hx
  have hstays := Phase.step_inside hinside hx hend
  obtain ⟨hsilent, hfault, hunpaused⟩ := call_silent (s := s) (c := c) hbegin hend
  have hinPhase := call_inPhase (s := s) h.inPhase hx
  have hbytes : (s.call c x).1.headerBytes = c.headerBytes := call_headerBytes hbegin hend
  have htold : (s.call c x).1.outbox.length + 1 = g.begun := by
    rw [hsilent.outbox, ← h.told, Phase.owing_inside hinside]
  refine ⟨hstays, ?_⟩
  generalize s.call c x = r at hsilent hfault hunpaused hinPhase hbytes htold
  obtain ⟨d, _ | e⟩ := r
  · refine .on ⟨hsilent.upstream.trans h.upstream, hsilent.responded.trans h.responded, hinPhase,
      fun hopen => (hfault rfl).trans (h.fault (hsilent.closing.symm.trans hopen)), ?_,
      hbytes.trans_le h.bytes⟩
    rw [Phase.owing_inside hstays]
    exact htold
  · have hhalts : d.upstream = false ∧ ((d.responded = false ∧ d.outbox.length + 1 ≤ g.begun) ∨
        (d.closing = true ∧ d.headersDone = true ∧ d.outbox.length ≤ g.begun)) :=
      ⟨hsilent.upstream.trans h.upstream,
        Or.inl ⟨hsilent.responded.trans h.responded, htold.le⟩⟩
    cases e with
    | paused => exact absurd rfl hunpaused
    | user => exact .stops hhalts
    | bad e => exact .stops hhalts

/-- The end of a message. -/
theorem Abreast.complete (hpost : ∀ o r, s.post o r = (o ++ [r], .ok)) (h : Abreast ph g c)
    (hx : ph.step .messageComplete = some ph') : Goes ph' g (s.onMessageComplete c) := by
  have hphases : ph = .body ∧ ph' = .idle := by
    cases ph with
    | body => exact ⟨rfl, (Option.some.inj hx).symm⟩
    | idle => cases hx
    | head => cases hx
  obtain ⟨rfl, rfl⟩ := hphases
  have htold : c.outbox.length + 1 = g.begun := h.told
  have hcompletes := onMessageComplete_completes (c := c) hpost h.upstream
  generalize s.onMessageComplete c = r at hcompletes
  cases hcompletes with
  | @answered d houtbox =>
    exact .on ⟨rfl, rfl, ⟨nofun, nofun, fun hne => absurd rfl hne⟩, fun _ => rfl,
      houtbox.trans htold, Nat.zero_le _⟩
  | suspended houtbox hup hfault hbytes hmessage hdone =>
    refine .stops ⟨hup, hmessage, hdone.trans (h.inPhase.body rfl), hfault, ?_,
      hbytes.trans_le h.bytes⟩
    rw [houtbox]
    exact htold
  | ended houtbox hup hclosing hdone =>
    exact .stops ⟨hup, Or.inr ⟨hclosing, hdone.trans (h.inPhase.body rfl),
      houtbox.trans htold.le⟩⟩

/-- The callbacks of one byte inside a message. -/
theorem Abreast.perform_inside (hpost : ∀ o r, s.post o r = (o ++ [r], .ok)) {cs : List Call}
    {n : ℕ} (hlast : ∀ pre post, cs = pre ++ .messageComplete :: post → post = [])
    (h : Abreast ph g c) (hinside : ph ≠ .idle) (hcs : ph.steps cs = some ph') :
    Goes ph' g ((perform s.call c (cs.map fun x => (x, n))).1,
      (perform s.call c (cs.map fun x => (x, n))).2.map Prod.fst) := by
  induction cs generalizing c ph with
  | nil =>
    obtain rfl := Option.some.inj hcs
    exact .on h
  | cons x cs ih =>
    rw [Phase.steps_cons] at hcs
    obtain ⟨mid, hmid, hrest⟩ := Option.bind_eq_some_iff.mp hcs
    have hothers : ∀ pre post, cs = pre ++ .messageComplete :: post → post = [] :=
      fun pre post hcut => hlast (x :: pre) post (by rw [hcut]; rfl)
    rw [List.map_cons, perform_cons]
    by_cases hend : x = .messageComplete
    · subst hend
      obtain rfl := hlast [] cs rfl
      obtain rfl := Option.some.inj hrest
      have hcompletes := h.complete hpost hmid
      change Goes mid g (s.call c .messageComplete) at hcompletes
      generalize s.call c .messageComplete = r at hcompletes
      obtain ⟨d, _ | e⟩ := r
      · exact hcompletes
      · exact hcompletes
    · obtain ⟨hstays, hgoes⟩ := h.call (s := s) hinside hmid hend
      generalize s.call c x = r at hgoes
      cases hgoes with
      | on habreast => exact ih hothers habreast hstays hrest
      | stops hhalts => exact .stops hhalts

/-- Where nothing begins between two messages, the connection is left as it is, and a stop is
a refusal. -/
theorem perform_between {cs : List Call} {n : ℕ} (hcs : ∀ x ∈ cs, x = .unset ∨ ∃ e, x = .bad e) :
    (perform s.call c (cs.map fun x => (x, n)) = (c, none) ∧ cs.any Call.isBad = false) ∨
      ∃ e, perform s.call c (cs.map fun x => (x, n)) = (c, some (.bad e, n)) ∧
        cs.any Call.isBad = true := by
  induction cs with
  | nil => exact Or.inl ⟨rfl, rfl⟩
  | cons x cs ih =>
    obtain ⟨hfirst, hothers⟩ := List.forall_mem_cons.mp hcs
    rw [List.map_cons, perform_cons]
    rcases hfirst with rfl | ⟨e, rfl⟩
    · exact ih hothers
    · exact Or.inr ⟨e, rfl, rfl⟩

/-- Inside a message none begins. -/
theorem not_begin_of_inside {cs : List Call} (hinside : ph ≠ .idle)
    (hlast : ∀ pre post, cs = pre ++ .messageComplete :: post → post = [])
    (hcs : ph.steps cs = some ph') : Call.messageBegin ∉ cs := by
  intro hbegin
  obtain ⟨pre, post, rfl⟩ := List.append_of_mem hbegin
  obtain ⟨mid, hmid, hrest⟩ := Phase.steps_cut hcs
  rw [Phase.steps_cons] at hrest
  obtain ⟨next, hnext, -⟩ := Option.bind_eq_some_iff.mp hrest
  have hidle : mid = .idle := by
    cases mid with
    | idle => rfl
    | head => cases hnext
    | body => cases hnext
  subst hidle
  -- only the end of a message leads out of it
  have hend : Call.messageComplete ∈ pre := by
    by_contra hnone
    clear hcs hbegin hlast
    induction pre generalizing ph with
    | nil => exact hinside (Option.some.inj hmid)
    | cons x pre ih =>
      rw [Phase.steps_cons] at hmid
      obtain ⟨next, hx, hpre⟩ := Option.bind_eq_some_iff.mp hmid
      obtain ⟨hne, hothers⟩ := not_or.mp fun h => hnone (List.mem_cons.mpr h)
      exact ih (Phase.step_inside hinside hx fun heq => hne heq.symm) hpre hothers
  obtain ⟨front, back, rfl⟩ := List.append_of_mem hend
  have hnil := hlast front (back ++ .messageBegin :: post) (by simp)
  simp at hnil

variable {T : Parser P} {p : P}

/-- The callbacks of one byte. -/
theorem Abreast.byte (hpost : ∀ o r, s.post o r = (o ++ [r], .ok)) (hT : T.EndsLast) (b : UInt8)
    (n : ℕ) (h : Abreast (T.phase p) g c) :
    Goes (T.phase (T.next p b).1) (T.count p b g)
      ((perform s.call c ((T.next p b).2.map fun x => (x, n))).1,
        (perform s.call c ((T.next p b).2.map fun x => (x, n))).2.map Prod.fst) := by
  have hsteps := T.orderly p b
  have hends := hT p b
  by_cases hinside : T.phase p = .idle
  · rw [hinside] at h hsteps
    by_cases hbegin : .messageBegin ∈ (T.next p b).2
    · have hcount : T.count p b g = ⟨g.begun + 1, 1⟩ := by simp [Parser.count, Parser.asks, hbegin]
      rw [hcount]
      obtain ⟨pre, post, hcut, hfirst⟩ := List.eq_append_cons_of_mem hbegin
      rw [hcut] at hsteps hends ⊢
      obtain ⟨mid, hmid, hrest⟩ := Phase.steps_cut hsteps
      obtain ⟨rfl, hall⟩ := Phase.steps_unbegun hfirst hmid
      have hreset : Abreast .head ⟨g.begun + 1, 1⟩ c.resetMessage :=
        ⟨rfl, rfl, ⟨fun _ => rfl, nofun, fun _ => rfl⟩, fun _ => rfl,
          congrArg (· + 1) h.told, Nat.zero_le _⟩
      have hpost' : ∀ front back, post = front ++ .messageComplete :: back → back = [] :=
        fun front back heq => hends (pre ++ .messageBegin :: front) back (by rw [heq]; simp)
      have hgoes := hreset.perform_inside hpost (n := n) hpost' (by decide) hrest
      rw [List.map_append, perform_append, List.map_cons]
      rcases perform_between (s := s) (c := c) (n := n) hall with ⟨hon, -⟩ | ⟨e, hstop, -⟩
      · rw [hon]
        exact hgoes
      · rw [hstop]
        exact .stops ⟨h.upstream, Or.inl ⟨h.responded, Nat.succ_le_succ h.told.le⟩⟩
    · obtain ⟨hph, hall⟩ := Phase.steps_unbegun hbegin hsteps
      rw [hph]
      have hheaded : (T.count p b g).headed = g.headed := by simp [Parser.count, hbegin, hinside]
      rcases perform_between (s := s) (c := c) (n := n) hall with ⟨hon, hgood⟩ | ⟨e, hstop, hbad⟩
      · have hbegun : (T.count p b g).begun = g.begun := by
          simp [Parser.count, Parser.asks, hbegin, hgood]
        rw [hon]
        exact .on (h.mono hbegun hheaded.ge)
      · have hbegun : (T.count p b g).begun = g.begun + 1 := by
          simp [Parser.count, Parser.asks, hinside, hbad]
        rw [hstop]
        refine .stops ⟨h.upstream, Or.inl ⟨h.responded, ?_⟩⟩
        rw [hbegun]
        exact Nat.succ_le_succ h.told.le
  · have hbegin := not_begin_of_inside hinside hends hsteps
    have hbegun : (T.count p b g).begun = g.begun := by
      simp [Parser.count, Parser.asks, hbegin, hinside]
    have hheaded : g.headed ≤ (T.count p b g).headed := by
      simp only [Parser.count, if_neg hbegin]
      split_ifs
      · exact Nat.le_succ _
      · exact le_rfl
    exact (h.mono hbegun hheaded).perform_inside hpost hends hinside hsteps

/-! ## One call of the parser -/

variable {x : P × Tally}

theorem begun_le_after (d : Bytes) : x.2.begun ≤ (T.tallied.after x d).2.begun := by
  induction d generalizing x with
  | nil => exact le_rfl
  | cons b d ih =>
    refine le_trans ?_ ih
    show x.2.begun ≤ (T.count x.1 b x.2).begun
    unfold Parser.count
    dsimp only
    split_ifs
    · exact Nat.le_succ _
    · exact le_rfl

theorem begun_take_le (d : Bytes) {n m : ℕ} (h : n ≤ m) :
    (T.tallied.after x (d.take n)).2.begun ≤ (T.tallied.after x (d.take m)).2.begun := by
  have hcut : d.take m = d.take n ++ (d.take m).drop n := by
    have hparts := List.take_append_drop n (d.take m)
    rw [List.take_take, min_eq_left h] at hparts
    exact hparts.symm
  have hafter : T.tallied.after x (d.take m) =
      T.tallied.after (T.tallied.after x (d.take n)) ((d.take m).drop n) := by
    nth_rewrite 1 [hcut]
    exact List.foldl_append
  rw [hafter]
  exact begun_le_after _

/-- The callbacks of the single bytes. -/
theorem Abreast.perform_trace (hpost : ∀ o r, s.post o r = (o ++ [r], .ok)) (hT : T.EndsLast)
    (h : Abreast (T.phase x.1) x.2 c) (k : ℕ) (d : Bytes) :
    ((perform s.call c (T.tallied.trace x k d)).2 = none ∧
        Abreast (T.phase (T.tallied.after x d).1) (T.tallied.after x d).2
          (perform s.call c (T.tallied.trace x k d)).1) ∨
      ∃ e n, (perform s.call c (T.tallied.trace x k d)).2 = some (e, k + n) ∧
        Halts (T.tallied.after x (d.take n)).2 (perform s.call c (T.tallied.trace x k d)).1 e := by
  induction d generalizing c x k with
  | nil => exact Or.inl ⟨rfl, h⟩
  | cons b d ih =>
    have hbyte := h.byte hpost hT b (k + 1)
    rw [Transducer.trace, perform_append]
    change Goes _ _ ((perform s.call c ((T.tallied.next x b).2.map fun o => (o, k + 1))).1,
      (perform s.call c ((T.tallied.next x b).2.map fun o => (o, k + 1))).2.map Prod.fst) at hbyte
    have hposition : ∀ o ∈ (T.tallied.next x b).2.map fun o => (o, k + 1), o.2 = k + 1 := by
      intro o ho
      obtain ⟨y, -, rfl⟩ := List.mem_map.mp ho
      rfl
    rcases hr : perform s.call c ((T.tallied.next x b).2.map fun o => (o, k + 1)) with
      ⟨c', _ | ⟨e, m⟩⟩
    · rw [hr] at hbyte
      cases hbyte with
      | on habreast =>
        rcases ih (x := (T.tallied.next x b).1) habreast (k + 1) with hon | ⟨e, n, hstop, hhalts⟩
        · exact Or.inl hon
        · refine Or.inr ⟨e, n + 1, ?_, hhalts⟩
          rw [show k + (n + 1) = k + 1 + n by omega]
          exact hstop
    · rw [hr] at hbyte
      obtain rfl := perform_position hposition hr
      cases hbyte with
      | stops hhalts => exact Or.inr ⟨e, 1, rfl, hhalts⟩

/-- One call of the parser. -/
theorem Abreast.execute (hpost : ∀ o r, s.post o r = (o ++ [r], .ok)) (hT : T.EndsLast)
    (h : Abreast (T.phase x.1) x.2 c) (d : Bytes) :
    ((s.execute T.tallied ⟨c, x, none⟩ d).2 = none ∧
        Abreast (T.phase (T.tallied.after x d).1) (T.tallied.after x d).2
          (s.execute T.tallied ⟨c, x, none⟩ d).1.conn) ∨
      ∃ e n, (s.execute T.tallied ⟨c, x, none⟩ d).2 = some (e, n) ∧
        Halts (T.tallied.after x (d.take n)).2 (s.execute T.tallied ⟨c, x, none⟩ d).1.conn e := by
  obtain ⟨hconn, hstop, -⟩ := s.execute_of_land T.tallied c x d
  have htrace := h.perform_trace hpost hT 0 d
  rw [hconn, hstop]
  have hagree := perform_joined Conn.Alike.trans (call_join s) c (T.tallied.trace x 0 d)
  rcases hr : perform s.call c (joined Call.join (T.tallied.trace x 0 d)) with ⟨c', _ | ⟨e, m⟩⟩
  · rw [hr] at hagree
    generalize perform s.call c (T.tallied.trace x 0 d) = q at hagree htrace
    cases hagree with
    | same =>
      rcases htrace with hon | ⟨e, n, hnone, -⟩
      · exact Or.inl hon
      · cases hnone
  · obtain ⟨u, n, hle, hplain, hsame⟩ :=
      stops_of_joined Conn.Alike.trans (call_join s) (T.tallied.trace_sorted x 0 d) hr
    rw [hplain] at htrace
    rcases htrace with ⟨hnone, -⟩ | ⟨e', n', heq, hhalts⟩
    · cases hnone
    · rw [Nat.zero_add] at heq
      obtain ⟨rfl, rfl⟩ := Prod.mk.inj (Option.some.inj heq)
      refine Or.inr ⟨e, m, rfl, ?_⟩
      rcases hsame with ⟨rfl, rfl⟩ | ⟨rfl, houtline⟩
      · exact hhalts
      · have hbegun := begun_take_le (T := T) (x := x) d hle
        have hup := congrArg Conn.upstream houtline
        have houtbox := congrArg Conn.outbox houtline
        have hresponded := congrArg Conn.responded houtline
        have hclosing := congrArg Conn.closing houtline
        have hdone := congrArg Conn.headersDone houtline
        change c'.upstream = u.upstream at hup
        change c'.outbox = u.outbox at houtbox
        change c'.responded = u.responded at hresponded
        change c'.closing = u.closing at hclosing
        change c'.headersDone = u.headersDone at hdone
        obtain ⟨hidle, howed⟩ := hhalts
        refine ⟨hup.trans hidle, howed.imp ?_ ?_⟩
        · rintro ⟨hnot, htold⟩
          exact ⟨hresponded.trans hnot, houtbox ▸ htold.trans hbegun⟩
        · rintro ⟨hends, hheaders, htold⟩
          exact ⟨hclosing.trans hends, hdone.trans hheaders, houtbox ▸ htold.trans hbegun⟩

end Server
end AsmFlow.Http
