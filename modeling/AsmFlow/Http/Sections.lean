import AsmFlow.Http.Fragments
import AsmFlow.Http.Sweep
import AsmFlow.Http.Tally

/-!
# Header sections, one by one

The count of header bytes is taken feed by feed, and a feed may hold the end of
one request and the start of the next. As long as the bytes of every feed that
is counted belong to one header section, and no section over the ceiling ends
within a feed, the count is that of the current request, the ceiling refuses
exactly the requests that exceed it, and no request is answered twice.
-/

namespace AsmFlow.Http

open Library Conn

variable {P O : Type}

/-! ## The tally of some bytes -/

namespace Parser

variable (T : Parser P)

/-- How many of the bytes belong to the header section of the last request they hold. -/
def sectionBytes (p : P) (d : Bytes) : ℕ := (T.tallied.after (p, ⟨0, 0⟩) d).2.headed

variable {T}

theorem trace_tallied (x : P × Tally) (n : ℕ) (d : Bytes) :
    T.tallied.trace x n d = T.trace x.1 n d := by
  induction d generalizing x n with
  | nil => rfl
  | cons b d ih => exact congrArg _ (ih _ _)

theorem after_tallied (x : P × Tally) (d : Bytes) :
    (T.tallied.after x d).1 = T.after x.1 d := by
  induction d generalizing x with
  | nil => rfl
  | cons b d ih => exact ih _

theorem headed_count (p : P) (b : UInt8) (g : Tally) :
    (T.count p b g).headed =
      (if .messageBegin ∈ (T.next p b).2 then 0 else g.headed) +
        (T.count p b ⟨0, 0⟩).headed := by
  unfold count
  dsimp only
  split_ifs
  · rfl
  · omega
  · rfl

end Parser

namespace Server

variable {T : Parser P} {p : P}

theorem unbegun_cons {b : UInt8} {d : Bytes} :
    Unbegun T p (b :: d) ↔ .messageBegin ∉ (T.next p b).2 ∧ Unbegun T (T.next p b).1 d := by
  have hshift : (T.trace (T.next p b).1 1 d).map Prod.fst =
      (T.trace (T.next p b).1 0 d).map Prod.fst := by
    rw [T.trace_shift _ 1 0 d, List.map_map]
    rfl
  unfold Unbegun
  rw [Transducer.trace, List.map_append, List.mem_append, not_or, Nat.zero_add, hshift]
  simp

/-- A header section that goes on adds to what it had, and one that begins starts anew. -/
theorem headed_after (x : P × Tally) (d : Bytes) :
    (T.tallied.after x d).2.headed =
      (if Unbegun T x.1 d then x.2.headed else 0) + T.sectionBytes x.1 d := by
  induction d generalizing x with
  | nil => simp [Unbegun, Parser.sectionBytes]
  | cons b d ih =>
    obtain ⟨p, g⟩ := x
    have hall (g : Tally) : (T.tallied.after (p, g) (b :: d)).2.headed =
        (if Unbegun T (T.next p b).1 d then (T.count p b g).headed else 0) +
          T.sectionBytes (T.next p b).1 d := ih (T.tallied.next (p, g) b).1
    have hown : T.sectionBytes p (b :: d) =
        (if Unbegun T (T.next p b).1 d then (T.count p b ⟨0, 0⟩).headed else 0) +
          T.sectionBytes (T.next p b).1 d := hall ⟨0, 0⟩
    have hcount := Parser.headed_count (T := T) p b g
    rw [hall g, hown]
    by_cases hrest : Unbegun T (T.next p b).1 d
    · rw [if_pos hrest, if_pos hrest, hcount]
      by_cases hbegin : Call.messageBegin ∈ (T.next p b).2
      · have hbegun : ¬Unbegun T p (b :: d) := fun h => (unbegun_cons.mp h).1 hbegin
        rw [if_pos hbegin, if_neg hbegun, Nat.add_assoc]
      · have hunbegun : Unbegun T p (b :: d) := unbegun_cons.mpr ⟨hbegin, hrest⟩
        rw [if_neg hbegin, if_pos hunbegun, Nat.add_assoc]
    · have hbegun : ¬Unbegun T p (b :: d) := fun h => hrest (unbegun_cons.mp h).2
      simp only [if_neg hrest, if_neg hbegun, Nat.zero_add]

/-- Between two requests no byte belongs to a header section. -/
theorem sectionBytes_between {d : Bytes} (h : Unbegun T p d) (hph : T.phase p = .idle) :
    T.sectionBytes p d = 0 := by
  induction d generalizing p with
  | nil => rfl
  | cons b d ih =>
    obtain ⟨hbegin, hrest⟩ := unbegun_cons.mp h
    have hone : Unbegun T p [b] := unbegun_cons.mpr ⟨hbegin, nofun⟩
    have hstays : T.phase (T.next p b).1 = .idle := hone.idle hph
    have hcount : (T.count p b ⟨0, 0⟩).headed = 0 := by simp [Parser.count, hbegin, hph]
    have hafter : T.sectionBytes p (b :: d) = _ :=
      headed_after (T := T) (T.tallied.next (p, ⟨0, 0⟩) b).1 d
    rw [hafter]
    change (if _ then (T.count p b ⟨0, 0⟩).headed else 0) + T.sectionBytes (T.next p b).1 d = 0
    rw [hcount, ih hrest hstays, ite_self]

/-- A header section that is read on without another beginning was being read before. -/
theorem Unbegun.head {d : Bytes} (h : Unbegun T p d) (hph : T.phase (T.after p d) = .head) :
    T.phase p = .head := by
  have hsteps := T.steps_trace p 0 d
  rw [hph] at hsteps
  unfold Unbegun at h
  generalize (T.trace p 0 d).map Prod.fst = cs at h hsteps
  generalize T.phase p = ph at hsteps ⊢
  induction cs generalizing ph with
  | nil => exact Option.some.inj hsteps
  | cons x cs ih =>
    rw [Phase.steps_cons] at hsteps
    obtain ⟨mid, hx, hrest⟩ := Option.bind_eq_some_iff.mp hsteps
    obtain ⟨hne, hothers⟩ := not_or.mp fun h' => h (List.mem_cons.mpr h')
    obtain rfl := ih hothers mid hrest
    cases ph with
    | head => rfl
    | idle =>
      cases x with
      | messageBegin => exact absurd rfl hne
      | _ => cases hx
    | body =>
      cases x with
      | span kind p =>
        simp only [Phase.step] at hx
        split_ifs at hx
        cases hx
      | _ => cases hx

/-! ## Counting a feed -/

/-- Behind a feed that goes on, either a message began or ended and the count starts anew,
or it stands where it stood. -/
theorem perform_restarts {s : Server O} {c : Conn O} {cs : List (Call × ℕ)}
    (hgoes : (perform s.call c cs).2 = none) :
    (perform s.call c cs).1.headerBytes = 0 ∨
      (Call.messageBegin ∉ cs.map Prod.fst ∧
        (perform s.call c cs).1.headerBytes = c.headerBytes) := by
  induction cs generalizing c with
  | nil => exact Or.inr ⟨nofun, rfl⟩
  | cons x cs ih =>
    obtain ⟨x, n⟩ := x
    rw [perform_cons] at hgoes ⊢
    cases hx : (s.call c x).2 with
    | some e =>
      rw [hx] at hgoes
      cases hgoes
    | none =>
      rw [hx] at hgoes
      have hrest := ih hgoes
      by_cases hmid : (s.call c x).1.headerBytes = 0
      · exact Or.inl (hrest.elim id fun h => h.2.trans hmid)
      · have hbegin : x ≠ .messageBegin := by
          rintro rfl
          exact hmid rfl
        have hend : x ≠ .messageComplete := by
          rintro rfl
          refine hmid ?_
          change (s.onMessageComplete c).2 = none at hx
          change (s.onMessageComplete c).1.headerBytes = 0
          unfold onMessageComplete at hx ⊢
          dsimp only at hx ⊢
          unfold afterDispatch at hx ⊢
          split_ifs at hx ⊢
          rfl
        refine hrest.imp id fun h => ⟨?_, h.2.trans (call_headerBytes hbegin hend)⟩
        rw [List.map_cons, List.mem_cons, not_or]
        exact ⟨fun h' => hbegin h'.symm, h.1⟩

section

variable (s : Server (List Reply)) (T : Parser P)

/-- A connection that reads on, has counted the header section it reads, and has answered
what is over. -/
structure Level (x : Client (P × Tally) (List Reply)) : Prop where
  errno : x.errno = none
  abreast : Abreast (T.phase x.parser.1) x.parser.2 x.conn
  counted : T.phase x.parser.1 = .head → x.conn.headerBytes = x.parser.2.headed
  within : x.parser.2.headed ≤ s.headerMax

/-- The connection behind a call of the parser that goes on, its bytes counted. -/
def charged (x : Client (P × Tally) (List Reply)) (c : Conn (List Reply)) : Conn (List Reply) :=
  countHeaderBytes c (s.offered x.conn x.inbox.length)

/-- The tally behind some of the bytes a feed offers. -/
def tallyAt (x : Client (P × Tally) (List Reply)) (j : ℕ) : P × Tally :=
  T.tallied.after x.parser ((s.fedBytes x).take j)

/-- What the parser has read behind the whole feed. -/
def tallyBehind (x : Client (P × Tally) (List Reply)) : P × Tally :=
  T.tallied.after x.parser (s.fedBytes x)

/-- The feed is counted: the parser is inside a header section behind it, or between two
requests of which the one before was not answered by an exchange. -/
def Charged (x : Client (P × Tally) (List Reply)) : Prop :=
  T.phase (s.tallyBehind T x).1 = .head ∨
    (T.phase (s.tallyBehind T x).1 = .idle ∧
      ¬(T.phase x.parser.1 = .idle ∧ Unbegun T x.parser.1 (s.fedBytes x) ∧
        x.conn.headersDone = true))

/-- No request meets a count of another's that is at the ceiling; no header section over the
ceiling ends within the feed; and if the feed is counted, its bytes are all of one header
section. -/
def Apart (x : Client (P × Tally) (List Reply)) : Prop :=
  x.inbox ≠ [] →
    (T.phase x.parser.1 = .idle → x.conn.headersDone = false →
        x.conn.headerBytes < s.headerMax) ∧
      (∀ j < (s.fedBytes x).length + 1, T.phase (s.tallyAt T x j).1 ≠ .head →
        (s.tallyAt T x j).2.headed ≤ s.headerMax) ∧
      ((s.execute T.tallied x.toReader (s.fedBytes x)).2 = none → s.Charged T x →
        T.sectionBytes x.parser.1 (s.fedBytes x) = (s.fedBytes x).length)

variable {s T} {x : Client (P × Tally) (List Reply)}

theorem fedBytes_length : (s.fedBytes x).length = s.offered x.conn x.inbox.length := by
  rw [fedBytes, List.length_take, min_eq_left (s.offered_le x.conn x.inbox.length)]

theorem unbegun_tallied (y : P × Tally) (d : Bytes) :
    Unbegun T.tallied y d ↔ Unbegun T y.1 d := by
  unfold Unbegun
  rw [Parser.trace_tallied]

/-- Behind a feed that goes on, the count is that of the header section. -/
theorem Level.counts (hpost : ∀ o r, s.post o r = (o ++ [r], .ok)) (hT : T.EndsLast)
    (h : s.Level T x) (hinbox : x.inbox ≠ []) (hapart : s.Apart T x)
    (hgo : (s.execute T.tallied x.toReader (s.fedBytes x)).2 = none) :
    (s.charged x (s.execute T.tallied x.toReader (s.fedBytes x)).1.conn).headerBytes ≤
        (s.tallyBehind T x).2.headed ∧
      (T.phase (s.tallyBehind T x).1 = .head →
        (s.charged x (s.execute T.tallied x.toReader (s.fedBytes x)).1.conn).headerBytes =
          (s.tallyBehind T x).2.headed) := by
  obtain ⟨-, -, hsection⟩ := hapart hinbox
  have hself : x.toReader = ⟨x.conn, x.parser, none⟩ := by
    rw [← h.errno]
  have hall := headed_after (T := T) x.parser (s.fedBytes x)
  unfold charged
  rw [hself] at hgo hsection ⊢
  rw [← fedBytes_length]
  obtain ⟨hinPhase, hsame, hbetween⟩ :=
    execute_ready (s := s) (T := T.tallied) h.abreast.inPhase hgo
  rw [unbegun_tallied] at hsame hbetween
  have hrestarts : (s.execute T.tallied ⟨x.conn, x.parser, none⟩ (s.fedBytes x)).1.conn.headerBytes
        = 0 ∨ (Unbegun T x.parser.1 (s.fedBytes x) ∧
      (s.execute T.tallied ⟨x.conn, x.parser, none⟩ (s.fedBytes x)).1.conn.headerBytes =
        x.conn.headerBytes) := by
    have hperform := execute_perform (s := s) (T := T.tallied) (c := x.conn) (p := x.parser)
      (d := s.fedBytes x) fun n hn => by
        rw [hgo] at hn
        cases hn
    have hnone : (perform s.call x.conn (T.tallied.trace x.parser 0 (s.fedBytes x))).2 = none := by
      rw [hperform, hgo]
    have h := perform_restarts hnone
    rw [hperform] at h
    exact h.imp id fun h => ⟨(unbegun_tallied _ _).mp h.1, h.2⟩
  have hbytes : (s.execute T.tallied ⟨x.conn, x.parser, none⟩ (s.fedBytes x)).1.conn.headerBytes ≤
      (s.tallyBehind T x).2.headed := by
    rcases h.abreast.execute (x := x.parser) hpost hT (s.fedBytes x) with
      ⟨-, habreast⟩ | ⟨e, n, hstop, -⟩
    · exact habreast.bytes
    · rw [hgo] at hstop
      cases hstop
  change (s.tallyBehind T x).2.headed = _ at hall
  change _ = none → s.Charged T x → _ at hsection
  change Conn.InPhase (T.phase (s.tallyBehind T x).1) _ at hinPhase
  change _ → T.phase (s.tallyBehind T x).1 ≠ .idle → _ at hsame
  unfold Charged at hsection
  generalize (s.execute T.tallied ⟨x.conn, x.parser, none⟩ (s.fedBytes x)).1.conn = d at *
  have hcharged (hfed : T.sectionBytes x.parser.1 (s.fedBytes x) = (s.fedBytes x).length) :
      d.headerBytes + (s.fedBytes x).length ≤ (s.tallyBehind T x).2.headed := by
    rw [hall, hfed]
    rcases hrestarts with hzero | ⟨hun, hkept⟩
    · rw [hzero]
      omega
    · rw [if_pos hun, hkept]
      exact Nat.add_le_add_right h.abreast.bytes _
  cases hph : T.phase (s.tallyBehind T x).1 with
  | head =>
    have hfed := hsection hgo (Or.inl hph)
    have hcount : (countHeaderBytes d (s.fedBytes x).length).headerBytes =
        d.headerBytes + (s.fedBytes x).length := by
      unfold countHeaderBytes
      rw [hinPhase.head hph]
      rfl
    rw [hcount]
    refine ⟨hcharged hfed, fun _ => ?_⟩
    by_cases hun : Unbegun T x.parser.1 (s.fedBytes x)
    · have hinside : T.phase x.parser.1 = .head := by
        refine hun.head ?_
        rw [← Parser.after_tallied]
        exact hph
      rw [hall, if_pos hun, hfed, hsame hun (by rw [hph]; decide), h.counted hinside]
    · rw [hall, if_neg hun, hfed, hrestarts.resolve_right fun h => hun h.1]
  | body =>
    rw [countHeaderBytes_done (hinPhase.body hph)]
    exact ⟨hbytes, nofun⟩
  | idle =>
    refine ⟨?_, nofun⟩
    cases hdone : d.headersDone with
    | true =>
      rw [countHeaderBytes_done hdone]
      exact hbytes
    | false =>
      have hfed := hsection hgo (Or.inr ⟨hph, fun ⟨hidle, hun, hheaders⟩ => by
        rw [hbetween hun hidle, hheaders] at hdone
        cases hdone⟩)
      unfold countHeaderBytes
      rw [hdone, if_neg Bool.false_ne_true]
      exact hcharged hfed

/-! ## What a feed leaves -/

/-- The header section has no room left, and another byte has come. -/
def Full (x : Client (P × Tally) (List Reply)) : Prop :=
  x.conn.headersDone = false ∧ s.headerMax ≤ x.conn.headerBytes

variable (s T) in
/-- The exits of `af_http_conn_feed` where there is something to feed. -/
inductive Exit (x : Client (P × Tally) (List Reply)) : Client (P × Tally) (List Reply) → Prop
  | full (hfull : s.Full x) : Exit x { x with conn := s.refuse x.conn .headersTooLarge }
  | large {r : Reader (P × Tally) (List Reply)} (hroom : ¬s.Full x)
      (hexec : s.execute T.tallied x.toReader (s.fedBytes x) = (r, none))
      (hlarge : s.headersLarge (s.charged x r.conn) = true) :
      Exit x ⟨{ r with conn := s.refuse (s.charged x r.conn) .headersTooLarge }, x.inbox⟩
  | on {r : Reader (P × Tally) (List Reply)} (hroom : ¬s.Full x)
      (hexec : s.execute T.tallied x.toReader (s.fedBytes x) = (r, none))
      (hsmall : ¬s.headersLarge (s.charged x r.conn) = true) :
      Exit x ⟨{ r with conn := s.charged x r.conn },
        x.inbox.drop (s.offered x.conn x.inbox.length)⟩
  | stopped {r : Reader (P × Tally) (List Reply)} {e : Hpe} {n : ℕ} (hroom : ¬s.Full x)
      (hexec : s.execute T.tallied x.toReader (s.fedBytes x) = (r, some (e, n))) :
      Exit x ⟨{ r with conn := s.stopped r.conn e n }, x.inbox.drop n⟩

theorem feed_exit (hup : x.conn.upstream = false) (hinbox : x.inbox ≠ []) :
    s.Exit T x (s.feed T.tallied x) := by
  unfold feed
  rw [if_neg (by simp [hup]), if_neg hinbox]
  split_ifs with hfull
  · exact .full hfull
  · unfold offer
    rcases hexec : s.execute T.tallied x.toReader (s.fedBytes x) with ⟨r, _ | ⟨e, n⟩⟩
    · rw [show s.execute T.tallied x.toReader (x.inbox.take _) = _ from hexec]
      dsimp only
      split_ifs with hlarge
      · exact .large hfull hexec hlarge
      · exact .on hfull hexec hlarge
    · rw [show s.execute T.tallied x.toReader (x.inbox.take _) = _ from hexec]
      exact .stopped hfull hexec

/-- A connection that is refused, and answered if it had not been. -/
theorem refuse_told (hpost : ∀ o r, s.post o r = (o ++ [r], .ok)) (c : Conn (List Reply))
    (id : ErrorId) : Answers { c with closing := true } (s.refuse c id) ∧
      (s.refuse c id).upstream = c.upstream ∧ (s.refuse c id).responded = true ∧
      (s.refuse c id).fault = some (c.fault.getD id) ∧
      (c.responded = true → (s.refuse c id).outbox = c.outbox) ∧
      (c.responded = false → ∃ r, (s.refuse c id).outbox = c.outbox ++ [r] ∧
        r.status = (c.fault.getD id).status) := by
  have hanswers := s.refuse_answers c id
  obtain ⟨hfault, houtbox, hup, hresponded⟩ : (c.setFault id).fault = some (c.fault.getD id) ∧
      (c.setFault id).outbox = c.outbox ∧ (c.setFault id).upstream = c.upstream ∧
      (c.setFault id).responded = c.responded := by
    unfold setFault
    cases hc : c.fault with
    | none => exact ⟨rfl, rfl, rfl, rfl⟩
    | some f => exact ⟨hc, rfl, rfl, rfl⟩
  obtain ⟨htold, -, r, hlast, hstatus⟩ :=
    sendError_told hpost (c.setFault id) ((c.setFault id).fault.getD id)
  rw [hfault] at htold hlast hstatus
  refine ⟨hanswers, ?_⟩
  unfold refuse
  dsimp only
  rw [hresponded, hfault]
  cases hanswered : c.responded with
  | true =>
    rw [if_pos rfl]
    exact ⟨hup, hresponded.trans hanswered, hfault, fun _ => houtbox, nofun⟩
  | false =>
    rw [if_neg Bool.false_ne_true]
    exact ⟨htold.upstream.trans hup, htold.responded, htold.fault.trans hfault, nofun,
      fun _ => ⟨r, houtbox ▸ hlast, hstatus⟩⟩

variable (s T) in
/-- A connection refused for its header section. -/
structure Refused (x : Client (P × Tally) (List Reply)) : Prop where
  errno : x.errno = none
  upstream : x.conn.upstream = false
  closing : x.conn.closing = true
  responded : x.conn.responded = true
  full : s.Full x
  head : T.phase x.parser.1 = .head
  counted : x.conn.headerBytes = x.parser.2.headed
  told : x.conn.outbox.length ≤ x.parser.2.begun

/-- A connection whose parser has stopped for good: if its last request is not answered yet
it may be, once. -/
structure Stopped (x : Client (P × Tally) (List Reply)) : Prop where
  errno : ∃ e, x.errno = some e ∧ e ≠ .paused
  upstream : x.conn.upstream = false
  closing : x.conn.closing = true
  told : (x.conn.responded = false ∧ x.conn.outbox.length + 1 ≤ x.parser.2.begun) ∨
    ((x.conn.responded = true ∨ x.conn.headersDone = true) ∧
      x.conn.outbox.length ≤ x.parser.2.begun)

variable (s T) in
/-- A connection that waits for its exchange. -/
structure Waiting (x : Client (P × Tally) (List Reply)) : Prop where
  errno : x.errno = some .paused
  upstream : x.conn.upstream = true
  messageDone : x.conn.messageDone = true
  headersDone : x.conn.headersDone = true
  fault : x.conn.fault = none
  idle : T.phase x.parser.1 = .idle
  bytes : x.conn.headerBytes ≤ x.parser.2.headed
  within : x.parser.2.headed ≤ s.headerMax
  told : x.conn.outbox.length + 1 = x.parser.2.begun

/-- A connection that only drains. -/
structure Drained (x : Client (P × Tally) (List Reply)) : Prop where
  draining : x.conn.draining = true
  upstream : x.conn.upstream = false
  last : x.conn.closing = true ∨ x.conn.messageDone = true
  told : x.conn.outbox.length ≤ x.parser.2.begun

/-- Counting changes nothing but the count. -/
theorem countHeaderBytes_eq (c : Conn O) (n : ℕ) : ∃ h, countHeaderBytes c n = c.withHeader h := by
  unfold countHeaderBytes
  split_ifs
  · exact ⟨c.headerBytes, rfl⟩
  · exact ⟨_, rfl⟩

theorem feed_empty (hinbox : x.inbox = []) : s.feed T.tallied x = x := by
  unfold Server.feed
  rw [if_pos hinbox, ite_self]

theorem Stopped.feed (hpost : ∀ o r, s.post o r = (o ++ [r], .ok)) (h : Stopped x) :
    Stopped (s.feed T.tallied x) := by
  obtain ⟨e, herrno, hne⟩ := h.errno
  by_cases hinbox : x.inbox = []
  · rw [feed_empty hinbox]
    exact h
  · have hexecute : s.execute T.tallied x.toReader (s.fedBytes x) =
        (x.toReader, some (e, (s.fedBytes x).length)) := by
      unfold execute
      rw [show x.toReader.errno = some e from herrno]
    have hexit := feed_exit (s := s) (T := T) h.upstream hinbox
    generalize s.feed T.tallied x = y at hexit ⊢
    cases hexit with
    | full hfull =>
      obtain ⟨hanswers, hup, hresponded, -, hsilent, htold⟩ :=
        refuse_told hpost x.conn .headersTooLarge
      refine ⟨⟨e, herrno, hne⟩, hup.trans h.upstream, (congrArg Conn.closing hanswers :),
        Or.inr ⟨Or.inl hresponded, ?_⟩⟩
      rcases h.told with ⟨hunanswered, howed⟩ | ⟨hanswered | hdone, hbound⟩
      · obtain ⟨r, hlast, -⟩ := htold hunanswered
        rw [hlast, List.length_append]
        exact howed
      · rw [hsilent hanswered]
        exact hbound
      · rw [hfull.1] at hdone
        cases hdone
    | large hroom hexec =>
      rw [hexecute] at hexec
      cases hexec
    | on hroom hexec =>
      rw [hexecute] at hexec
      cases hexec
    | @stopped r e' n hroom hexec =>
      rw [hexecute] at hexec
      obtain ⟨rfl, hstop⟩ := Prod.mk.inj hexec
      obtain ⟨rfl, rfl⟩ := Prod.mk.inj (Option.some.inj hstop)
      obtain ⟨k, hcount⟩ := countHeaderBytes_eq x.conn (s.fedBytes x).length
      have hstopped : s.stopped x.conn e (s.fedBytes x).length = x.conn.withHeader k := by
        unfold Server.stopped
        rw [hcount]
        dsimp only
        rw [if_neg hne, if_pos (show (x.conn.withHeader k).closing = true from h.closing)]
      show Stopped ⟨⟨s.stopped x.conn e (s.fedBytes x).length, x.parser, x.errno⟩, _⟩
      rw [hstopped]
      exact ⟨⟨e, herrno, hne⟩, h.upstream, h.closing, h.told⟩

theorem Refused.feed (hpost : ∀ o r, s.post o r = (o ++ [r], .ok)) (h : s.Refused T x) :
    s.Refused T (s.feed T.tallied x) := by
  by_cases hinbox : x.inbox = []
  · rw [feed_empty hinbox]
    exact h
  · have hexit := feed_exit (s := s) (T := T) h.upstream hinbox
    generalize s.feed T.tallied x = y at hexit ⊢
    cases hexit with
    | full hfull =>
      obtain ⟨hanswers, hup, hresponded, -, hsilent, -⟩ :=
        refuse_told hpost x.conn .headersTooLarge
      have hdone := (congrArg Conn.headersDone hanswers :)
      have hbytes := (congrArg Conn.headerBytes hanswers :)
      refine ⟨h.errno, hup.trans h.upstream, (congrArg Conn.closing hanswers :), hresponded,
        ⟨hdone.trans hfull.1, hfull.2.trans hbytes.ge⟩, h.head, hbytes.trans h.counted, ?_⟩
      show (s.refuse x.conn .headersTooLarge).outbox.length ≤ _
      rw [hsilent h.responded]
      exact h.told
    | large hroom => exact absurd h.full hroom
    | on hroom => exact absurd h.full hroom
    | stopped hroom => exact absurd h.full hroom

theorem Level.reader (h : s.Level T x) : x.toReader = ⟨x.conn, x.parser, none⟩ := by
  rw [← h.errno]

/-- Where its own section has room, no request is refused for what came before it. -/
theorem Level.full_iff (h : s.Level T x) (hinbox : x.inbox ≠ []) (hapart : s.Apart T x) :
    s.Full x ↔ T.phase x.parser.1 = .head ∧ s.headerMax ≤ x.parser.2.headed := by
  obtain ⟨hfresh, -, -⟩ := hapart hinbox
  constructor
  · rintro ⟨hdone, hbytes⟩
    cases hph : T.phase x.parser.1 with
    | head => exact ⟨rfl, hbytes.trans (h.counted hph).le⟩
    | body =>
      rw [h.abreast.inPhase.body hph] at hdone
      cases hdone
    | idle => exact absurd hbytes (not_le.mpr (hfresh hph hdone))
  · rintro ⟨hph, hbytes⟩
    exact ⟨h.abreast.inPhase.head hph, hbytes.trans (h.counted hph).ge⟩

/-- A feed that goes on is too large exactly where the header section is. -/
theorem Level.large_iff (hpost : ∀ o r, s.post o r = (o ++ [r], .ok)) (hT : T.EndsLast)
    (h : s.Level T x) (hinbox : x.inbox ≠ []) (hapart : s.Apart T x)
    {r : Reader (P × Tally) (List Reply)}
    (hexec : s.execute T.tallied x.toReader (s.fedBytes x) = (r, none)) :
    s.headersLarge (s.charged x r.conn) = true ↔
      T.phase (s.tallyBehind T x).1 = .head ∧ s.headerMax < (s.tallyBehind T x).2.headed := by
  have hgo : (s.execute T.tallied x.toReader (s.fedBytes x)).2 = none := by rw [hexec]
  obtain ⟨hbound, hequal⟩ := h.counts hpost hT hinbox hapart hgo
  have hinPhase := (execute_ready (s := s) (T := T.tallied) (c := x.conn) (p := x.parser)
    (d := s.fedBytes x) h.abreast.inPhase (by rw [← h.reader, hexec])).1
  rw [← h.reader] at hinPhase
  rw [hexec] at hbound hequal hinPhase
  change Conn.InPhase (T.phase (s.tallyBehind T x).1) r.conn at hinPhase
  obtain ⟨k, hcharged⟩ := countHeaderBytes_eq r.conn (s.offered x.conn x.inbox.length)
  have hdone : (s.charged x r.conn).headersDone = r.conn.headersDone := by
    unfold charged
    rw [hcharged]
    rfl
  unfold headersLarge
  rw [hdone]
  cases hph : T.phase (s.tallyBehind T x).1 with
  | head =>
    rw [hinPhase.head hph, hequal hph]
    simp
  | body =>
    rw [hinPhase.body hph]
    simp
  | idle =>
    have hwithin : (s.tallyBehind T x).2.headed ≤ s.headerMax := by
      obtain ⟨-, hended, -⟩ := hapart hinbox
      have h := hended (s.fedBytes x).length (Nat.lt_succ_self _)
      unfold tallyAt at h
      rw [List.take_length] at h
      exact h (by
        change T.phase (s.tallyBehind T x).1 ≠ .head
        rw [hph]
        decide)
    have hsmall := hbound.trans hwithin
    simp [hsmall]

theorem Abreast.withHeader {ph : Phase} {g : Tally} {c : Conn (List Reply)} (h : Abreast ph g c)
    {k : ℕ} (hk : k ≤ g.headed) : Abreast ph g (c.withHeader k) :=
  ⟨h.upstream, h.responded, ⟨h.inPhase.head, h.inPhase.body, h.inPhase.unfinished⟩, h.fault,
    h.told, hk⟩

/-- A call of the parser that goes on. -/
theorem Level.goes (hpost : ∀ o r, s.post o r = (o ++ [r], .ok)) (hT : T.EndsLast)
    (h : s.Level T x) {r : Reader (P × Tally) (List Reply)}
    (hexec : s.execute T.tallied x.toReader (s.fedBytes x) = (r, none)) :
    r.errno = none ∧ r.parser = s.tallyBehind T x ∧
      Abreast (T.phase (s.tallyBehind T x).1) (s.tallyBehind T x).2 r.conn := by
  have hgo : (s.execute T.tallied ⟨x.conn, x.parser, none⟩ (s.fedBytes x)).2 = none := by
    rw [← h.reader, hexec]
  have hexecute := h.abreast.execute (x := x.parser) hpost hT (s.fedBytes x)
  have hparser := s.execute_goes T.tallied x.conn x.parser (s.fedBytes x) hgo
  rw [← h.reader, hexec] at hexecute hparser
  obtain ⟨hr, -⟩ := Prod.mk.inj hparser
  rcases hexecute with ⟨-, habreast⟩ | ⟨e, n, hstop, -⟩
  · refine ⟨?_, ?_, habreast⟩
    · rw [hr]
    · rw [hr]
      rfl
  · cases hstop

/-- A call of the parser that stops. -/
theorem Level.halts (hpost : ∀ o r, s.post o r = (o ++ [r], .ok)) (hT : T.EndsLast)
    (h : s.Level T x) {r : Reader (P × Tally) (List Reply)} {e : Hpe} {n : ℕ}
    (hexec : s.execute T.tallied x.toReader (s.fedBytes x) = (r, some (e, n))) :
    r.errno = some e ∧ r.parser = s.tallyAt T x n ∧ Halts (s.tallyAt T x n).2 r.conn e := by
  have hexecute := h.abreast.execute (x := x.parser) hpost hT (s.fedBytes x)
  have hland := s.execute_eq_land T.tallied x.conn x.parser (s.fedBytes x)
  rw [← h.reader, hexec] at hexecute hland
  rcases hexecute with ⟨hnone, -⟩ | ⟨e', n', hstop, hhalts⟩
  · cases hnone
  · obtain ⟨rfl, rfl⟩ := Prod.mk.inj (Option.some.inj hstop)
    generalize perform s.call x.conn (joined Call.join (T.tallied.trace x.parser 0 (s.fedBytes x)))
      = q at hland
    obtain ⟨d, _ | ⟨e', n'⟩⟩ := q
    · cases (Prod.mk.inj hland).2
    · obtain ⟨hr, hsame⟩ := Prod.mk.inj hland
      obtain ⟨he, hn⟩ := Prod.mk.inj (Option.some.inj hsame)
      subst he hn hr
      exact ⟨rfl, rfl, hhalts⟩

/-- What a feed leaves of a connection that was level. -/
theorem Level.feed (hpost : ∀ o r, s.post o r = (o ++ [r], .ok)) (hT : T.EndsLast)
    (h : s.Level T x) (hapart : s.Apart T x) :
    s.Level T (s.feed T.tallied x) ∨ s.Waiting T (s.feed T.tallied x) ∨
      s.Refused T (s.feed T.tallied x) ∨ Stopped (s.feed T.tallied x) := by
  by_cases hinbox : x.inbox = []
  · rw [feed_empty hinbox]
    exact Or.inl h
  have hexit := feed_exit (s := s) (T := T) h.abreast.upstream hinbox
  obtain ⟨-, hended, -⟩ := hapart hinbox
  generalize s.feed T.tallied x = y at hexit ⊢
  cases hexit with
  | full hfull =>
    obtain ⟨hph, hheaded⟩ := (h.full_iff hinbox hapart).mp hfull
    obtain ⟨hanswers, hup, hresponded, -, -, htold⟩ :=
      refuse_told hpost x.conn .headersTooLarge
    obtain ⟨r, hlast, -⟩ := htold h.abreast.responded
    have hdone := (congrArg Conn.headersDone hanswers :)
    have hbytes := (congrArg Conn.headerBytes hanswers :)
    refine Or.inr (Or.inr (Or.inl ⟨h.errno, hup.trans h.abreast.upstream,
      (congrArg Conn.closing hanswers :), hresponded, ⟨hdone.trans hfull.1,
      hfull.2.trans hbytes.ge⟩, hph, hbytes.trans (h.counted hph), ?_⟩))
    show (s.refuse x.conn .headersTooLarge).outbox.length ≤ _
    have hone := h.abreast.told
    rw [hph] at hone
    rw [hlast, List.length_append]
    exact hone.le
  | @large r hroom hexec hlarge =>
    obtain ⟨hph, hheaded⟩ := (h.large_iff hpost hT hinbox hapart hexec).mp hlarge
    obtain ⟨herrno, hparser, habreast⟩ := h.goes hpost hT hexec
    have hequal := (h.counts hpost hT hinbox hapart (by rw [hexec])).2 hph
    rw [hexec] at hequal
    obtain ⟨k, hcharged⟩ := countHeaderBytes_eq r.conn (s.offered x.conn x.inbox.length)
    change s.charged x r.conn = r.conn.withHeader k at hcharged
    rw [hcharged] at hequal ⊢
    obtain ⟨hanswers, hup, hresponded, -, -, htold⟩ :=
      refuse_told hpost (r.conn.withHeader k) .headersTooLarge
    obtain ⟨reply, hlast, -⟩ := htold habreast.responded
    have hdone := (congrArg Conn.headersDone hanswers :)
    have hbytes := (congrArg Conn.headerBytes hanswers :)
    rw [hph] at habreast
    refine Or.inr (Or.inr (Or.inl ⟨herrno, hup.trans habreast.upstream,
      (congrArg Conn.closing hanswers :), hresponded, ⟨hdone.trans (habreast.inPhase.head rfl), ?_⟩,
      ?_, ?_, ?_⟩))
    · exact hheaded.le.trans (hbytes.trans hequal).ge
    · show T.phase r.parser.1 = .head
      rw [hparser]
      exact hph
    · show (s.refuse (r.conn.withHeader k) .headersTooLarge).headerBytes = r.parser.2.headed
      rw [hparser]
      exact hbytes.trans hequal
    · show (s.refuse (r.conn.withHeader k) .headersTooLarge).outbox.length ≤ r.parser.2.begun
      rw [hlast, List.length_append, hparser]
      exact habreast.told.le
  | @on r hroom hexec hsmall =>
    obtain ⟨herrno, hparser, habreast⟩ := h.goes hpost hT hexec
    obtain ⟨hbound, hequal⟩ := h.counts hpost hT hinbox hapart (by rw [hexec])
    rw [hexec] at hbound hequal
    have hlarge := h.large_iff hpost hT hinbox hapart hexec
    obtain ⟨k, hcharged⟩ := countHeaderBytes_eq r.conn (s.offered x.conn x.inbox.length)
    change s.charged x r.conn = r.conn.withHeader k at hcharged
    rw [hcharged] at hbound hequal ⊢
    obtain ⟨c, p, errno⟩ := r
    obtain rfl : errno = none := herrno
    obtain rfl : p = s.tallyBehind T x := hparser
    refine Or.inl ⟨rfl, habreast.withHeader hbound, hequal, ?_⟩
    by_cases hph : T.phase (s.tallyBehind T x).1 = .head
    · by_contra hover
      exact hsmall (hlarge.mpr ⟨hph, not_le.mp hover⟩)
    · have hwithin := hended (s.fedBytes x).length (Nat.lt_succ_self _)
      unfold tallyAt at hwithin
      rw [List.take_length] at hwithin
      exact hwithin hph
  | @stopped r e n hroom hexec =>
    obtain ⟨herrno, hparser, hhalts⟩ := h.halts hpost hT hexec
    obtain ⟨c, p, errno⟩ := r
    obtain rfl : errno = some e := herrno
    obtain rfl : p = s.tallyAt T x n := hparser
    dsimp only at hhalts ⊢
    by_cases hpaused : e = .paused
    · subst hpaused
      obtain ⟨hup, hmessage, hdone, hfault, htold, hbytes⟩ := hhalts
      have hstopped : s.stopped c .paused n = c := by
        unfold Server.stopped
        rw [countHeaderBytes_done hdone]
        exact if_pos rfl
      rw [hstopped]
      have hidle : T.phase (s.tallyAt T x n).1 = .idle := by
        have hsuspended := execute_suspended (s := s) (T := T.tallied) (c := x.conn)
          (p := x.parser) (d := s.fedBytes x) hT.tallied.separates (n := n)
          (by rw [← h.reader, hexec])
        rw [← h.reader, hexec] at hsuspended
        exact hsuspended.2
      have hwithin : (s.tallyAt T x n).2.headed ≤ s.headerMax := by
        rcases le_or_gt n (s.fedBytes x).length with hle | hgt
        · exact hended n (Nat.lt_succ_of_le hle) (by rw [hidle]; decide)
        · have hall : s.tallyAt T x n = s.tallyAt T x (s.fedBytes x).length := by
            unfold tallyAt
            rw [List.take_length, List.take_of_length_le hgt.le]
          rw [hall] at hidle ⊢
          exact hended _ (Nat.lt_succ_self _) (by rw [hidle]; decide)
      exact Or.inr (Or.inl ⟨rfl, hup, hmessage, hdone, hfault, hidle, hbytes, hwithin, htold⟩)
    · refine Or.inr (Or.inr (Or.inr ?_))
      have howed : c.upstream = false ∧
          ((c.responded = false ∧ c.outbox.length + 1 ≤ (s.tallyAt T x n).2.begun) ∨
            (c.closing = true ∧ c.headersDone = true ∧
              c.outbox.length ≤ (s.tallyAt T x n).2.begun)) := by
        cases e with
        | paused => exact absurd rfl hpaused
        | user => exact hhalts
        | bad e => exact hhalts
      obtain ⟨hup, howed⟩ := howed
      obtain ⟨k, hcount⟩ := countHeaderBytes_eq c n
      unfold Server.stopped
      rw [hcount]
      dsimp only
      rw [if_neg hpaused]
      split_ifs with hclosing
      · exact ⟨⟨e, rfl, hpaused⟩, hup, hclosing,
          howed.imp id fun h => ⟨Or.inr h.2.1, h.2.2⟩⟩
      · obtain ⟨hanswers, hstays, hresponded, -, -, htold⟩ :=
          refuse_told hpost (c.withHeader k) (faultOf e)
        rcases howed with ⟨hunanswered, hbound⟩ | ⟨hends, -⟩
        · obtain ⟨reply, hlast, -⟩ := htold hunanswered
          refine ⟨⟨e, rfl, hpaused⟩, hstays.trans hup, (congrArg Conn.closing hanswers :),
            Or.inr ⟨Or.inl hresponded, ?_⟩⟩
          show (s.refuse (c.withHeader k) (faultOf e)).outbox.length ≤ _
          rw [hlast, List.length_append]
          exact hbound
        · exact absurd hends hclosing

/-- An exchange answers once. -/
theorem deliver_told (hpost : ∀ o r, s.post o r = (o ++ [r], .ok)) (c : Conn (List Reply)) :
    (s.deliver c).outbox.length = c.outbox.length + 1 ∧ (s.deliver c).upstream = false ∧
      (s.deliver c).fault = c.fault := by
  unfold deliver
  cases s.exchange c.endpoint c.body c.requests with
  | response status flags body =>
    obtain ⟨htold, -⟩ := commit_told hpost { c with response := body } status flags
    exact ⟨htold.outbox, rfl, htold.fault⟩
  | error id =>
    obtain ⟨htold, -⟩ := sendError_told hpost c id
    exact ⟨htold.outbox, rfl, htold.fault⟩

end

/-! ## Runs -/

/-- What happens to a connection. -/
inductive Episode
  | read (d : Bytes)
  | exchangeDone
  | written
  | sweep
  deriving DecidableEq, Repr

section

variable (s : Server O) (T : Parser P)

/-- One episode. What the sweep closes is not heard of again. -/
def episode (x : Client P O) : Episode → Client P O
  | .read d => s.readable T x d
  | .exchangeDone => s.exchangeDone T x
  | .written => written x
  | .sweep =>
    if x.conn.upstream then x
    else { x with conn := { s.timeout x.conn with closing := true, draining := true } }

/-- What an episode feeds to the parser. -/
def feeds (x : Client P O) : Episode → Option (Client P O)
  | .read d =>
    if x.conn.draining then none
    else if x.inbox.length + d.length ≤ s.headerMax + s.bodyMax + readChunk then
      some { x with inbox := x.inbox ++ d }
    else if x.conn.upstream then none
    else some { x with conn := { x.conn.setFault .bodyTooLarge with closing := true } }
  | .exchangeDone =>
    let r := resume { x.toReader with conn := s.deliver x.conn }
    if x.conn.upstream ∧ r.conn.keepAlive then some ⟨r, x.inbox⟩ else none
  | .written => none
  | .sweep => none

variable {s T}

theorem readable_of_feeds {x y : Client P O} {d : Bytes} (h : s.feeds x (.read d) = some y) :
    s.readable T x d = s.feed T y := by
  unfold feeds at h
  dsimp only at h
  unfold readable
  split_ifs at h with hdraining hfits hup
  · rw [if_neg hdraining, if_pos hfits]
    obtain rfl := Option.some.inj h
    rfl
  · rw [if_neg hdraining, if_neg hfits, if_neg hup]
    obtain rfl := Option.some.inj h
    rfl

theorem exchangeDone_of_feeds {x y : Client P O} (h : s.feeds x .exchangeDone = some y) :
    s.exchangeDone T x = s.feed T y := by
  unfold feeds at h
  dsimp only at h
  split_ifs at h with hkeeps
  obtain rfl := Option.some.inj h
  unfold exchangeDone
  rw [if_neg (by simp [hkeeps.1])]
  exact if_pos hkeeps.2

end

section

variable (s : Server (List Reply)) (T : Parser P)

/-- Every feed of the episode keeps header sections apart, and the sweep finds no count but
that of an unfinished request. -/
def SetApart (x : Client (P × Tally) (List Reply)) (a : Episode) : Prop :=
  (∀ y ∈ s.feeds x a, s.Apart T y) ∧
    (a = .sweep → x.conn.Unanswered → T.phase x.parser.1 ≠ .idle)

/-- The invariant of runs. -/
def Tracked (x : Client (P × Tally) (List Reply)) : Prop :=
  s.Level T x ∨ s.Waiting T x ∨ s.Refused T x ∨ Stopped x ∨ Drained x

variable {s T} {x : Client (P × Tally) (List Reply)}

theorem Level.withInbox (h : s.Level T x) (d : Bytes) : s.Level T { x with inbox := d } :=
  ⟨h.errno, h.abreast, h.counted, h.within⟩

/-- No request has two responses. -/
theorem Tracked.told (h : s.Tracked T x) : x.conn.outbox.length ≤ x.parser.2.begun := by
  rcases h with hlevel | hwaiting | hrefused | hstopped | hdrained
  · exact (Nat.le_add_right _ _).trans hlevel.abreast.told.le
  · exact (Nat.le_succ _).trans hwaiting.told.le
  · exact hrefused.told
  · exact hstopped.told.elim (fun h => (Nat.le_succ _).trans h.2) fun h => h.2
  · exact hdrained.told

theorem tracked_start : s.Tracked T (Client.fresh T.tallied.start []) := by
  have hidle : T.phase T.tallied.start.1 = .idle := T.start_idle
  have hnot {α : Prop} {ph : Phase} (hne : ph ≠ .idle) (hph : T.phase T.tallied.start.1 = ph) : α :=
    absurd (hph.symm.trans hidle) hne
  refine Or.inl ⟨rfl, ⟨rfl, rfl, ⟨hnot (by decide), hnot (by decide), fun _ => rfl⟩, fun _ => rfl,
    ?_, le_rfl⟩, hnot (by decide), Nat.zero_le _⟩
  show 0 + (T.phase T.tallied.start.1).owing = 0
  rw [hidle]
  rfl

theorem tracked_feed (hpost : ∀ o r, s.post o r = (o ++ [r], .ok)) (hT : T.EndsLast)
    (h : s.Level T x ∨ s.Refused T x ∨ Stopped x) (hapart : s.Apart T x) :
    s.Tracked T (s.feed T.tallied x) := by
  rcases h with hlevel | hrefused | hstopped
  · rcases hlevel.feed hpost hT hapart with h | h | h | h
    · exact Or.inl h
    · exact Or.inr (Or.inl h)
    · exact Or.inr (Or.inr (Or.inl h))
    · exact Or.inr (Or.inr (Or.inr (Or.inl h)))
  · exact Or.inr (Or.inr (Or.inl (hrefused.feed hpost)))
  · exact Or.inr (Or.inr (Or.inr (Or.inl (hstopped.feed hpost))))

theorem setFault_eq (c : Conn O) (id : ErrorId) : ∃ f, c.setFault id = { c with fault := f } := by
  unfold setFault
  cases c.fault with
  | none => exact ⟨_, rfl⟩
  | some f => exact ⟨c.fault, rfl⟩

/-- A connection that is closed for a read that does not fit. -/
theorem tracked_overflow (h : s.Tracked T x) (hup : x.conn.upstream = false)
    (hopen : x.conn.draining = false) (id : ErrorId) :
    s.Level T { x with conn := { x.conn.setFault id with closing := true } } ∨
      s.Refused T { x with conn := { x.conn.setFault id with closing := true } } ∨
      Stopped { x with conn := { x.conn.setFault id with closing := true } } := by
  obtain ⟨f, hfault⟩ := setFault_eq x.conn id
  rw [hfault]
  rcases h with hlevel | hwaiting | hrefused | hstopped | hdrained
  · have habreast := hlevel.abreast
    exact Or.inl ⟨hlevel.errno, ⟨habreast.upstream, habreast.responded, ⟨habreast.inPhase.head,
      habreast.inPhase.body, habreast.inPhase.unfinished⟩, nofun, habreast.told, habreast.bytes⟩,
      hlevel.counted, hlevel.within⟩
  · rw [hwaiting.upstream] at hup
    cases hup
  · exact Or.inr (Or.inl ⟨hrefused.errno, hrefused.upstream, rfl, hrefused.responded,
      hrefused.full, hrefused.head, hrefused.counted, hrefused.told⟩)
  · exact Or.inr (Or.inr ⟨hstopped.errno, hstopped.upstream, rfl, hstopped.told⟩)
  · rw [hdrained.draining] at hopen
    cases hopen

theorem tracked_read (hpost : ∀ o r, s.post o r = (o ++ [r], .ok)) (hT : T.EndsLast)
    (h : s.Tracked T x) (d : Bytes) (hapart : ∀ y ∈ s.feeds x (.read d), s.Apart T y) :
    s.Tracked T (s.readable T.tallied x d) := by
  cases hfeeds : s.feeds x (.read d) with
  | some y =>
    have hy := hapart y hfeeds
    rw [readable_of_feeds hfeeds]
    unfold feeds at hfeeds
    dsimp only at hfeeds
    split_ifs at hfeeds with hdraining hfits hup
    · obtain rfl := Option.some.inj hfeeds
      rcases h with hlevel | hwaiting | hrefused | hstopped | hdrained
      · exact tracked_feed hpost hT (Or.inl (hlevel.withInbox _)) hy
      · have hsame : s.feed T.tallied { x with inbox := x.inbox ++ d } =
            { x with inbox := x.inbox ++ d } := if_pos hwaiting.upstream
        rw [hsame]
        exact Or.inr (Or.inl ⟨hwaiting.errno, hwaiting.upstream, hwaiting.messageDone,
          hwaiting.headersDone, hwaiting.fault, hwaiting.idle, hwaiting.bytes, hwaiting.within,
          hwaiting.told⟩)
      · exact tracked_feed hpost hT (Or.inr (Or.inl ⟨hrefused.errno, hrefused.upstream,
          hrefused.closing, hrefused.responded, hrefused.full, hrefused.head, hrefused.counted,
          hrefused.told⟩)) hy
      · exact tracked_feed hpost hT (Or.inr (Or.inr ⟨hstopped.errno, hstopped.upstream,
          hstopped.closing, hstopped.told⟩)) hy
      · exact absurd hdrained.draining hdraining
    · obtain rfl := Option.some.inj hfeeds
      have hidle := Bool.not_eq_true _ ▸ hup
      have hopen := Bool.not_eq_true _ ▸ hdraining
      exact tracked_feed hpost hT (tracked_overflow h hidle hopen _) hy
  | none =>
    unfold feeds at hfeeds
    dsimp only at hfeeds
    unfold readable
    split_ifs at hfeeds with hdraining hfits hup
    · rw [if_pos hdraining]
      exact h
    · rw [if_neg hdraining, if_neg hfits, if_pos hup]
      rcases h with hlevel | hwaiting | hrefused | hstopped | hdrained
      · exact absurd hup (by simp [hlevel.abreast.upstream])
      · exact Or.inr (Or.inr (Or.inr (Or.inr ⟨rfl, rfl, Or.inl rfl,
          (Nat.le_succ _).trans hwaiting.told.le⟩)))
      · exact absurd hup (by simp [hrefused.upstream])
      · exact absurd hup (by simp [hstopped.upstream])
      · exact absurd hup (by simp [hdrained.upstream])

/-- An exchange that has answered leaves a connection that reads on. -/
theorem Waiting.resumed (hpost : ∀ o r, s.post o r = (o ++ [r], .ok)) (h : s.Waiting T x) :
    s.Level T ⟨resume { x.toReader with conn := s.deliver x.conn }, x.inbox⟩ := by
  obtain ⟨htold, hup, hfault⟩ := deliver_told hpost x.conn
  have hanswers := s.deliver_answers x.conn
  have hbytes : (s.deliver x.conn).headerBytes = x.conn.headerBytes :=
    (congrArg Conn.headerBytes hanswers :)
  have hnot {α : Prop} {ph : Phase} (hne : ph ≠ .idle) (hph : T.phase x.parser.1 = ph) : α :=
    absurd (hph.symm.trans h.idle) hne
  refine ⟨?_, ⟨hup, rfl, ⟨hnot (by decide), hnot (by decide), fun hne => absurd h.idle hne⟩,
    fun _ => hfault.trans h.fault, ?_, hbytes.trans_le h.bytes⟩, hnot (by decide), h.within⟩
  · show resumeErrno x.errno = none
    rw [h.errno]
    rfl
  · show (s.deliver x.conn).outbox.length + (T.phase x.parser.1).owing = x.parser.2.begun
    rw [h.idle, htold]
    exact h.told

theorem tracked_exchangeDone (hpost : ∀ o r, s.post o r = (o ++ [r], .ok)) (hT : T.EndsLast)
    (h : s.Tracked T x) (hapart : ∀ y ∈ s.feeds x .exchangeDone, s.Apart T y) :
    s.Tracked T (s.exchangeDone T.tallied x) := by
  cases hup : x.conn.upstream with
  | false =>
    have hsame : s.exchangeDone T.tallied x = x := if_pos hup
    rw [hsame]
    exact h
  | true =>
    have hwaiting : s.Waiting T x := by
      rcases h with hlevel | hwaiting | hrefused | hstopped | hdrained
      · exact absurd hup (by simp [hlevel.abreast.upstream])
      · exact hwaiting
      · exact absurd hup (by simp [hrefused.upstream])
      · exact absurd hup (by simp [hstopped.upstream])
      · exact absurd hup (by simp [hdrained.upstream])
    have hlevel := hwaiting.resumed hpost
    unfold exchangeDone
    rw [if_neg (by simp [hup])]
    dsimp only
    split_ifs with hkeeps
    · exact tracked_feed hpost hT (Or.inl hlevel) (hapart _ (if_pos ⟨hup, hkeeps⟩))
    · have hanswers := s.deliver_answers x.conn
      have hdone : (s.deliver x.conn).messageDone = x.conn.messageDone :=
        (congrArg Conn.messageDone hanswers :)
      have htold := hlevel.abreast.told
      refine Or.inr (Or.inr (Or.inr (Or.inr ⟨rfl, hlevel.abreast.upstream,
        Or.inr (hdone.trans hwaiting.messageDone), ?_⟩)))
      exact (Nat.le_add_right _ _).trans htold.le

theorem tracked_written (h : s.Tracked T x) : s.Tracked T (written x) := by
  unfold written
  split_ifs with hends
  · obtain ⟨hup, hclosing⟩ := hends
    exact Or.inr (Or.inr (Or.inr (Or.inr ⟨rfl, hup, Or.inl hclosing, h.told⟩)))
  · exact h

theorem tracked_sweep (hpost : ∀ o r, s.post o r = (o ++ [r], .ok)) (h : s.Tracked T x)
    (hsweep : x.conn.Unanswered → T.phase x.parser.1 ≠ .idle) :
    s.Tracked T (s.episode T.tallied x .sweep) := by
  unfold episode
  dsimp only
  split_ifs with hup
  · exact h
  · have hidle : x.conn.upstream = false := Bool.not_eq_true _ ▸ hup
    have hswept : (s.timeout x.conn).upstream = false ∧
        (s.timeout x.conn).outbox.length ≤ x.parser.2.begun := by
      unfold timeout
      split_ifs with hunanswered
      · have hopen := hunanswered.2.1
        have hmessage := hunanswered.2.2.2
        obtain ⟨hone, -⟩ := sendError_told hpost x.conn .requestTimeout
        refine ⟨hone.upstream.trans hidle, ?_⟩
        show (s.sendError x.conn .requestTimeout).1.outbox.length ≤ _
        rw [hone.outbox]
        rcases h with hlevel | hwaiting | hrefused | hstopped | hdrained
        · have howed := hlevel.abreast.told
          rw [Phase.owing_inside (hsweep hunanswered)] at howed
          exact howed.le
        · exact hwaiting.told.le
        · exact absurd hrefused.closing (by simp [hopen])
        · exact absurd hstopped.closing (by simp [hopen])
        · rcases hdrained.last with hclosing | hdone
          · exact absurd hclosing (by simp [hopen])
          · exact absurd hdone (by simp [hmessage])
      · exact ⟨hidle, h.told⟩
    exact Or.inr (Or.inr (Or.inr (Or.inr ⟨rfl, hswept.1, Or.inl rfl, hswept.2⟩)))

/-- One episode. -/
theorem tracked_episode (hpost : ∀ o r, s.post o r = (o ++ [r], .ok)) (hT : T.EndsLast)
    (h : s.Tracked T x) {a : Episode} (ha : s.SetApart T x a) :
    s.Tracked T (s.episode T.tallied x a) := by
  cases a with
  | read d => exact tracked_read hpost hT h d ha.1
  | exchangeDone => exact tracked_exchangeDone hpost hT h ha.1
  | written => exact tracked_written h
  | sweep => exact tracked_sweep hpost h (ha.2 rfl)

end

end Server
end AsmFlow.Http
