import AsmFlow.Http.Bytewise
import AsmFlow.Http.Credentials

/-!
# The requests in a feed

One call of the parser may end a request, hold several, and begin another. What
it leaves on the connection is read off the phase it leaves the parser in, and
off whether a request was begun on the way.
-/

namespace AsmFlow.Http

open Library Conn

variable {P O : Type}

/-- No byte ends one message and begins another. -/
def Parser.Separates (T : Parser P) : Prop :=
  ∀ p b, .messageComplete ∈ (T.next p b).2 → T.phase (T.next p b).1 = .idle

/-- The flags of a connection, in step with the phase of its parser. -/
structure Conn.InPhase (ph : Phase) (c : Conn O) : Prop where
  head : ph = .head → c.headersDone = false
  body : ph = .body → c.headersDone = true
  unfinished : ph ≠ .idle → c.messageDone = false

theorem Phase.step_collecting {ph ph' : Phase} {x : Call} (hx : x.Collecting)
    (h : ph.step x = some ph') : ph' = ph := by
  cases ph with
  | idle =>
    cases x with
    | unset => exact (Option.some.inj h).symm
    | bad e => exact (Option.some.inj h).symm
    | messageBegin => exact hx.elim
    | _ => cases h
  | head =>
    cases x with
    | span kind p =>
      simp only [step] at h
      split_ifs at h
      exact (Option.some.inj h).symm
    | messageComplete => exact hx.elim
    | headersComplete line => exact hx.elim
    | messageBegin => exact hx.elim
    | _ => exact (Option.some.inj h).symm
  | body =>
    cases x with
    | span kind p =>
      simp only [step] at h
      split_ifs at h
      exact (Option.some.inj h).symm
    | messageComplete => exact hx.elim
    | headersComplete line => exact hx.elim
    | messageBegin => exact hx.elim
    | _ => exact (Option.some.inj h).symm

/-- Between two messages nothing is called until the next begins. -/
theorem Phase.steps_unbegun {cs : List Call} (hbegin : Call.messageBegin ∉ cs) {ph : Phase}
    (h : Phase.idle.steps cs = some ph) :
    ph = .idle ∧ ∀ x ∈ cs, x = .unset ∨ ∃ e, x = .bad e := by
  induction cs with
  | nil =>
    rw [steps_nil] at h
    exact ⟨(Option.some.inj h).symm, nofun⟩
  | cons x cs ih =>
    rw [steps_cons] at h
    obtain ⟨mid, hmid, hrest⟩ := Option.bind_eq_some_iff.mp h
    obtain ⟨hne, hothers⟩ := not_or.mp fun h => hbegin (List.mem_cons.mpr h)
    have hfirst : mid = .idle ∧ (x = .unset ∨ ∃ e, x = .bad e) := by
      cases x with
      | unset => exact ⟨(Option.some.inj hmid).symm, Or.inl rfl⟩
      | bad e => exact ⟨(Option.some.inj hmid).symm, Or.inr ⟨e, rfl⟩⟩
      | messageBegin => exact absurd rfl hne
      | _ => cases hmid
    rw [hfirst.1] at hrest
    obtain ⟨hph, hall⟩ := ih hothers hrest
    exact ⟨hph, List.forall_mem_cons.mpr ⟨hfirst.2, hall⟩⟩

namespace Server

variable {s : Server O} {c : Conn O} {ph ph' : Phase}

/-! ## One callback -/

/-- The end of a header section decides its endpoint and whether the connection is kept. -/
theorem onHeadersComplete_same (c : Conn O) (line : RequestLine) :
    (s.onHeadersComplete c line).1.headerBytes = c.headerBytes ∧
      (s.onHeadersComplete c line).1.messageDone = c.messageDone := by
  have hrefuse (d : Conn O) (id : ErrorId) : (d.refuse id).1.headerBytes = d.headerBytes ∧
      (d.refuse id).1.messageDone = d.messageDone := by
    have hcollects := d.refuse_collects id
    exact ⟨(congrArg Conn.headerBytes hcollects :), (congrArg Conn.messageDone hcollects :)⟩
  unfold onHeadersComplete
  dsimp only
  split_ifs
  · exact hrefuse _ _
  · exact hrefuse _ _
  · exact hrefuse _ _
  · exact hrefuse _ _
  · exact ⟨rfl, rfl⟩

theorem call_inPhase (h : c.InPhase ph) {x : Call} (hx : ph.step x = some ph') :
    (s.call c x).1.InPhase ph' := by
  by_cases hcollecting : x.Collecting
  · obtain rfl := Phase.step_collecting hcollecting hx
    have hcollects := s.call_collects c hcollecting
    have hdone : (s.call c x).1.headersDone = c.headersDone :=
      (congrArg Conn.headersDone hcollects :)
    have hmessage : (s.call c x).1.messageDone = c.messageDone :=
      (congrArg Conn.messageDone hcollects :)
    exact ⟨fun hph => hdone.trans (h.head hph), fun hph => hdone.trans (h.body hph),
      fun hph => hmessage.trans (h.unfinished hph)⟩
  · cases x with
    | messageBegin =>
      cases ph with
      | idle =>
        cases hx
        exact ⟨fun _ => rfl, nofun, fun _ => rfl⟩
      | head => cases hx
      | body => cases hx
    | headersComplete line =>
      cases ph with
      | head =>
        cases hx
        exact ⟨nofun, fun _ => s.onHeadersComplete_done c line,
          fun _ => (onHeadersComplete_same c line).2.trans (h.unfinished (by decide))⟩
      | idle => cases hx
      | body => cases hx
    | messageComplete =>
      cases ph with
      | body =>
        cases hx
        exact ⟨nofun, nofun, fun hph => absurd rfl hph⟩
      | idle => cases hx
      | head => cases hx
    | _ => exact absurd trivial hcollecting

/-- Nothing but the begin and the end of a message changes the count. -/
theorem call_headerBytes {x : Call} (hbegin : x ≠ .messageBegin) (hend : x ≠ .messageComplete) :
    (s.call c x).1.headerBytes = c.headerBytes := by
  by_cases hcollecting : x.Collecting
  · exact (congrArg Conn.headerBytes (s.call_collects c hcollecting) :)
  · cases x with
    | messageBegin => exact absurd rfl hbegin
    | headersComplete line => exact (onHeadersComplete_same c line).1
    | messageComplete => exact absurd rfl hend
    | _ => exact absurd trivial hcollecting

/-- A request that is suspended is one whose end has been heard. -/
theorem onMessageComplete_paused (h : (s.onMessageComplete c).2 = some .paused) :
    (s.onMessageComplete c).1.messageDone = true := by
  have hdispatched := s.dispatch_answers { c with messageDone := true }
  unfold onMessageComplete at h ⊢
  generalize s.dispatch { c with messageDone := true } = r at h hdispatched
  obtain ⟨d, st⟩ := r
  have hdone : d.messageDone = true := (congrArg Conn.messageDone hdispatched :)
  dsimp only at h ⊢
  unfold afterDispatch at h ⊢
  split_ifs at h ⊢
  · cases h
  · exact hdone
  · cases h

/-- A connection that is to be closed stays so. -/
theorem call_closing (h : c.closing = true) (x : Call) : (s.call c x).1.closing = true := by
  by_cases hcollecting : x.Collecting
  · exact (congrArg Conn.closing (s.call_collects c hcollecting) :).trans h
  · cases x with
    | messageBegin => exact h
    | headersComplete line =>
      obtain ⟨-, d, hd, hsteady, -⟩ := (s.onHeadersComplete_does line c).at
      have hsame : (s.call c (.headersComplete line)).1 = d.withHeader c.headerBytes := hd
      rw [hsame]
      exact hsteady.closing.trans h
    | messageComplete =>
      have hdispatched := s.dispatch_answers { c with messageDone := true }
      change (s.onMessageComplete c).1.closing = true
      unfold onMessageComplete
      generalize s.dispatch { c with messageDone := true } = r at hdispatched
      obtain ⟨d, st⟩ := r
      have hclosing : d.closing = true := (congrArg Conn.closing hdispatched :).trans h
      dsimp only
      unfold afterDispatch
      split_ifs
      · rfl
      · exact hclosing
      · rfl
      · exact hclosing
    | _ => exact absurd trivial hcollecting

/-! ## The callbacks of a feed -/

theorem perform_inPhase {cs : List (Call × ℕ)} (h : c.InPhase ph)
    (hcs : ph.steps (cs.map Prod.fst) = some ph') (hgo : (perform s.call c cs).2 = none) :
    (perform s.call c cs).1.InPhase ph' := by
  induction cs generalizing c ph with
  | nil =>
    obtain rfl := Option.some.inj hcs
    exact h
  | cons x cs ih =>
    obtain ⟨x, n⟩ := x
    rw [List.map_cons, Phase.steps_cons] at hcs
    obtain ⟨mid, hmid, hrest⟩ := Option.bind_eq_some_iff.mp hcs
    rw [perform_cons] at hgo ⊢
    cases hstop : (s.call c x).2 with
    | none =>
      rw [hstop] at hgo
      exact ih (call_inPhase h hmid) hrest hgo
    | some e =>
      rw [hstop] at hgo
      cases hgo

/-- Where no message begins, a message that is not ended keeps its count. -/
theorem perform_headerBytes {cs : List (Call × ℕ)} (hbegin : Call.messageBegin ∉ cs.map Prod.fst)
    (hcs : ph.steps (cs.map Prod.fst) = some ph') (hph : ph' ≠ .idle) :
    (perform s.call c cs).1.headerBytes = c.headerBytes := by
  induction cs generalizing c ph with
  | nil => rfl
  | cons x cs ih =>
    obtain ⟨x, n⟩ := x
    rw [List.map_cons] at hbegin hcs
    rw [Phase.steps_cons] at hcs
    obtain ⟨mid, hmid, hrest⟩ := Option.bind_eq_some_iff.mp hcs
    obtain ⟨hne, hothers⟩ := not_or.mp fun h => hbegin (List.mem_cons.mpr h)
    have hend : x ≠ .messageComplete := by
      rintro rfl
      have hidle : mid = .idle := by
        cases ph with
        | body => exact (Option.some.inj hmid).symm
        | idle => cases hmid
        | head => cases hmid
      rw [hidle] at hrest
      exact hph (Phase.steps_unbegun hothers hrest).1
    have hfirst : (s.call c x).1.headerBytes = c.headerBytes :=
      call_headerBytes (fun h => hne h.symm) hend
    rw [perform_cons]
    cases (s.call c x).2 with
    | none => exact (ih hothers hrest).trans hfirst
    | some e => exact hfirst

/-- Between two messages the connection is left as it is. -/
theorem perform_unbegun {cs : List (Call × ℕ)} (hbegin : Call.messageBegin ∉ cs.map Prod.fst)
    (hcs : Phase.idle.steps (cs.map Prod.fst) = some ph) : (perform s.call c cs).1 = c := by
  have hall := (Phase.steps_unbegun hbegin hcs).2
  clear hbegin hcs
  induction cs with
  | nil => rfl
  | cons x cs ih =>
    obtain ⟨x, n⟩ := x
    obtain ⟨hfirst, hothers⟩ := List.forall_mem_cons.mp hall
    rw [perform_cons]
    rcases hfirst with rfl | ⟨e, rfl⟩
    · exact ih hothers
    · rfl

/-- Where the callbacks pause, the end of a message was the last of them. -/
theorem perform_paused {cs : List (Call × ℕ)} {n : ℕ}
    (h : (perform s.call c cs).2 = some (.paused, n)) :
    (.messageComplete, n) ∈ cs ∧ (perform s.call c cs).1.messageDone = true := by
  induction cs generalizing c with
  | nil => cases h
  | cons x cs ih =>
    obtain ⟨x, m⟩ := x
    rw [perform_cons] at h ⊢
    cases hstop : (s.call c x).2 with
    | none =>
      rw [hstop] at h
      obtain ⟨hmem, hdone⟩ := ih h
      exact ⟨List.mem_cons_of_mem _ hmem, hdone⟩
    | some e =>
      rw [hstop] at h
      obtain ⟨rfl, rfl⟩ := Prod.mk.inj (Option.some.inj h)
      obtain rfl := call_paused hstop
      exact ⟨List.mem_cons_self, onMessageComplete_paused hstop⟩

/-! ## One call of the parser -/

variable {T : Parser P} {p : P} {d : Bytes}

/-- Unless a callback refuses, the parser makes the callbacks of the single bytes. -/
theorem execute_perform (h : ∀ n, (s.execute T ⟨c, p, none⟩ d).2 ≠ some (.user, n)) :
    perform s.call c (T.trace p 0 d) =
      ((s.execute T ⟨c, p, none⟩ d).1.conn, (s.execute T ⟨c, p, none⟩ d).2) := by
  obtain ⟨hconn, hstop, -⟩ := s.execute_of_land T c p d
  have hjoined := perform_joined Conn.Alike.trans (call_join s) c (T.trace p 0 d)
  rw [hstop] at h
  rw [hconn, hstop]
  generalize perform s.call c (joined Call.join (T.trace p 0 d)) = a at hjoined h
  generalize perform s.call c (T.trace p 0 d) = b at hjoined
  cases hjoined with
  | same => rfl
  | stopped halike =>
    obtain ⟨rfl, -⟩ := halike
    exact absurd rfl (h _)

/-- So does one that is fed. -/
theorem feed_closing {x : Client P O} (h : x.conn.closing = true) :
    (s.feed T x).conn.closing = true := by
  have hcounted (c : Conn O) (n : ℕ) : (countHeaderBytes c n).closing = c.closing := by
    unfold countHeaderBytes
    split_ifs
    · rfl
    · rfl
  have hstep (l : Dialogue O) (m : Move) (hl : l.conn.closing = true) :
      (s.move l m).conn.closing = true := by
    by_cases hcall : ∃ y, m = .call y
    · obtain ⟨y, rfl⟩ := hcall
      rw [move]
      split_ifs
      · exact call_closing hl y
      · exact hl
    · by_cases hcount : ∃ n, m = .count n
      · obtain ⟨n, rfl⟩ := hcount
        exact (hcounted l.conn n).trans hl
      · obtain ⟨closing, draining, hkept, hanswers⟩ :=
          s.move_answers l (fun y hy => hcall ⟨y, hy⟩) fun n hn => hcount ⟨n, hn⟩
        exact (congrArg Conn.closing hanswers :).trans (hkept hl)
  obtain ⟨ms, hms⟩ := reaches_feed (s := s) T x
  have hrun := (throughout_of_invariant ms (fun l m hl => hstep l m hl) h :
    Throughout s.move (fun l => l.conn.closing = true) ⟨x.conn, x.errno⟩ ms).last
  rwa [hms] at hrun

/-- No request is begun by the bytes. -/
def Unbegun (T : Parser P) (p : P) (d : Bytes) : Prop :=
  Call.messageBegin ∉ (T.trace p 0 d).map Prod.fst

instance (T : Parser P) (p : P) (d : Bytes) : Decidable (Unbegun T p d) :=
  inferInstanceAs (Decidable (¬_))

/-- A parser between two messages stays there where none is begun. -/
theorem Unbegun.idle (h : Unbegun T p d) (hph : T.phase p = .idle) :
    T.phase (T.after p d) = .idle := by
  have hsteps := T.steps_trace p 0 d
  rw [hph] at hsteps
  exact (Phase.steps_unbegun h hsteps).1

/-- What a call of the parser that goes on leaves. -/
theorem execute_ready (h : c.InPhase (T.phase p)) (hgo : (s.execute T ⟨c, p, none⟩ d).2 = none) :
    (s.execute T ⟨c, p, none⟩ d).1.conn.InPhase (T.phase (T.after p d)) ∧
      (Unbegun T p d → T.phase (T.after p d) ≠ .idle →
        (s.execute T ⟨c, p, none⟩ d).1.conn.headerBytes = c.headerBytes) ∧
      (Unbegun T p d → T.phase p = .idle → (s.execute T ⟨c, p, none⟩ d).1.conn = c) := by
  have hperform := execute_perform (s := s) (T := T) (c := c) (p := p) (d := d) fun n hn => by
    rw [hgo] at hn
    cases hn
  have hsteps := T.steps_trace p 0 d
  have hnone : (perform s.call c (T.trace p 0 d)).2 = none := by rw [hperform, hgo]
  have hconn : (s.execute T ⟨c, p, none⟩ d).1.conn = (perform s.call c (T.trace p 0 d)).1 :=
    (congrArg Prod.fst hperform).symm
  rw [hconn]
  refine ⟨perform_inPhase h hsteps hnone, fun hbegin hph => ?_, fun hbegin hph => ?_⟩
  · exact perform_headerBytes hbegin hsteps hph
  · rw [hph] at hsteps
    exact perform_unbegun hbegin hsteps

/-- What a suspended request leaves: it is complete, and no other is begun. -/
theorem execute_suspended (hT : T.Separates) {n : ℕ}
    (h : (s.execute T ⟨c, p, none⟩ d).2 = some (.paused, n)) :
    (s.execute T ⟨c, p, none⟩ d).1.conn.messageDone = true ∧
      T.phase (s.execute T ⟨c, p, none⟩ d).1.parser = .idle := by
  have hperform := execute_perform (s := s) (T := T) (c := c) (p := p) (d := d) fun m hm => by
    rw [h] at hm
    cases hm
  have hpaused : (perform s.call c (T.trace p 0 d)).2 = some (.paused, n) := by rw [hperform, h]
  obtain ⟨hmem, hdone⟩ := perform_paused hpaused
  obtain ⟨pre, b, post, rfl, hn, hcall⟩ := T.mem_trace hmem
  have hparser : (s.execute T ⟨c, p, none⟩ (pre ++ b :: post)).1.parser =
      T.after p ((pre ++ b :: post).take n) := by
    rw [execute_eq_land] at h ⊢
    generalize perform s.call c (joined Call.join (T.trace p 0 (pre ++ b :: post))) = r at h ⊢
    obtain ⟨d, _ | ⟨e, m⟩⟩ := r
    · cases h
    · obtain ⟨rfl, rfl⟩ := Prod.mk.inj (Option.some.inj h)
      rfl
  have htake : (pre ++ b :: post).take n = pre ++ [b] := by
    rw [List.append_cons, hn, Nat.zero_add]
    exact List.take_left' (by simp)
  rw [hperform] at hdone
  refine ⟨hdone, ?_⟩
  rw [hparser, htake, Transducer.after, List.foldl_append]
  exact hT _ b hcall

end Server

theorem Reading.separates : Reading.parser.Separates := by
  intro r b hcall
  cases r with
  | final m n =>
    cases n with
    | zero => rfl
    | succ n => simp [Reading.parser, Reading.next, Reading.headersEnd] at hcall
  | body n =>
    cases n with
    | zero => rfl
    | succ n => simp [Reading.parser, Reading.next] at hcall
  | start | method | version | valueEnd => simp [Reading.parser, Reading.next] at hcall
  | url | line | name | value =>
    simp only [Reading.parser, Reading.next] at hcall
    split_ifs at hcall <;> simp at hcall

end AsmFlow.Http
