import AsmFlow.Http.Frames

/-!
# A stream read one byte at a time

The reading against which every other is measured: each byte is read alone, and
an exchange answers as soon as it is started. A parse of several bytes is
followed byte by byte by this reading, as long as the header counts of the two
are under the ceiling together.
-/

namespace AsmFlow.Http

open Library Conn

variable {P O : Type}

/-! ## The order of the callbacks -/

theorem Phase.steps_nil (ph : Phase) : ph.steps [] = some ph := rfl

theorem Phase.steps_cons (ph : Phase) (x : Call) (xs : List Call) :
    ph.steps (x :: xs) = (ph.step x).bind fun ph => ph.steps xs := by
  have hnone : ∀ ys : List Call,
      ys.foldl (fun acc x => acc.bind fun ph : Phase => ph.step x) none = none := by
    intro ys
    induction ys with
    | nil => rfl
    | cons y ys ih => exact ih
  unfold steps
  rw [List.foldl_cons, Option.bind_some]
  cases ph.step x with
  | none => exact hnone xs
  | some ph' => rfl

theorem Phase.steps_append {ph ph' : Phase} {xs : List Call} (h : ph.steps xs = some ph')
    (ys : List Call) : ph.steps (xs ++ ys) = ph'.steps ys := by
  unfold steps at h ⊢
  rw [List.foldl_append, h]

theorem Parser.steps_trace (T : Parser P) (p : P) (n : ℕ) (d : Bytes) :
    (T.phase p).steps ((T.trace p n d).map Prod.fst) = some (T.phase (T.after p d)) := by
  induction d generalizing p n with
  | nil => rfl
  | cons b d ih =>
    rw [Transducer.trace, List.map_append, List.map_map]
    have hfirst : (T.next p b).2.map (Prod.fst ∘ fun o => (o, n + 1)) = (T.next p b).2 := by
      simp [Function.comp_def]
    rw [hfirst, Phase.steps_append (T.orderly p b)]
    exact ih _ _

namespace Server

variable (s : Server O) (T : Parser P)

theorem onHeadersComplete_done (c : Conn O) (line : RequestLine) :
    (s.onHeadersComplete c line).1.headersDone = true := by
  have hfault : ∀ (d : Conn O) (id : ErrorId), (d.setFault id).headersDone = d.headersDone := by
    intro d id
    unfold setFault
    cases d.fault with
    | none => rfl
    | some f => rfl
  unfold onHeadersComplete Conn.refuse
  dsimp only
  split_ifs <;> simp only [hfault]

/-- What a call leaves of the rule that a body comes after a header section. -/
def Ordered (ph : Option Phase) (d : Conn O) : Option Hpe → Prop
  | none => ph = some .body → d.headersDone = true
  | some .paused => d.headersDone = true
  | some .user => d.closing = true → d.headersDone = true
  | some (.bad _) => True

theorem call_ordered {c : Conn O} (hlive : Live c) {ph ph' : Phase}
    (hph : ph = .body → c.headersDone = true) (x : Call) (hx : ph.step x = some ph') :
    Ordered (some ph') (s.call c x).1 (s.call c x).2 := by
  have hcontinues : ∀ f : Conn O → Conn O × Option Hpe, Does f c (Continues c) →
      (ph' = .body → ph = .body ∨ (f c).1.headersDone = true) →
      Ordered (some ph') (f c).1 (f c).2 := by
    intro f hdoes hkept
    obtain ⟨-, d, hd, hsteady, hstop⟩ := hdoes.at
    rw [hd] at hkept ⊢
    rcases hstop with hstop | ⟨hstop, -⟩
    · rw [hstop]
      intro hbody
      rcases hkept (Option.some.inj hbody) with hbefore | hafter
      · exact hsteady.headersDone (hph hbefore)
      · exact hafter
    · rw [hstop]
      intro hclosing
      have hopen : d.closing = false := hsteady.closing.trans hlive.closing
      exact absurd hclosing (by simp [hopen])
  cases x with
  | span kind b =>
    refine hcontinues (fun c => s.onSpan c b kind) ((s.onSpan_does b kind c).mono fun _ _ h => h.1)
      fun hbody => Or.inl ?_
    cases ph with
    | body => rfl
    | idle => cases hx
    | head =>
      simp only [Phase.step] at hx
      split_ifs at hx
      cases hx
      cases hbody
  | messageBegin =>
    cases ph with
    | idle =>
      cases hx
      intro hbody
      cases hbody
    | head => cases hx
    | body => cases hx
  | headerFieldComplete =>
    intro hbody
    cases ph with
    | body => exact hph rfl
    | idle => cases hx
    | head =>
      cases hx
      cases hbody
  | headerValueComplete =>
    refine hcontinues s.onHeaderValueComplete
      ((s.onHeaderValueComplete_does c).mono fun _ _ h => h.1) fun hbody => Or.inl ?_
    cases ph with
    | body => rfl
    | idle => cases hx
    | head =>
      cases hx
      cases hbody
  | headersComplete line =>
    exact hcontinues (fun c => s.onHeadersComplete c line) (s.onHeadersComplete_does line c)
      fun _ => Or.inr (s.onHeadersComplete_done c line)
  | messageComplete =>
    have hdone : c.headersDone = true ∧ ph' = .idle := by
      cases ph with
      | body =>
        cases hx
        exact ⟨hph rfl, rfl⟩
      | idle => cases hx
      | head => cases hx
    rcases s.call_cases c .messageComplete hlive.upstream with hdoes | ⟨d, heq, -⟩
    · obtain ⟨-, d, hd, houtcome⟩ := hdoes.at
      have hkept : d.headersDone = true := houtcome.2.1 hdone.1
      rw [hd]
      rcases (s.call c .messageComplete).2 with _ | _ | _ | e
      · exact fun _ => hkept
      · exact hkept
      · exact fun _ => hkept
      · trivial
    · have hself : s.call c .messageComplete = (d.resetMessage, none) := heq c.headerBytes
      rw [hself, hdone.2]
      intro hbody
      cases hbody
  | unset =>
    cases hx
    intro hbody
    exact hph (Option.some.inj hbody)
  | bad e => trivial

theorem perform_ordered {c : Conn O} (hlive : Live c) {ph : Phase}
    (hph : ph = .body → c.headersDone = true) (cs : List (Call × ℕ)) {ph' : Phase}
    (hcs : ph.steps (cs.map Prod.fst) = some ph') :
    Ordered (some ph') (perform s.call c cs).1 ((perform s.call c cs).2.map Prod.fst) := by
  induction cs generalizing c ph with
  | nil =>
    intro hbody
    rw [List.map_nil, Phase.steps_nil] at hcs
    exact hph (Option.some.inj (hcs.trans hbody))
  | cons x cs ih =>
    obtain ⟨x, n⟩ := x
    rw [List.map_cons, Phase.steps_cons] at hcs
    obtain ⟨mid, hmid, hrest⟩ := Option.bind_eq_some_iff.mp hcs
    have hcall := s.call_ordered hlive hph x hmid
    have hleft := s.call_left hlive x
    rw [perform_cons]
    cases hstop : (s.call c x).2 with
    | none =>
      rw [hstop] at hcall hleft
      exact ih hleft (fun h => hcall (congrArg some h)) hrest
    | some e =>
      rw [hstop] at hcall
      cases e with
      | paused => exact hcall
      | user => exact hcall
      | bad e => trivial

/-! ## The parser on a live connection -/

theorem execute_of_land (c : Conn O) (p : P) (d : Bytes) :
    (s.execute T ⟨c, p, none⟩ d).1.conn =
        (perform s.call c (joined Call.join (T.trace p 0 d))).1 ∧
      (s.execute T ⟨c, p, none⟩ d).2 =
        (perform s.call c (joined Call.join (T.trace p 0 d))).2 ∧
      (s.execute T ⟨c, p, none⟩ d).1.errno = (s.execute T ⟨c, p, none⟩ d).2.map Prod.fst := by
  rw [execute_eq_land]
  rcases perform s.call c (joined Call.join (T.trace p 0 d)) with ⟨conn, _ | ⟨e, n⟩⟩
  · exact ⟨rfl, rfl, rfl⟩
  · exact ⟨rfl, rfl, rfl⟩

theorem execute_left {c : Conn O} (hlive : Live c) (p : P) (d : Bytes) :
    Left (s.execute T ⟨c, p, none⟩ d).1.conn
      ((s.execute T ⟨c, p, none⟩ d).2.map Prod.fst) := by
  obtain ⟨hconn, hstop, -⟩ := s.execute_of_land T c p d
  rw [hconn, hstop]
  exact s.perform_left hlive _

theorem execute_goes (c : Conn O) (p : P) (d : Bytes)
    (h : (s.execute T ⟨c, p, none⟩ d).2 = none) :
    s.execute T ⟨c, p, none⟩ d =
      (⟨(s.execute T ⟨c, p, none⟩ d).1.conn, T.after p d, none⟩, none) := by
  rw [execute_eq_land] at h ⊢
  rcases hr : perform s.call c (joined Call.join (T.trace p 0 d)) with ⟨conn, _ | ⟨e, n⟩⟩
  · rfl
  · rw [hr] at h
    cases h

/-- On a connection whose parser is inside a body the header section is finished, and so it
is where a callback ends the connection. -/
theorem execute_ordered {c : Conn O} (hlive : Live c) (p : P)
    (hph : T.phase p = .body → c.headersDone = true) (d : Bytes) :
    Ordered (some (T.phase (T.after p d))) (s.execute T ⟨c, p, none⟩ d).1.conn
      ((s.execute T ⟨c, p, none⟩ d).2.map Prod.fst) := by
  obtain ⟨hconn, hstop, -⟩ := s.execute_of_land T c p d
  have hplain := s.perform_ordered hlive hph (T.trace p 0 d) (T.steps_trace p 0 d)
  have hjoined := perform_joined Conn.Alike.trans (call_join s) c (T.trace p 0 d)
  rw [hconn, hstop]
  generalize perform s.call c (joined Call.join (T.trace p 0 d)) = a at hjoined
  generalize perform s.call c (T.trace p 0 d) = b at hjoined hplain
  cases hjoined with
  | same => exact hplain
  | stopped halike =>
    obtain ⟨rfl, houtline⟩ := halike
    intro hclosing
    have hdone := congrArg Conn.headersDone houtline
    have hended := congrArg Conn.closing houtline
    exact hdone.trans (hplain (hended.symm.trans hclosing))

theorem execute_singleton (c : Conn O) (p : P) (b : UInt8) {e : Hpe} {n : ℕ}
    (h : (s.execute T ⟨c, p, none⟩ [b]).2 = some (e, n)) : n = 1 := by
  rw [(s.execute_of_land T c p [b]).2.1] at h
  exact perform_position (joined_position (T.trace_singleton_position p 0 b)) (Prod.ext rfl h)

/-- The counts of two connections that differ in nothing else, after a parse. -/
def Carries (before after : Conn O) (h h' : ℕ) : Prop :=
  (h' = h ∧ after.headerBytes = before.headerBytes ∧
      (before.headersDone = true → after.headersDone = true)) ∨
    (h' = 0 ∧ after.headerBytes = 0)

theorem execute_withHeader {c : Conn O} (hlive : Live c) (p : P) (d : Bytes) (h : ℕ) :
    ∃ h', s.execute T ⟨c.withHeader h, p, none⟩ d =
        (⟨(s.execute T ⟨c, p, none⟩ d).1.conn.withHeader h',
            (s.execute T ⟨c, p, none⟩ d).1.parser, (s.execute T ⟨c, p, none⟩ d).1.errno⟩,
          (s.execute T ⟨c, p, none⟩ d).2) ∧
      Carries c (s.execute T ⟨c, p, none⟩ d).1.conn h h' := by
  have hland : ∀ (r : Conn O × Option (Hpe × ℕ)) (h' : ℕ),
      land T p d (r.1.withHeader h', r.2) =
        (⟨r.1.withHeader h', (land T p d r).1.parser, (land T p d r).1.errno⟩,
          (land T p d r).2) := by
    rintro ⟨conn, _ | ⟨e, n⟩⟩ h'
    · rfl
    · rfl
  have hconn := (s.execute_of_land T c p d).1
  unfold Carries
  rw [hconn, execute_eq_land, execute_eq_land]
  rcases s.perform_counts hlive (joined Call.join (T.trace p 0 d)) with
    ⟨hblind, hbytes, hdone⟩ | ⟨hblind, hbytes⟩
  · have hperform := hblind h
    dsimp only at hperform
    refine ⟨h, ?_, Or.inl ⟨rfl, hbytes, hdone⟩⟩
    rw [hperform]
    exact hland (perform s.call c (joined Call.join (T.trace p 0 d))) h
  · have hperform := hblind h
    dsimp only at hperform hbytes
    generalize hr : perform s.call c (joined Call.join (T.trace p 0 d)) = r at hperform hbytes ⊢
    have hsame : r.1.withHeader 0 = r.1 := by
      rw [← hbytes]
      rfl
    have hself := hland r 0
    refine ⟨0, ?_, Or.inr ⟨rfl, hbytes⟩⟩
    rw [hperform]
    rw [hsame] at hself ⊢
    exact hself

/-! ## The reading -/

/-- One byte is read, and an exchange it starts answers at once. -/
def tick (x : Client P O) (b : UInt8) : Client P O := s.exchangeDone T (s.readable T x [b])

def bytewise (x : Client P O) (d : Bytes) : Client P O := d.foldl (s.tick T) x

theorem bytewise_append (x : Client P O) (d e : Bytes) :
    s.bytewise T x (d ++ e) = s.bytewise T (s.bytewise T x d) e := List.foldl_append

@[simp] theorem bytewise_cons (x : Client P O) (b : UInt8) (d : Bytes) :
    s.bytewise T x (b :: d) = s.bytewise T (s.tick T x b) d := rfl

/-- A client with nothing unread. -/
def Client.at (c : Conn O) (p : P) (errno : Option Hpe) : Client P O := ⟨⟨c, p, errno⟩, []⟩

/-- A byte is offered alone while the count is under the ceiling. -/
theorem readable_single {c : Conn O} (hlive : Live c) (p : P) (b : UInt8)
    (hroom : c.headersDone = true ∨ c.headerBytes < s.headerMax) :
    s.readable T (Client.at c p none) [b] = s.offer T ⟨⟨c, p, none⟩, [b]⟩ 1 := by
  have hfits : (Client.at c p none).inbox.length + [b].length ≤
      s.headerMax + s.bodyMax + readChunk := by
    have hchunk : 1 ≤ readChunk := by decide
    show 0 + 1 ≤ _
    omega
  have hopen : ¬(c.headersDone = false ∧ s.headerMax ≤ c.headerBytes) := by
    rintro ⟨hdone, hfull⟩
    rcases hroom with hroom | hroom
    · exact absurd hroom (by simp [hdone])
    · omega
  have hoffered : s.offered c [b].length = 1 := by
    unfold offered
    split_ifs
    · rfl
    · show min 1 _ = 1
      omega
  have hdraining : ¬(Client.at c p none : Client P O).conn.draining = true := by
    show ¬c.draining = true
    simp [hlive.draining]
  have hup : ¬c.upstream = true := by simp [hlive.upstream]
  have hsome : ¬[b] = [] := List.cons_ne_nil _ _
  rw [readable, if_neg hdraining, if_pos hfits]
  show s.feed T ⟨⟨c, p, none⟩, [b]⟩ = _
  rw [feed, if_neg hup, if_neg hsome, if_neg hopen, hoffered]

theorem countHeaderBytes_withHeader (c : Conn O) (h n : ℕ) :
    countHeaderBytes (c.withHeader h) n =
      c.withHeader (if c.headersDone then h else h + n) := by
  unfold countHeaderBytes
  rw [withHeader_headersDone]
  split_ifs <;> rfl

/-- A byte the parser goes on after. -/
theorem tick_goes {c : Conn O} (hlive : Live c) (p : P) (b : UInt8) {h : ℕ}
    (hroom : c.headersDone = true ∨ h < s.headerMax)
    (hgo : (s.execute T ⟨c, p, none⟩ [b]).2 = none)
    (hend : (s.execute T ⟨c, p, none⟩ [b]).1.conn.headersDone = true ∨ 0 < s.headerMax) :
    ∃ h', s.tick T (Client.at (c.withHeader h) p none) b =
        Client.at ((s.execute T ⟨c, p, none⟩ [b]).1.conn.withHeader h') (T.after p [b]) none ∧
      ((s.execute T ⟨c, p, none⟩ [b]).1.conn.headersDone = false →
        (c.headersDone = false ∧ h' = h + 1 ∧
            (s.execute T ⟨c, p, none⟩ [b]).1.conn.headerBytes = c.headerBytes) ∨
          (h' = 1 ∧ (s.execute T ⟨c, p, none⟩ [b]).1.conn.headerBytes = 0)) := by
  obtain ⟨h', hexec, hcarries⟩ := s.execute_withHeader T hlive p [b] h
  have hleft := s.execute_left T hlive p [b]
  have hparser := s.execute_goes T c p [b] hgo
  rw [hgo] at hleft
  generalize s.execute T ⟨c, p, none⟩ [b] = r at hexec hcarries hleft hparser hgo hend
  obtain ⟨⟨d, p', e'⟩, stop⟩ := r
  dsimp only at hgo hleft hcarries hend hexec
  obtain rfl := hgo
  obtain ⟨rfl, rfl⟩ : p' = T.after p [b] ∧ e' = none := by simpa using hparser
  have hlive' : Live (c.withHeader h) := ⟨hlive.upstream, hlive.closing, hlive.draining⟩
  have hsmall : s.headersLarge (d.withHeader (if d.headersDone then h' else h' + 1)) = false := by
    unfold headersLarge
    rcases Bool.eq_false_or_eq_true d.headersDone with hdone | hdone
    · simp [hdone]
    · have hpos : 0 < s.headerMax := by simpa [hdone] using hend
      have hbound : h' + 1 ≤ s.headerMax := by
        rcases hcarries with ⟨rfl, -, hkept⟩ | ⟨rfl, -⟩
        · rcases hroom with hroom | hroom
          · exact absurd (hkept hroom) (by simp [hdone])
          · omega
        · omega
      simpa [hdone] using hbound
  refine ⟨if d.headersDone then h' else h' + 1, ?_, ?_⟩
  · rw [tick, s.readable_single T hlive' p b hroom, offer]
    simp only [List.take_succ_cons, List.take_zero, hexec, countHeaderBytes_withHeader,
      hsmall, Bool.false_eq_true, if_false, List.drop_succ_cons, List.drop_zero]
    exact if_pos hleft.upstream
  · intro hdone
    dsimp only at hdone ⊢
    rw [hdone]
    rcases hcarries with ⟨rfl, hbytes, hkept⟩ | ⟨rfl, hbytes⟩
    · refine Or.inl ⟨?_, rfl, hbytes⟩
      cases hc : c.headersDone with
      | false => rfl
      | true => exact absurd (hkept hc) (by simp [hdone])
    · exact Or.inr ⟨rfl, hbytes⟩

/-- A byte that stops the parser. -/
theorem readable_stops {c : Conn O} (hlive : Live c) (p : P) (b : UInt8) {h : ℕ}
    (hroom : c.headersDone = true ∨ h < s.headerMax) {r : Reader P O} {e : Hpe} {n : ℕ}
    (hstop : s.execute T ⟨c, p, none⟩ [b] = (r, some (e, n))) :
    ∃ h', s.readable T (Client.at (c.withHeader h) p none) [b] =
        Client.at (s.stopped (r.conn.withHeader h') e 1) r.parser (some e) ∧
      Carries c r.conn h h' := by
  obtain ⟨h', hexec, hcarries⟩ := s.execute_withHeader T hlive p [b] h
  have herrno := (s.execute_of_land T c p [b]).2.2
  have hlive' : Live (c.withHeader h) := ⟨hlive.upstream, hlive.closing, hlive.draining⟩
  rw [hstop] at hexec hcarries herrno
  dsimp only [Option.map_some] at hexec hcarries herrno
  have hn : n = 1 := s.execute_singleton T c p b (e := e) (by rw [hstop])
  refine ⟨h', ?_, hcarries⟩
  rw [s.readable_single T hlive' p b hroom, offer]
  simp only [List.take_succ_cons, List.take_zero, hexec, hn, List.drop_succ_cons, List.drop_zero,
    herrno]
  rfl

/-! ## Several bytes -/

theorem play_of_execute {c : Conn O} {p : P} {d : Bytes} {r : Reader P O}
    (h : s.execute T ⟨c, p, none⟩ d = (r, none)) : s.play T ⟨c, p, none⟩ d = (r, none) := by
  have hagree := s.execute_play T c p d
  rw [h] at hagree
  generalize s.play T ⟨c, p, none⟩ d = t at hagree
  cases hagree with
  | same => rfl

/-- The counts under which a stream is read byte by byte as it is read at once: `k` bytes of
the read are counted already. -/
def Under (c : Conn O) (p : P) (k : ℕ) (d : Bytes) (limit : ℕ) : Prop :=
  (s.play T ⟨c, p, none⟩ d).1.conn.headersDone = true ∨
    (s.play T ⟨c, p, none⟩ d).1.conn.headerBytes + (k + d.length) ≤ limit

/-- Bytes the parser goes on after. -/
theorem bytewise_goes {c : Conn O} (hlive : Live c) (p : P) (d : Bytes) {h k : ℕ}
    (hcount : c.headersDone = false → h ≤ c.headerBytes + k)
    (hgo : (s.play T ⟨c, p, none⟩ d).2 = none)
    (hunder : ∀ e b rest, d = e ++ b :: rest → s.Under T c p (k + 1) e s.headerMax)
    (hend : s.Under T c p k d s.headerMax) :
    ∃ h', s.bytewise T (Client.at (c.withHeader h) p none) d =
        Client.at ((s.play T ⟨c, p, none⟩ d).1.conn.withHeader h') (T.after p d) none ∧
      ((s.play T ⟨c, p, none⟩ d).1.conn.headersDone = false →
        h' ≤ (s.play T ⟨c, p, none⟩ d).1.conn.headerBytes + (k + d.length)) := by
  induction d generalizing c p h k with
  | nil => exact ⟨h, rfl, hcount⟩
  | cons b d ih =>
    have hplay := s.play_cons T ⟨c, p, none⟩ b
    have hone : (s.execute T ⟨c, p, none⟩ [b]).2 = none := by
      have := hplay d
      rw [this] at hgo
      cases hstop : (s.execute T ⟨c, p, none⟩ [b]).2 with
      | none => rfl
      | some stop =>
        rw [hstop] at hgo
        cases hgo
    have hleft := s.execute_left T hlive p [b]
    have hparser := s.execute_goes T c p [b] hone
    rw [hone] at hleft
    have hreader : (s.execute T ⟨c, p, none⟩ [b]).1 =
        ⟨(s.execute T ⟨c, p, none⟩ [b]).1.conn, T.after p [b], none⟩ :=
      congrArg Prod.fst hparser
    have hrest : ∀ e, s.play T ⟨c, p, none⟩ (b :: e) =
        ((s.play T ⟨(s.execute T ⟨c, p, none⟩ [b]).1.conn, T.after p [b], none⟩ e).1,
          (s.play T ⟨(s.execute T ⟨c, p, none⟩ [b]).1.conn, T.after p [b], none⟩ e).2.map
            fun stop => (stop.1, stop.2 + 1)) := by
      intro e
      rw [hplay e, hone, ← hreader]
    have hshift : ∀ e k limit, s.Under T c p k (b :: e) limit →
        s.Under T (s.execute T ⟨c, p, none⟩ [b]).1.conn (T.after p [b]) (k + 1) e limit := by
      intro e k limit hu
      unfold Under at hu ⊢
      rw [hrest, List.length_cons] at hu
      rcases hu with hu | hu
      · exact Or.inl hu
      · right
        dsimp only at hu
        omega
    have hfirst : c.headersDone = true ∨ h < s.headerMax := by
      rcases hunder [] b d rfl with hdone | hless
      · exact Or.inl hdone
      · by_cases hdone : c.headersDone = true
        · exact Or.inl hdone
        · have hbound := hcount (Bool.not_eq_true _ ▸ hdone)
          have hless' : c.headerBytes + (k + 1 + 0) ≤ s.headerMax := hless
          right
          omega
    have hafter : s.Under T c p k [b] s.headerMax := by
      cases d with
      | nil => exact hend
      | cons b' d =>
        rcases hunder [b] b' d rfl with hdone | hless
        · exact Or.inl hdone
        · right
          omega
    have hpos : (s.execute T ⟨c, p, none⟩ [b]).1.conn.headersDone = true ∨ 0 < s.headerMax := by
      unfold Under at hafter
      rw [hrest] at hafter
      rcases hafter with hdone | hless
      · exact Or.inl hdone
      · right
        rw [List.length_singleton] at hless
        omega
    obtain ⟨h₁, htick, hcounted⟩ := s.tick_goes T hlive p b hfirst hone hpos
    have hcount₁ : (s.execute T ⟨c, p, none⟩ [b]).1.conn.headersDone = false →
        h₁ ≤ (s.execute T ⟨c, p, none⟩ [b]).1.conn.headerBytes + (k + 1) := by
      intro hdone
      rcases hcounted hdone with ⟨hbefore, rfl, hbytes⟩ | ⟨rfl, hbytes⟩
      · have hbound := hcount hbefore
        omega
      · omega
    have hgo' : (s.play T ⟨(s.execute T ⟨c, p, none⟩ [b]).1.conn, T.after p [b], none⟩ d).2 =
        none := by
      rw [hrest] at hgo
      exact Option.map_eq_none_iff.mp hgo
    obtain ⟨h', hbytewise, hcount'⟩ := ih hleft (T.after p [b]) hcount₁ hgo'
      (fun e b' rest he => hshift e (k + 1) _ (hunder (b :: e) b' rest (by rw [he]; rfl)))
      (hshift d k _ hend)
    refine ⟨h', ?_, ?_⟩
    · rw [bytewise_cons, htick, hbytewise, hrest]
      rfl
    · intro hdone
      rw [hrest] at hdone ⊢
      have := hcount' hdone
      rw [List.length_cons]
      dsimp only
      omega

/-- Where a stream stops, one byte of it stops the parser. -/
theorem play_stops {r : Reader P O} {d : Bytes} {t : Reader P O} {e : Hpe} {n : ℕ}
    (h : s.play T r d = (t, some (e, n))) :
    ∃ pre b post, d = pre ++ b :: post ∧ n = pre.length + 1 ∧ (s.play T r pre).2 = none ∧
      ∃ m, s.execute T (s.play T r pre).1 [b] = (t, some (e, m)) := by
  induction d generalizing r n with
  | nil => cases h
  | cons b d ih =>
    have hplay := s.play_cons T r b
    rw [hplay d] at h
    cases hone : (s.execute T r [b]).2 with
    | none =>
      rw [hone] at h
      dsimp only at h
      obtain ⟨ht, hstop⟩ := Prod.mk.inj h
      obtain ⟨⟨e', m⟩, hm, hem⟩ := Option.map_eq_some_iff.mp hstop
      obtain ⟨rfl, rfl⟩ : e' = e ∧ m + 1 = n := by simpa using hem
      obtain ⟨pre, b', post, rfl, rfl, hnone, hex⟩ :=
        ih (r := (s.execute T r [b]).1) (n := m) (Prod.ext ht hm)
      refine ⟨b :: pre, b', post, rfl, rfl, ?_, ?_⟩
      · rw [hplay pre, hone]
        exact Option.map_eq_none_iff.mpr hnone
      · rw [hplay pre, hone]
        exact hex
    | some stop =>
      obtain ⟨e', m⟩ := stop
      rw [hone] at h
      dsimp only at h
      obtain ⟨ht, hstop⟩ := Prod.mk.inj h
      obtain ⟨rfl, rfl⟩ : e' = e ∧ 1 = n := by simpa using hstop
      exact ⟨[], b, d, rfl, rfl, rfl, m, Prod.ext ht hone⟩

end Server
end AsmFlow.Http
