import AsmFlow.Http.Bytewise
import AsmFlow.Library.Runs

/-!
# However the socket cuts the stream

A connection is compared with the byte by byte reading of all its bytes. The two
agree as long as every feed is accounted for: what it offers to the parser is
all there is, or stops the parser, and the header count stays under its ceiling,
the bytes of the whole feed counted. A header section that is really too large
is refused by both.
-/

namespace AsmFlow.Http

open Library Conn

variable {P O : Type}

/-- A callback that reads on in a header section. -/
def Call.reads : Call → Bool
  | .span kind _ => kind != .body
  | .headerFieldComplete => true
  | .headerValueComplete => true
  | .unset => true
  | _ => false

namespace Server

variable (s : Server O) (T : Parser P)

/-! ## A connection at its end -/

/-- A connection that will not answer again. -/
structure Dead (x : Client P O) : Prop where
  upstream : x.conn.upstream = false
  ended : x.conn.draining = true ∨
    (x.conn.closing = true ∧
      ((∃ e, x.errno = some e ∧ e ≠ .paused ∧
          (x.conn.headersDone = true ∨ x.conn.responded = true)) ∨
        (x.conn.headersDone = false ∧ s.headerMax ≤ x.conn.headerBytes ∧
          x.conn.responded = true)))

variable {s}

theorem Dead.quiet {x : Client P O} (hdead : s.Dead x) (hfull : x.conn.headersDone = false)
    (hopen : x.conn.draining = false) : x.conn.responded = true := by
  rcases hdead.ended with hdraining | ⟨-, ⟨e, -, -, hdone | hresponded⟩ | ⟨-, -, hresponded⟩⟩
  · exact absurd hdraining (by simp [hopen])
  · exact absurd hdone (by simp [hfull])
  · exact hresponded
  · exact hresponded

/-- A refusal on a connection that is at its end already. -/
theorem Dead.refuse (haccepts : ∀ o r, ¬(s.post o r).2 < 0) {x : Client P O} (hdead : s.Dead x)
    (hopen : x.conn.draining = false) (hdone : x.conn.headersDone = false)
    (hfull : s.headerMax ≤ x.conn.headerBytes) (id : ErrorId) :
    s.Dead { x with conn := s.refuse x.conn id } ∧ (s.refuse x.conn id).outbox = x.conn.outbox := by
  have hresponded := hdead.quiet hdone hopen
  obtain ⟨hclosing, hupstream, hresponded', hbytes, hdone'⟩ := s.refuse_ends haccepts x.conn id
  constructor
  · refine ⟨hupstream.trans hdead.upstream, Or.inr ⟨hclosing, Or.inr ⟨?_, ?_, hresponded'⟩⟩⟩
    · exact hdone'.trans hdone
    · exact hfull.trans (le_of_eq hbytes.symm)
  · have hset : (x.conn.setFault id).responded = true ∧
        (x.conn.setFault id).outbox = x.conn.outbox := by
      unfold setFault
      cases x.conn.fault with
      | none => exact ⟨hresponded, rfl⟩
      | some f => exact ⟨hresponded, rfl⟩
    unfold Server.refuse
    dsimp only
    rw [if_pos hset.1]
    exact hset.2

theorem Dead.feed (haccepts : ∀ o r, ¬(s.post o r).2 < 0) {x : Client P O} (hdead : s.Dead x)
    (hopen : x.conn.draining = false) :
    s.Dead (s.feed T x) ∧ (s.feed T x).conn.outbox = x.conn.outbox := by
  have hup : ¬x.conn.upstream = true := by simp [hdead.upstream]
  unfold Server.feed
  rw [if_neg hup]
  split_ifs with hempty hfull
  · exact ⟨hdead, rfl⟩
  · exact hdead.refuse haccepts hopen hfull.1 hfull.2 _
  · rcases hdead.ended with hdraining | ⟨hclosing, ⟨e, herrno, he, hquiet⟩ | ⟨hdone, hlarge, -⟩⟩
    · exact absurd hdraining (by simp [hopen])
    · have hcounted : ∀ n, (countHeaderBytes x.conn n).upstream = false ∧
          (countHeaderBytes x.conn n).closing = true ∧
          ((countHeaderBytes x.conn n).headersDone = true ∨
            (countHeaderBytes x.conn n).responded = true) ∧
          (countHeaderBytes x.conn n).outbox = x.conn.outbox := by
        intro n
        unfold countHeaderBytes
        split_ifs
        · exact ⟨hdead.upstream, hclosing, hquiet, rfl⟩
        · exact ⟨hdead.upstream, hclosing, hquiet, rfl⟩
      have hstopped : ∀ n, s.stopped x.conn e n = countHeaderBytes x.conn n := by
        intro n
        unfold stopped
        dsimp only
        rw [if_neg he, if_pos (hcounted n).2.1]
      unfold offer execute
      simp only [herrno, hstopped]
      obtain ⟨hup', hclosing', hquiet', houtbox⟩ :=
        hcounted (x.inbox.take (s.offered x.conn x.inbox.length)).length
      exact ⟨⟨hup', Or.inr ⟨hclosing', Or.inl ⟨e, rfl, he, hquiet'⟩⟩⟩, houtbox⟩
    · exact absurd ⟨hdone, hlarge⟩ hfull

theorem Dead.readable (haccepts : ∀ o r, ¬(s.post o r).2 < 0) {x : Client P O}
    (hdead : s.Dead x) (d : Bytes) :
    s.Dead (s.readable T x d) ∧ (s.readable T x d).conn.outbox = x.conn.outbox := by
  have hup : ¬x.conn.upstream = true := by simp [hdead.upstream]
  unfold Server.readable
  split_ifs with hdraining hroom
  · exact ⟨hdead, rfl⟩
  · have hopen : x.conn.draining = false := Bool.not_eq_true _ ▸ hdraining
    have hdead' : s.Dead { x with inbox := x.inbox ++ d } := ⟨hdead.upstream, hdead.ended⟩
    exact hdead'.feed T haccepts hopen
  · have hopen : x.conn.draining = false := Bool.not_eq_true _ ▸ hdraining
    have hset : ∀ c : Conn O, (c.setFault .bodyTooLarge).upstream = c.upstream ∧
        (c.setFault .bodyTooLarge).draining = c.draining ∧
        (c.setFault .bodyTooLarge).headersDone = c.headersDone ∧
        (c.setFault .bodyTooLarge).responded = c.responded ∧
        (c.setFault .bodyTooLarge).headerBytes = c.headerBytes ∧
        (c.setFault .bodyTooLarge).outbox = c.outbox := by
      intro c
      unfold setFault
      cases c.fault with
      | none => exact ⟨rfl, rfl, rfl, rfl, rfl, rfl⟩
      | some f => exact ⟨rfl, rfl, rfl, rfl, rfl, rfl⟩
    obtain ⟨hup', hdraining', hdone, hresponded, hbytes, houtbox⟩ := hset x.conn
    have hdead' : s.Dead { x with
        conn := { x.conn.setFault .bodyTooLarge with closing := true } } := by
      refine ⟨hup'.trans hdead.upstream, Or.inr ⟨rfl, ?_⟩⟩
      rcases hdead.ended with hdr | ⟨-, ⟨e, herrno, he, hquiet⟩ | ⟨hd, hl, hr⟩⟩
      · exact absurd hdr hdraining
      · exact Or.inl ⟨e, herrno, he, hquiet.imp hdone.trans hresponded.trans⟩
      · exact Or.inr ⟨hdone.trans hd, hl.trans (le_of_eq hbytes.symm), hresponded.trans hr⟩
    obtain ⟨hfed, hsame⟩ := hdead'.feed T haccepts (hdraining'.trans hopen)
    exact ⟨hfed, hsame.trans houtbox⟩

theorem Dead.exchangeDone {x : Client P O} (hdead : s.Dead x) : s.exchangeDone T x = x :=
  if_pos hdead.upstream

theorem Dead.written {x : Client P O} (hdead : s.Dead x) :
    s.Dead (written x) ∧ (written x).conn.outbox = x.conn.outbox := by
  unfold Server.written
  split_ifs
  · exact ⟨⟨hdead.upstream, Or.inl rfl⟩, rfl⟩
  · exact ⟨hdead, rfl⟩

theorem Dead.bytewise (haccepts : ∀ o r, ¬(s.post o r).2 < 0) {x : Client P O}
    (hdead : s.Dead x) (d : Bytes) :
    s.Dead (s.bytewise T x d) ∧ (s.bytewise T x d).conn.outbox = x.conn.outbox := by
  induction d generalizing x with
  | nil => exact ⟨hdead, rfl⟩
  | cons b d ih =>
    obtain ⟨hread, hsame⟩ := hdead.readable T haccepts [b]
    have htick : s.tick T x b = s.readable T x [b] := hread.exchangeDone T
    rw [bytewise_cons, htick]
    obtain ⟨hrest, hsame'⟩ := ih hread
    exact ⟨hrest, hsame'.trans hsame⟩

variable (s)

/-! ## How a connection ends -/

theorem refuse_dead (haccepts : ∀ o r, ¬(s.post o r).2 < 0) {c : Conn O}
    (hup : c.upstream = false) (hdone : c.headersDone = false)
    (hfull : s.headerMax ≤ c.headerBytes) (id : ErrorId) (p : P) (errno : Option Hpe)
    (d : Bytes) : s.Dead ⟨⟨s.refuse c id, p, errno⟩, d⟩ := by
  obtain ⟨hclosing, hupstream, hresponded, hbytes, hdone'⟩ := s.refuse_ends haccepts c id
  exact ⟨hupstream.trans hup, Or.inr ⟨hclosing, Or.inr ⟨hdone'.trans hdone,
    hfull.trans (le_of_eq hbytes.symm), hresponded⟩⟩⟩

theorem stopped_withHeader (c : Conn O) (h n : ℕ) (e : Hpe) :
    ∃ h', s.stopped (c.withHeader h) e n =
      if e = .paused then c.withHeader h'
      else if c.closing then c.withHeader h' else s.refuse (c.withHeader h') (faultOf e) := by
  refine ⟨if c.headersDone then h else h + n, ?_⟩
  unfold stopped
  dsimp only
  rw [countHeaderBytes_withHeader]
  rfl

/-- A parse that stopped for good ends the connection. -/
theorem stopped_dead (haccepts : ∀ o r, ¬(s.post o r).2 < 0) {c : Conn O} {e : Hpe}
    (he : e ≠ .paused) (hleft : Left c (some e)) (hclosed : c.closing = true → c.headersDone = true)
    (h n : ℕ) (p : P) (d : Bytes) :
    s.Dead ⟨⟨s.stopped (c.withHeader h) e n, p, some e⟩, d⟩ := by
  have hup : c.upstream = false := by
    cases e with
    | paused => exact absurd rfl he
    | user => exact hleft.1
    | bad e => exact hleft.upstream
  obtain ⟨h', hstopped⟩ := s.stopped_withHeader c h n e
  rw [hstopped, if_neg he]
  split_ifs with hclosing
  · exact ⟨hup, Or.inr ⟨hclosing, Or.inl ⟨e, rfl, he, Or.inl (hclosed hclosing)⟩⟩⟩
  · obtain ⟨hended, hupstream, hresponded, -, -⟩ :=
      s.refuse_ends haccepts (c.withHeader h') (faultOf e)
    exact ⟨hupstream.trans hup, Or.inr ⟨hended, Or.inl ⟨e, rfl, he, Or.inr hresponded⟩⟩⟩

/-- What a parse that stopped for good answers. -/
theorem stopped_outbox {c d : Conn O} (hsame : c.outline = d.outline) {e : Hpe}
    (he : e ≠ .paused) (h h' n n' : ℕ) :
    (s.stopped (c.withHeader h) e n).outbox = (s.stopped (d.withHeader h') e n').outbox := by
  obtain ⟨g, hc⟩ := s.stopped_withHeader c h n e
  obtain ⟨g', hd⟩ := s.stopped_withHeader d h' n' e
  have hclosing : c.closing = d.closing := (congrArg Conn.closing hsame :)
  have hvoice : (c.withHeader g).voice = (d.withHeader g').voice :=
    (congrArg Conn.voice hsame :)
  rw [hc, hd, if_neg he, if_neg he, ← hclosing]
  split_ifs
  · exact (congrArg Conn.outbox hsame :)
  · exact s.refuse_outbox hvoice _

/-! ## A feed beside the byte by byte reading -/

/-- What is offered is all there is, or stops the parser; and up to there the header section
is finished or its bytes, the whole feed and the byte to come counted, are under the
ceiling. -/
def Counted (c : Conn O) (p : P) (d : Bytes) : Prop :=
  (s.offered c d.length = d.length ∨
      (s.execute T ⟨c, p, none⟩ (d.take (s.offered c d.length))).2.isSome = true) ∧
    ∀ i ≤ s.offered c d.length, (s.execute T ⟨c, p, none⟩ (d.take i)).2 = none →
      (s.execute T ⟨c, p, none⟩ (d.take i)).1.conn.headersDone = true ∨
        (s.execute T ⟨c, p, none⟩ (d.take i)).1.conn.headerBytes +
          min (s.offered c d.length) (i + 1) ≤ s.headerMax

/-- A header section that reaches its ceiling and goes on; `h` bytes of it have been counted
one by one. -/
def Oversize (c : Conn O) (p : P) (h : ℕ) (d : Bytes) : Prop :=
  c.headersDone = false ∧
    ((d ≠ [] ∧ s.headerMax ≤ c.headerBytes ∧ s.headerMax ≤ h) ∨
      ∃ pre b rest, d = pre ++ b :: rest ∧ pre ≠ [] ∧
        c.headerBytes + pre.length = s.headerMax ∧
        (s.execute T ⟨c, p, none⟩ pre).2 = none ∧
        (s.execute T ⟨c, p, none⟩ pre).1.conn.headersDone = false ∧
        (s.execute T ⟨c, p, none⟩ pre).1.conn.headerBytes = c.headerBytes ∧
        s.headerMax ≤
          (s.bytewise T (Client.at (c.withHeader h) p none) pre).conn.headerBytes ∧
        (∀ x ∈ (T.next (T.after p pre) b).2, x.reads = true) ∧
        (s.execute T ⟨c, p, none⟩ (pre ++ [b])).2 = none)

def Accounted (c : Conn O) (p : P) (h : ℕ) (d : Bytes) : Prop :=
  s.Counted T c p d ∨ s.Oversize T c p h d

/-- A connection and the byte by byte reading of the bytes it was sent: both live, or the
connection suspended and the reading ahead of it by what waits in the inbox, or both at
their end. -/
inductive Related : Client P O → Client P O → Prop
  | live {c : Conn O} {p : P} {h : ℕ} (hlive : Live c)
      (hphase : T.phase p = .body → c.headersDone = true)
      (hcount : c.headersDone = false → h ≤ c.headerBytes) :
      Related (Client.at c p none) (Client.at (c.withHeader h) p none)
  | suspended {c : Conn O} {p : P} {h : ℕ} {d : Bytes} (hup : c.upstream = true)
      (hclosing : c.closing = false) (hdraining : c.draining = false)
      (hdone : c.headersDone = true) :
      Related ⟨⟨c, p, some .paused⟩, d⟩
        (s.bytewise T (s.exchangeDone T (Client.at (c.withHeader h) p (some .paused))) d)
  | dead {x i : Client P O} (hdead : s.Dead x) (hdead' : s.Dead i)
      (houtbox : i.conn.outbox = x.conn.outbox) : Related x i

theorem play_prefix {r : Reader P O} {d e : Bytes} (h : (s.play T r (d ++ e)).2 = none) :
    (s.play T r d).2 = none := by
  induction d generalizing r with
  | nil => rfl
  | cons b d ih =>
    rw [List.cons_append, play_cons] at h
    rw [play_cons]
    cases hone : (s.execute T r [b]).2 with
    | none =>
      rw [hone] at h
      exact Option.map_eq_none_iff.mpr (ih (Option.map_eq_none_iff.mp h))
    | some stop =>
      rw [hone] at h
      cases h

theorem execute_of_play {c : Conn O} {p : P} {d : Bytes}
    (h : (s.play T ⟨c, p, none⟩ d).2 = none) :
    s.execute T ⟨c, p, none⟩ d = s.play T ⟨c, p, none⟩ d := by
  have hagree := s.execute_play T c p d
  generalize s.execute T ⟨c, p, none⟩ d = a at hagree
  generalize s.play T ⟨c, p, none⟩ d = b at hagree h
  cases hagree with
  | same => rfl
  | stopped _ => cases h

theorem offered_le (c : Conn O) (n : ℕ) : s.offered c n ≤ n := by
  unfold offered
  split_ifs
  · exact le_refl n
  · exact min_le_left _ _

section Counting

variable {s T} {c : Conn O} {p : P} {d : Bytes}

/-- The count at any point of an accounted feed. -/
theorem Counted.under (hcounted : s.Counted T c p d) {pre post : Bytes}
    (hd : d.take (s.offered c d.length) = pre ++ post)
    (hgo : (s.play T ⟨c, p, none⟩ pre).2 = none) :
    (s.play T ⟨c, p, none⟩ pre).1.conn.headersDone = true ∨
      (s.play T ⟨c, p, none⟩ pre).1.conn.headerBytes + (pre.length + (post.take 1).length) ≤
        s.headerMax := by
  have hlen : pre.length + post.length = s.offered c d.length := by
    rw [← List.length_append, ← hd, List.length_take, min_eq_left (s.offered_le c d.length)]
  have hle : pre.length ≤ s.offered c d.length := by omega
  have htake : d.take pre.length = pre := by
    have hsplit := congrArg (List.take pre.length) hd
    rwa [List.take_take, min_eq_left hle, List.take_left] at hsplit
  have hbound := hcounted.2 pre.length hle
  rw [htake, s.execute_of_play T hgo] at hbound
  refine (hbound hgo).imp id fun hcount => ?_
  rw [List.length_take]
  omega

/-- The byte by byte reading goes on with the parser through an accounted feed. -/
theorem Counted.goes (hcounted : s.Counted T c p d) (hlive : Live c) {h : ℕ}
    (hcount : c.headersDone = false → h ≤ c.headerBytes) {pre post : Bytes}
    (hd : d.take (s.offered c d.length) = pre ++ post)
    (hgo : (s.play T ⟨c, p, none⟩ pre).2 = none) :
    ∃ h', s.bytewise T (Client.at (c.withHeader h) p none) pre =
        Client.at ((s.play T ⟨c, p, none⟩ pre).1.conn.withHeader h') (T.after p pre) none ∧
      ((s.play T ⟨c, p, none⟩ pre).1.conn.headersDone = false →
        h' ≤ (s.play T ⟨c, p, none⟩ pre).1.conn.headerBytes + (0 + pre.length)) := by
  refine s.bytewise_goes T hlive p pre hcount hgo ?_ ?_
  · intro e b rest he
    have hgo' : (s.play T ⟨c, p, none⟩ e).2 = none := s.play_prefix T (he ▸ hgo)
    have hsplit : d.take (s.offered c d.length) = e ++ (b :: rest ++ post) := by
      rw [hd, he, List.append_assoc]
    refine (hcounted.under hsplit hgo').imp id fun hbound => ?_
    rw [List.cons_append, List.take_succ_cons, List.take_zero, List.length_singleton] at hbound
    omega
  · refine (hcounted.under hd hgo).imp id fun hbound => ?_
    omega

end Counting

/-- The branches of a feed on a live connection. -/
theorem feed_live {c : Conn O} (hlive : Live c) (p : P) {d : Bytes} (hd : d ≠ [])
    (hopen : ¬(c.headersDone = false ∧ s.headerMax ≤ c.headerBytes)) :
    s.feed T ⟨⟨c, p, none⟩, d⟩ = s.offer T ⟨⟨c, p, none⟩, d⟩ (s.offered c d.length) := by
  have hup : ¬c.upstream = true := by simp [hlive.upstream]
  rw [feed, if_neg hup, if_neg hd, if_neg hopen]

/-- A feed the parser goes on after. -/
theorem feed_goes {c : Conn O} (hlive : Live c) (p : P)
    (hphase : T.phase p = .body → c.headersDone = true) {h : ℕ} {d : Bytes} (hd : d ≠ [])
    (hcount : c.headersDone = false → h ≤ c.headerBytes) (hcounted : s.Counted T c p d)
    (hopen : ¬(c.headersDone = false ∧ s.headerMax ≤ c.headerBytes))
    (hgo : (s.execute T ⟨c, p, none⟩ (d.take (s.offered c d.length))).2 = none) :
    s.Related T (s.feed T ⟨⟨c, p, none⟩, d⟩)
      (s.bytewise T (Client.at (c.withHeader h) p none) d) := by
  have hwhole : s.offered c d.length = d.length := by
    rcases hcounted.1 with hwhole | hstop
    · exact hwhole
    · rw [hgo] at hstop
      cases hstop
  have hlast := hcounted.2 (s.offered c d.length) (le_refl _) hgo
  rw [s.feed_live T hlive p hd hopen]
  rw [hwhole, List.take_length] at hgo hlast
  rw [hwhole]
  have hplay := s.play_of_execute T (Prod.ext rfl hgo)
  obtain ⟨h', hbytewise, hcount'⟩ := hcounted.goes hlive hcount
    (by rw [hwhole, List.take_length, List.append_nil]) (congrArg Prod.snd hplay)
  have hleft := s.execute_left T hlive p d
  have hordered := s.execute_ordered T hlive p hphase d
  have hparser := s.execute_goes T c p d hgo
  rw [hgo] at hleft hordered
  rw [hplay] at hbytewise hcount'
  generalize (s.execute T ⟨c, p, none⟩ d).1.conn = r at *
  have hlarge : s.headersLarge (countHeaderBytes r d.length) = false := by
    unfold headersLarge countHeaderBytes
    rcases hlast with hdone | hbound
    · simp [hdone]
    · rw [min_eq_left (Nat.le_succ _)] at hbound
      split_ifs with hdone
      · simp [hdone]
      · simpa [hdone] using hbound
  have hfeed : s.offer T ⟨⟨c, p, none⟩, d⟩ d.length =
      Client.at (countHeaderBytes r d.length) (T.after p d) none := by
    unfold offer
    dsimp only
    rw [List.take_length, hparser]
    simp only [hlarge, Bool.false_eq_true, if_false, List.drop_length]
    rfl
  have hsame : ∀ n, (countHeaderBytes r n).withHeader h' = r.withHeader h' := by
    intro n
    unfold countHeaderBytes
    split_ifs <;> rfl
  rw [hfeed, hbytewise, ← hsame d.length]
  unfold countHeaderBytes at *
  split_ifs with hdone
  · exact .live hleft (fun hbody => hordered (congrArg some hbody))
      fun hundone => absurd hdone (by simp [hundone])
  · refine .live ⟨hleft.upstream, hleft.closing, hleft.draining⟩
      (fun hbody => hordered (congrArg some hbody)) fun hundone => ?_
    have hbound := hcount' hundone
    dsimp only
    omega

theorem left_of_outline {c d : Conn O} (h : c.outline = d.outline) {e : Option Hpe}
    (hleft : Left c e) : Left d e := by
  have hup : c.upstream = d.upstream := (congrArg Conn.upstream h :)
  have hclosing : c.closing = d.closing := (congrArg Conn.closing h :)
  have hdraining : c.draining = d.draining := (congrArg Conn.draining h :)
  have hfault : c.fault = d.fault := (congrArg Conn.fault h :)
  unfold Left at hleft ⊢
  rcases e with _ | _ | _ | e
  · exact ⟨hup ▸ hleft.upstream, hclosing ▸ hleft.closing, hdraining ▸ hleft.draining⟩
  · rwa [← hup, ← hclosing, ← hdraining]
  · rwa [← hup, ← hclosing, ← hdraining, ← hfault]
  · exact ⟨hup ▸ hleft.upstream, hclosing ▸ hleft.closing, hdraining ▸ hleft.draining⟩

/-- Where a feed stops the parser, a byte of it does. -/
theorem feed_stops {c : Conn O} (hlive : Live c) (p : P)
    (hphase : T.phase p = .body → c.headersDone = true) {h : ℕ} {d : Bytes} (hd : d ≠ [])
    (hcount : c.headersDone = false → h ≤ c.headerBytes) (hcounted : s.Counted T c p d)
    (hopen : ¬(c.headersDone = false ∧ s.headerMax ≤ c.headerBytes))
    (haccepts : ∀ o r, ¬(s.post o r).2 < 0) {r : Reader P O} {e : Hpe} {n : ℕ}
    (hstop : s.execute T ⟨c, p, none⟩ (d.take (s.offered c d.length)) = (r, some (e, n))) :
    s.Related T (s.feed T ⟨⟨c, p, none⟩, d⟩)
      (s.bytewise T (Client.at (c.withHeader h) p none) d) := by
  have hagree := s.execute_play T c p (d.take (s.offered c d.length))
  have hleft := s.execute_left T hlive p (d.take (s.offered c d.length))
  have hordered := s.execute_ordered T hlive p hphase (d.take (s.offered c d.length))
  have herrno := (s.execute_of_land T c p (d.take (s.offered c d.length))).2.2
  rw [hstop] at hagree hleft hordered herrno
  rw [s.feed_live T hlive p hd hopen]
  have hfeed : s.offer T ⟨⟨c, p, none⟩, d⟩ (s.offered c d.length) =
      ⟨⟨s.stopped r.conn e n, r.parser, some e⟩, d.drop n⟩ := by
    have herr : r.errno = some e := herrno
    unfold offer
    dsimp only
    rw [hstop]
    dsimp only
    rw [herr]
  rw [hfeed]
  obtain ⟨t, m, hplay, hsame, hpaused⟩ : ∃ t m,
      s.play T ⟨c, p, none⟩ (d.take (s.offered c d.length)) = (t, some (e, m)) ∧
        r.conn.outline = t.conn.outline ∧ (e = .paused → r = t ∧ n = m) := by
    generalize s.play T ⟨c, p, none⟩ (d.take (s.offered c d.length)) = a at hagree
    cases hagree with
    | same => exact ⟨r, n, rfl, rfl, fun _ => ⟨rfl, rfl⟩⟩
    | stopped halike =>
      refine ⟨_, _, rfl, halike.1.2, fun hp => ?_⟩
      exact absurd (halike.1.1.symm.trans hp) (by decide)
  obtain ⟨pre, b, post, hsplit, rfl, hgo, k, hone⟩ := s.play_stops T hplay
  obtain ⟨h₁, hbytewise, hcount₁⟩ := hcounted.goes hlive hcount hsplit hgo
  have hexec := s.execute_of_play T hgo
  have hparser := s.execute_goes T c p pre (by rw [hexec, hgo])
  have hlive₁ := s.execute_left T hlive p pre
  have hroom := hcounted.under hsplit hgo
  rw [hexec] at hparser hlive₁
  rw [hgo] at hlive₁
  rw [congrArg Prod.fst hparser] at hone
  generalize (s.play T ⟨c, p, none⟩ pre).1.conn = c₁ at *
  have hroom₁ : c₁.headersDone = true ∨ h₁ < s.headerMax := by
    rcases Bool.eq_false_or_eq_true c₁.headersDone with hdone | hdone
    · exact Or.inl hdone
    · right
      have hbound := hcount₁ hdone
      rcases hroom with hroom | hroom
      · exact absurd hroom (by simp [hdone])
      · rw [List.take_succ_cons, List.take_zero, List.length_singleton] at hroom
        omega
  obtain ⟨h₂, hread, -⟩ := s.readable_stops T hlive₁ (T.after p pre) b hroom₁ hone
  have hwhole : d = pre ++ (b :: (post ++ d.drop (s.offered c d.length))) := by
    calc d = d.take (s.offered c d.length) ++ d.drop (s.offered c d.length) :=
          (List.take_append_drop _ _).symm
      _ = pre ++ (b :: (post ++ d.drop (s.offered c d.length))) := by
          rw [hsplit, List.append_assoc, List.cons_append]
  have hticks : s.bytewise T (Client.at (c.withHeader h) p none) d =
      s.bytewise T (s.exchangeDone T
          (Client.at (s.stopped (t.conn.withHeader h₂) e 1) t.parser (some e)))
        (post ++ d.drop (s.offered c d.length)) := by
    rw [congrArg (s.bytewise T _) hwhole, bytewise_append, hbytewise, bytewise_cons, tick, hread]
  rw [hticks]
  by_cases he : e = .paused
  · obtain ⟨rfl, rfl⟩ := hpaused he
    subst he
    obtain ⟨g, hg⟩ := s.stopped_withHeader r.conn r.conn.headerBytes (pre.length + 1) .paused
    obtain ⟨g', hg'⟩ := s.stopped_withHeader r.conn h₂ 1 .paused
    have hdrop : d.drop (pre.length + 1) = post ++ d.drop (s.offered c d.length) := by
      conv_lhs => rw [hwhole]
      rw [← List.singleton_append, ← List.append_assoc]
      exact List.drop_left' (by simp)
    have hconn : r.conn.withHeader r.conn.headerBytes = r.conn := rfl
    rw [if_pos rfl] at hg hg'
    rw [hconn] at hg
    rw [hg, hg', hdrop]
    exact .suspended (c := r.conn.withHeader g) hleft.1 hleft.2.1 hleft.2.2 hordered
  · have hclosed : r.conn.closing = true → r.conn.headersDone = true := by
      intro hclosing
      cases e with
      | paused => exact absurd rfl he
      | user => exact hordered hclosing
      | bad e =>
        have hstill : r.conn.closing = false := hleft.closing
        exact absurd hclosing (by simp [hstill])
    have hclosed' : t.conn.closing = true → t.conn.headersDone = true := by
      have h₁ : r.conn.closing = t.conn.closing := (congrArg Conn.closing hsame :)
      have h₂ : r.conn.headersDone = t.conn.headersDone := (congrArg Conn.headersDone hsame :)
      rwa [← h₁, ← h₂]
    have hdead := s.stopped_dead haccepts he hleft hclosed r.conn.headerBytes n r.parser
      (d.drop n)
    have hdead' := s.stopped_dead haccepts he (left_of_outline hsame hleft) hclosed' h₂ 1
      t.parser []
    obtain ⟨hrest, houtbox⟩ :=
      hdead'.bytewise T haccepts (post ++ d.drop (s.offered c d.length))
    have hidle : s.exchangeDone T
        (Client.at (s.stopped (t.conn.withHeader h₂) e 1) t.parser (some e)) =
        Client.at (s.stopped (t.conn.withHeader h₂) e 1) t.parser (some e) :=
      hdead'.exchangeDone T
    rw [hidle]
    refine .dead hdead hrest (houtbox.trans ?_)
    exact s.stopped_outbox hsame.symm he h₂ r.conn.headerBytes 1 n

/-! ## A header section that is too large -/

theorem call_reads {c : Conn O} {x : Call} (hx : x.reads = true)
    (hgo : (s.call c x).2 = none) :
    (s.call c x).1.voice = c.voice ∧ (s.call c x).1.headersDone = c.headersDone ∧
      (s.call c x).1.headerBytes = c.headerBytes := by
  have hpasses : ∀ f : Conn O → Conn O × Option Hpe, Does f c (Passes c) → (f c).2 = none →
      (f c).1.voice = c.voice ∧ (f c).1.headersDone = c.headersDone ∧
        (f c).1.headerBytes = c.headerBytes := by
    intro f hdoes hnone
    obtain ⟨-, d, hd, -, hpass⟩ := hdoes.at
    obtain ⟨hvoice, hdone⟩ := hpass hnone
    rw [hd]
    exact ⟨hvoice, hdone, rfl⟩
  cases x with
  | span kind b => exact hpasses (fun c => s.onSpan c b kind) (s.onSpan_does b kind c) hgo
  | headerFieldComplete => exact ⟨rfl, rfl, rfl⟩
  | headerValueComplete => exact hpasses s.onHeaderValueComplete (s.onHeaderValueComplete_does c) hgo
  | unset => exact ⟨rfl, rfl, rfl⟩
  | messageBegin => cases hx
  | headersComplete line => cases hx
  | messageComplete => cases hx
  | bad e => cases hx

theorem perform_reads {c : Conn O} {cs : List (Call × ℕ)} (hcs : ∀ x ∈ cs, x.1.reads = true)
    (hgo : (perform s.call c cs).2 = none) :
    (perform s.call c cs).1.voice = c.voice ∧
      (perform s.call c cs).1.headersDone = c.headersDone ∧
      (perform s.call c cs).1.headerBytes = c.headerBytes := by
  induction cs generalizing c with
  | nil => exact ⟨rfl, rfl, rfl⟩
  | cons x cs ih =>
    obtain ⟨x, n⟩ := x
    rw [perform_cons] at hgo ⊢
    cases hstop : (s.call c x).2 with
    | some e =>
      rw [hstop] at hgo
      cases hgo
    | none =>
      rw [hstop] at hgo
      obtain ⟨hvoice, hdone, hbytes⟩ := s.call_reads (hcs (x, n) List.mem_cons_self) hstop
      obtain ⟨hvoice', hdone', hbytes'⟩ :=
        ih (fun y hy => hcs y (List.mem_cons_of_mem _ hy)) hgo
      exact ⟨hvoice'.trans hvoice, hdone'.trans hdone, hbytes'.trans hbytes⟩

/-- A byte that only reads on in the header section. -/
theorem execute_reads {c : Conn O} {p : P} {b : UInt8}
    (hreads : ∀ x ∈ (T.next p b).2, x.reads = true)
    (hgo : (s.execute T ⟨c, p, none⟩ [b]).2 = none) :
    (s.execute T ⟨c, p, none⟩ [b]).1.conn.voice = c.voice ∧
      (s.execute T ⟨c, p, none⟩ [b]).1.conn.headersDone = c.headersDone ∧
      (s.execute T ⟨c, p, none⟩ [b]).1.conn.headerBytes = c.headerBytes := by
  obtain ⟨hconn, hstop, -⟩ := s.execute_of_land T c p [b]
  have hjoined := perform_joined Conn.Alike.trans (call_join s) c (T.trace p 0 [b])
  rw [hstop] at hgo
  rw [hconn]
  generalize perform s.call c (joined Call.join (T.trace p 0 [b])) = a at hjoined hgo
  generalize hplain : perform s.call c (T.trace p 0 [b]) = q at hjoined
  cases hjoined with
  | stopped _ => cases hgo
  | same =>
    subst hplain
    refine s.perform_reads ?_ hgo
    intro x hx
    simp only [Transducer.trace, List.append_nil, List.mem_map] at hx
    obtain ⟨y, hy, rfl⟩ := hx
    exact hreads y hy

theorem play_append_none {r : Reader P O} {d : Bytes} (h : (s.play T r d).2 = none) (e : Bytes) :
    (s.play T r (d ++ e)).1 = (s.play T (s.play T r d).1 e).1 ∧
      ((s.play T r (d ++ e)).2 = none ↔ (s.play T (s.play T r d).1 e).2 = none) := by
  induction d generalizing r with
  | nil => exact ⟨rfl, Iff.rfl⟩
  | cons b d ih =>
    rw [play_cons] at h
    rw [List.cons_append, play_cons, play_cons]
    cases hone : (s.execute T r [b]).2 with
    | none =>
      rw [hone] at h
      obtain ⟨hfst, hsnd⟩ := ih (Option.map_eq_none_iff.mp h)
      exact ⟨hfst, Option.map_eq_none_iff.trans hsnd⟩
    | some stop =>
      rw [hone] at h
      cases h

theorem execute_headerBytes_le {c : Conn O} (hlive : Live c) (p : P) (d : Bytes) :
    (s.execute T ⟨c, p, none⟩ d).1.conn.headerBytes ≤ c.headerBytes := by
  rw [(s.execute_of_land T c p d).1]
  rcases s.perform_counts hlive (joined Call.join (T.trace p 0 d)) with ⟨-, hkept, -⟩ | ⟨-, hzero⟩
  · exact le_of_eq hkept
  · exact (le_of_eq hzero).trans (Nat.zero_le _)

/-- A byte beyond the ceiling is refused unread. -/
theorem tick_full {c : Conn O} (hlive : Live c) (p : P) (b : UInt8) (hdone : c.headersDone = false)
    (hfull : s.headerMax ≤ c.headerBytes) (haccepts : ∀ o r, ¬(s.post o r).2 < 0) :
    s.tick T (Client.at c p none) b = ⟨⟨s.refuse c .headersTooLarge, p, none⟩, [b]⟩ := by
  have hdraining : ¬(Client.at c p none : Client P O).conn.draining = true := by
    show ¬c.draining = true
    simp [hlive.draining]
  have hfits : (Client.at c p none).inbox.length + [b].length ≤
      s.headerMax + s.bodyMax + readChunk := by
    have hchunk : 1 ≤ readChunk := by decide
    show 0 + 1 ≤ _
    omega
  have hup : ¬c.upstream = true := by simp [hlive.upstream]
  have hread : s.readable T (Client.at c p none) [b] =
      ⟨⟨s.refuse c .headersTooLarge, p, none⟩, [b]⟩ := by
    rw [readable, if_neg hdraining, if_pos hfits]
    show s.feed T ⟨⟨c, p, none⟩, [b]⟩ = _
    rw [feed, if_neg hup, if_neg (List.cons_ne_nil _ _), if_pos ⟨hdone, hfull⟩]
  rw [tick, hread]
  exact (s.refuse_dead haccepts hlive.upstream hdone hfull _ p none [b]).exchangeDone T

/-- A refusal for the size of the header section, beside the byte by byte reading's own. -/
theorem related_full {c d : Conn O} (hvoice : c.voice = d.voice) (hup : c.upstream = false)
    (hlive : Live d) (hdone : c.headersDone = false) (hdone' : d.headersDone = false)
    (hfull : s.headerMax ≤ c.headerBytes) (hfull' : s.headerMax ≤ d.headerBytes)
    (haccepts : ∀ o r, ¬(s.post o r).2 < 0) (p p' : P) (errno : Option Hpe) (inbox : Bytes)
    (b : UInt8) (rest : Bytes) :
    s.Related T ⟨⟨s.refuse c .headersTooLarge, p, errno⟩, inbox⟩
      (s.bytewise T (Client.at d p' none) (b :: rest)) := by
  have hdead := s.refuse_dead haccepts hup hdone hfull .headersTooLarge p errno inbox
  have hdead' := s.refuse_dead haccepts hlive.upstream hdone' hfull' .headersTooLarge p' none [b]
  obtain ⟨hrest, houtbox⟩ := hdead'.bytewise T haccepts rest
  rw [bytewise_cons, s.tick_full T hlive p' b hdone' hfull' haccepts]
  exact .dead hdead hrest (houtbox.trans (s.refuse_outbox hvoice.symm _))

/-- A header section that is too large is refused, byte by byte and at once. -/
theorem feed_oversize {c : Conn O} (hlive : Live c) (p : P) {h : ℕ} {d : Bytes}
    (hcount : c.headersDone = false → h ≤ c.headerBytes) (hover : s.Oversize T c p h d)
    (haccepts : ∀ o r, ¬(s.post o r).2 < 0) :
    s.Related T (s.feed T ⟨⟨c, p, none⟩, d⟩)
      (s.bytewise T (Client.at (c.withHeader h) p none) d) := by
  have hup : ¬c.upstream = true := by simp [hlive.upstream]
  obtain ⟨hdone, ⟨hd, hfull, hfull'⟩ | ⟨pre, b, rest, rfl, hpre, hceiling, hgo, hundone, hkept,
    hsection, hreads, hgo'⟩⟩ := hover
  · obtain ⟨b, rest, rfl⟩ := List.exists_cons_of_ne_nil hd
    rw [feed, if_neg hup, if_neg hd, if_pos ⟨hdone, hfull⟩]
    have hvoice : c.voice = (c.withHeader h).voice := rfl
    exact s.related_full T hvoice hlive.upstream
      ⟨hlive.upstream, hlive.closing, hlive.draining⟩ hdone hdone hfull hfull' haccepts p p none _ b
      rest
  · have hoffered : s.offered c (pre ++ b :: rest).length = pre.length + 1 := by
      unfold offered
      rw [if_neg (by simp [hdone]), List.length_append, List.length_cons]
      omega
    have hpos : 0 < pre.length := List.length_pos_of_ne_nil hpre
    have hopen : ¬(c.headersDone = false ∧ s.headerMax ≤ c.headerBytes) := by omega
    have htake : (pre ++ b :: rest).take (pre.length + 1) = pre ++ [b] := by
      rw [← List.singleton_append, ← List.append_assoc]
      exact List.take_left' (by simp)
    have hplay := s.play_of_execute T (Prod.ext rfl hgo)
    have hparser := s.execute_goes T c p pre hgo
    have hlive₁ := s.execute_left T hlive p pre
    have hboth := s.play_of_execute T (Prod.ext rfl hgo')
    have hnext := s.play_append_none T (congrArg Prod.snd hplay) [b]
    rw [hgo] at hlive₁
    -- The byte over the ceiling, as the feed reads it.
    have hone : s.execute T ⟨(s.execute T ⟨c, p, none⟩ pre).1.conn, T.after p pre, none⟩ [b] =
        ((s.execute T ⟨c, p, none⟩ (pre ++ [b])).1, none) := by
      rw [hboth, hplay, congrArg Prod.fst hparser] at hnext
      dsimp only at hnext
      have hgoes := hnext.2.mp rfl
      rw [s.execute_of_play T hgoes]
      exact Prod.ext hnext.1.symm hgoes
    have hbyte := s.execute_reads T hreads (by rw [hone])
    rw [hone] at hbyte
    dsimp only at hbyte
    obtain ⟨hvoice, hdone₂, hbytes₂⟩ := hbyte
    have hup₂ := s.execute_left T hlive p (pre ++ [b])
    rw [hgo'] at hup₂
    -- The byte by byte reading up to the ceiling.
    have hunder : ∀ e f, pre = e ++ f → s.Under T c p (f.take 1).length e s.headerMax := by
      intro e f he
      have hplay' : (s.play T ⟨c, p, none⟩ e).2 = none :=
        s.play_prefix T (by rw [← he]; exact congrArg Prod.snd hplay)
      have hbound := s.execute_headerBytes_le T hlive p e
      rw [s.execute_of_play T hplay'] at hbound
      right
      rw [he, List.length_append] at hceiling
      rw [List.length_take]
      omega
    obtain ⟨h₁, hbytewise, -⟩ := s.bytewise_goes T hlive p pre
      (fun hd => (hcount hd).trans (Nat.le_add_right _ 0)) (congrArg Prod.snd hplay)
      (fun e b' rest' he => hunder e (b' :: rest') he)
      (hunder pre [] (List.append_nil _).symm)
    rw [hplay] at hbytewise
    rw [hbytewise] at hsection
    have hfull' : s.headerMax ≤ h₁ := hsection
    have hundone₂ := hdone₂.trans hundone
    have hparser₂ := s.execute_goes T c p (pre ++ [b]) hgo'
    generalize (s.execute T ⟨c, p, none⟩ (pre ++ [b])).1.conn = c₂ at *
    have hcounted : countHeaderBytes c₂ (pre.length + 1) = c₂.withHeader (s.headerMax + 1) := by
      have hsum : c₂.headerBytes + (pre.length + 1) = s.headerMax + 1 := by omega
      have hcount₂ := countHeaderBytes_withHeader c₂ c₂.headerBytes (pre.length + 1)
      rw [hundone₂, if_neg (by decide), hsum] at hcount₂
      exact hcount₂
    have hlarge : s.headersLarge (c₂.withHeader (s.headerMax + 1)) = true := by
      simp [headersLarge, hundone₂]
    have hfed : s.feed T ⟨⟨c, p, none⟩, pre ++ b :: rest⟩ =
        ⟨⟨s.refuse (c₂.withHeader (s.headerMax + 1)) .headersTooLarge, T.after p (pre ++ [b]),
          none⟩, pre ++ b :: rest⟩ := by
      rw [s.feed_live T hlive p (by simp) hopen, hoffered]
      unfold offer
      dsimp only
      rw [htake, hparser₂]
      dsimp only
      rw [hcounted, if_pos hlarge]
    rw [hfed, bytewise_append, hbytewise]
    have hvoice' : (c₂.withHeader (s.headerMax + 1)).voice =
          ((s.execute T ⟨c, p, none⟩ pre).1.conn.withHeader h₁).voice := hvoice
    exact s.related_full T hvoice' hup₂.upstream
      ⟨hlive₁.upstream, hlive₁.closing, hlive₁.draining⟩ hundone₂ hundone
      (Nat.le_succ _) hfull' haccepts _ _ none _ b rest

/-- An accounted feed keeps up with the byte by byte reading. -/
theorem feed_related {c : Conn O} (hlive : Live c) (p : P)
    (hphase : T.phase p = .body → c.headersDone = true) {h : ℕ} {d : Bytes}
    (hcount : c.headersDone = false → h ≤ c.headerBytes) (hacc : s.Accounted T c p h d)
    (haccepts : ∀ o r, ¬(s.post o r).2 < 0) :
    s.Related T (s.feed T ⟨⟨c, p, none⟩, d⟩)
      (s.bytewise T (Client.at (c.withHeader h) p none) d) := by
  by_cases hd : d = []
  · subst hd
    have hup : ¬c.upstream = true := by simp [hlive.upstream]
    rw [feed, if_neg hup, if_pos rfl]
    exact .live hlive hphase hcount
  · rcases hacc with hcounted | hover
    · by_cases hfull : c.headersDone = false ∧ s.headerMax ≤ c.headerBytes
      · have hbound := hcounted.2 0 (Nat.zero_le _) rfl
        have hoffered : s.offered c d.length = 1 := by
          have hlen := List.length_pos_of_ne_nil hd
          unfold offered
          rw [if_neg (by simp [hfull.1])]
          omega
        rw [List.take_zero, hoffered] at hbound
        rcases hbound with hdone | hless
        · have hdone' : c.headersDone = true := hdone
          exact absurd hdone' (by simp [hfull.1])
        · have hless' : c.headerBytes + 1 ≤ s.headerMax := hless
          omega
      · rcases hrun : s.execute T ⟨c, p, none⟩ (d.take (s.offered c d.length)) with
          ⟨r, _ | ⟨e, n⟩⟩
        · exact s.feed_goes T hlive p hphase hd hcount hcounted hfull (by rw [hrun])
        · exact s.feed_stops T hlive p hphase hd hcount hcounted hfull haccepts hrun
    · exact s.feed_oversize T hlive p hcount hover haccepts

/-! ## Exchanges -/

theorem deliver_withHeader (c : Conn O) :
    (∀ h, s.deliver (c.withHeader h) = (s.deliver c).withHeader h) ∧
      (s.deliver c).upstream = false ∧ (s.deliver c).closing = c.closing ∧
      (s.deliver c).draining = c.draining ∧
      (c.headersDone = true → (s.deliver c).headersDone = true) := by
  have hdelivered : ∀ f : Conn O → Conn O × Status, Does f c (fun d _ => Steady c d) →
      (∀ h, s.deliver (c.withHeader h) = { (f (c.withHeader h)).1 with upstream := false }) →
      (∀ h, s.deliver (c.withHeader h) = (s.deliver c).withHeader h) ∧
        (s.deliver c).upstream = false ∧ (s.deliver c).closing = c.closing ∧
        (s.deliver c).draining = c.draining ∧
        (c.headersDone = true → (s.deliver c).headersDone = true) := by
    rintro f ⟨d, st, heq, hsteady⟩ hf
    have hself : s.deliver c = { d.withHeader c.headerBytes with upstream := false } := by
      have hown := hf c.headerBytes
      rw [heq] at hown
      exact hown
    refine ⟨fun h => ?_, ?_⟩
    · rw [hf h, heq, hself]
      rfl
    · rw [hself]
      exact ⟨rfl, hsteady.closing, hsteady.draining, hsteady.headersDone⟩
  cases hanswer : s.exchange c.endpoint c.body c.requests with
  | response status flags body =>
    refine hdelivered (fun c => Conn.commit s.post { c with response := body } status flags) ?_ ?_
    · obtain ⟨d, st, heq, hsteady⟩ := commit_does s.post status flags { c with response := body }
      exact ⟨d, st, heq, hsteady.upstream, hsteady.closing, hsteady.draining, hsteady.headersDone⟩
    · intro h
      unfold deliver
      simp only [withHeader_endpoint, withHeader_body, withHeader_requests, hanswer]
  | error id =>
    refine hdelivered (fun c => s.sendError c id) (s.sendError_does id c) ?_
    intro h
    unfold deliver
    simp only [withHeader_endpoint, withHeader_body, withHeader_requests, hanswer]

/-- The connection an exchange hands back. -/
def handed (c : Conn O) : Conn O := { s.deliver c with responded := false }

theorem exchangeDone_busy {c : Conn O} (hup : c.upstream = true) (p : P) (d : Bytes) :
    s.exchangeDone T ⟨⟨c, p, some .paused⟩, d⟩ =
      if (s.handed c).keepAlive then s.feed T ⟨⟨s.handed c, p, none⟩, d⟩
      else ⟨⟨{ s.handed c with draining := true }, p, none⟩, d⟩ := by
  rw [exchangeDone, if_neg (by simp [hup])]
  rfl

theorem exchangeDone_related {c : Conn O} (hup : c.upstream = true) (hclosing : c.closing = false)
    (hdraining : c.draining = false) (hdone : c.headersDone = true) (p : P) (h : ℕ) (d : Bytes)
    (hcounted : (s.handed c).keepAlive = true → s.Accounted T (s.handed c) p h d)
    (haccepts : ∀ o r, ¬(s.post o r).2 < 0) :
    s.Related T (s.exchangeDone T ⟨⟨c, p, some .paused⟩, d⟩)
      (s.bytewise T (s.exchangeDone T (Client.at (c.withHeader h) p (some .paused))) d) := by
  obtain ⟨hblind, hup', hclosing', hdraining', hdone'⟩ := s.deliver_withHeader c
  have hlive : Live (s.handed c) :=
    ⟨hup', hclosing'.trans hclosing, hdraining'.trans hdraining⟩
  have hhanded : (s.handed c).headersDone = true := hdone' hdone
  have hsecond : s.exchangeDone T (Client.at (c.withHeader h) p (some .paused)) =
      if (s.handed c).keepAlive then Client.at ((s.handed c).withHeader h) p none
      else Client.at { (s.handed c).withHeader h with draining := true } p none := by
    have hsame : s.handed (c.withHeader h) = (s.handed c).withHeader h := by
      unfold handed
      rw [hblind]
      rfl
    have hidle : ¬((s.handed c).withHeader h).upstream = true := by
      rw [withHeader_upstream, hlive.upstream]
      decide
    have hfeed : s.feed T ⟨⟨(s.handed c).withHeader h, p, none⟩, []⟩ =
        Client.at ((s.handed c).withHeader h) p none := (if_neg hidle).trans (if_pos rfl)
    have hbusy := s.exchangeDone_busy T (show (c.withHeader h).upstream = true from hup) p []
    rw [hsame, hfeed] at hbusy
    exact hbusy
  rw [s.exchangeDone_busy T hup, hsecond]
  split_ifs with hkeep
  · exact s.feed_related T hlive p (fun _ => hhanded) (fun hundone => absurd hhanded
      (by simp [hundone])) (hcounted hkeep) haccepts
  · have hdead : s.Dead (⟨⟨{ s.handed c with draining := true }, p, none⟩, d⟩ : Client P O) :=
      ⟨hlive.upstream, Or.inl rfl⟩
    have hdead' : s.Dead
        (Client.at { (s.handed c).withHeader h with draining := true } p none : Client P O) :=
      ⟨hlive.upstream, Or.inl rfl⟩
    obtain ⟨hrest, houtbox⟩ := hdead'.bytewise T haccepts d
    exact .dead hdead hrest houtbox

end Server

/-! ## Runs -/

/-- What happens to a connection. -/
inductive Event
  | read (d : Bytes)
  | exchangeDone
  | written
  deriving DecidableEq, Repr

/-- A connection and all it was sent. -/
structure Heard (P O : Type) where
  client : Client P O
  bytes : Bytes
  deriving DecidableEq, Repr

/-- A server whose responses are recorded. -/
def Server.recorded (s : Server (List Reply)) : Server (List Reply) :=
  { s with post := fun sent r => (sent ++ [r], .ok) }

namespace Heard

variable (s : Server O) (T : Parser P)

def start (outbox : O) : Heard P O := ⟨Client.fresh T.start outbox, []⟩

def step (t : Heard P O) : Event → Heard P O
  | .read d => ⟨s.readable T t.client d, t.bytes ++ d⟩
  | .exchangeDone => ⟨s.exchangeDone T t.client, t.bytes⟩
  | .written => ⟨Server.written t.client, t.bytes⟩

/-- Every byte read has been given to the parser, unless the connection is suspended or at
its end. -/
def Prompt (t : Heard P O) : Prop := Server.Live t.client.conn → t.client.inbox = []

instance decidableLive (c : Conn O) : Decidable (Server.Live c) :=
  decidable_of_iff (c.upstream = false ∧ c.closing = false ∧ c.draining = false)
    ⟨fun h => ⟨h.1, h.2.1, h.2.2⟩, fun h => ⟨h.upstream, h.closing, h.draining⟩⟩

/-- The read fits the inbox, and the feed it leads to is accounted for. -/
def Accounted (outbox : O) (t : Heard P O) : Event → Prop
  | .read d =>
    t.client.inbox.length + d.length ≤ s.headerMax + s.bodyMax + readChunk ∧
      (Server.Live t.client.conn → s.Accounted T t.client.conn t.client.parser
        (s.bytewise T (Client.fresh T.start outbox) t.bytes).conn.headerBytes d)
  | .exchangeDone =>
    t.client.conn.upstream = true → (s.handed t.client.conn).keepAlive = true →
      s.Counted T (s.handed t.client.conn) t.client.parser t.client.inbox
  | .written => True

/-- The invariant of runs. -/
def Keeps (outbox : O) (t : Heard P O) : Prop :=
  s.Related T t.client (s.bytewise T (Client.fresh T.start outbox) t.bytes)

variable {s T}

theorem keeps_start (outbox : O) : Keeps s T outbox (start T outbox) :=
  .live (h := 0) ⟨rfl, rfl, rfl⟩ (fun h => absurd (T.start_idle.symm.trans h) (by decide))
    fun _ => le_refl 0

theorem keeps_step (haccepts : ∀ o r, ¬(s.post o r).2 < 0) {outbox : O} {t : Heard P O}
    {a : Event} (h : Keeps s T outbox t) (ha : Accounted s T outbox t a) :
    Keeps s T outbox (step s T t a) := by
  obtain ⟨x, bytes⟩ := t
  unfold Keeps step at *
  dsimp only at h
  generalize hi : s.bytewise T (Client.fresh T.start outbox) bytes = i at h
  cases a with
  | read d =>
    obtain ⟨hroom, hfeed⟩ := ha
    dsimp only at hroom hfeed ⊢
    rw [Server.bytewise_append, hi]
    cases h with
    | @live c p h hlive hphase hcount =>
      rw [hi] at hfeed
      have hread : s.readable T (Server.Client.at c p none) d = s.feed T ⟨⟨c, p, none⟩, d⟩ := by
        have hopen : ¬c.draining = true := by simp [hlive.draining]
        exact (if_neg hopen).trans (if_pos hroom)
      rw [hread]
      exact s.feed_related T hlive p hphase hcount (hfeed hlive) haccepts
    | @suspended c p h waiting hup hclosing hdraining hdone =>
      have hread : s.readable T ⟨⟨c, p, some .paused⟩, waiting⟩ d =
          ⟨⟨c, p, some .paused⟩, waiting ++ d⟩ := by
        have hopen : ¬c.draining = true := by simp [hdraining]
        exact ((if_neg hopen).trans (if_pos hroom)).trans (if_pos hup)
      rw [hread, ← Server.bytewise_append]
      exact .suspended hup hclosing hdraining hdone
    | dead hdead hdead' houtbox =>
      obtain ⟨hread, hsame⟩ := hdead.readable T haccepts d
      obtain ⟨hread', hsame'⟩ := hdead'.bytewise T haccepts d
      exact .dead hread hread' (hsame'.trans (houtbox.trans hsame.symm))
  | exchangeDone =>
    dsimp only at ha ⊢
    rw [hi]
    cases h with
    | @live c p h hlive hphase hcount =>
      have hidle : s.exchangeDone T (Server.Client.at c p none) = Server.Client.at c p none :=
        if_pos hlive.upstream
      rw [hidle]
      exact .live hlive hphase hcount
    | @suspended c p h waiting hup hclosing hdraining hdone =>
      exact s.exchangeDone_related T hup hclosing hdraining hdone p h waiting
        (fun hkeep => Or.inl (ha hup hkeep)) haccepts
    | dead hdead hdead' houtbox =>
      rw [hdead.exchangeDone T]
      exact .dead hdead hdead' houtbox
  | written =>
    dsimp only
    rw [hi]
    cases h with
    | @live c p h hlive hphase hcount =>
      have hopen : ¬(c.upstream = false ∧ c.closing = true) := by simp [hlive.closing]
      have hwritten : Server.written (Server.Client.at c p none) = Server.Client.at c p none :=
        if_neg hopen
      rw [hwritten]
      exact .live hlive hphase hcount
    | @suspended c p h waiting hup hclosing hdraining hdone =>
      have hopen : ¬(c.upstream = false ∧ c.closing = true) := by simp [hclosing]
      have hwritten : Server.written ⟨⟨c, p, some .paused⟩, waiting⟩ =
          ⟨⟨c, p, some .paused⟩, waiting⟩ := if_neg hopen
      rw [hwritten]
      exact .suspended hup hclosing hdraining hdone
    | dead hdead hdead' houtbox =>
      obtain ⟨hwritten, hsame⟩ := hdead.written
      exact .dead hwritten hdead' (houtbox.trans hsame.symm)

theorem Keeps.prompt {outbox : O} {t : Heard P O} (h : Keeps s T outbox t) : t.Prompt := by
  obtain ⟨x, bytes⟩ := t
  unfold Keeps at h
  dsimp only at h
  generalize s.bytewise T (Client.fresh T.start outbox) bytes = i at h
  rintro ⟨hidle, hopen, hstaying⟩
  dsimp only at hidle hopen hstaying
  cases h with
  | live => rfl
  | suspended hup => exact absurd hup (by simpa using hidle)
  | dead hdead =>
    rcases hdead.ended with hdraining | ⟨hclosing, -⟩
    · exact absurd hdraining (by simp [hstaying])
    · exact absurd hclosing (by simp [hopen])

theorem Keeps.answers {outbox : O} {t : Heard P O} (h : Keeps s T outbox t)
    (hidle : t.client.conn.upstream = false) :
    t.client.conn.outbox = (s.bytewise T (Client.fresh T.start outbox) t.bytes).conn.outbox := by
  obtain ⟨x, bytes⟩ := t
  unfold Keeps at h
  dsimp only at h hidle ⊢
  generalize s.bytewise T (Client.fresh T.start outbox) bytes = i at h ⊢
  cases h with
  | live => rfl
  | suspended hup => exact absurd hup (by simpa using hidle)
  | dead _ _ houtbox => exact houtbox.symm

end Heard

open Heard in
/-- Along runs whose feeds are accounted for, nothing that was read waits on a live
connection, and what a connection answers is a function of the bytes it was sent: two
runs that cut one stream in their own ways answer the same. -/
theorem responses_of_stream (s : Server (List Reply)) (T : Parser P) (as bs : List Event)
    (has : Along (step s.recorded T) (Accounted s.recorded T []) (start T []) as)
    (hbs : Along (step s.recorded T) (Accounted s.recorded T []) (start T []) bs) :
    Throughout (step s.recorded T) Prompt (start T []) as ∧
      ((run (step s.recorded T) (start T []) as).bytes =
          (run (step s.recorded T) (start T []) bs).bytes →
        (run (step s.recorded T) (start T []) as).client.conn.upstream = false →
        (run (step s.recorded T) (start T []) bs).client.conn.upstream = false →
        (run (step s.recorded T) (start T []) as).client.conn.outbox =
          (run (step s.recorded T) (start T []) bs).client.conn.outbox) := by
  have haccepts : ∀ (o : List Reply) (r : Reply), ¬(s.recorded.post o r).2 < 0 := by
    intro o r
    show ¬Status.ok < 0
    decide
  have hkept : ∀ cs, Along (step s.recorded T) (Accounted s.recorded T []) (start T []) cs →
      Throughout (step s.recorded T) (Keeps s.recorded T []) (start T []) cs := by
    intro cs hcs
    exact throughout_of_along (fun _ _ h ha => keeps_step haccepts h ha) (keeps_start []) hcs
  constructor
  · exact (hkept as has).mono fun _ h => h.prompt
  · intro hbytes hidle hidle'
    rw [(hkept as has).last.answers hidle, (hkept bs hbs).last.answers hidle', hbytes]

/-! ## A request with a declared body -/

/-- A server with the smallest header ceiling a configuration may set. -/
def smallest : Server (List Reply) where
  headerMax := 4096
  bodyMax := 65536
  authType := .none
  authHeader := none
  authSecret := []
  newId n := [UInt8.ofNat n]
  errorBody _ id := id
  page _ _ := none
  generate _ _ _ := none
  exchange _ _ _ := .error .internal
  post sent _ := (sent, .ok)

def posted (length : ℕ) : Bytes :=
  ascii "POST /nope HTTP/1.1\r\nContent-Length: " ++ decimal length ++ ascii "\r\n\r\n"

def filler (length : ℕ) : Bytes := List.replicate length 120

open Heard in
/-- A short request, read at once and read with its body apart. -/
theorem responses_of_posted :
    Throughout (step smallest.recorded Reading.parser) Prompt (start Reading.parser [])
        [.read (posted 5 ++ filler 5)] ∧
      ((run (step smallest.recorded Reading.parser) (start Reading.parser [])
            [.read (posted 5 ++ filler 5)]).client.conn.outbox =
          (run (step smallest.recorded Reading.parser) (start Reading.parser [])
            [.read (posted 5), .read (filler 5)]).client.conn.outbox) := by
  have hwhole : Along (step smallest.recorded Reading.parser)
      (Accounted smallest.recorded Reading.parser []) (start Reading.parser [])
      [.read (posted 5 ++ filler 5)] := by
    refine ⟨⟨by decide, fun _ => Or.inl ?_⟩, trivial⟩
    unfold Server.Counted
    decide
  have hparts : Along (step smallest.recorded Reading.parser)
      (Accounted smallest.recorded Reading.parser []) (start Reading.parser [])
      [.read (posted 5), .read (filler 5)] := by
    refine ⟨⟨by decide, fun _ => Or.inl ?_⟩, ⟨by decide, fun _ => Or.inl ?_⟩,
      trivial⟩
    · unfold Server.Counted
      decide
    · unfold Server.Counted
      decide
  obtain ⟨hprompt, hsame⟩ :=
    responses_of_stream smallest Reading.parser _ _ hwhole hparts
  exact ⟨hprompt, hsame (by decide) (by decide) (by decide)⟩

/-- Where the parser is inside a body, by the bytes it awaits behind the next one. -/
def Parser.Inside {P : Type} (T : Parser P) (inside : ℕ → P) : Prop :=
  ∀ n b, T.next (inside (n + 1)) b = (inside n, [.span .body [b]])

namespace Server

section Inside

variable {P : Type} {T : Parser P} {inside : ℕ → P}

/-- A parser inside a body: what has come is kept, as long as there is room for it. -/
theorem play_body (hinside : T.Inside inside) (s : Server O) {c : Conn O} {n : ℕ} {d : Bytes}
    (hleft : d.length ≤ n) (hcount : c.bodyBytes + d.length ≤ s.bodyMax)
    (hroom : c.body.length + d.length ≤ s.bodyMax) :
    s.play T ⟨c, inside n, none⟩ d =
      (⟨{ c with bodyBytes := c.bodyBytes + d.length, body := c.body ++ d },
        inside (n - d.length), none⟩, none) := by
  induction d generalizing c n with
  | nil => simp [play]
  | cons b d ih =>
    rw [List.length_cons] at hleft hcount hroom
    obtain ⟨n, rfl⟩ : ∃ m, n = m + 1 := ⟨n - 1, by omega⟩
    have hbody : s.onBody c [b] =
        ({ c with bodyBytes := c.bodyBytes + 1, body := c.body ++ [b] }, none) := by
      have hsmall : ¬ s.bodyMax < c.bodyBytes + [b].length := by
        rw [List.length_singleton]
        omega
      have hfits : c.body.length + [b].length ≤ s.bodyMax := by
        rw [List.length_singleton]
        omega
      rw [onBody, if_neg hsmall, extend, if_pos hfits]
      rfl
    have hone : s.execute T ⟨c, inside (n + 1), none⟩ [b] =
        (⟨{ c with bodyBytes := c.bodyBytes + 1, body := c.body ++ [b] }, inside n, none⟩, none) := by
      have hcall : s.call c (.span .body [b]) =
          ({ c with bodyBytes := c.bodyBytes + 1, body := c.body ++ [b] }, none) := hbody
      have htrace : T.trace (inside (n + 1)) 0 [b] = [(.span .body [b], 0 + 1)] := by
        rw [Transducer.trace, hinside]
        rfl
      have hafter : T.after (inside (n + 1)) [b] = inside n := congrArg Prod.fst (hinside n b)
      rw [execute_eq_land, htrace, joined, joined, perform_cons, hcall]
      change (Reader.mk _ (T.after (inside (n + 1)) [b]) none, none) = _
      rw [hafter]
    rw [play_cons, hone]
    dsimp only
    rw [ih (by omega) (by dsimp only; omega) (by simp; omega)]
    simp [Nat.add_assoc, Nat.add_comm 1]

/-- Behind what brought it there. -/
theorem play_append_body (hinside : T.Inside inside) {s : Server O} {r : Reader P O}
    {c : Conn O} {n : ℕ} {pre d : Bytes}
    (hpre : s.play T r pre = (⟨c, inside n, none⟩, none))
    (hleft : d.length ≤ n) (hcount : c.bodyBytes + d.length ≤ s.bodyMax)
    (hroom : c.body.length + d.length ≤ s.bodyMax) :
    s.play T r (pre ++ d) =
      (⟨{ c with bodyBytes := c.bodyBytes + d.length, body := c.body ++ d },
        inside (n - d.length), none⟩, none) := by
  have hbody := play_body hinside s hleft hcount hroom
  obtain ⟨hreader, hgoes⟩ := s.play_append_none T (congrArg Prod.snd hpre) d
  rw [hpre, hbody] at hreader hgoes
  exact Prod.ext hreader (hgoes.mpr rfl)

/-- A body that ends with a byte the parser goes on after. -/
theorem play_append_whole (hinside : T.Inside inside) {s : Server O} {x : Reader P O}
    {c : Conn O} {n : ℕ} {pre : Bytes}
    (hpre : s.play T x pre = (⟨c, inside n, none⟩, none)) (hbytes : c.bodyBytes = 0)
    (hbody : c.body = []) (hroom : n ≤ s.bodyMax) {r : Reader P O}
    (hlast : s.execute T ⟨{ c with bodyBytes := n, body := filler n }, inside 0, none⟩ [120] =
      (r, none)) :
    s.play T x (pre ++ filler (n + 1)) = (r, none) := by
  have hfiller : (filler n).length = n := List.length_replicate
  have hsplit : filler (n + 1) = filler n ++ [120] := List.replicate_succ'
  have hmost := play_append_body hinside (d := filler n) hpre (by rw [hfiller])
    (by rw [hbytes, hfiller, Nat.zero_add]; exact hroom)
    (by rw [hbody, hfiller, List.length_nil, Nat.zero_add]; exact hroom)
  rw [hbytes, hbody, hfiller, List.nil_append, Nat.zero_add, Nat.sub_self] at hmost
  have hone := s.play_of_execute T hlast
  obtain ⟨hreader, hgoes⟩ := s.play_append_none T (congrArg Prod.snd hmost) [120]
  rw [hmost] at hreader hgoes
  have hnone := hgoes.mpr (congrArg Prod.snd hone)
  rw [hsplit, ← List.append_assoc]
  exact Prod.ext (hreader.trans (congrArg Prod.fst hone)) hnone

end Inside

/-- An offer that the parser reads to its end, behind the header section. -/
theorem offer_done {P : Type} {s : Server O} {T : Parser P} {x r : Reader P O} {d : Bytes} {n : ℕ}
    (h : s.execute T x (d.take n) = (r, none)) (hdone : r.conn.headersDone = true) :
    s.offer T ⟨x, d⟩ n = ⟨r, d.drop n⟩ := by
  have hcounted : countHeaderBytes r.conn n = r.conn := if_pos hdone
  have hlarge : ¬s.headersLarge r.conn = true := by simp [headersLarge, hdone]
  unfold offer
  rw [h]
  dsimp only
  rw [hcounted, if_neg hlarge]

/-- A feed behind the header section that the parser reads to its end. -/
theorem feed_rest {P : Type} {s : Server O} {T : Parser P} {c : Conn O} {p : P} {d : Bytes}
    {r : Reader P O} (hlive : Live c) (hdone : c.headersDone = true) (hd : d ≠ [])
    (h : s.execute T ⟨c, p, none⟩ d = (r, none))
    (hsmall : s.headersLarge (countHeaderBytes r.conn d.length) = false) :
    s.feed T ⟨⟨c, p, none⟩, d⟩ = ⟨{ r with conn := countHeaderBytes r.conn d.length }, []⟩ := by
  rw [s.feed_live T hlive p hd (by simp [hdone]), offered, if_pos hdone]
  unfold offer
  dsimp only
  rw [List.take_length, h]
  dsimp only
  rw [if_neg (by simp [hsmall]), List.drop_length]

end Server

/-- Where the header section leaves a connection, before a body of some length. -/
@[irreducible] def postedConn (length : ℕ) : Conn (List Reply) :=
  (smallest.recorded.execute Reading.parser ⟨Conn.fresh [], .start, none⟩ (posted length)).1.conn

theorem execute_posted :
    smallest.recorded.execute Reading.parser ⟨Conn.fresh [], .start, none⟩ (posted 4096) =
      (⟨postedConn 4096, .body 4095, none⟩, none) := by
  have hends :
      let r := smallest.recorded.execute Reading.parser
        ⟨Conn.fresh [], .start, none⟩ (posted 4096)
      r.1.parser = .body 4095 ∧ r.1.errno = none ∧ r.2 = none := by decide
  unfold postedConn
  generalize smallest.recorded.execute Reading.parser ⟨Conn.fresh [], .start, none⟩
    (posted 4096) = x at *
  obtain ⟨⟨c, p, e⟩, stop⟩ := x
  obtain ⟨rfl, rfl, rfl⟩ := hends
  rfl

open Server in
theorem postedConn_open : (postedConn 4096).bodyBytes = 0 ∧ (postedConn 4096).body = [] ∧
    (postedConn 4096).headersDone = true ∧ (postedConn 4096).outbox = [] ∧ Live (postedConn 4096) := by
  decide +kernel

theorem length_posted : (posted 4096).length = 45 := by decide

theorem posted_ne_nil : posted 4096 ≠ [] := by
  intro h
  have hlen := length_posted
  rw [h] at hlen
  cases hlen

section Posted

theorem Reading.inside_parser : Reading.parser.Inside Reading.body := fun _ _ => rfl

open Server

/-- A read of the whole request is cut by the ceiling, inside the body. -/
theorem feed_whole {c : Conn (List Reply)}
    (hhead : smallest.recorded.execute Reading.parser ⟨Conn.fresh [], .start, none⟩ (posted 4096) =
      (⟨c, .body 4095, none⟩, none))
    (hdone : c.headersDone = true)
    (hbytes : c.bodyBytes = 0) (hbody : c.body = []) :
    smallest.recorded.feed Reading.parser
        ⟨⟨Conn.fresh [], .start, none⟩, posted 4096 ++ filler 4096⟩ =
      ⟨⟨{ c with bodyBytes := 4052, body := filler 4052 }, .body 43, none⟩, filler 44⟩ := by
  have hfiller : (filler 4052).length = 4052 := List.length_replicate
  have hcut : (posted 4096 ++ filler 4096).take 4097 = posted 4096 ++ filler 4052 := by
    rw [List.take_append, length_posted, List.take_of_length_le (by rw [length_posted]; decide)]
    simp only [filler, List.take_replicate]
    norm_num
  have hrest : (posted 4096 ++ filler 4096).drop 4097 = filler 44 := by
    rw [List.drop_append, length_posted, List.drop_eq_nil_of_le (by rw [length_posted]; decide)]
    simp only [filler, List.drop_replicate, List.nil_append]
  have hplay := play_append_body Reading.inside_parser (d := filler 4052)
    (smallest.recorded.play_of_execute Reading.parser hhead) (by rw [hfiller]; decide)
    (by rw [hbytes, hfiller]; decide) (by rw [hbody, hfiller]; decide)
  have hrun := smallest.recorded.execute_of_play Reading.parser (congrArg Prod.snd hplay)
  rw [hplay, hbytes, hbody, hfiller, List.nil_append, ← hcut] at hrun
  have hoffered : smallest.recorded.offered (Conn.fresh [])
      (posted 4096 ++ filler 4096).length = 4097 := by
    rw [List.length_append, length_posted, filler, List.length_replicate]
    decide
  rw [smallest.recorded.feed_live Reading.parser ⟨rfl, rfl, rfl⟩ .start
    (List.append_ne_nil_of_left_ne_nil posted_ne_nil _) (by decide), hoffered]
  rw [offer_done hrun hdone, hrest]

/-- The header section alone is read to its end. -/
theorem feed_head {c : Conn (List Reply)}
    (hhead : smallest.recorded.execute Reading.parser ⟨Conn.fresh [], .start, none⟩ (posted 4096) =
      (⟨c, .body 4095, none⟩, none))
    (hdone : c.headersDone = true) :
    smallest.recorded.feed Reading.parser ⟨⟨Conn.fresh [], .start, none⟩, posted 4096⟩ =
      ⟨⟨c, .body 4095, none⟩, []⟩ := by
  rw [smallest.recorded.feed_live Reading.parser ⟨rfl, rfl, rfl⟩ .start posted_ne_nil (by decide),
    length_posted]
  have hwhole : (posted 4096).take (smallest.recorded.offered (Conn.fresh []) 45) = posted 4096 :=
    List.take_of_length_le (by rw [length_posted]; decide)
  rw [← hwhole] at hhead
  rw [offer_done hhead hdone, List.drop_eq_nil_of_le (by rw [length_posted]; decide)]

/-- The last byte of the body makes the request whole, and it is answered. -/
theorem execute_last :
    let r := smallest.recorded.execute Reading.parser
      ⟨{ postedConn 4096 with bodyBytes := 4095, body := filler 4095 }, .body 0, none⟩ [120]
    r.2 = none ∧ r.1.conn.outbox ≠ [] ∧ r.1.conn.upstream = false ∧
      smallest.recorded.headersLarge (countHeaderBytes r.1.conn 4096) = false := by
  decide +kernel

/-- The inbox of the smallest server has room for a read of some length. -/
theorem readable_fits {P : Type} {T : Parser P} {r : Reader P (List Reply)} {d : Bytes}
    (hopen : r.conn.draining = false) (hroom : d.length ≤ 65536) :
    smallest.recorded.readable T ⟨r, []⟩ d = smallest.recorded.feed T ⟨r, d⟩ := by
  have hfits : ([] : Bytes).length + d.length ≤
      smallest.recorded.headerMax + smallest.recorded.bodyMax + readChunk := by
    rw [List.length_nil, Nat.zero_add]
    exact hroom.trans (by decide)
  exact (if_neg (by simp [hopen])).trans (if_pos hfits)

end Posted

theorem Heard.client_read {P O : Type} (s : Server O) (T : Parser P) (t : Heard P O) (d : Bytes) :
    (step s T t (.read d)).client = s.readable T t.client d := rfl

theorem Heard.bytes_read {P O : Type} (s : Server O) (T : Parser P) (t : Heard P O) (d : Bytes) :
    (step s T t (.read d)).bytes = t.bytes ++ d := rfl

open Heard Server in
/-- A request with a body of as many bytes as the header section may have. Read at once it
is left unanswered, its last bytes on a live connection; read with its body apart it is
answered. -/
theorem body_left_unread :
    ¬(run (step smallest.recorded Reading.parser) (start Reading.parser [])
        [.read (posted 4096 ++ filler 4096)]).Prompt ∧
      (run (step smallest.recorded Reading.parser) (start Reading.parser [])
          [.read (posted 4096 ++ filler 4096)]).bytes =
        (run (step smallest.recorded Reading.parser) (start Reading.parser [])
          [.read (posted 4096), .read (filler 4096)]).bytes ∧
      (run (step smallest.recorded Reading.parser) (start Reading.parser [])
          [.read (posted 4096 ++ filler 4096)]).client.conn.outbox = [] ∧
      (run (step smallest.recorded Reading.parser) (start Reading.parser [])
          [.read (posted 4096), .read (filler 4096)]).client.conn.outbox ≠ [] ∧
      (run (step smallest.recorded Reading.parser) (start Reading.parser [])
          [.read (posted 4096), .read (filler 4096)]).client.conn.upstream = false := by
  obtain ⟨hbytes, hbody, hdone, hout, hlive⟩ := postedConn_open
  have hfiller : (filler 4096).length = 4096 := List.length_replicate
  have hnonempty : filler 4096 ≠ [] := List.ne_nil_of_length_pos (by rw [hfiller]; decide)
  have hroom : (posted 4096 ++ filler 4096).length ≤ 65536 := by
    rw [List.length_append, length_posted, hfiller]
    decide
  have hwhole : (run (step smallest.recorded Reading.parser) (start Reading.parser [])
      [.read (posted 4096 ++ filler 4096)]).client =
        ⟨⟨{ postedConn 4096 with bodyBytes := 4052, body := filler 4052 }, .body 43, none⟩,
          filler 44⟩ := by
    rw [run_cons, run_nil, client_read]
    exact (readable_fits rfl hroom).trans (feed_whole execute_posted hdone hbytes hbody)
  have hhead : (run (step smallest.recorded Reading.parser) (start Reading.parser [])
      [.read (posted 4096)]).client = ⟨⟨postedConn 4096, .body 4095, none⟩, []⟩ := by
    have hshort : (posted 4096).length ≤ 65536 := length_posted.le.trans (by decide)
    rw [run_cons, run_nil, client_read]
    exact (readable_fits rfl hshort).trans (feed_head execute_posted hdone)
  obtain ⟨hgoes, hanswered, hidle, hsmall⟩ := execute_last
  generalize hlast : smallest.recorded.execute Reading.parser
    ⟨{ postedConn 4096 with bodyBytes := 4095, body := filler 4095 }, .body 0, none⟩ [120] = x at *
  obtain ⟨r, stop⟩ := x
  obtain rfl : stop = none := hgoes
  have hopen : smallest.recorded.play Reading.parser ⟨postedConn 4096, .body 4095, none⟩ [] =
      (⟨postedConn 4096, .body 4095, none⟩, none) := rfl
  have hplay := play_append_whole Reading.inside_parser hopen hbytes hbody (by decide) hlast
  have hrest := (smallest.recorded.execute_of_play Reading.parser
    (congrArg Prod.snd hplay)).trans hplay
  have hparts : (run (step smallest.recorded Reading.parser) (start Reading.parser [])
      [.read (posted 4096), .read (filler 4096)]).client =
        ⟨{ r with conn := countHeaderBytes r.conn (filler 4096).length }, []⟩ := by
    rw [run_cons, run_nil] at hhead
    rw [run_cons, run_cons, run_nil, client_read, hhead]
    exact (readable_fits hlive.draining (hfiller.le.trans (by decide))).trans
      (feed_rest hlive hdone hnonempty hrest (hfiller.symm ▸ hsmall))
  have hkept (n : ℕ) : (countHeaderBytes r.conn n).outbox = r.conn.outbox ∧
      (countHeaderBytes r.conn n).upstream = r.conn.upstream := by
    unfold countHeaderBytes
    split_ifs <;> exact ⟨rfl, rfl⟩
  refine ⟨?_, ?_, ?_, ?_, ?_⟩
  · unfold Prompt
    rw [hwhole]
    intro h
    cases h ⟨hlive.upstream, hlive.closing, hlive.draining⟩
  · rw [run_cons, run_nil, bytes_read, run_cons, run_cons, run_nil, bytes_read, bytes_read,
      List.append_assoc]
  · rw [hwhole]
    exact hout
  · rw [hparts]
    exact (hkept _).1 ▸ hanswered
  · rw [hparts]
    exact (hkept _).2.trans hidle

end AsmFlow.Http
