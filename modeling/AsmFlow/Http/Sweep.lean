import AsmFlow.Http.Fragments
import AsmFlow.Http.Requests
import AsmFlow.Http.Shutdown

/-!
# The idle sweep

A connection past its timeout is told so if it is in the middle of a request.
Whether it is, the sweep infers from the count of header bytes and from whether
the end of the message has been heard; the two say so as long as no feed answers
a request at once and goes on behind it, and none brings a whole header section
without the end of its request.
-/

namespace AsmFlow.Http

open Library Conn Providers

variable {P O : Type}

namespace Server

variable (s : Server O) (T : Parser P)

/-- Bytes of a request that is not complete were received: the parser is inside it, or what
waits for the parser begins it. -/
def Unfinished (x : Client P O) : Prop :=
  ∃ k, T.phase (T.after x.parser (x.inbox.take k)) ≠ .idle

/-- The bytes a feed offers to the parser. -/
def fedBytes (x : Client P O) : Bytes := x.inbox.take (s.offered x.conn x.inbox.length)

/-- The parser goes on behind the feed of a live connection. -/
def GoesOn (x : Client P O) : Prop :=
  x.conn.upstream = false ∧ x.conn.closing = false ∧ x.conn.draining = false ∧ x.inbox ≠ [] ∧
    (s.execute T x.toReader (s.fedBytes x)).2 = none

/-- A feed that goes on ends inside a header section; or it begins no request, and ends
inside a body or behind a request that was answered by an exchange. -/
def Grouped (x : Client P O) : Prop :=
  s.GoesOn T x →
    T.phase (T.after x.parser (s.fedBytes x)) = .head ∨
      (Unbegun T x.parser (s.fedBytes x) ∧
        (T.phase (T.after x.parser (s.fedBytes x)) = .idle → x.conn.messageDone = true))

instance (x : Client P O) : Decidable (s.GoesOn T x) :=
  inferInstanceAs (Decidable (_ ∧ _ ∧ _ ∧ _ ∧ _))

instance (x : Client P O) : Decidable (s.Grouped T x) :=
  inferInstanceAs (Decidable (_ → _ ∨ (_ ∧ (_ → _))))

/-- A live connection whose count and flags say where its parser is. -/
structure Ready (x : Client P O) : Prop where
  live : Live x.conn
  errno : x.errno = none
  inPhase : x.conn.InPhase (T.phase x.parser)
  counted : T.phase x.parser ≠ .idle → x.conn.headerBytes ≠ 0
  between : T.phase x.parser = .idle →
    (x.conn.messageDone = true ∧ x.conn.headersDone = true) ∨
      (x.conn.messageDone = false ∧ x.conn.headerBytes = 0)

/-- Nothing waits for the parser of a live connection that is between two requests. -/
structure Settled (x : Client P O) : Prop extends Ready T x where
  read : T.phase x.parser = .idle → x.inbox = []

/-- A connection that waits for its exchange. -/
structure Suspended (x : Client P O) : Prop where
  upstream : x.conn.upstream = true
  draining : x.conn.draining = false
  errno : x.errno = some .paused
  messageDone : x.conn.messageDone = true
  headersDone : x.conn.headersDone = true
  idle : T.phase x.parser = .idle

variable {s T} {x : Client P O}

/-- The count and the flags tell whether a request is unfinished. -/
theorem Settled.unfinished_iff (h : Settled T x) :
    Unfinished T x ↔ x.conn.headerBytes ≠ 0 ∧ x.conn.messageDone = false := by
  by_cases hph : T.phase x.parser = .idle
  · have hinbox := h.read hph
    constructor
    · rintro ⟨k, hk⟩
      rw [hinbox, List.take_nil] at hk
      exact absurd hph hk
    · rintro ⟨hcount, hdone⟩
      rcases h.between hph with ⟨hdone', -⟩ | ⟨-, hzero⟩
      · rw [hdone] at hdone'
        cases hdone'
      · exact absurd hzero hcount
  · exact iff_of_true ⟨0, hph⟩ ⟨h.counted hph, h.inPhase.unfinished hph⟩

/-- Behind a header section the count stands still. -/
theorem countHeaderBytes_done {c : Conn O} (h : c.headersDone = true) (n : ℕ) :
    countHeaderBytes c n = c := if_pos h

theorem offered_pos (c : Conn O) {n : ℕ} (h : 0 < n) : 0 < s.offered c n := by
  unfold offered
  split_ifs
  · exact h
  · omega

/-- A feed after which the parser goes on, and which is not too large. -/
theorem settled_of_goesOn (h : Ready T x) (hinbox : x.inbox ≠ [])
    (hgo : (s.execute T x.toReader (s.fedBytes x)).2 = none)
    (hgrouped : T.phase (T.after x.parser (s.fedBytes x)) = .head ∨
      (Unbegun T x.parser (s.fedBytes x) ∧
        (T.phase (T.after x.parser (s.fedBytes x)) = .idle → x.conn.messageDone = true))) :
    Settled T ⟨⟨countHeaderBytes (s.execute T x.toReader (s.fedBytes x)).1.conn
        (s.offered x.conn x.inbox.length), T.after x.parser (s.fedBytes x), none⟩,
      x.inbox.drop (s.offered x.conn x.inbox.length)⟩ := by
  obtain ⟨⟨c, p, errno⟩, inbox⟩ := x
  obtain rfl : errno = none := h.errno
  dsimp only at hgo hgrouped hinbox ⊢
  have hleft := s.execute_left T h.live p (s.fedBytes ⟨⟨c, p, none⟩, inbox⟩)
  rw [hgo] at hleft
  obtain ⟨hphase, hkept, hsame⟩ := execute_ready (s := s) h.inPhase hgo
  have hpos : 0 < s.offered c inbox.length := offered_pos c (List.length_pos_iff.mpr hinbox)
  generalize hexec : (s.execute T ⟨c, p, none⟩ (s.fedBytes ⟨⟨c, p, none⟩, inbox⟩)).1.conn = d
    at hleft hphase hkept hsame ⊢
  generalize hparser : T.after p (s.fedBytes ⟨⟨c, p, none⟩, inbox⟩) = q
    at hphase hkept hgrouped ⊢
  have hunbegun (hq : T.phase q ≠ .head) : Unbegun T p (s.fedBytes ⟨⟨c, p, none⟩, inbox⟩) ∧
      (T.phase q = .idle → c.messageDone = true) := hgrouped.resolve_left hq
  cases hq : T.phase q with
  | head =>
    have hcounts : countHeaderBytes d (s.offered c inbox.length) =
        { d with headerBytes := d.headerBytes + s.offered c inbox.length } := by
      unfold countHeaderBytes
      rw [hphase.head hq]
      rfl
    have hsome : d.headerBytes + s.offered c inbox.length ≠ 0 := by omega
    have hnot {α : Prop} (hidle : T.phase q = .idle) : α := by
      rw [hq] at hidle
      cases hidle
    rw [hcounts]
    exact ⟨⟨⟨hleft.upstream, hleft.closing, hleft.draining⟩, rfl,
      ⟨hphase.head, hphase.body, hphase.unfinished⟩, fun _ => hsome, hnot⟩, hnot⟩
  | body =>
    obtain ⟨hun, -⟩ := hunbegun (by rw [hq]; decide)
    have hnot {α : Prop} (hidle : T.phase q = .idle) : α := by
      rw [hq] at hidle
      cases hidle
    have hinside : T.phase p ≠ .idle := by
      intro hidle
      have hstays := hun.idle hidle
      rw [hparser] at hstays
      exact hnot hstays
    have hcount := hkept hun (fun hidle => hnot hidle)
    rw [countHeaderBytes_done (hphase.body hq)]
    exact ⟨⟨hleft, rfl, hphase, fun _ => hcount ▸ h.counted hinside, hnot⟩, hnot⟩
  | idle =>
    obtain ⟨hun, hdone⟩ := hunbegun (by rw [hq]; decide)
    have hbetween : T.phase p = .idle := by
      by_contra hinside
      have hopen := h.inPhase.unfinished hinside
      rw [show c.messageDone = true from hdone hq] at hopen
      cases hopen
    obtain rfl := hsame hun hbetween
    have hheaders : d.headersDone = true := by
      rcases h.between hbetween with ⟨-, hheaders⟩ | ⟨hopen, -⟩
      · exact hheaders
      · rw [show d.messageDone = true from hdone hq] at hopen
        cases hopen
    have hall : s.offered d inbox.length = inbox.length := if_pos hheaders
    rw [countHeaderBytes_done hheaders, hall, List.drop_length]
    exact ⟨⟨hleft, rfl, hphase, fun hinside => absurd hq hinside,
      fun _ => Or.inl ⟨hdone hq, hheaders⟩⟩, fun _ => rfl⟩

/-- A feed of a live connection ends it, suspends it, or leaves count and flags as its parser
is. -/
theorem feed_ready (hT : T.Separates) (h : Ready T x) (hgrouped : s.Grouped T x) :
    (s.feed T x).conn.closing = true ∨ Suspended T (s.feed T x) ∨ Settled T (s.feed T x) := by
  have hup : ¬x.conn.upstream = true := by simp [h.live.upstream]
  unfold feed
  rw [if_neg hup]
  split_ifs with hempty hfull
  · exact Or.inr (Or.inr ⟨h, fun _ => hempty⟩)
  · exact Or.inl rfl
  · have hordered := s.execute_ordered T h.live x.parser h.inPhase.body (s.fedBytes x)
    have hleft := s.execute_left T h.live x.parser (s.fedBytes x)
    obtain ⟨-, -, herrno⟩ := s.execute_of_land T x.conn x.parser (s.fedBytes x)
    have hself : x.toReader = ⟨x.conn, x.parser, none⟩ := by
      rw [← h.errno]
    rw [← hself] at hordered hleft herrno
    cases hstop : (s.execute T x.toReader (s.fedBytes x)).2 with
    | none =>
      have hgoes : s.execute T x.toReader (s.fedBytes x) =
          (⟨(s.execute T x.toReader (s.fedBytes x)).1.conn, T.after x.parser (s.fedBytes x), none⟩,
            none) := by
        rw [hself] at hstop ⊢
        exact s.execute_goes T x.conn x.parser (s.fedBytes x) hstop
      have hsettled := settled_of_goesOn h hempty hstop
        (hgrouped ⟨h.live.upstream, h.live.closing, h.live.draining, hempty, hstop⟩)
      generalize hconn : (s.execute T x.toReader (s.fedBytes x)).1.conn = d at hgoes hsettled
      unfold offer
      rw [show s.execute T x.toReader (x.inbox.take _) = _ from hgoes]
      dsimp only
      split_ifs
      · exact Or.inl rfl
      · exact Or.inr (Or.inr hsettled)
    | some stop =>
      obtain ⟨e, consumed⟩ := stop
      rw [hstop] at hordered hleft herrno
      generalize hexec : s.execute T x.toReader (s.fedBytes x) = r at hstop hordered hleft herrno
      obtain ⟨r, _⟩ := r
      obtain rfl : _ = some (e, consumed) := hstop
      unfold offer
      rw [show s.execute T x.toReader (x.inbox.take _) = _ from hexec]
      dsimp only at hordered hleft herrno ⊢
      unfold stopped
      dsimp only
      split_ifs with hpaused hended
      · subst hpaused
        obtain ⟨hdone, hidle⟩ := execute_suspended (s := s) (c := x.conn) (p := x.parser)
          (d := s.fedBytes x) hT (n := consumed) (by rw [← hself, hexec])
        rw [← hself, hexec] at hdone hidle
        rw [countHeaderBytes_done hordered]
        exact Or.inr (Or.inl ⟨hleft.1, hleft.2.2, herrno, hdone, hordered, hidle⟩)
      · exact Or.inl hended
      · exact Or.inl rfl

/-- A connection whose exchange has answered, before it is fed again. -/
theorem Suspended.ready {y : Client P O} (h : Suspended T x)
    (hconn : Answers x.conn y.conn) (hup : y.conn.upstream = false)
    (hopen : x.conn.closing = false) (hparser : y.parser = x.parser) (herrno : y.errno = none) :
    Ready T y := by
  have hdone : y.conn.messageDone = true := (congrArg Conn.messageDone hconn :).trans h.messageDone
  have hheaders : y.conn.headersDone = true :=
    (congrArg Conn.headersDone hconn :).trans h.headersDone
  have hidle : T.phase y.parser = .idle := hparser ▸ h.idle
  have hnot {α : Prop} {ph : Phase} (hne : ph ≠ .idle) (hph : T.phase y.parser = ph) : α :=
    absurd (hph.symm.trans hidle) hne
  refine ⟨⟨hup, (congrArg Conn.closing hconn :).trans hopen,
    (congrArg Conn.draining hconn :).trans h.draining⟩, herrno, ⟨?_, ?_, ?_⟩, ?_, ?_⟩
  · exact hnot (by decide)
  · exact hnot (by decide)
  · exact fun hne => absurd hidle hne
  · exact fun hne => absurd hidle hne
  · exact fun _ => Or.inl ⟨hdone, hheaders⟩

variable (T) in
/-- A connection that ends, or that the sweep may be asked about. -/
def Kept (x : Client P O) : Prop :=
  x.conn.closing = true ∨ (x.conn.draining = true ∧ x.conn.upstream = false) ∨
    Suspended T x ∨ Settled T x

theorem Kept.settled (h : Kept T x) (hlive : Live x.conn) : Settled T x := by
  rcases h with hclosing | ⟨hdraining, -⟩ | hsuspended | hsettled
  · exact absurd hclosing (by simp [hlive.closing])
  · exact absurd hdraining (by simp [hlive.draining])
  · exact absurd hsuspended.upstream (by simp [hlive.upstream])
  · exact hsettled

/-- What an answer changes does not matter to the sweep, unless the exchange ends. -/
theorem Kept.answered {y : Client P O} (h : Kept T x) (hconn : Answers x.conn y.conn)
    (hup : y.conn.upstream = x.conn.upstream) (hparser : y.parser = x.parser)
    (herrno : y.errno = x.errno) (hinbox : y.inbox = x.inbox) : Kept T y := by
  obtain ⟨⟨d, p, e⟩, i⟩ := y
  obtain rfl : p = x.parser := hparser
  obtain rfl : e = x.errno := herrno
  obtain rfl : i = x.inbox := hinbox
  have hclosing : d.closing = x.conn.closing := (congrArg Conn.closing hconn :)
  have hdraining : d.draining = x.conn.draining := (congrArg Conn.draining hconn :)
  have hdone : d.messageDone = x.conn.messageDone := (congrArg Conn.messageDone hconn :)
  have hheaders : d.headersDone = x.conn.headersDone := (congrArg Conn.headersDone hconn :)
  have hcount : d.headerBytes = x.conn.headerBytes := (congrArg Conn.headerBytes hconn :)
  have hupstream : d.upstream = x.conn.upstream := hup
  rcases h with hended | ⟨hdrains, hidle⟩ | hsuspended | hsettled
  · exact Or.inl (hclosing.trans hended)
  · exact Or.inr (Or.inl ⟨hdraining.trans hdrains, hupstream.trans hidle⟩)
  · refine Or.inr (Or.inr (Or.inl ⟨hupstream.trans hsuspended.upstream,
      hdraining.trans hsuspended.draining, hsuspended.errno, hdone.trans hsuspended.messageDone,
      hheaders.trans hsuspended.headersDone, hsuspended.idle⟩))
  · refine Or.inr (Or.inr (Or.inr ⟨⟨⟨hupstream.trans hsettled.live.upstream,
      hclosing.trans hsettled.live.closing, hdraining.trans hsettled.live.draining⟩,
      hsettled.errno, ⟨?_, ?_, ?_⟩, ?_, ?_⟩, hsettled.read⟩))
    · exact fun hph => hheaders.trans (hsettled.inPhase.head hph)
    · exact fun hph => hheaders.trans (hsettled.inPhase.body hph)
    · exact fun hph => hdone.trans (hsettled.inPhase.unfinished hph)
    · exact fun hph => hcount.symm ▸ hsettled.counted hph
    · exact fun hph => (hsettled.between hph).imp
        (fun h => ⟨hdone.trans h.1, hheaders.trans h.2⟩)
        (fun h => ⟨hdone.trans h.1, hcount.trans h.2⟩)

/-- A read, and the feed behind it. -/
theorem Kept.read (hT : T.Separates) (h : Kept T x) (hopen : x.conn.draining = false) (d : Bytes)
    (hgrouped : s.Grouped T { x with inbox := x.inbox ++ d }) :
    Kept T (s.feed T { x with inbox := x.inbox ++ d }) := by
  rcases h with hended | ⟨hdrains, -⟩ | hsuspended | hsettled
  · exact Or.inl (feed_closing hended)
  · exact absurd hdrains (by simp [hopen])
  · have hwaits : s.feed T { x with inbox := x.inbox ++ d } = { x with inbox := x.inbox ++ d } :=
      if_pos hsuspended.upstream
    rw [hwaits]
    exact Or.inr (Or.inr (Or.inl ⟨hsuspended.upstream, hsuspended.draining, hsuspended.errno,
      hsuspended.messageDone, hsuspended.headersDone, hsuspended.idle⟩))
  · have hready : Ready T { x with inbox := x.inbox ++ d } :=
      ⟨hsettled.live, hsettled.errno, hsettled.inPhase, hsettled.counted, hsettled.between⟩
    rcases feed_ready hT hready hgrouped with hended | hwaits | hleft
    · exact Or.inl hended
    · exact Or.inr (Or.inr (Or.inl hwaits))
    · exact Or.inr (Or.inr (Or.inr hleft))

end Server

/-! ## The events of a connection -/

/-- A feed of the event that is to be grouped is. -/
def Act.Grouped (s : Server Outbox) (T : Parser P) : Act P → Prop
  | .fed x => s.Grouped T x.client
  | _ => True

instance (s : Server Outbox) (T : Parser P) (a : Act P) : Decidable (a.Grouped s T) :=
  match a with
  | .fed x => inferInstanceAs (Decidable (s.Grouped T x.client))
  | .flushed _ _ => isTrue trivial
  | .shut _ => isTrue trivial
  | .released _ => isTrue trivial
  | .accepted => isTrue trivial

def Slot.Kept (T : Parser P) (x : Slot P) : Prop := Server.Kept T x.client

/-- What is left of a connection whose feeds are grouped. -/
def Done.Keeps (s : Server Outbox) (T : Parser P) (d : Done P) : Prop :=
  (∀ a ∈ d.acts, a.Grouped s T) → ∀ y, d.slot = some y → y.Kept T

namespace Done

variable {s : Server Outbox} {T : Parser P}

theorem keeps_keep {x : Slot P} (h : x.Kept T) : (keep x).Keeps s T := by
  intro _ y hy
  obtain rfl := Option.some.inj hy
  exact h

theorem keeps_release (x : Slot P) : (release x).Keeps s T := by
  intro _ y hy
  cases hy

theorem Keeps.after {d : Done P} {a : Act P} (h : a.Grouped s T → d.Keeps s T) :
    (d.after a).Keeps s T := by
  intro hacts
  obtain ⟨ha, hrest⟩ := List.forall_mem_cons.mp hacts
  exact h ha hrest

end Done

namespace Slot

variable {s : Server Outbox} {T : Parser P} {x : Slot P}

theorem Kept.of_closing (h : x.conn.closing = true) : x.Kept T := Or.inl h

theorem Kept.of_client {o : Outbox} (h : x.Kept T) {y : Slot P}
    (hy : y.client = (x.withOutbox o).client) : y.Kept T := by
  unfold Slot.Kept
  rw [hy]
  exact Server.Kept.answered h rfl rfl rfl rfl rfl

theorem keeps_flushing (h : x.Kept T) (w : Writes) {k : Slot P → Bool → Done P}
    (hk : ∀ y ok, y.Kept T → (k y ok).Keeps s T) : (x.flushing w k).Keeps s T := by
  obtain ⟨o, ho⟩ := x.flush_client w
  exact Done.Keeps.after fun _ => hk _ _ (h.of_client ho)

/-- A closing connection stays one through a flush. -/
theorem keeps_flushing_closing (h : x.conn.closing = true) (w : Writes)
    {k : Slot P → Bool → Done P} (hk : ∀ y ok, y.conn.closing = true → (k y ok).Keeps s T) :
    (x.flushing w k).Keeps s T := by
  obtain ⟨o, ho⟩ := x.flush_conn w
  exact Done.Keeps.after fun _ => hk _ _ ((congrArg Conn.closing ho :).trans h)

theorem keeps_beginDrain (hup : x.conn.upstream = false) (shutOk closes : Bool) :
    (x.beginDrain shutOk closes).Keeps s T := by
  have hdrains : (x.withConn { x.conn with draining := true }).Kept T := Or.inr (Or.inl ⟨rfl, hup⟩)
  unfold beginDrain
  dsimp only
  split_ifs with hdraining
  · exact Done.keeps_keep (Or.inr (Or.inl ⟨hdraining, hup⟩))
  · exact Done.Keeps.after fun _ => Done.keeps_keep hdrains
  · exact Done.Keeps.after fun _ => Done.keeps_release _
  · exact Done.Keeps.after fun _ => Done.keeps_keep hdrains

theorem keeps_maybeClose (h : x.Kept T) (shutting shutOk : Bool) :
    (x.maybeClose shutting shutOk).Keeps s T := by
  unfold maybeClose
  split_ifs with hup
  · exact Done.keeps_keep h
  · exact Done.keeps_keep h
  · exact Done.keeps_keep h
  · exact Done.keeps_release x
  · exact keeps_beginDrain (Bool.not_eq_true _ ▸ hup) shutOk true

theorem keeps_drainThenClose (x : Slot P) (shutting : Bool) (e : ConnEvent) :
    (x.drainThenClose shutting e).Keeps s T := by
  unfold drainThenClose
  split_ifs
  · exact Done.keeps_release x
  · exact keeps_flushing_closing (x := x.close) rfl e.third fun y _ hy =>
      keeps_maybeClose (Kept.of_closing hy) shutting e.shutOk

theorem keeps_readEnded (x : Slot P) (e : ConnEvent) : (x.readEnded s T e).Keeps s T := by
  unfold readEnded
  split_ifs
  · exact Done.keeps_release x
  · have hclosing : ({ x.close with client := s.feed T x.close.client } : Slot P).conn.closing =
        true := Server.feed_closing rfl
    exact Done.Keeps.after fun _ => keeps_flushing_closing hclosing e.second fun y _ _ =>
      y.keeps_drainThenClose false e

theorem keeps_reading (hT : T.Separates) (h : x.Kept T) (e : ConnEvent) :
    (x.reading s T e).Keeps s T := by
  unfold reading
  split_ifs with hdraining
  · cases e.read with
    | got d => exact Done.keeps_keep h
    | again => exact Done.keeps_keep h
    | ended => exact Done.keeps_release x
  · cases e.read with
    | again => exact keeps_maybeClose h false e.shutOk
    | ended => exact x.keeps_readEnded e
    | got d =>
      dsimp only
      cases hreceived : x.received s d with
      | none => exact keeps_readEnded _ e
      | some y =>
        unfold received at hreceived
        split_ifs at hreceived
        obtain rfl := Option.some.inj hreceived
        refine Done.Keeps.after fun hgrouped => ?_
        have hfed := Server.Kept.read hT h (Bool.not_eq_true _ ▸ hdraining) d hgrouped
        refine keeps_flushing ?_ e.second fun z ok hz => ?_
        · exact hfed
        · cases ok with
          | true => exact keeps_maybeClose hz false e.shutOk
          | false => exact Done.keeps_release z

theorem keeps_onConn (hT : T.Separates) (h : x.Kept T) (shutting : Bool) (e : ConnEvent) :
    (x.onConn s T shutting e).Keeps s T := by
  have hevents : ∀ y : Slot P, y.Kept T → (y.onEvents s T shutting e).Keeps s T := by
    intro y hy
    have hclosed : y.close.Kept T := Or.inl rfl
    unfold onEvents graceful
    split_ifs
    · exact y.close.keeps_drainThenClose true e
    · exact Done.keeps_keep hclosed
    · exact Done.keeps_keep hclosed
    · exact Done.keeps_release _
    · exact keeps_reading hT hy e
    · exact y.keeps_drainThenClose false e
    · exact keeps_maybeClose hy false e.shutOk
  unfold onConn
  split_ifs
  · refine keeps_flushing h e.first fun y ok hy => ?_
    cases ok with
    | true => exact hevents y hy
    | false => exact Done.keeps_release y
  · exact hevents x h

theorem keeps_streamHead (h : x.Kept T) (alloc : ℕ → Bool) (status : ℕ) (w : Writes) :
    (x.streamHead alloc status w).Keeps s T := by
  unfold streamHead
  dsimp only
  split_ifs
  · exact Done.keeps_keep h
  · exact Done.keeps_keep (h.of_client rfl)
  · have hresponded : (x.withConn { x.conn with
        outbox := (x.conn.outbox.writeHead alloc status 0 (some x.conn.requestId) true
          { HeadFlags.none with sse := true, chunked := true, noStore := true }).1
        responded := true }).Kept T := Server.Kept.answered h rfl rfl rfl rfl rfl
    exact keeps_flushing hresponded w fun y _ hy => Done.keeps_keep hy

theorem keeps_streamWrite (h : x.Kept T) (pieces : List Piece) :
    (x.streamWrite pieces).Keeps s T := by
  unfold streamWrite
  split_ifs
  · exact Done.keeps_keep h
  · apply Done.keeps_keep
    unfold onWrite
    split_ifs
    · exact h
    · obtain ⟨o, ho⟩ := x.emitAll_client pieces
      exact h.of_client ho

theorem keeps_sweep (h : x.Kept T) (w : Writes) : (x.sweep s w).Keeps s T := by
  unfold sweep
  split_ifs
  · exact Done.keeps_keep h
  · exact keeps_flushing_closing rfl w fun y _ _ => Done.keeps_release y
  · exact Done.keeps_release x

theorem keeps_stopped (x : Slot P) : x.stopped.Keeps s T := by
  unfold stopped
  split_ifs
  · exact Done.keeps_keep (Or.inl rfl)
  · exact Done.keeps_keep (Or.inl rfl)
  · exact Done.keeps_release _

/-- The last bytes of an exchange answer, and change nothing else. -/
theorem ended_answers (alloc : ℕ → Bool) (x : Slot P) (ending : Ending) :
    Answers x.conn (x.ended s alloc ending).conn ∧
      (x.ended s alloc ending).client =
        { x.client with conn := (x.ended s alloc ending).conn } := by
  cases ending with
  | answered a =>
    cases a with
    | response status flags body =>
      have hbody : Answers x.conn { x.conn with response := body } := rfl
      exact ⟨hbody.trans (commit_answers _ _ _ _), rfl⟩
    | error id => exact ⟨s.sendError_answers x.conn id, rfl⟩
  | streamed last =>
    obtain ⟨o, ho⟩ := x.emitAll_client last
    unfold ended
    dsimp only
    have hconn : (x.emitAll last).1.conn = { x.conn with outbox := o } :=
      congrArg (fun y : Client P Outbox => y.conn) ho
    constructor
    · rw [withOutbox, conn_withConn, hconn]
      exact rfl
    · rw [withOutbox, withConn, conn, ho]
      rfl

/-- A connection that goes on once its exchange is detached. -/
theorem keeps_resume (hT : T.Separates) (hup : x.conn.upstream = false)
    (h : x.conn.closing = true ∨
      Server.Ready T { x.client with toReader := Server.resume x.client.toReader })
    (shutting : Bool) (w : Writes) (shutOk : Bool) :
    (x.resume s T shutting w shutOk).Keeps s T := by
  unfold resume
  rw [hup, if_neg Bool.false_ne_true]
  dsimp only
  split_ifs
  · refine keeps_flushing_closing rfl w fun v ok hv => ?_
    split_ifs
    · exact Done.keeps_release v
    · exact Done.keeps_keep (Kept.of_closing hv)
    · exact Done.keeps_release v
  · refine keeps_beginDrain ?_ shutOk false
    exact hup
  · refine Done.Keeps.after fun hgrouped => keeps_flushing ?_ w fun v _ hv => Done.keeps_keep hv
    rcases h with hclosing | hready
    · exact Or.inl (Server.feed_closing hclosing)
    · rcases Server.feed_ready hT hready hgrouped with hended | hwaits | hleft
      · exact Or.inl hended
      · exact Or.inr (Or.inr (Or.inl hwaits))
      · exact Or.inr (Or.inr (Or.inr hleft))

/-- The end of an exchange, and the feed behind it. -/
theorem keeps_finish (hT : T.Separates) (h : x.Kept T) (alloc : ℕ → Bool) (shutting : Bool)
    (ending : Ending) (sys : List SysWrite) (w : Writes) (shutOk : Bool) :
    (x.finish s T alloc shutting ending sys w shutOk).Keeps s T := by
  unfold finish
  split_ifs with hup
  · exact Done.keeps_keep h
  · obtain ⟨hanswers, hclient⟩ := x.ended_answers (s := s) alloc ending
    generalize x.ended s alloc ending = y at hanswers hclient
    refine Done.Keeps.after fun _ => ?_
    obtain ⟨o, ho⟩ := y.flush_client ⟨sys, []⟩
    generalize (y.flush ⟨sys, []⟩).1 = z at ho
    have hz : z.detached.client =
        { x.client with conn := { y.conn with outbox := o, upstream := false } } := by
      have hconn : z.conn = { y.conn with outbox := o } :=
        congrArg (fun v : Client P Outbox => v.conn) ho
      rw [detached, withConn, hconn, ho, withOutbox, withConn, hclient]
    have hdetached : Answers x.conn z.detached.conn := by
      have hconn := congrArg (fun v : Client P Outbox => v.conn) hz
      rw [show z.detached.conn = _ from hconn]
      exact hanswers.trans rfl
    refine keeps_resume hT rfl ?_ shutting w shutOk
    rcases h with hclosing | ⟨-, hidle⟩ | hsuspended | hsettled
    · exact Or.inl ((congrArg Conn.closing hdetached :).trans hclosing)
    · exact absurd hidle hup
    · cases hclosing : x.conn.closing with
      | true => exact Or.inl ((congrArg Conn.closing hdetached :).trans hclosing)
      | false =>
        have hparser := congrArg (fun v : Client P Outbox => v.parser) hz
        have herrno := congrArg (fun v : Client P Outbox => v.errno) hz
        refine Or.inr (hsuspended.ready (hdetached.trans rfl) rfl hclosing hparser ?_)
        show Server.resumeErrno z.detached.client.errno = none
        rw [show z.detached.client.errno = _ from herrno.trans hsuspended.errno]
        rfl
    · exact absurd hsettled.live.upstream hup

/-- The response to a request that timed out, and the release behind it. -/
def timedOut (s : Server Outbox) (x : Slot P) (w : Writes) : Done P :=
  (x.withConn (s.sendError x.conn .requestTimeout).1).close.flushing w fun y _ => .release y

/-- The sweep tells of the timeout where a request is unfinished, and otherwise closes the
connection without a word. -/
def SweptExactly (s : Server Outbox) (T : Parser P) (x : Slot P) : Prop :=
  ∀ w, (Server.Unfinished T x.client → x.sweep s w = x.timedOut s w) ∧
    (¬Server.Unfinished T x.client → x.sweep s w = .release x)

theorem Kept.sweptExactly (h : x.Kept T) (hlive : Server.Live x.conn) : x.SweptExactly s T := by
  intro w
  have hiff := (Server.Kept.settled h hlive).unfinished_iff
  have hup : ¬x.conn.upstream = true := by simp [hlive.upstream]
  unfold sweep
  rw [if_neg hup]
  constructor
  · intro hunfinished
    exact if_pos ⟨hlive.closing, hiff.mp hunfinished⟩
  · intro hfinished
    exact if_neg fun hsays => hfinished (hiff.mpr hsays.2)

end Slot

/-! ## Runs -/

namespace Daemon

variable (s : Server Outbox) (T : Parser P)

/-- Whenever the sweep finds a connection that is neither suspended nor ending, it is right
about it. -/
def SweptExactly (d : Daemon P) : Prop :=
  ∀ i x, d.slots i = some x → Server.Live x.conn →
    ∀ alloc, x.SweptExactly { s with post := Outbox.post alloc } T

/-- Every feed of the event is grouped. -/
def Grouped (d : Daemon P) (a : Occurrence) : Prop :=
  ∀ act ∈ (d.react s T a.1 a.2).2, act.Grouped { s with post := Outbox.post a.1 } T

instance (d : Daemon P) (a : Occurrence) : Decidable (d.Grouped s T a) :=
  inferInstanceAs (Decidable (∀ act ∈ _, _))

def Kept (d : Daemon P) : Prop := ∀ i x, d.slots i = some x → x.Kept T

variable {s T} {d : Daemon P}

theorem kept_onSlot (h : d.Kept T) (i : Fin clientsMax) {f : Slot P → Done P} {u : Server Outbox}
    (hf : ∀ x, x.Kept T → (f x).Keeps u T)
    (hgrouped : ∀ act ∈ (d.onSlot i f).2, act.Grouped u T) : (d.onSlot i f).1.Kept T := by
  cases hslot : d.slots i with
  | none =>
    have hnothing : d.onSlot i f = (d, []) := by
      unfold onSlot
      rw [hslot]
    rw [hnothing]
    exact h
  | some x =>
    obtain ⟨hself, hacts⟩ := onSlot_of_some hslot f
    rw [hacts] at hgrouped
    intro j y hy
    by_cases hj : j = i
    · rw [hj, hself] at hy
      exact hf x (h i x hslot) hgrouped y hy
    · rw [onSlot_of_ne d hj] at hy
      exact h j y hy

theorem kept_step (hT : T.Separates) (h : d.Kept T) (a : Occurrence) (hgrouped : d.Grouped s T a) :
    (d.step s T a).Kept T := by
  obtain ⟨alloc, ev⟩ := a
  unfold Grouped at hgrouped
  unfold step
  dsimp only at hgrouped ⊢
  unfold react at hgrouped ⊢
  cases ev with
  | accept =>
    dsimp only
    split_ifs
    · cases d.freeSlot with
      | none => exact h
      | some i =>
        intro j y hy
        change Function.update d.slots i (some (accepted T)) j = some y at hy
        by_cases hj : j = i
        · rw [hj, Function.update_self] at hy
          obtain rfl := Option.some.inj hy
          have hidle {α : Prop} {ph : Phase} (hne : ph ≠ .idle) (hph : T.phase T.start = ph) : α :=
            absurd (hph.symm.trans T.start_idle) hne
          exact Or.inr (Or.inr (Or.inr ⟨⟨⟨rfl, rfl, rfl⟩, rfl,
            ⟨hidle (by decide), hidle (by decide), fun _ => rfl⟩,
            fun hne => absurd T.start_idle hne, fun _ => Or.inr ⟨rfl, rfl⟩⟩, fun _ => rfl⟩))
        · rw [Function.update_of_ne hj] at hy
          exact h j y hy
    · exact h
  | conn i e => exact kept_onSlot h i (fun x hx => Slot.keeps_onConn hT hx d.shutting e) hgrouped
  | streamHead i status w =>
    exact kept_onSlot h i (fun x hx => Slot.keeps_streamHead hx alloc status w) hgrouped
  | streamWrite i pieces =>
    exact kept_onSlot h i (fun x hx => Slot.keeps_streamWrite hx pieces) hgrouped
  | finish i ending sys w shutOk =>
    exact kept_onSlot h i
      (fun x hx => Slot.keeps_finish hT hx alloc d.shutting ending sys w shutOk) hgrouped
  | sweep i w => exact kept_onSlot h i (fun x hx => Slot.keeps_sweep hx w) hgrouped
  | stop =>
    intro i y hy
    obtain ⟨x, hx, hstopped⟩ := Option.bind_eq_some_iff.mp hy
    refine x.keeps_stopped (s := s) (fun a ha => ?_) y hstopped
    have hquiet : ∀ a ∈ x.stopped.acts, a.Grouped s T := by
      unfold Slot.stopped
      split_ifs
      · intro a ha
        cases ha
      · intro a ha
        cases ha
      · intro a ha
        obtain rfl := List.mem_singleton.mp ha
        trivial
    exact hquiet a ha

/-- **In every run whose feeds are grouped, the sweep answers exactly the unfinished
requests.** -/
theorem swept_exactly (s : Server Outbox) (T : Parser P) (hT : T.Separates)
    (as : List Occurrence) (h : Along (step s T) (fun d a => d.Grouped s T a) empty as) :
    Throughout (step s T) (fun d => d.SweptExactly s T) empty as := by
  have hkept : Throughout (step s T) (fun d => d.Kept T) empty as :=
    throughout_of_along (fun d a hd ha => kept_step hT hd a ha) (fun i x hx => nomatch hx) h
  exact hkept.mono fun d hd i x hx hlive alloc => (hd i x hx).sweptExactly hlive

/-- A client that sends the first half of a header section. -/
theorem swept_exactly_half :
    Throughout (step generating Reading.parser)
      (fun d => d.SweptExactly generating Reading.parser) empty
      [(fun _ => true, .accept), (fun _ => true, .conn firstSlot (reads (ascii "POST /nope")))] :=
  swept_exactly generating Reading.parser Reading.separates _ (by decide)

/-- A client whose request is answered by the read that brings it, and that stays. -/
def keptAlive : List Occurrence :=
  [(fun _ => true, .accept),
    (fun _ => true, .conn firstSlot
      { reads (posted 0) with second := ⟨[.wrote outboxMax], []⟩ })]

/-- The response is written, and nothing of another request is there. -/
theorem keptAlive_answered :
    ∃ x, (run (step generating Reading.parser) empty keptAlive).slots firstSlot = some x ∧
      Server.Live x.conn ∧ x.conn.outbox.buf.data = [] ∧
      Reading.parser.phase x.client.parser = .idle ∧ x.client.inbox = [] ∧
      x.conn.headerBytes ≠ 0 ∧ x.conn.messageDone = false := by
  have h : ((run (step generating Reading.parser) empty keptAlive).slots firstSlot).elim
      false (fun x => decide ((x.conn.upstream = false ∧ x.conn.closing = false ∧
        x.conn.draining = false) ∧ x.conn.outbox.buf.data = [] ∧
        Reading.parser.phase x.client.parser = .idle ∧ x.client.inbox = [] ∧
        x.conn.headerBytes ≠ 0 ∧ x.conn.messageDone = false)) = true := by
    decide +kernel
  cases hslot : (run (step generating Reading.parser) empty keptAlive).slots firstSlot with
  | none =>
    rw [hslot] at h
    cases h
  | some x =>
    rw [hslot] at h
    obtain ⟨⟨hup, hclosing, hdraining⟩, hrest⟩ := of_decide_eq_true h
    exact ⟨x, rfl, ⟨hup, hclosing, hdraining⟩, hrest⟩

/-- The sweep tells of the timeout of a request that was never begun. -/
theorem keptAlive_unsolicited :
    ¬Throughout (step generating Reading.parser)
      (fun d => d.SweptExactly generating Reading.parser) empty keptAlive := by
  intro h
  obtain ⟨x, hx, hlive, -, hidle, hinbox, hcount, hdone⟩ := keptAlive_answered
  have hlast := h.last
  have hfinished : ¬Server.Unfinished Reading.parser x.client := by
    rintro ⟨k, hk⟩
    rw [hinbox, List.take_nil] at hk
    exact hk hidle
  have hsilent := (hlast firstSlot x hx hlive (fun _ => true) ⟨[], []⟩).2 hfinished
  -- the count is the one of the request that was answered
  unfold Slot.sweep at hsilent
  rw [if_neg (by simp [hlive.upstream]), if_pos ⟨hlive.closing, hcount, hdone⟩] at hsilent
  have hacts := congrArg Done.acts hsilent
  cases hacts

end Daemon
end AsmFlow.Http
