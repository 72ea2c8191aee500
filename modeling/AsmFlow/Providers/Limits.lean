import AsmFlow.Http.Commit
import AsmFlow.Providers.Relay

/-!
# The event limit of a relayed stream

An event at `limits.sse_event_max_bytes` is to be delivered whole, and of one
above it not a byte. Two buffers with ceilings of their own stand in the way: the
carry, which takes a write only as a whole, and the client's outbox, which is
smaller than the largest limit the configuration accepts.
-/

namespace AsmFlow.Providers

open Library Http

/-- The events of a stream: those that are complete and, once it has ended, its tail. -/
def eventsOf (ended : Bool) (stream : Bytes) : List Bytes :=
  if ended then finalChunks none stream else (sseScanner.cut none stream).frames

/-- The events up to the first over the limit, which ends the stream. -/
def deliverable (limit : Option ℕ) (ended : Bool) (stream : Bytes) : List Bytes :=
  (eventsOf ended stream).takeWhile fun event => !exceeds limit event.length

/-- What has gone out is the deliverable events of what has come in, one chunk each. -/
def LimitExact (base : Relay) (s : Session) : Prop :=
  ∃ tail, (tail = [] ∨ tail = lastChunk) ∧
    s.relay.wire =
      encodeChunks (deliverable base.limit s.trailerSent s.relay.upstream) ++ tail

/-- The outbox after a chunk it had room for. -/
def written (env : EmitEnv) (o : Outbox) (event : Bytes) : Outbox :=
  ((o.appendAll env.alloc (chunkPieces event)).1.flush env.sys).1

/-- The outbox has room for the chunks of these events in turn, flushed after each. -/
def EventsFit (env : ℕ → EmitEnv) : ℕ → Outbox → List Bytes → Prop
  | _, _, [] => True
  | 0, _, _ :: _ => True
  | fuel + 1, o, event :: events =>
    o.roomFor (env fuel).alloc (chunkPieces event) = true ∧
      EventsFit env fuel (written (env fuel) o event) events

/-- There is room in the carry for a write and in the outbox for the events it completes. -/
def WriteFits (env : FeedEnv) (r : Relay) (p : Bytes) : Prop :=
  Buffer.roomFor env.carryAlloc r.carry.max r.carry.len r.carry.cap [p.length] = true ∧
    EventsFit env.emit (r.carry.len + p.length) r.outbox
      (sseScanner.cut r.limit (r.carry.data ++ p)).frames

/-- There is room in the outbox for what a stream ends with. -/
def TailFits (env : EmitEnv) (r : Relay) : Prop :=
  r.overflow = false → r.carry.data ≠ [] →
    r.outbox.roomFor env.alloc (chunkPieces r.carry.data) = true

/-- A step that relays something finds room for it. -/
def RelayFits (s : Session) : RelayAction → Prop
  | .write p env => (s.paused || s.aborted || s.trailerSent) = false →
      s.relay.outbox.pending.length < provPauseHigh → WriteFits env s.relay p
  | .drain _ => True
  | .finish _ last _ => s.trailerSent = false → TailFits last s.relay

section Events

variable {limit : Option ℕ} {s : Bytes}

@[simp] theorem exceeds_none (n : ℕ) : exceeds none n = false := rfl

theorem finalChunks_of_frame {n : ℕ} (hn : sseScanner.next s = some n)
    (hx : exceeds limit n = false) :
    finalChunks limit s = s.take n :: finalChunks limit (s.drop n) := by
  unfold finalChunks
  rw [Scanner.cut_of_some hn, hx]
  simp only [Bool.false_eq_true, if_false, Cut.prepend, List.singleton_append]
  split_ifs <;> rfl

/-- With a limit, a stream is cut like without one up to the first frame over it. -/
theorem frames_takeWhile (limit : Option ℕ) (s : Bytes) :
    (sseScanner.cut limit s).frames = deliverable limit false s := by
  unfold deliverable eventsOf
  induction s using Scanner.cut_induction sseScanner limit with
  | hnone s hn => simp [Scanner.cut_of_none hn]
  | hover s n hn hx =>
    have hle := sseScanner.le hn
    simp [Scanner.cut_of_some hn, hx, Cut.prepend, min_eq_left hle]
  | hframe s n hn hx ih =>
    have hle := sseScanner.le hn
    simp only [Bool.false_eq_true, if_false] at ih
    simp [Scanner.cut_of_some hn, hx, Cut.prepend, min_eq_left hle, ih]

theorem finalChunks_takeWhile (limit : Option ℕ) (s : Bytes) :
    finalChunks limit s = deliverable limit true s := by
  unfold deliverable eventsOf
  induction s using Scanner.cut_induction sseScanner limit with
  | hnone s hn =>
    simp only [if_true, finalChunks, Scanner.cut_of_none hn, exceeds_none, Bool.false_eq_true,
      false_or, List.nil_append]
    by_cases hnil : s = []
    · simp [hnil]
    · cases hx : exceeds limit s.length with
      | true => simp [hnil, hx]
      | false => simp [hnil, hx]
  | hover s n hn hx =>
    have hle := sseScanner.le hn
    rw [if_pos rfl, finalChunks_of_frame hn (exceeds_none n)]
    simp [finalChunks, Scanner.cut_of_some hn, hx, min_eq_left hle]
  | hframe s n hn hx ih =>
    have hle := sseScanner.le hn
    rw [if_pos rfl] at ih ⊢
    rw [finalChunks_of_frame hn hx, finalChunks_of_frame hn (exceeds_none n), ih]
    simp [hx, min_eq_left hle]

end Events

section Room

variable {base r : Relay}

/-- On the outbox, appends for a relay are appends. -/
theorem pushAll_outbox (alloc : ℕ → Bool) (ps : List Bytes) (r : Relay) :
    (pushAll alloc ps r).1.outbox = (r.outbox.appendAll alloc ps).1 ∧
      (pushAll alloc ps r).2 = (r.outbox.appendAll alloc ps).2 := by
  induction ps generalizing r with
  | nil => exact ⟨rfl, rfl⟩
  | cons p ps ih =>
    rw [pushAll, Outbox.appendAll_cons]
    unfold push
    generalize r.outbox.append alloc p = step
    obtain ⟨outbox, st⟩ := step
    dsimp only
    by_cases hst : st < 0
    · simp [hst]
    · simp only [hst, if_false]
      exact ih _

theorem push_wire {alloc : ℕ → Bool} {p : Bytes} (h : (push alloc r p).2 < 0) :
    (push alloc r p).1.wire = r.wire := by
  unfold push at h ⊢
  generalize r.outbox.append alloc p = step at h
  obtain ⟨outbox, st⟩ := step
  dsimp only at h ⊢
  by_cases hst : st < 0
  · rw [if_pos hst]
  · rw [if_neg hst] at h
    exact absurd h hst

/-- A chunk that fits is written. -/
theorem emitChunk_fits {env : EmitEnv} {p : Bytes} (hp : p ≠ []) (hattached : r.attached = true)
    (h : r.outbox.roomFor env.alloc (chunkPieces p) = true) :
    (emitChunk env r p).2 = .ok ∧ (emitChunk env r p).1.refused = r.refused ∧
      (emitChunk env r p).1.outbox = written env r.outbox p := by
  obtain ⟨houtbox, hstatus⟩ := pushAll_outbox env.alloc (chunkPieces p) r
  obtain ⟨-, hpush⟩ := pushAll_spec env.alloc (chunkPieces p) r
  rw [(Outbox.appendAll_ok_iff env.alloc (chunkPieces p) r.outbox).mpr h] at hstatus
  unfold emitChunk written
  rw [if_neg hp, if_neg (by rw [hattached]; decide), ← houtbox]
  generalize pushAll env.alloc (chunkPieces p) r = step at hstatus hpush
  obtain ⟨r', st⟩ := step
  dsimp only at hstatus hpush ⊢
  rw [hstatus, if_neg (by decide : ¬Status.ok < 0)]
  rcases hpush with ⟨-, hrefused, -⟩ | ⟨hneg, -⟩
  · exact ⟨rfl, hrefused, rfl⟩
  · rw [hstatus] at hneg
    exact absurd hneg (by decide)

/-- A carry whose events fit is drained without a refusal. -/
theorem sseDrain_fits {env : ℕ → EmitEnv} (fuel : ℕ) (hattached : r.attached = true)
    (h : EventsFit env fuel r.outbox (sseScanner.cut r.limit r.carry.data).frames) :
    (sseDrain env fuel r).1.refused = r.refused := by
  induction fuel generalizing r with
  | zero => rfl
  | succ fuel ih =>
    rw [sseDrain]
    by_cases hnil : r.carry.data = []
    · rw [if_pos hnil]
    rw [if_neg hnil]
    cases hscan : sseScan r.carry.data with
    | none =>
      dsimp only
      split_ifs <;> rfl
    | some n =>
      have hnext : sseScanner.next r.carry.data = some n := hscan
      rw [Scanner.cut_of_some hnext] at h
      dsimp only
      cases hover : exceeds r.limit n with
      | true => rfl
      | false =>
        rw [hover] at h
        simp only [Bool.false_eq_true, if_false, Cut.prepend, List.singleton_append,
          EventsFit] at h ⊢
        obtain ⟨hroom, hrest⟩ := h
        have hpos := sseScanner.pos hnext
        have hle : n ≤ r.carry.len := sseScanner.le hnext
        have hne : r.carry.data.take n ≠ [] := by
          apply List.ne_nil_of_length_pos
          rw [List.length_take]
          exact lt_min hpos (lt_of_lt_of_le hpos hle)
        obtain ⟨hst, hrefused, houtbox⟩ := emitChunk_fits hne hattached hroom
        have hsame := (emitChunk_spec (env fuel) hne hattached).1
        generalize emitChunk (env fuel) r (r.carry.data.take n) = step
          at hst hrefused houtbox hsame
        obtain ⟨r', st⟩ := step
        dsimp only at hst hrefused houtbox hsame ⊢
        rw [hst, if_neg (by decide : ¬Status.ok < 0), hsame.carry]
        obtain ⟨hconsumed, hdata⟩ := Buffer.consume_of_le hle
        generalize r.carry.consume n = consumed at hconsumed hdata
        obtain ⟨carry, st'⟩ := consumed
        dsimp only at hconsumed hdata ⊢
        rw [hconsumed, if_neg (by decide : ¬Status.ok < 0)]
        generalize hnew : ({ r' with carry, events := r'.events + 1 } : Relay) = next
        have hdata' : next.carry.data = r.carry.data.drop n := by
          rw [← hnew]
          exact hdata
        have hlimit : next.limit = r.limit := by
          rw [← hnew]
          exact Relay.limit_congr hsame.sseLimit
        have hattached' : next.attached = true := by
          rw [← hnew]
          exact hsame.attached.trans hattached
        have hrest' : EventsFit env fuel next.outbox
            (sseScanner.cut next.limit next.carry.data).frames := by
          rw [hlimit, hdata', ← hnew]
          dsimp only
          rw [houtbox]
          exact hrest
        rw [ih hattached' hrest', ← hnew]
        exact hrefused

theorem append_data {alloc : ℕ → Bool} {b b' : Buffer} {p : Bytes}
    (h : b.append alloc p = (b', .ok)) : b'.data = b.data ++ p := by
  have hok : (0 : Status) ≤ (b.append alloc p).2 := by
    rw [h]
    exact le_refl 0
  have hdata := (Buffer.append_of_ok hok).1
  rwa [h] at hdata

/-- A write that fits is fed without a refusal. -/
theorem sseFeed_fits {env : FeedEnv} {p : Bytes} (hattached : r.attached = true)
    (h : WriteFits env r p) : (sseFeed env r p).1.refused = r.refused := by
  obtain ⟨hcarry, hevents⟩ := h
  unfold sseFeed
  by_cases hp : p = []
  · rw [if_pos hp]
  rw [if_neg hp]
  rcases Buffer.append_eq env.carryAlloc r.carry p with ⟨carry, heq, hlen, -, -⟩ | ⟨-, hroom⟩
  · have hdata := append_data heq
    rw [heq]
    dsimp only
    rw [if_neg (by decide : ¬Status.ok < 0)]
    have hfit : EventsFit env.emit carry.len r.outbox
        (sseScanner.cut r.limit carry.data).frames := by
      rw [hlen, hdata]
      exact hevents
    exact sseDrain_fits (r := { r with carry, upstream := r.upstream ++ p }) carry.len
      hattached hfit
  · rw [Buffer.roomFor, hroom] at hcarry
    cases hcarry

/-- A tail that fits is flushed without a refusal. -/
theorem sseFinish_fits {env : EmitEnv} (hattached : r.attached = true) (h : TailFits env r) :
    (sseFinish env r).1.refused = r.refused := by
  unfold sseFinish
  by_cases hover : r.overflow = true
  · rw [if_pos hover]
  rw [if_neg hover]
  by_cases hnil : r.carry.data = []
  · rw [if_pos hnil]
  rw [if_neg hnil]
  obtain ⟨hst, hrefused, -⟩ := emitChunk_fits hnil hattached (h (by simpa using hover) hnil)
  generalize emitChunk env r r.carry.data = step at hst hrefused
  obtain ⟨r', st⟩ := step
  dsimp only at hst hrefused ⊢
  rw [hst, if_neg (by decide : ¬Status.ok < 0)]
  exact hrefused

end Room

section Runs

variable {base : Relay} {s : Session}

/-- Before the end nothing was refused and the events are out; after it, what was sent is the
final chunks. -/
def Delivering (base : Relay) (s : Session) : Prop :=
  (s.trailerSent = false ∧ s.relay.refused = false ∧ Streamed base s.relay ∧
      (s.relay.overflow = true → s.aborted = true)) ∨
    (s.trailerSent = true ∧ ∃ tail, (tail = [] ∨ tail = lastChunk) ∧
      s.relay.wire = base.wire ++ encodeChunks (finalChunks base.limit s.relay.upstream) ++ tail)

theorem delivering_write (h : Delivering base s) {p : Bytes} {env : FeedEnv}
    (haborted : s.aborted = false) (htrailer : s.trailerSent = false)
    (hfits : s.relay.outbox.pending.length < provPauseHigh → WriteFits env s.relay p) :
    Delivering base (relayWrite s p env) := by
  rcases h with ⟨-, hrefused, hstream, hstop⟩ | ⟨hsent, -⟩
  · unfold relayWrite
    rw [if_neg (by rw [hstream.attached]; decide)]
    split_ifs with hhigh
    · exact Or.inl ⟨htrailer, hrefused, hstream, hstop⟩
    · have hopen : s.relay.overflow = false := by
        by_contra hover
        rw [hstop (by simpa using hover)] at haborted
        cases haborted
      have hkept := sseFeed_fits hstream.attached (hfits (not_le.mp hhigh))
      rw [hrefused] at hkept
      rcases sseFeed_spec hstream hopen env p with ⟨hnext, -, hst⟩ | ⟨-, hbad⟩
      · refine Or.inl ⟨htrailer, hkept, hnext, fun hover => ?_⟩
        have hneg : (sseFeed env s.relay p).2 < 0 := by
          rw [hst, if_pos hover]
          decide
        exact decide_eq_true hneg
      · rw [hkept] at hbad
        cases hbad
  · rw [htrailer] at hsent
    cases hsent

theorem delivering_drain (h : Delivering base s) (answers : List SysWrite) :
    Delivering base (relayDrain s answers) := by
  have hkeep (paused : Bool) : Delivering base { s with
      relay := { s.relay with outbox := (s.relay.outbox.flush answers).1 }, paused } := by
    rcases h with ⟨htrailer, hrefused, hstream, hstop⟩ | hsent
    · exact Or.inl ⟨htrailer, hrefused, hstream.flushed answers, hstop⟩
    · exact Or.inr hsent
  unfold relayDrain
  dsimp only
  split_ifs
  · exact hkeep false
  · exact hkeep s.paused

theorem delivering_finish (h : Delivering base s) (htrailer : s.trailerSent = false)
    {last : EmitEnv} (hfits : TailFits last s.relay) (trailer : EmitEnv) :
    Delivering base (relayFinish s last trailer) := by
  rcases h with ⟨-, hrefused, hstream, -⟩ | ⟨hsent, -⟩
  · have hkept := sseFinish_fits hstream.attached hfits
    rw [hrefused] at hkept
    obtain ⟨hsame, hpush⟩ := push_spec trailer.alloc (sseFinish last s.relay).1 lastChunk
    rcases sseFinish_spec hstream last with ⟨-, -, hupstream, hadded⟩ | ⟨-, hbad⟩
    · right
      have hfinal : (relayFinish s last trailer).relay.upstream = s.relay.upstream :=
        hsame.upstream.trans hupstream
      rw [hfinal]
      refine ⟨rfl, ?_⟩
      rcases hpush with ⟨-, -, hwire, -⟩ | ⟨hst, -⟩
      · refine ⟨lastChunk, Or.inr rfl, ?_⟩
        rw [← hadded.wire]
        exact hwire
      · refine ⟨[], Or.inl rfl, ?_⟩
        rw [List.append_nil, ← hadded.wire]
        exact push_wire hst
    · rw [hkept] at hbad
      cases hbad
  · rw [htrailer] at hsent
    cases hsent

theorem delivering_step (h : Delivering base s) {a : RelayAction} (hfits : RelayFits s a) :
    Delivering base (relayStep s a) := by
  cases a with
  | write p env =>
    unfold relayStep
    dsimp only
    by_cases hover : (s.paused || s.aborted || s.trailerSent) = true
    · rw [if_pos hover]
      exact h
    · rw [if_neg hover]
      have htaken := hfits (by simpa using hover)
      simp only [Bool.or_eq_true, not_or, Bool.not_eq_true] at hover
      exact delivering_write h hover.1.2 hover.2 htaken
  | drain answers => exact delivering_drain h answers
  | finish verdict last trailer =>
    unfold relayStep
    dsimp only
    split_ifs with hsent
    · exact h
    · exact delivering_finish h (by simpa using hsent) (hfits (by simpa using hsent)) trailer

theorem Delivering.limitExact (hwire : base.wire = []) (h : Delivering base s) :
    LimitExact base s := by
  unfold LimitExact
  rcases h with ⟨htrailer, -, hstream, -⟩ | ⟨htrailer, tail, htail, hsent⟩
  · refine ⟨[], Or.inl rfl, ?_⟩
    rw [htrailer, ← frames_takeWhile, hstream.added.wire, hwire]
    simp
  · refine ⟨tail, htail, ?_⟩
    rw [htrailer, ← finalChunks_takeWhile, hsent, hwire]
    simp

/-- **While every step finds room for what it relays, the client has been sent exactly the events
within the limit, whole, up to the first above it, and not a byte of that one.** -/
theorem limitExact_of_fits (sseLimit : Word) (outbox : Outbox) (as : List RelayAction)
    (h : Along relayStep RelayFits (Session.start sseLimit outbox) as) :
    Throughout relayStep (LimitExact (.start sseLimit outbox)) (Session.start sseLimit outbox) as := by
  have hfresh := start_fresh sseLimit outbox
  have hstart : Delivering (.start sseLimit outbox) (Session.start sseLimit outbox) := by
    refine Or.inl ⟨rfl, rfl, hfresh.streamed, fun hover => ?_⟩
    cases hover
  have hall : Throughout relayStep (Delivering (.start sseLimit outbox))
      (Session.start sseLimit outbox) as :=
    throughout_of_along (fun s a hs ha => delivering_step hs ha) hstart h
  exact hall.mono fun s hs => hs.limitExact rfl

/-- An event at the limit, and the tail behind it. -/
theorem limitExact_event_and_tail :
    Throughout relayStep (LimitExact (.start 3 .fresh)) (Session.start 3 .fresh)
      [.write [97, 10, 10, 98] smoothFeed, .finish .upMalformed smoothEmit smoothEmit] := by
  refine limitExact_of_fits 3 .fresh _ ⟨?_, ?_, trivial⟩
  · intro _ _
    have hframes : (sseScanner.cut (some 3) [97, 10, 10, 98]).frames = [[97, 10, 10]] := by
      rw [Scanner.cut_of_some (show sseScanner.next [97, 10, 10, 98] = some 3 from rfl)]
      simp [Scanner.cut_of_none (show sseScanner.next [98] = none from rfl), exceeds, Cut.prepend]
    refine ⟨by decide, ?_⟩
    change EventsFit _ 4 _ (sseScanner.cut (some 3) [97, 10, 10, 98]).frames
    rw [hframes]
    exact ⟨by decide, trivial⟩
  · intro _ _ _
    decide

end Runs

section Ceiling

variable {r : Relay}

/-- Text and an empty line. -/
theorem sseScanFrom_text_line (n i : ℕ) (h : 0 < i ∨ 0 < n) :
    sseScanFrom i 0 (List.replicate n 97 ++ [10, 10]) = some (i + n + 2) := by
  induction n generalizing i with
  | zero =>
    have hi : i ≠ 0 := by omega
    rw [List.replicate_zero, List.nil_append, sseScanFrom_lineFeed, if_neg hi,
      sseScanFrom_lineFeed, if_pos rfl]
  | succ n ih =>
    rw [List.replicate_succ, List.cons_append, sseScanFrom_text (by decide) (by decide),
      ih (i + 1) (Or.inl (Nat.succ_pos i))]
    congr 1
    omega

/-- What was appended since the outbox was last flushed is in it. -/
theorem pushAll_length (alloc : ℕ → Bool) (ps : List Bytes) (r : Relay) :
    (pushAll alloc ps r).1.wire.length + r.outbox.buf.len =
        r.wire.length + (pushAll alloc ps r).1.outbox.buf.len ∧
      (pushAll alloc ps r).1.outbox.buf.max = r.outbox.buf.max := by
  induction ps generalizing r with
  | nil => exact ⟨rfl, rfl⟩
  | cons p ps ih =>
    rw [pushAll, push]
    have hstep := Buffer.append_eq alloc r.outbox.buf p
    have hbuf : (r.outbox.append alloc p).1.buf = (r.outbox.buf.append alloc p).1 := rfl
    have hstatus : (r.outbox.append alloc p).2 = (r.outbox.buf.append alloc p).2 := rfl
    generalize r.outbox.append alloc p = step at hbuf hstatus
    obtain ⟨outbox, st⟩ := step
    dsimp only at hbuf hstatus ⊢
    rcases hstep with ⟨b', heq, hlen, hmax, -⟩ | ⟨hneg, -⟩
    · rw [heq] at hbuf hstatus
      dsimp only at hbuf hstatus
      rw [hstatus]
      simp only [(by decide : ¬Status.ok < 0), if_false]
      obtain ⟨hrest, hrestmax⟩ := ih { r with outbox, wire := r.wire ++ p }
      rw [hbuf] at hrest hrestmax
      rw [List.length_append] at hrest
      exact ⟨by omega, hrestmax.trans hmax⟩
    · have hsame := Buffer.append_of_neg hneg
      rw [← hstatus] at hneg
      rw [hsame] at hbuf
      simp only [hneg, if_true, hbuf]
      exact ⟨trivial, trivial⟩

/-- A first event the outbox has no room for ends the drain inside its chunk. -/
theorem sseDrain_refuses {env : ℕ → EmitEnv} {fuel n : ℕ} (hscan : sseScan r.carry.data = some n)
    (hover : exceeds r.limit n = false) (hattached : r.attached = true)
    (hroom : r.outbox.roomFor (env fuel).alloc (chunkPieces (r.carry.data.take n)) = false) :
    (sseDrain env (fuel + 1) r).1 =
      (pushAll (env fuel).alloc (chunkPieces (r.carry.data.take n)) r).1 := by
  have hnext : sseScanner.next r.carry.data = some n := hscan
  have hpos := sseScanner.pos hnext
  have hle : n ≤ r.carry.data.length := sseScanner.le hnext
  have hnil : r.carry.data ≠ [] := List.ne_nil_of_length_pos (lt_of_lt_of_le hpos hle)
  have hne : r.carry.data.take n ≠ [] := by
    apply List.ne_nil_of_length_pos
    rw [List.length_take]
    omega
  have hneg : (pushAll (env fuel).alloc (chunkPieces (r.carry.data.take n)) r).2 < 0 := by
    rw [(pushAll_outbox _ _ r).2]
    rcases Outbox.appendAll_cases (env fuel).alloc (chunkPieces (r.carry.data.take n)) r.outbox with
      ⟨hok, -⟩ | ⟨hst, -⟩
    · rw [Outbox.appendAll_ok_iff, hroom] at hok
      cases hok
    · exact hst
  have hemit : emitChunk (env fuel) r (r.carry.data.take n) =
      pushAll (env fuel).alloc (chunkPieces (r.carry.data.take n)) r := by
    unfold emitChunk
    rw [if_neg hne, if_neg (by rw [hattached]; decide)]
    dsimp only
    rw [if_pos hneg]
  rw [sseDrain, if_neg hnil, hscan]
  dsimp only
  rw [hover, if_neg Bool.false_ne_true, hemit, if_pos hneg]

/-- So a whole event the outbox has no room for is read, and stays out of the stream. -/
theorem sseFeed_refuses {env : FeedEnv} {p : Bytes} (hscan : sseScan p = some p.length)
    (hover : exceeds r.limit p.length = false) (hattached : r.attached = true)
    (hcarry : r.carry.data = [])
    (hfits : Buffer.roomFor env.carryAlloc r.carry.max r.carry.len r.carry.cap [p.length] = true)
    (hroom : ∀ i, r.outbox.roomFor (env.emit i).alloc (chunkPieces p) = false) :
    (sseFeed env r p).1.upstream = r.upstream ++ p ∧
      (sseFeed env r p).1.wire.length ≤ r.wire.length + r.outbox.buf.max := by
  have hpos := (sseScanFrom_bounds hscan).1
  have hne : p ≠ [] := List.ne_nil_of_length_pos hpos
  obtain ⟨fuel, hfuel⟩ := Nat.exists_eq_succ_of_ne_zero (Nat.pos_iff_ne_zero.mp hpos)
  rcases Buffer.append_eq env.carryAlloc r.carry p with ⟨carry, heq, hlen, -, -⟩ | ⟨-, hfull⟩
  · have happended := append_data heq
    rw [hcarry, List.nil_append] at happended
    have hcarrylen : carry.len = fuel + 1 := by
      rw [Buffer.len, happended, hfuel]
    have hfeed : (sseFeed env r p).1 =
        (pushAll (env.emit fuel).alloc (chunkPieces p)
          { r with carry, upstream := r.upstream ++ p }).1 := by
      have hdrain := @sseDrain_refuses { r with carry, upstream := r.upstream ++ p } env.emit fuel
        p.length (by rw [← hscan, ← happended]) hover hattached
        (by
          dsimp only at happended ⊢
          rw [happended, List.take_length]
          exact hroom fuel)
      dsimp only at happended hdrain
      rw [happended, List.take_length] at hdrain
      unfold sseFeed
      rw [if_neg hne, heq]
      dsimp only
      rw [if_neg (by decide : ¬Status.ok < 0), hcarrylen]
      exact hdrain
    obtain ⟨hlength, hmax⟩ := pushAll_length (env.emit fuel).alloc (chunkPieces p)
      { r with carry, upstream := r.upstream ++ p }
    have hsame := (pushAll_spec (env.emit fuel).alloc (chunkPieces p)
      { r with carry, upstream := r.upstream ++ p }).1
    rw [← hfeed] at hlength hmax hsame
    have hbound := (sseFeed env r p).1.outbox.buf.len_le_cap
    have hcap := (sseFeed env r p).1.outbox.buf.cap_le_max
    simp only [Buffer.len] at hlength
    refine ⟨hsame.upstream, ?_⟩
    dsimp only at hmax hlength
    omega
  · rw [Buffer.roomFor, hfull] at hfits
    cases hfits

theorem length_le_chunk (p : Bytes) : p.length + 4 ≤ (encodeChunk p).length := by
  simp only [encodeChunk, lineEnd, List.length_append, List.length_cons, List.length_nil]
  omega

/-- One event is what its stream delivers. -/
theorem deliverable_event {limit : Option ℕ} {p : Bytes} (hscan : sseScan p = some p.length)
    (hover : exceeds limit p.length = false) : deliverable limit false p = [p] := by
  have hnext : sseScanner.next p = some p.length := hscan
  rw [← frames_takeWhile, Scanner.cut_of_some hnext, hover]
  simp [Cut.prepend, Cut.empty]

/-- The first write of a transfer is fed. -/
theorem relayStep_start (sseLimit : Word) (p : Bytes) (env : FeedEnv) :
    (relayStep (Session.start sseLimit .fresh) (.write p env)).relay =
        (sseFeed env (.start sseLimit .fresh) p).1 ∧
      (relayStep (Session.start sseLimit .fresh) (.write p env)).trailerSent = false := by
  have hlow : ¬provPauseHigh ≤ (Session.start sseLimit .fresh).relay.outbox.pending.length := by
    have hnil : (Session.start sseLimit .fresh).relay.outbox.pending = [] := rfl
    rw [hnil]
    decide
  have hattached : (Session.start sseLimit .fresh).relay.attached ≠ false := by
    simp [Session.start, Relay.start]
  have hon : (relayStep (Session.start sseLimit .fresh) (.write p env)) =
      relayWrite (Session.start sseLimit .fresh) p env := rfl
  rw [hon, relayWrite, if_neg hattached, if_neg hlow]
  exact ⟨rfl, rfl⟩

/-- Events of this length, as far as the scan and the limit are concerned. -/
theorem exists_event (n : ℕ) (h : 2 < n) : ∃ p : Bytes, p.length = n ∧ sseScan p = some p.length := by
  have hlen : (List.replicate (n - 2) 97 ++ [10, 10] : Bytes).length = n := by
    simp only [List.length_append, List.length_replicate, List.length_cons, List.length_nil]
    omega
  refine ⟨_, hlen, ?_⟩
  rw [hlen, sseScan, sseScanFrom_text_line (n - 2) 0 (Or.inr (by omega))]
  congr 1
  omega

/-- An event of exactly the limit the example configurations set, sent to a client that takes
everything at once: with its size line it is more than the outbox holds. -/
theorem limitExact_fails_at_limit :
    ¬ ∀ (sseLimit : Word) (outbox : Outbox) (as : List RelayAction),
      1024 ≤ sseLimit → sseLimit ≤ 16777216 →
      Throughout relayStep (LimitExact (.start sseLimit outbox))
        (Session.start sseLimit outbox) as := by
  intro h
  obtain ⟨event, hlen, hscan⟩ := exists_event 1048576 (by omega)
  let takesAll : FeedEnv := ⟨fun _ => true, fun _ => ⟨fun _ => true, [.wrote 1048576]⟩⟩
  obtain ⟨tail, -, hwire⟩ :=
    (h 1048576 .fresh [.write event takesAll] (by decide) (by decide)).last
  have hover : exceeds (Relay.start 1048576 .fresh).limit event.length = false := by
    rw [hlen]
    decide
  have hcarry : Buffer.roomFor (fun _ => true) provResponseMax 0 0 [event.length] = true := by
    rw [Buffer.roomFor_granting (by decide) (Nat.zero_le _) (Nat.zero_le _), hlen]
    decide
  have hroom : Outbox.fresh.roomFor (fun _ => true) (chunkPieces event) = false := by
    have hchunk := length_le_chunk event
    rw [← flatten_chunkPieces, List.length_flatten, hlen] at hchunk
    have hiff := @Buffer.roomFor_granting outboxMax 0 0 (by decide) (Nat.zero_le _) le_rfl
      ((chunkPieces event).map List.length)
    rw [Bool.eq_false_iff]
    intro hroom
    have hle := hiff.mp hroom
    rw [show outboxMax = 1048576 from rfl] at hle
    omega
  obtain ⟨hupstream, hshort⟩ := @sseFeed_refuses (.start 1048576 .fresh) takesAll event
    hscan hover rfl rfl hcarry (fun _ => hroom)
  obtain ⟨hrelay, htrailer⟩ := relayStep_start 1048576 event takesAll
  rw [run_cons, run_nil, hrelay, htrailer, hupstream] at hwire
  change _ = encodeChunks (deliverable _ false event) ++ tail at hwire
  rw [deliverable_event hscan hover, encodeChunks_singleton] at hwire
  have hchunk := length_le_chunk event
  have htotal := congrArg List.length hwire
  rw [List.length_append] at htotal
  change _ ≤ 0 + 1048576 at hshort
  omega

end Ceiling
end AsmFlow.Providers
