import AsmFlow.Library.Runs
import AsmFlow.Providers.Sse

/-!
# The relayed stream

A transfer hands its bytes over in writes of any size and then ends. What the
client is sent depends on the bytes and on the event limit, not on the writes;
and at every moment it is whole chunks, whatever the client has drained.
-/

namespace AsmFlow.Providers

open Library Http

/-- The writes of a transfer, until one is answered with an error. -/
def feedAll : List (Bytes × FeedEnv) → Relay → Relay × Status
  | [], r => (r, .ok)
  | (p, env) :: ws, r =>
    match sseFeed env r p with
    | (r, st) => if st < 0 then (r, st) else feedAll ws r

/-- A whole transfer: the relay it leaves, the status of its writes, and that of
its end. -/
structure Transfer where
  relay : Relay
  fed : Status
  finished : Status

def relayStream (base : Relay) (ws : List (Bytes × FeedEnv)) (fin : EmitEnv) : Transfer :=
  match feedAll ws base with
  | (r, fed) =>
    match sseFinish fin r with
    | (r, finished) => ⟨r, fed, finished⟩

/-- The bytes of the writes. -/
def streamOf (ws : List (Bytes × FeedEnv)) : Bytes := (ws.map Prod.fst).flatten

/-- No event of the stream is over the limit, nor what it ends with. -/
def Within (limit : Option ℕ) (stream : Bytes) : Prop :=
  (∀ event ∈ (sseScanner.cut none stream).frames, exceeds limit event.length = false) ∧
    exceeds limit (sseScanner.cut none stream).rest.length = false

section Packets

variable {base r : Relay}

theorem finalChunks_append {limit : Option ℕ} {s : Bytes} (t : Bytes)
    (h : (sseScanner.cut limit s).spilled = true) :
    finalChunks limit (s ++ t) = finalChunks limit s := by
  obtain ⟨hframes, hspilled⟩ := Scanner.cut_append_over t h
  simp only [finalChunks, h, hspilled, true_or, if_true, hframes]

theorem finalChunks_flatten {limit : Option ℕ} {s : Bytes}
    (h : (sseScanner.cut limit s).spilled = false) : (finalChunks limit s).flatten = s := by
  have hall := Scanner.cut_flatten sseScanner limit s
  unfold finalChunks
  dsimp only
  split_ifs with hstop
  · rcases hstop with hspilled | hrest
    · rw [h] at hspilled
      cases hspilled
    · rwa [hrest, List.append_nil] at hall
  · rwa [List.flatten_append, List.flatten_singleton]

theorem finalChunks_ne_nil (limit : Option ℕ) (s : Bytes) : ∀ c ∈ finalChunks limit s, c ≠ [] := by
  have hframes := Scanner.cut_ne_nil sseScanner limit s
  unfold finalChunks
  dsimp only
  split_ifs with hstop
  · exact hframes
  · intro c hc
    rcases List.mem_append.mp hc with hc | hc
    · exact hframes c hc
    · rw [List.mem_singleton.mp hc]
      exact (not_or.mp hstop).2

theorem feedAll_cons (p : Bytes) (env : FeedEnv) (ws : List (Bytes × FeedEnv)) (r : Relay) :
    feedAll ((p, env) :: ws) r =
      if (sseFeed env r p).2 < 0 then ((sseFeed env r p).1, (sseFeed env r p).2)
      else feedAll ws (sseFeed env r p).1 := rfl

/-- The writes are relayed up to the event that is over the limit, if there is one. -/
theorem feedAll_spec (h : Streamed base r) (hopen : r.overflow = false)
    (ws : List (Bytes × FeedEnv)) :
    (Streamed base (feedAll ws r).1 ∧
        (∃ rest, r.upstream ++ streamOf ws = (feedAll ws r).1.upstream ++ rest ∧
          ((feedAll ws r).1.overflow = false → rest = [])) ∧
        (feedAll ws r).2 = if (feedAll ws r).1.overflow then .limit else .ok) ∨
      ((feedAll ws r).2 < 0 ∧ (feedAll ws r).1.refused = true) := by
  induction ws generalizing r with
  | nil =>
    left
    simp only [feedAll, hopen]
    exact ⟨h, ⟨[], by simp [streamOf], fun _ => rfl⟩, rfl⟩
  | cons w ws ih =>
    obtain ⟨p, env⟩ := w
    have hstream : streamOf ((p, env) :: ws) = p ++ streamOf ws := by simp [streamOf]
    rw [hstream]
    rcases sseFeed_spec h hopen env p with ⟨hnext, hupstream, hst⟩ | ⟨hst, hrefused⟩
    · cases hover : (sseFeed env r p).1.overflow with
      | true =>
        rw [hover, if_pos rfl] at hst
        have hstop : feedAll ((p, env) :: ws) r = ((sseFeed env r p).1, .limit) := by
          rw [feedAll_cons, hst, if_pos (by decide : Status.limit < 0)]
        left
        rw [hstop]
        dsimp only
        rw [hover, hupstream]
        exact ⟨hnext, ⟨streamOf ws, by rw [List.append_assoc], fun hfalse => by cases hfalse⟩, rfl⟩
      | false =>
        rw [hover, if_neg Bool.false_ne_true] at hst
        have hon : feedAll ((p, env) :: ws) r = feedAll ws (sseFeed env r p).1 := by
          rw [feedAll_cons, hst, if_neg (by decide : ¬Status.ok < 0)]
        have hrest := ih hnext hover
        rw [hupstream, List.append_assoc] at hrest
        rw [hon]
        exact hrest
    · have hstop : feedAll ((p, env) :: ws) r = ((sseFeed env r p).1, (sseFeed env r p).2) := by
        rw [feedAll_cons, if_pos hst]
      rw [hstop]
      exact Or.inr ⟨hst, hrefused⟩

/-- What a transfer sends and answers, by its bytes and its limit alone. -/
theorem relayStream_spec (hfresh : Fresh base) (ws : List (Bytes × FeedEnv)) (fin : EmitEnv)
    (h : (relayStream base ws fin).relay.refused = false) :
    (relayStream base ws fin).fed =
        (if (sseScanner.cut base.limit (streamOf ws)).spilled then .limit else .ok) ∧
      (relayStream base ws fin).finished = .ok ∧
      (relayStream base ws fin).relay.wire = encodeChunks (finalChunks base.limit (streamOf ws)) := by
  have hfed := feedAll_spec hfresh.streamed hfresh.overflow ws
  rw [hfresh.upstream, List.nil_append] at hfed
  unfold relayStream at h ⊢
  generalize feedAll ws base = step at hfed h
  obtain ⟨r, st⟩ := step
  dsimp only at hfed h ⊢
  rcases hfed with ⟨hstreamed, ⟨rest, hsplit, hrest⟩, hst⟩ | ⟨-, hrefused⟩
  · have hsame : (sseScanner.cut base.limit (streamOf ws)).spilled = r.overflow ∧
        finalChunks base.limit (streamOf ws) = finalChunks base.limit r.upstream := by
      rw [hsplit]
      cases hover : r.overflow with
      | true =>
        have hspilled := hstreamed.overflow.symm.trans hover
        exact ⟨(Scanner.cut_append_over rest hspilled).2, finalChunks_append rest hspilled⟩
      | false =>
        rw [hrest hover, List.append_nil]
        exact ⟨hstreamed.overflow.symm.trans hover, rfl⟩
    rcases sseFinish_spec hstreamed fin with ⟨hok, -, -, hadded⟩ | ⟨-, hrefused⟩
    · rw [hsame.1, hsame.2]
      refine ⟨hst, hok, ?_⟩
      rw [hadded.wire, hfresh.wire, List.nil_append]
    · rw [hrefused] at h
      cases h
  · rw [sseFinish_refused fin hrefused] at h
    cases h

/-- Two transfers of the same bytes, cut into writes in any two ways, answer the
same and send the same; and when no event is over the limit, what the client
reads is the stream. -/
theorem relay_independent_of_packets (base base' : Relay) (hfresh : Fresh base)
    (hfresh' : Fresh base') (hlimit : base.sseLimit = base'.sseLimit)
    (ws ws' : List (Bytes × FeedEnv)) (hbytes : streamOf ws = streamOf ws') (fin fin' : EmitEnv)
    (h : (relayStream base ws fin).relay.refused = false)
    (h' : (relayStream base' ws' fin').relay.refused = false) :
    (relayStream base ws fin).fed = (relayStream base' ws' fin').fed ∧
      (relayStream base ws fin).finished = (relayStream base' ws' fin').finished ∧
      (relayStream base ws fin).relay.wire = (relayStream base' ws' fin').relay.wire ∧
      (Within base.limit (streamOf ws) → (relayStream base ws fin).fed = .ok ∧
        ∃ chunks, readBody ((relayStream base ws fin).relay.wire ++ lastChunk) = some (chunks, []) ∧
          chunks.flatten = streamOf ws) := by
  obtain ⟨hfed, hfin, hwire⟩ := relayStream_spec hfresh ws fin h
  obtain ⟨hfed', hfin', hwire'⟩ := relayStream_spec hfresh' ws' fin' h'
  rw [← Relay.limit_congr hlimit, ← hbytes] at hfed' hwire'
  refine ⟨hfed.trans hfed'.symm, hfin.trans hfin'.symm, hwire.trans hwire'.symm, ?_⟩
  intro hwithin
  have hcut := Scanner.cut_eq_unlimited hwithin.1 hwithin.2
  have hspilled : (sseScanner.cut base.limit (streamOf ws)).spilled = false := by
    rw [hcut]
    exact Scanner.cut_none_spilled _ _
  rw [hspilled] at hfed
  refine ⟨hfed, finalChunks base.limit (streamOf ws), ?_, finalChunks_flatten hspilled⟩
  have hread := readBody_encode _ (finalChunks_ne_nil base.limit (streamOf ws)) []
  rwa [List.append_nil, ← hwire] at hread

/-- `AF_PROV_RESPONSE_MAX`, the ceiling of the carry. -/
def provResponseMax : ℕ := 16777216

/-- A relay whose response head has just been written to `outbox`. -/
def Relay.start (sseLimit : Word) (outbox : Outbox) : Relay :=
  { carry := Buffer.init provResponseMax, sseLimit, events := 0, attached := true, overflow := false
    outbox, wire := [], upstream := [], refused := false }

theorem start_fresh (sseLimit : Word) (outbox : Outbox) : Fresh (Relay.start sseLimit outbox) :=
  ⟨rfl, rfl, rfl, rfl, rfl, rfl⟩

/-- The allocator gives what it is asked for, and the socket takes nothing yet. -/
def smoothEmit : EmitEnv := ⟨fun _ => true, []⟩

def smoothFeed : FeedEnv := ⟨fun _ => true, fun _ => smoothEmit⟩

/-- An event and the beginning of another, in one write and in two that split a CRLF. -/
theorem relay_independent_of_packets_crlf :
    (relayStream (.start 1048576 .fresh)
        [([100, 13, 10, 13], smoothFeed), ([10, 101], smoothFeed)] smoothEmit).relay.wire =
      (relayStream (.start 1048576 .fresh)
        [([100, 13, 10, 13, 10, 101], smoothFeed)] smoothEmit).relay.wire :=
  (relay_independent_of_packets _ _ (start_fresh _ _) (start_fresh _ _) rfl
    [([100, 13, 10, 13], smoothFeed), ([10, 101], smoothFeed)]
    [([100, 13, 10, 13, 10, 101], smoothFeed)] rfl smoothEmit smoothEmit (by decide)
    (by decide)).2.2.1

end Packets

/-- `AF_PROV_PAUSE_HIGH` and `AF_PROV_PAUSE_LOW`. -/
def provPauseHigh : ℕ := 262144

def provPauseLow : ℕ := 65536

/-- A streaming transfer: its relay and where libcurl stands with it. -/
structure Session where
  relay : Relay
  paused : Bool
  aborted : Bool
  trailerSent : Bool

inductive RelayAction
  | write (p : Bytes) (env : FeedEnv)
  | drain (answers : List SysWrite)
  | finish (verdict : Status) (last trailer : EmitEnv)

def Session.start (sseLimit : Word) (outbox : Outbox) : Session :=
  { relay := .start sseLimit outbox, paused := false, aborted := false, trailerSent := false }

/-- `af_prov_on_write`, once the head is out. -/
def relayWrite (s : Session) (p : Bytes) (env : FeedEnv) : Session :=
  if s.relay.attached = false then { s with aborted := true }
  else if provPauseHigh ≤ s.relay.outbox.pending.length then { s with paused := true }
  else
    match sseFeed env s.relay p with
    | (relay, st) => { s with relay, aborted := decide (st < 0) }

/-- The socket can be written again: `af_http_conn_flush`, and `af_prov_conn_drained`
unless a write failed. -/
def relayDrain (s : Session) (answers : List SysWrite) : Session :=
  match s.relay.outbox.flush answers with
  | (outbox, through) =>
    let relay := { s.relay with outbox }
    if s.paused && through && decide (outbox.pending.length < provPauseLow) then
      { s with relay, paused := false }
    else { s with relay }

/-- `.finish_stream` of `af_prov_exchange_finish`, which does not ask how the transfer
ended. -/
def relayFinish (s : Session) (last trailer : EmitEnv) : Session :=
  let relay := (sseFinish last s.relay).1
  let relay := (push trailer.alloc relay lastChunk).1
  { s with
    relay := { relay with outbox := (relay.outbox.flush trailer.sys).1 }, trailerSent := true }

/-- libcurl offers nothing to a transfer that is paused or over. -/
def relayStep (s : Session) : RelayAction → Session
  | .write p env =>
    if s.paused || s.aborted || s.trailerSent then s else relayWrite s p env
  | .drain answers => relayDrain s answers
  | .finish _ last trailer => if s.trailerSent then s else relayFinish s last trailer

/-- The chunks a session has sent: the complete events before the transfer's end,
then what it ended with as well. -/
def sentChunks (limit : Option ℕ) (s : Session) : List Bytes :=
  if s.trailerSent then finalChunks limit s.relay.upstream
  else (sseScanner.cut limit s.relay.upstream).frames

/-- The bytes sent are whole chunks and, after the end, the last chunk; the client
reads the chunks back, and together they are a prefix of the upstream's bytes. -/
structure WellFramed (base : Relay) (s : Session) : Prop where
  wire : s.relay.wire =
    encodeChunks (sentChunks base.limit s) ++ if s.trailerSent then lastChunk else []
  readable : readBody (encodeChunks (sentChunks base.limit s) ++ lastChunk) =
    some (sentChunks base.limit s, [])
  payload : (sentChunks base.limit s).flatten <+: s.relay.upstream
  whole : s.trailerSent = true → s.relay.overflow = false →
    (sentChunks base.limit s).flatten = s.relay.upstream
  pending : s.relay.outbox.pending <:+ base.outbox.pending ++ s.relay.wire

section Sessions

variable {base : Relay} {s : Session}

/-- Before the end the relay is streaming; after it, what it sent is settled. -/
def Settling (base : Relay) (s : Session) : Prop :=
  s.relay.refused = true ∨
    (s.trailerSent = false ∧ Streamed base s.relay ∧ (s.relay.overflow = true → s.aborted = true)) ∨
    (s.trailerSent = true ∧
      s.relay.overflow = (sseScanner.cut base.limit s.relay.upstream).spilled ∧
      Added base s.relay (encodeChunks (finalChunks base.limit s.relay.upstream) ++ lastChunk))

theorem Added.flushed {r r' : Relay} {bytes : Bytes} (h : Added r r' bytes)
    (answers : List SysWrite) :
    Added r { r' with outbox := (r'.outbox.flush answers).1 } bytes :=
  ⟨h.refused, h.wire, (Outbox.flush_pending_suffix answers r'.outbox).trans h.pending⟩

theorem Streamed.flushed {r : Relay} (h : Streamed base r) (answers : List SysWrite) :
    Streamed base { r with outbox := (r.outbox.flush answers).1 } :=
  ⟨h.attached, h.sseLimit, h.added.flushed answers, h.carry, h.overflow⟩

theorem settling_write (h : Settling base s) (p : Bytes) (env : FeedEnv)
    (haborted : s.aborted = false) (htrailer : s.trailerSent = false) :
    Settling base (relayWrite s p env) := by
  unfold relayWrite
  rcases h with hrefused | ⟨-, hstream, hstop⟩ | ⟨hsent, -, -⟩
  · left
    split_ifs
    · exact hrefused
    · exact hrefused
    · exact sseFeed_refused env p hrefused
  · rw [if_neg (by rw [hstream.attached]; decide)]
    split_ifs with hhigh
    · exact Or.inr (Or.inl ⟨htrailer, hstream, hstop⟩)
    · have hopen : s.relay.overflow = false := by
        by_contra hover
        rw [hstop (Bool.not_eq_false _ ▸ hover)] at haborted
        cases haborted
      rcases sseFeed_spec hstream hopen env p with ⟨hnext, -, hst⟩ | ⟨-, hrefused⟩
      · refine Or.inr (Or.inl ⟨htrailer, hnext, fun hover => ?_⟩)
        have hneg : (sseFeed env s.relay p).2 < 0 := by
          rw [hst, if_pos hover]
          decide
        exact decide_eq_true hneg
      · exact Or.inl hrefused
  · rw [htrailer] at hsent
    cases hsent

theorem settling_drain (h : Settling base s) (answers : List SysWrite) :
    Settling base (relayDrain s answers) := by
  have hkeep (paused : Bool) : Settling base { s with
      relay := { s.relay with outbox := (s.relay.outbox.flush answers).1 }, paused } := by
    rcases h with hrefused | ⟨htrailer, hstream, hstop⟩ | ⟨hsent, hover, hadded⟩
    · exact Or.inl hrefused
    · exact Or.inr (Or.inl ⟨htrailer, hstream.flushed answers, hstop⟩)
    · exact Or.inr (Or.inr ⟨hsent, hover, hadded.flushed answers⟩)
  unfold relayDrain
  dsimp only
  split_ifs
  · exact hkeep false
  · exact hkeep s.paused

theorem settling_finish (h : Settling base s) (htrailer : s.trailerSent = false)
    (last trailer : EmitEnv) : Settling base (relayFinish s last trailer) := by
  obtain ⟨hsame, hpush⟩ := push_spec trailer.alloc (sseFinish last s.relay).1 lastChunk
  have hstay (hrefused : (sseFinish last s.relay).1.refused = true) :
      (push trailer.alloc (sseFinish last s.relay).1 lastChunk).1.refused = true := by
    rcases hpush with ⟨-, hr, -⟩ | ⟨-, hr⟩
    · exact hr.trans hrefused
    · exact hr
  rcases h with hrefused | ⟨-, hstream, -⟩ | ⟨hsent, -, -⟩
  · exact Or.inl (hstay (sseFinish_refused last hrefused))
  · rcases sseFinish_spec hstream last with ⟨-, hover, hupstream, hadded⟩ | ⟨-, hrefused⟩
    · rcases hpush with ⟨-, hr, hwire, hpending⟩ | ⟨-, hr⟩
      · have hlast : Added (sseFinish last s.relay).1
            (push trailer.alloc (sseFinish last s.relay).1 lastChunk).1 lastChunk :=
          ⟨hr, hwire, by rw [hpending]⟩
        refine Or.inr (Or.inr ⟨rfl, ?_, ?_⟩)
        · simp only [relayFinish, hsame.overflow, hsame.upstream, hover, hupstream]
          exact hstream.overflow
        · have hfinal : (relayFinish s last trailer).relay.upstream = s.relay.upstream :=
            hsame.upstream.trans hupstream
          rw [hfinal]
          exact (hadded.trans hlast).flushed trailer.sys
      · exact Or.inl hr
    · exact Or.inl (hstay hrefused)
  · rw [htrailer] at hsent
    cases hsent

theorem settling_step (h : Settling base s) (a : RelayAction) : Settling base (relayStep s a) := by
  cases a with
  | write p env =>
    unfold relayStep
    dsimp only
    split_ifs with hover
    · exact h
    · simp only [Bool.or_eq_true, not_or, Bool.not_eq_true] at hover
      exact settling_write h p env hover.1.2 hover.2
  | drain answers => exact settling_drain h answers
  | finish verdict last trailer =>
    unfold relayStep
    dsimp only
    split_ifs with hsent
    · exact h
    · exact settling_finish h (by simpa using hsent) last trailer

theorem finalChunks_prefix (limit : Option ℕ) (s : Bytes) :
    (finalChunks limit s).flatten <+: s := by
  cases hspilled : (sseScanner.cut limit s).spilled with
  | false => rw [finalChunks_flatten hspilled]
  | true =>
    have hframes : finalChunks limit s = (sseScanner.cut limit s).frames := by
      simp [finalChunks, hspilled]
    rw [hframes]
    exact ⟨_, Scanner.cut_flatten sseScanner limit s⟩

theorem Settling.wellFramed (hfresh : Fresh base) (h : Settling base s)
    (hrefused : s.relay.refused = false) : WellFramed base s := by
  have hread (chunks : List Bytes) (hne : ∀ c ∈ chunks, c ≠ []) :
      readBody (encodeChunks chunks ++ lastChunk) = some (chunks, []) := by
    have hback := readBody_encode chunks hne []
    rwa [List.append_nil] at hback
  rcases h with hr | ⟨htrailer, hstream, -⟩ | ⟨hsent, hover, hadded⟩
  · rw [hrefused] at hr
    cases hr
  · have hchunks : sentChunks base.limit s = (sseScanner.cut base.limit s.relay.upstream).frames := by
      simp [sentChunks, htrailer]
    have hwire := hstream.added.wire
    rw [hfresh.wire, List.nil_append] at hwire
    refine ⟨?_, ?_, ?_, ?_, ?_⟩
    · rw [hchunks, htrailer, hwire]
      simp
    · rw [hchunks]
      exact hread _ (Scanner.cut_ne_nil sseScanner base.limit s.relay.upstream)
    · rw [hchunks]
      exact ⟨_, Scanner.cut_flatten sseScanner base.limit s.relay.upstream⟩
    · intro hsent
      rw [htrailer] at hsent
      cases hsent
    · rw [hwire]
      exact hstream.added.pending
  · have hchunks : sentChunks base.limit s = finalChunks base.limit s.relay.upstream := by
      simp [sentChunks, hsent]
    have hwire := hadded.wire
    rw [hfresh.wire, List.nil_append] at hwire
    refine ⟨?_, ?_, ?_, ?_, ?_⟩
    · rw [hchunks, hsent, hwire]
      simp
    · rw [hchunks]
      exact hread _ (finalChunks_ne_nil base.limit s.relay.upstream)
    · rw [hchunks]
      exact finalChunks_prefix base.limit s.relay.upstream
    · intro _ hclean
      rw [hchunks]
      exact finalChunks_flatten (hover.symm.trans hclean)
    · rw [hwire]
      exact hadded.pending

end Sessions

/-- While no append has been refused, every moment of every session finds whole
chunks on the wire, and the last chunk exactly when the transfer has ended. -/
theorem relay_well_framed (sseLimit : Word) (outbox : Outbox) (as : List RelayAction) :
    Throughout relayStep
      (fun s => s.relay.refused = false → WellFramed (.start sseLimit outbox) s)
      (Session.start sseLimit outbox) as := by
  have hfresh := start_fresh sseLimit outbox
  have hall : Throughout relayStep (Settling (.start sseLimit outbox))
      (Session.start sseLimit outbox) as := by
    apply throughout_of_invariant
    · intro s a hs
      exact settling_step hs a
    · refine Or.inr (Or.inl ⟨rfl, hfresh.streamed, fun hover => ?_⟩)
      cases hover
  exact hall.mono fun s hs hrefused => hs.wellFramed hfresh hrefused

/-- A transfer that breaks off inside an event is ended like a complete one. -/
theorem trailer_after_broken_event :
    ¬∀ sseLimit outbox as, Throughout relayStep
      (fun s => s.trailerSent = true → ∃ events, s.relay.wire = encodeChunks events ++ lastChunk ∧
        (∀ e ∈ events, sseScan e = some e.length) ∧ events.flatten = s.relay.upstream)
      (Session.start sseLimit outbox) as := by
  intro h
  have hlast := (h 1048576 .fresh
    [.write [100, 97, 116, 97, 58, 32, 120, 10] smoothFeed,
      .finish .upMalformed smoothEmit smoothEmit]).last
  obtain ⟨events, -, hevents, hflat⟩ := hlast (by decide)
  have hupstream : (run relayStep (Session.start 1048576 .fresh)
      [.write [100, 97, 116, 97, 58, 32, 120, 10] smoothFeed,
        .finish .upMalformed smoothEmit smoothEmit]).relay.upstream =
      [100, 97, 116, 97, 58, 32, 120, 10] := by decide
  rw [hupstream] at hflat
  cases events with
  | nil => cases hflat
  | cons e rest =>
    have hfirst := hevents e List.mem_cons_self
    have hstable := sseScanFrom_stable rest.flatten hfirst
    rw [← List.flatten_cons, hflat] at hstable
    cases hstable

end AsmFlow.Providers
