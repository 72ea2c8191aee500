import AsmFlow.Library.Chunked
import AsmFlow.Library.Framing
import AsmFlow.Http.Outbox
import AsmFlow.Machine.Word

/-!
# Server-sent events, framed but not interpreted

`provider_sse.asm`. Upstream bytes are gathered until an event is complete, and
each event goes to the client as one chunk. The scan is a scanner in the sense
of the framing library, which is why the relay does not depend on how libcurl
cuts the stream.
-/

namespace AsmFlow.Providers

open Library Http

/-- The loop of `af_prov_sse_scan`: the cursor, the start of the line it is in, and
the bytes from the cursor on. A CR that nothing follows decides nothing. -/
def sseScanFrom (i lineStart : ℕ) : Bytes → Option ℕ
  | [] => none
  | c :: rest =>
    if c = 13 then
      match rest with
      | [] => none
      | d :: after =>
        if d = 10 then
          if i = lineStart then some (i + 2) else sseScanFrom (i + 2) (i + 2) after
        else if i = lineStart then some (i + 1) else sseScanFrom (i + 1) (i + 1) (d :: after)
    else if c = 10 then
      if i = lineStart then some (i + 1) else sseScanFrom (i + 1) (i + 1) rest
    else sseScanFrom (i + 1) lineStart rest

/-- `af_prov_sse_scan`; its 0 is `none`. -/
def sseScan (p : Bytes) : Option ℕ := sseScanFrom 0 0 p

section Scan

variable {i lineStart n : ℕ} {p : Bytes}

attribute [local simp] sseScanFrom

@[simp] theorem sseScanFrom_nil : sseScanFrom i lineStart [] = none := by simp

theorem sseScanFrom_lineFeed (rest : Bytes) : sseScanFrom i lineStart (10 :: rest) =
    if i = lineStart then some (i + 1) else sseScanFrom (i + 1) (i + 1) rest := by
  cases rest <;> rfl

theorem sseScanFrom_crlf (after : Bytes) : sseScanFrom i lineStart (13 :: 10 :: after) =
    if i = lineStart then some (i + 2) else sseScanFrom (i + 2) (i + 2) after := rfl

theorem sseScanFrom_carriage {d : UInt8} (hd : d ≠ 10) (after : Bytes) :
    sseScanFrom i lineStart (13 :: d :: after) =
      if i = lineStart then some (i + 1) else sseScanFrom (i + 1) (i + 1) (d :: after) := by
  simp [hd]

theorem sseScanFrom_text {c : UInt8} (hcr : c ≠ 13) (hlf : c ≠ 10) (rest : Bytes) :
    sseScanFrom i lineStart (c :: rest) = sseScanFrom (i + 1) lineStart rest := by
  cases rest <;> simp [hcr, hlf]

theorem sseScanFrom_bounds (h : sseScanFrom i lineStart p = some n) :
    i < n ∧ n ≤ i + p.length := by
  fun_induction sseScanFrom i lineStart p <;> grind

/-- An event that was found is not changed by what arrives after it. -/
theorem sseScanFrom_stable (t : Bytes) (h : sseScanFrom i lineStart p = some n) :
    sseScanFrom i lineStart (p ++ t) = some n := by
  fun_induction sseScanFrom i lineStart p with
  | case1 => cases h
  | case2 => cases h
  | case3 lineStart after => rwa [List.cons_append, List.cons_append, sseScanFrom_crlf, if_pos rfl]
  | case4 i lineStart after hne ih =>
    rw [List.cons_append, List.cons_append, sseScanFrom_crlf, if_neg hne]
    exact ih h
  | case5 lineStart d after hd =>
    rwa [List.cons_append, List.cons_append, sseScanFrom_carriage hd, if_pos rfl]
  | case6 i lineStart d after hd hne ih =>
    rw [List.cons_append, List.cons_append, sseScanFrom_carriage hd, if_neg hne]
    exact ih h
  | case7 lineStart rest _ => rwa [List.cons_append, sseScanFrom_lineFeed, if_pos rfl]
  | case8 i lineStart rest hne _ ih =>
    rw [List.cons_append, sseScanFrom_lineFeed, if_neg hne]
    exact ih h
  | case9 i lineStart c rest hcr hlf ih =>
    rw [List.cons_append, sseScanFrom_text hcr hlf]
    exact ih h

/-- Where no event was found, the first one ends behind all that was there. -/
theorem sseScanFrom_late (t : Bytes) (h : sseScanFrom i lineStart p = none)
    (ht : sseScanFrom i lineStart (p ++ t) = some n) : i + p.length ≤ n := by
  fun_induction sseScanFrom i lineStart p with
  | case1 i lineStart =>
    have hbound := (sseScanFrom_bounds ht).1
    rw [List.length_nil]
    omega
  | case2 i lineStart =>
    have hbound := (sseScanFrom_bounds ht).1
    rw [List.length_singleton]
    omega
  | case3 => cases h
  | case4 i lineStart after hne ih =>
    rw [List.cons_append, List.cons_append, sseScanFrom_crlf, if_neg hne] at ht
    have hrest := ih h ht
    simp only [List.length_cons]
    omega
  | case5 => cases h
  | case6 i lineStart d after hd hne ih =>
    rw [List.cons_append, List.cons_append, sseScanFrom_carriage hd, if_neg hne] at ht
    have hrest := ih h ht
    simp only [List.length_cons] at hrest ⊢
    omega
  | case7 => cases h
  | case8 i lineStart rest hne _ ih =>
    rw [List.cons_append, sseScanFrom_lineFeed, if_neg hne] at ht
    have hrest := ih h ht
    rw [List.length_cons]
    omega
  | case9 i lineStart c rest hcr hlf ih =>
    rw [List.cons_append, sseScanFrom_text hcr hlf] at ht
    have hrest := ih h ht
    rw [List.length_cons]
    omega

end Scan

/-- The event scanner. -/
def sseScanner : Scanner UInt8 where
  next := sseScan
  pos := fun h => (sseScanFrom_bounds h).1
  le := fun h => by simpa using (sseScanFrom_bounds h).2
  stable := fun t h => sseScanFrom_stable t h
  late := fun t h ht => by simpa using sseScanFrom_late t h ht

/-- What the allocator and the kernel answer while one chunk is written. -/
structure EmitEnv where
  alloc : ℕ → Bool
  sys : List SysWrite

/-- What one call of `af_prov_sse_feed` meets: on the carry, and on the outbox for
each event in turn. -/
structure FeedEnv where
  carryAlloc : ℕ → Bool
  emit : ℕ → EmitEnv

/-- The part of an exchange and of its client's connection that relays a stream.
The last three fields are not in the daemon: the bytes appended to the outbox
since the head, the bytes taken from the upstream, and whether an append was
ever refused. -/
structure Relay where
  carry : Buffer
  sseLimit : Word
  events : Word
  attached : Bool
  overflow : Bool
  outbox : Outbox
  wire : Bytes
  upstream : Bytes
  refused : Bool

/-- An append to the outbox. -/
def push (alloc : ℕ → Bool) (r : Relay) (p : Bytes) : Relay × Status :=
  match r.outbox.append alloc p with
  | (outbox, st) =>
    if st < 0 then ({ r with outbox, refused := true }, st)
    else ({ r with outbox, wire := r.wire ++ p }, st)

/-- Appends in a row, up to the first that is refused. -/
def pushAll (alloc : ℕ → Bool) : List Bytes → Relay → Relay × Status
  | [], r => (r, .ok)
  | p :: ps, r =>
    match push alloc r p with
    | (r, st) => if st < 0 then (r, st) else pushAll alloc ps r

/-- The appends of a chunk: each digit of the size (`af_prov_append_hex`), a line
end, the bytes, a line end. -/
def chunkPieces (p : Bytes) : List Bytes :=
  (toHex p.length).map (fun c => [c]) ++ [lineEnd, p, lineEnd]

/-- `af_prov_emit_chunk`. -/
def emitChunk (env : EmitEnv) (r : Relay) (p : Bytes) : Relay × Status :=
  if p = [] then (r, .ok)
  else if r.attached = false then (r, .upCancelled)
  else
    match pushAll env.alloc (chunkPieces p) r with
    | (r, st) => if st < 0 then (r, st) else ({ r with outbox := (r.outbox.flush env.sys).1 }, .ok)

/-- `limits.sse_event_max_bytes`; zero is none. -/
def Relay.limit (r : Relay) : Option ℕ := if r.sseLimit = 0 then none else some r.sseLimit.toNat

/-- `.too_large`. -/
def tooLarge (r : Relay) : Relay × Status := ({ r with overflow := true }, .limit)

/-- The `.drain` loop of `af_prov_sse_feed`. Every event takes a byte at least, so
the length of the carry is enough fuel. -/
def sseDrain (env : ℕ → EmitEnv) : ℕ → Relay → Relay × Status
  | 0, r => (r, .ok)
  | fuel + 1, r =>
    if r.carry.data = [] then (r, .ok)
    else
      match sseScan r.carry.data with
      | none => if exceeds r.limit r.carry.len then tooLarge r else (r, .ok)
      | some n =>
        if exceeds r.limit n then tooLarge r
        else
          match emitChunk (env fuel) r (r.carry.data.take n) with
          | (r, st) =>
            if st < 0 then (r, st)
            else
              match r.carry.consume n with
              | (carry, st) =>
                let r := { r with carry, events := r.events + 1 }
                if st < 0 then (r, st) else sseDrain env fuel r

/-- `af_prov_sse_feed`. -/
def sseFeed (env : FeedEnv) (r : Relay) (p : Bytes) : Relay × Status :=
  if p = [] then (r, .ok)
  else
    match r.carry.append env.carryAlloc p with
    | (carry, st) =>
      if st < 0 then ({ r with carry, refused := true }, st)
      else
        let r := { r with carry, upstream := r.upstream ++ p }
        sseDrain env.emit r.carry.len r

/-- `af_prov_sse_finish`. -/
def sseFinish (env : EmitEnv) (r : Relay) : Relay × Status :=
  if r.overflow then ({ r with carry := r.carry.clear }, .ok)
  else if r.carry.data = [] then (r, .ok)
  else
    match emitChunk env r r.carry.data with
    | (r, st) =>
      if st < 0 then (r, st)
      else ({ r with events := r.events + 1, carry := r.carry.clear }, .ok)

section Appends

variable {alloc : ℕ → Bool} {r : Relay}

/-- The relay is the same but for its outbox and its record of appends. -/
structure SameStream (r r' : Relay) : Prop where
  carry : r'.carry = r.carry
  sseLimit : r'.sseLimit = r.sseLimit
  events : r'.events = r.events
  attached : r'.attached = r.attached
  overflow : r'.overflow = r.overflow
  upstream : r'.upstream = r.upstream

theorem SameStream.refl (r : Relay) : SameStream r r := ⟨rfl, rfl, rfl, rfl, rfl, rfl⟩

theorem SameStream.trans {r r' r'' : Relay} (h : SameStream r r') (h' : SameStream r' r'') :
    SameStream r r'' :=
  ⟨h'.carry.trans h.carry, h'.sseLimit.trans h.sseLimit, h'.events.trans h.events,
    h'.attached.trans h.attached, h'.overflow.trans h.overflow, h'.upstream.trans h.upstream⟩

/-- An append leaves the stream alone; it adds its bytes, or is marked refused. -/
theorem push_spec (alloc : ℕ → Bool) (r : Relay) (p : Bytes) :
    SameStream r (push alloc r p).1 ∧
      ((0 ≤ (push alloc r p).2 ∧ (push alloc r p).1.refused = r.refused ∧
          (push alloc r p).1.wire = r.wire ++ p ∧
          (push alloc r p).1.outbox.pending = r.outbox.pending ++ p) ∨
        ((push alloc r p).2 < 0 ∧ (push alloc r p).1.refused = true)) := by
  unfold push
  rcases Outbox.append_cases alloc r.outbox p with ⟨o, heq, hpending⟩ | ⟨e, he, heq⟩
  · rw [heq]
    dsimp only
    rw [if_neg (by decide : ¬Status.ok < 0)]
    exact ⟨⟨rfl, rfl, rfl, rfl, rfl, rfl⟩, Or.inl ⟨le_refl 0, rfl, rfl, hpending⟩⟩
  · rw [heq]
    dsimp only
    rw [if_pos he]
    exact ⟨⟨rfl, rfl, rfl, rfl, rfl, rfl⟩, Or.inr ⟨he, rfl⟩⟩

/-- Appends in a row add all of their bytes, or one is marked refused. -/
theorem pushAll_spec (alloc : ℕ → Bool) (ps : List Bytes) (r : Relay) :
    SameStream r (pushAll alloc ps r).1 ∧
      ((0 ≤ (pushAll alloc ps r).2 ∧ (pushAll alloc ps r).1.refused = r.refused ∧
          (pushAll alloc ps r).1.wire = r.wire ++ ps.flatten ∧
          (pushAll alloc ps r).1.outbox.pending = r.outbox.pending ++ ps.flatten) ∨
        ((pushAll alloc ps r).2 < 0 ∧ (pushAll alloc ps r).1.refused = true)) := by
  induction ps generalizing r with
  | nil =>
    refine ⟨.refl r, Or.inl ⟨le_refl 0, rfl, ?_, ?_⟩⟩
    · simp [pushAll]
    · simp [pushAll]
  | cons p ps ih =>
    obtain ⟨hsame, hpush⟩ := push_spec alloc r p
    rw [pushAll]
    generalize push alloc r p = step at hsame hpush
    obtain ⟨r', st⟩ := step
    dsimp only at hsame hpush ⊢
    rcases hpush with ⟨hst, hrefused, hwire, hpending⟩ | ⟨hst, hrefused⟩
    · rw [if_neg (not_lt.mpr hst)]
      obtain ⟨hsame', hrest⟩ := ih r'
      refine ⟨hsame.trans hsame', ?_⟩
      rw [hwire, hpending, hrefused] at hrest
      simpa [List.append_assoc] using hrest
    · rw [if_pos hst]
      exact ⟨hsame, Or.inr ⟨hst, hrefused⟩⟩

theorem flatten_chunkPieces (p : Bytes) : (chunkPieces p).flatten = encodeChunk p := by
  have hdigits (ds : Bytes) : (ds.map fun c => [c]).flatten = ds := by
    induction ds with
    | nil => rfl
    | cons d ds ih => simp [ih]
  simp [chunkPieces, encodeChunk, hdigits]

end Appends

section Feeding

variable {r : Relay}

/-- Bytes were added to the stream to the client, and nothing was refused. -/
structure Added (r r' : Relay) (bytes : Bytes) : Prop where
  refused : r'.refused = r.refused
  wire : r'.wire = r.wire ++ bytes
  pending : r'.outbox.pending <:+ r.outbox.pending ++ bytes

theorem Added.refl (r : Relay) : Added r r [] := ⟨rfl, by simp, by simp⟩

theorem Added.trans {r r' r'' : Relay} {p q : Bytes} (h : Added r r' p) (h' : Added r' r'' q) :
    Added r r'' (p ++ q) := by
  refine ⟨h'.refused.trans h.refused, ?_, ?_⟩
  · rw [h'.wire, h.wire, List.append_assoc]
  · apply h'.pending.trans
    obtain ⟨gone, hgone⟩ := h.pending
    refine ⟨gone, ?_⟩
    rw [← List.append_assoc, hgone, List.append_assoc]

/-- A chunk is written whole, or an append of it is refused. -/
theorem emitChunk_spec (env : EmitEnv) {p : Bytes} (hp : p ≠ []) (hattached : r.attached = true) :
    SameStream r (emitChunk env r p).1 ∧
      ((0 ≤ (emitChunk env r p).2 ∧ Added r (emitChunk env r p).1 (encodeChunk p)) ∨
        ((emitChunk env r p).2 < 0 ∧ (emitChunk env r p).1.refused = true)) := by
  obtain ⟨hsame, hpush⟩ := pushAll_spec env.alloc (chunkPieces p) r
  rw [flatten_chunkPieces] at hpush
  unfold emitChunk
  rw [if_neg hp, if_neg (by rw [hattached]; decide)]
  generalize pushAll env.alloc (chunkPieces p) r = step at hsame hpush
  obtain ⟨r', st⟩ := step
  dsimp only at hsame hpush ⊢
  rcases hpush with ⟨hst, hrefused, hwire, hpending⟩ | ⟨hst, hrefused⟩
  · rw [if_neg (not_lt.mpr hst)]
    refine ⟨⟨hsame.carry, hsame.sseLimit, hsame.events, hsame.attached, hsame.overflow,
      hsame.upstream⟩, Or.inl ⟨le_refl 0, hrefused, hwire, ?_⟩⟩
    rw [← hpending]
    exact Outbox.flush_pending_suffix env.sys r'.outbox
  · rw [if_pos hst]
    exact ⟨hsame, Or.inr ⟨hst, hrefused⟩⟩

/-- What a drain of the carry leaves, when nothing is refused: the events that are
complete went out, the rest stays. -/
structure Drained (r : Relay) (c : Cut UInt8) (r' : Relay) (st : Status) : Prop where
  added : Added r r' (encodeChunks c.frames)
  carry : r'.carry.data = c.rest
  overflow : r'.overflow = (r.overflow || c.spilled)
  status : st = if c.spilled then .limit else .ok

/-- The relay's settings, which no call changes. -/
structure SameSource (r r' : Relay) : Prop where
  sseLimit : r'.sseLimit = r.sseLimit
  attached : r'.attached = r.attached
  upstream : r'.upstream = r.upstream

theorem Relay.limit_congr {r r' : Relay} (h : r'.sseLimit = r.sseLimit) : r'.limit = r.limit := by
  simp only [Relay.limit, h]

theorem drained_nil (h : r.carry.data = []) :
    Drained r (sseScanner.cut r.limit r.carry.data) r .ok := by
  rw [h, Scanner.cut_nil]
  exact ⟨.refl r, h, by simp [Cut.empty], rfl⟩

theorem drained_tooLarge (r : Relay) :
    Drained r ⟨[], true, r.carry.data⟩ (tooLarge r).1 (tooLarge r).2 :=
  ⟨⟨rfl, by simp [tooLarge], by simp [tooLarge]⟩, rfl, by simp [tooLarge], rfl⟩

/-- One event cut off, then the rest of the carry. -/
theorem Drained.prepend {r' r'' : Relay} {st : Status} {c : Cut UInt8} {event : Bytes}
    (hevent : Added r r' (encodeChunk event)) (hoverflow : r'.overflow = r.overflow)
    (h : Drained r' c r'' st) : Drained r (c.prepend [event]) r'' st := by
  refine ⟨?_, h.carry, ?_, h.status⟩
  · have hall := hevent.trans h.added
    rw [← encodeChunks_singleton, ← encodeChunks_append] at hall
    exact hall
  · rw [h.overflow, hoverflow]
    rfl

/-- The drain loop is the framing library's cut, event by event. -/
theorem sseDrain_spec (env : ℕ → EmitEnv) (fuel : ℕ) (hattached : r.attached = true)
    (hfuel : r.carry.len ≤ fuel) :
    SameSource r (sseDrain env fuel r).1 ∧
      (Drained r (sseScanner.cut r.limit r.carry.data) (sseDrain env fuel r).1
          (sseDrain env fuel r).2 ∨
        ((sseDrain env fuel r).2 < 0 ∧ (sseDrain env fuel r).1.refused = true)) := by
  induction fuel generalizing r with
  | zero =>
    have hnil : r.carry.data = [] := List.length_eq_zero_iff.mp (Nat.le_zero.mp hfuel)
    exact ⟨⟨rfl, rfl, rfl⟩, Or.inl (drained_nil hnil)⟩
  | succ fuel ih =>
    rw [sseDrain]
    by_cases hnil : r.carry.data = []
    · rw [if_pos hnil]
      exact ⟨⟨rfl, rfl, rfl⟩, Or.inl (drained_nil hnil)⟩
    rw [if_neg hnil]
    cases hscan : sseScan r.carry.data with
    | none =>
      have hcut : sseScanner.cut r.limit r.carry.data =
          ⟨[], exceeds r.limit r.carry.len, r.carry.data⟩ := Scanner.cut_of_none hscan
      rw [hcut]
      cases exceeds r.limit r.carry.len with
      | true => exact ⟨⟨rfl, rfl, rfl⟩, Or.inl (drained_tooLarge r)⟩
      | false => exact ⟨⟨rfl, rfl, rfl⟩, Or.inl ⟨.refl r, rfl, by simp, rfl⟩⟩
    | some n =>
      have hnext : sseScanner.next r.carry.data = some n := hscan
      rw [Scanner.cut_of_some hnext]
      dsimp only
      cases hover : exceeds r.limit n with
      | true => exact ⟨⟨rfl, rfl, rfl⟩, Or.inl (drained_tooLarge r)⟩
      | false =>
        have hpos := sseScanner.pos hnext
        have hle : n ≤ r.carry.len := sseScanner.le hnext
        have hne : r.carry.data.take n ≠ [] := by
          apply List.ne_nil_of_length_pos
          rw [List.length_take]
          exact lt_min hpos (lt_of_lt_of_le hpos hle)
        simp only [Bool.false_eq_true, if_false]
        obtain ⟨hsame, hemit⟩ := emitChunk_spec (env fuel) hne hattached
        generalize emitChunk (env fuel) r (r.carry.data.take n) = step at hsame hemit
        obtain ⟨r', st⟩ := step
        dsimp only at hsame hemit ⊢
        rcases hemit with ⟨hst, hadded⟩ | ⟨hst, hrefused⟩
        · rw [if_neg (not_lt.mpr hst), hsame.carry]
          obtain ⟨hconsumed, hdata⟩ := Buffer.consume_of_le hle
          generalize r.carry.consume n = consumed at hconsumed hdata
          obtain ⟨carry, st'⟩ := consumed
          dsimp only at hconsumed hdata ⊢
          rw [hconsumed, if_neg (by decide : ¬Status.ok < 0)]
          generalize hnew : ({ r' with carry, events := r'.events + 1 } : Relay) = next
          have hadded' : Added r next (encodeChunk (r.carry.data.take n)) := by
            rw [← hnew]
            exact ⟨hadded.refused, hadded.wire, hadded.pending⟩
          have hdata' : next.carry.data = r.carry.data.drop n := by
            rw [← hnew]
            exact hdata
          have hsource : SameSource r next := by
            rw [← hnew]
            exact ⟨hsame.sseLimit, hsame.attached, hsame.upstream⟩
          have hoverflow : next.overflow = r.overflow := by
            rw [← hnew]
            exact hsame.overflow
          have hlen : next.carry.len ≤ fuel := by
            simp only [Buffer.len, hdata', List.length_drop] at hfuel ⊢
            omega
          obtain ⟨hsource', hrest⟩ := ih (hsource.attached.trans hattached) hlen
          rw [Relay.limit_congr hsource.sseLimit, hdata'] at hrest
          refine ⟨⟨hsource'.sseLimit.trans hsource.sseLimit,
            hsource'.attached.trans hsource.attached,
            hsource'.upstream.trans hsource.upstream⟩, ?_⟩
          rcases hrest with hdrained | hrefused
          · exact Or.inl (hdrained.prepend hadded' hoverflow)
          · exact Or.inr hrefused
        · rw [if_pos hst]
          exact ⟨⟨hsame.sseLimit, hsame.attached, hsame.upstream⟩, Or.inr ⟨hst, hrefused⟩⟩

/-- A refused append stays on record. -/
theorem emitChunk_refused (env : EmitEnv) (p : Bytes) (h : r.refused = true) :
    (emitChunk env r p).1.refused = true := by
  have hpush := (pushAll_spec env.alloc (chunkPieces p) r).2
  unfold emitChunk
  split_ifs
  · exact h
  · exact h
  · generalize pushAll env.alloc (chunkPieces p) r = step at hpush
    obtain ⟨r', st⟩ := step
    have hkeep : r'.refused = true := by
      rcases hpush with ⟨-, hrefused, -⟩ | ⟨-, hrefused⟩
      · exact hrefused.trans h
      · exact hrefused
    dsimp only
    split_ifs
    · exact hkeep
    · exact hkeep

theorem sseDrain_refused (env : ℕ → EmitEnv) (fuel : ℕ) (h : r.refused = true) :
    (sseDrain env fuel r).1.refused = true := by
  induction fuel generalizing r with
  | zero => exact h
  | succ fuel ih =>
    rw [sseDrain]
    by_cases hnil : r.carry.data = []
    · rw [if_pos hnil]
      exact h
    rw [if_neg hnil]
    cases sseScan r.carry.data with
    | none =>
      dsimp only
      split_ifs
      · exact h
      · exact h
    | some n =>
      have hemit := emitChunk_refused (env fuel) (r.carry.data.take n) h
      dsimp only
      by_cases hover : exceeds r.limit n = true
      · rw [if_pos hover]
        exact h
      rw [if_neg hover]
      by_cases hst : (emitChunk (env fuel) r (r.carry.data.take n)).2 < 0
      · rw [if_pos hst]
        exact hemit
      rw [if_neg hst]
      by_cases hconsumed : ((emitChunk (env fuel) r (r.carry.data.take n)).1.carry.consume n).2 < 0
      · rw [if_pos hconsumed]
        exact hemit
      rw [if_neg hconsumed]
      exact ih hemit

theorem sseFinish_refused (env : EmitEnv) (h : r.refused = true) :
    (sseFinish env r).1.refused = true := by
  have hemit := emitChunk_refused env r.carry.data h
  unfold sseFinish
  dsimp only
  by_cases hover : r.overflow = true
  · rw [if_pos hover]
    exact h
  rw [if_neg hover]
  by_cases hnil : r.carry.data = []
  · rw [if_pos hnil]
    exact h
  rw [if_neg hnil]
  by_cases hst : (emitChunk env r r.carry.data).2 < 0
  · rw [if_pos hst]
    exact hemit
  rw [if_neg hst]
  exact hemit

/-- The relay as the head of the response leaves it. -/
structure Fresh (r : Relay) : Prop where
  carry : r.carry.data = []
  attached : r.attached = true
  overflow : r.overflow = false
  wire : r.wire = []
  upstream : r.upstream = []
  refused : r.refused = false

/-- What has gone out is the events of what has come in. -/
structure Streamed (base r : Relay) : Prop where
  attached : r.attached = true
  sseLimit : r.sseLimit = base.sseLimit
  added : Added base r (encodeChunks (sseScanner.cut base.limit r.upstream).frames)
  carry : r.carry.data = (sseScanner.cut base.limit r.upstream).rest
  overflow : r.overflow = (sseScanner.cut base.limit r.upstream).spilled

variable {base : Relay}

theorem Fresh.streamed (h : Fresh base) : Streamed base base := by
  have hcut : sseScanner.cut base.limit base.upstream = Cut.empty := by
    rw [h.upstream, Scanner.cut_nil]
  refine ⟨h.attached, rfl, ?_, ?_, ?_⟩
  · rw [hcut]
    exact .refl base
  · rw [hcut, h.carry]
    rfl
  · rw [hcut, h.overflow]
    rfl

/-- The three ways a feed goes. -/
theorem sseFeed_cases (env : FeedEnv) (r : Relay) (p : Bytes) :
    (p = [] ∧ sseFeed env r p = (r, .ok)) ∨
      (∃ carry, carry.data = r.carry.data ++ p ∧ sseFeed env r p =
        sseDrain env.emit carry.len { r with carry, upstream := r.upstream ++ p }) ∨
      ∃ e < 0, sseFeed env r p = ({ r with refused := true }, e) := by
  unfold sseFeed
  by_cases hp : p = []
  · rw [if_pos hp]
    exact Or.inl ⟨hp, rfl⟩
  rw [if_neg hp]
  rcases Buffer.append_cases env.carryAlloc r.carry p with ⟨carry, heq, hdata, -⟩ | ⟨e, he, heq⟩
  · rw [heq]
    exact Or.inr (Or.inl ⟨carry, hdata, if_neg (by decide)⟩)
  · rw [heq]
    exact Or.inr (Or.inr ⟨e, he, if_pos he⟩)

theorem sseFeed_refused (env : FeedEnv) (p : Bytes) (h : r.refused = true) :
    (sseFeed env r p).1.refused = true := by
  rcases sseFeed_cases env r p with ⟨-, heq⟩ | ⟨carry, -, heq⟩ | ⟨e, -, heq⟩
  · rw [heq]
    exact h
  · rw [heq]
    exact sseDrain_refused _ _ h
  · rw [heq]

/-- A write is relayed as far as it completes events, or an append is refused. -/
theorem sseFeed_spec (h : Streamed base r) (hopen : r.overflow = false) (env : FeedEnv)
    (p : Bytes) :
    (Streamed base (sseFeed env r p).1 ∧ (sseFeed env r p).1.upstream = r.upstream ++ p ∧
        (sseFeed env r p).2 = if (sseFeed env r p).1.overflow then .limit else .ok) ∨
      ((sseFeed env r p).2 < 0 ∧ (sseFeed env r p).1.refused = true) := by
  rcases sseFeed_cases env r p with ⟨hp, heq⟩ | ⟨carry, hdata, heq⟩ | ⟨e, he, heq⟩
  · left
    rw [heq]
    dsimp only
    rw [hopen, hp, List.append_nil]
    exact ⟨h, rfl, rfl⟩
  · rw [heq]
    generalize hnew : ({ r with carry, upstream := r.upstream ++ p } : Relay) = next
    have hattached : next.attached = true := by
      rw [← hnew]
      exact h.attached
    have hcarry : next.carry = carry := by rw [← hnew]
    have hupstream : next.upstream = r.upstream ++ p := by rw [← hnew]
    have hlimit : next.limit = base.limit := by
      rw [← hnew]
      exact Relay.limit_congr h.sseLimit
    have hadded : Added base next (encodeChunks (sseScanner.cut base.limit r.upstream).frames) := by
      rw [← hnew]
      exact ⟨h.added.refused, h.added.wire, h.added.pending⟩
    have hcut : sseScanner.cut base.limit (r.upstream ++ p) =
        (sseScanner.cut next.limit next.carry.data).prepend
          (sseScanner.cut base.limit r.upstream).frames := by
      rw [hcarry, hdata, h.carry, hlimit]
      apply Scanner.cut_append
      rw [← h.overflow]
      exact hopen
    have hclosed : next.overflow = false := by
      rw [← hnew]
      exact hopen
    have hsseLimit : next.sseLimit = base.sseLimit := by
      rw [← hnew]
      exact h.sseLimit
    have hlen : next.carry.len ≤ carry.len := by rw [hcarry]
    obtain ⟨hsource, hdrain⟩ := sseDrain_spec env.emit carry.len hattached hlen
    rcases hdrain with hdrained | hrefused
    · left
      have hupstream' := hsource.upstream.trans hupstream
      have hoverflow : (sseDrain env.emit carry.len next).1.overflow =
          (sseScanner.cut base.limit (r.upstream ++ p)).spilled := by
        rw [hdrained.overflow, hclosed, hcut]
        rfl
      refine ⟨⟨hsource.attached.trans hattached, hsource.sseLimit.trans hsseLimit, ?_, ?_, ?_⟩,
        hupstream', ?_⟩
      · rw [hupstream', hcut]
        have hall := hadded.trans hdrained.added
        rw [← encodeChunks_append] at hall
        exact hall
      · rw [hupstream', hcut]
        exact hdrained.carry
      · rw [hupstream']
        exact hoverflow
      · rw [hdrained.status, hoverflow, hcut]
        rfl
    · exact Or.inr hrefused
  · rw [heq]
    exact Or.inr ⟨he, rfl⟩

/-- The chunks of a whole stream: its events, and what it ends with unless the
limit was passed. -/
def finalChunks (limit : Option ℕ) (stream : Bytes) : List Bytes :=
  let c := sseScanner.cut limit stream
  if c.spilled ∨ c.rest = [] then c.frames else c.frames ++ [c.rest]

/-- At the end of the transfer the unfinished event goes out too. -/
theorem sseFinish_spec (h : Streamed base r) (env : EmitEnv) :
    ((sseFinish env r).2 = .ok ∧ (sseFinish env r).1.overflow = r.overflow ∧
        (sseFinish env r).1.upstream = r.upstream ∧
        Added base (sseFinish env r).1 (encodeChunks (finalChunks base.limit r.upstream))) ∨
      ((sseFinish env r).2 < 0 ∧ (sseFinish env r).1.refused = true) := by
  have hadded := h.added
  unfold sseFinish finalChunks
  dsimp only
  rw [← h.overflow, ← h.carry]
  by_cases hover : r.overflow = true
  · rw [if_pos hover, if_pos (Or.inl hover)]
    exact Or.inl ⟨rfl, rfl, rfl, ⟨hadded.refused, hadded.wire, hadded.pending⟩⟩
  rw [if_neg hover]
  by_cases hnil : r.carry.data = []
  · rw [if_pos hnil, if_pos (Or.inr hnil)]
    exact Or.inl ⟨rfl, rfl, rfl, hadded⟩
  rw [if_neg hnil, if_neg (not_or.mpr ⟨hover, hnil⟩)]
  obtain ⟨hsame, hemit⟩ := emitChunk_spec env hnil h.attached
  rcases hemit with ⟨hst, hlast⟩ | ⟨hst, hrefused⟩
  · rw [if_neg (not_lt.mpr hst)]
    have hall := hadded.trans hlast
    rw [← encodeChunks_singleton, ← encodeChunks_append] at hall
    exact Or.inl ⟨rfl, hsame.overflow, hsame.upstream, ⟨hall.refused, hall.wire, hall.pending⟩⟩
  · rw [if_pos hst]
    exact Or.inr ⟨hst, hrefused⟩

end Feeding
end AsmFlow.Providers
