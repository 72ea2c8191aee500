import AsmFlow.Control.Events
import AsmFlow.Control.Responses
import AsmFlow.Library.Lines

/-!
# Requests and the end of the file

A client sends complete frames and closes its write side. Each frame is dispatched
once and in order, unless the connection is released before it is looked at.
-/

namespace AsmFlow.Control

open Http Json Library

/-- `AF_MAX_CONTROL_FRAME`. -/
def maxControlFrame : ℕ := 4 * 1024 * 1024

/-- A frame within the ceiling that is UTF-8; a carriage return may stand at its end. -/
structure Proper (frameMax : ℕ) (f : Bytes) : Prop where
  line : (10 : UInt8) ∉ f
  length_lt : f.length < frameMax
  text : utf8Validate (Mcp.trimCr f) = true

/-- Frames as they are sent. -/
def stream (fs : List Bytes) : Bytes := (fs.map (· ++ [10])).flatten

section Frames

variable {frameMax : ℕ} {l : Bytes}

@[simp] theorem stream_cons (f : Bytes) (fs : List Bytes) :
    stream (f :: fs) = f ++ 10 :: stream fs := by simp [stream]

theorem frameNext_line (h : Proper frameMax l) (rest : Bytes) :
    frameNext (l ++ 10 :: rest) frameMax = .ok (Mcp.trimCr l) := by
  have hfind : (l ++ 10 :: rest).findIdx? (· == 10) = some l.length := by
    rw [List.findIdx?_append, List.findIdx?_eq_none_iff.mpr, List.findIdx?_cons]
    · simp
    · intro b hb
      rw [beq_eq_false_iff_ne]
      rintro rfl
      exact h.line hb
  have hshort := h.length_lt
  unfold frameNext
  rw [if_neg (by simp), hfind]
  dsimp only
  rw [if_neg (by omega), List.take_left, h.text, if_pos rfl]

theorem frameNext_tail (h : (10 : UInt8) ∉ l) (hlength : l = [] ∨ l.length < frameMax) :
    frameNext l frameMax = .error Status.again := by
  have hfind : l.findIdx? (· == 10) = none := by
    rw [List.findIdx?_eq_none_iff]
    intro b hb
    rw [beq_eq_false_iff_ne]
    rintro rfl
    exact h hb
  unfold frameNext
  by_cases hempty : l.length = 0
  · rw [if_pos hempty]
  · rw [if_neg hempty, hfind]
    dsimp only
    rcases hlength with rfl | hlength
    · exact absurd rfl hempty
    · rw [if_neg (not_le.mpr hlength)]

/-- The frame that was found leaves the inbox, with its line end. -/
theorem frameConsume_line {inbox : Buffer} {rest : Bytes} (h : (10 : UInt8) ∉ l)
    (hdata : inbox.data = l ++ 10 :: rest) :
    (frameConsume inbox (Mcp.trimCr l).length).1.data = rest ∧
      (frameConsume inbox (Mcp.trimCr l).length).1.max = inbox.max := by
  have hlen : inbox.len = l.length + (rest.length + 1) := by simp [Buffer.len, hdata]
  have hconsume {n : ℕ} (hn : n = l.length + 1) :
      (inbox.consume n).1.data = rest ∧ (inbox.consume n).1.max = inbox.max := by
    have hle : ¬ inbox.len < n := by omega
    unfold Buffer.consume
    rw [if_neg hle]
    refine ⟨?_, rfl⟩
    dsimp only
    rw [hdata, List.append_cons]
    exact List.drop_left' (by simp [hn])
  have hfeed : inbox.data[l.length]? = some 10 := by simp [hdata]
  unfold frameConsume Mcp.trimCr
  by_cases hcr : l.getLast? = some 13
  · obtain ⟨m, rfl⟩ := List.getLast?_eq_some_iff.mp hcr
    have hreturn : inbox.data[m.length]? = some 13 := by simp [hdata]
    rw [if_pos hcr, List.dropLast_concat, if_neg (by simp at hlen; omega), if_pos hreturn,
      if_neg (by simp at hlen; omega)]
    rw [List.length_append, List.length_singleton] at hfeed hconsume
    rw [if_neg (by rw [hfeed]; simp)]
    exact hconsume rfl
  · rw [if_neg hcr, if_neg (by omega), if_neg (by rw [hfeed]; decide),
      if_neg (by rw [hfeed]; simp)]
    exact hconsume rfl

end Frames

section Served

/-- The request can be answered in some way, so that its connection goes on. -/
def Served (alloc : ℕ → Bool) (c : Conn) (answer : Answer) : Request → Prop
  | .unreadable => True
  | .refused _ _ _ => True
  | .invoke id false => Room alloc c.outbox c.frameMax (errorCalls id .unsupported none)
  | .invoke id true =>
    c.outbox.Fits alloc (planned (successCalls id)).pieces ∧
      (answer.status < 0 →
        Room alloc (rolledBack alloc c.outbox (successCalls id ++ answer.calls)) c.frameMax
          (errorCalls id (Conn.failureCode answer.status) none))

variable {alloc : ℕ → Bool} {c : Conn}

theorem writeError_keeps (c : Conn) (id : Option Bytes) (code : ErrorCode)
    (field : Option String) : ∃ b, (c.writeError alloc id code field).1 = { c with outbox := b } := by
  unfold Conn.writeError
  dsimp only
  split_ifs
  · exact ⟨_, rfl⟩
  · exact ⟨_, rfl⟩

theorem replaceAnswer_keeps (c : Conn) (start : ℕ) :
    ∃ b, (Conn.replaceAnswer alloc c start).1 = { c with outbox := b } := by
  unfold Conn.replaceAnswer
  dsimp only
  exact writeError_keeps { c with outbox := c.outbox.truncate start } _ _ _

/-- An answer changes nothing but the outbox. -/
theorem respond_keeps (c : Conn) (answer : Answer) (request : Request) :
    ∃ b, (c.respond alloc answer request).1 = { c with outbox := b } := by
  cases request with
  | unreadable =>
    rw [Conn.respond]
    dsimp only
    exact writeError_keeps c _ _ _
  | refused id code field =>
    rw [Conn.respond]
    dsimp only
    exact writeError_keeps c _ _ _
  | invoke id handler =>
    unfold Conn.respond Conn.methodInvoke Conn.writeSuccessEnd
    dsimp only
    split_ifs
    · exact writeError_keeps c _ _ _
    · exact ⟨_, rfl⟩
    · exact writeError_keeps { c with outbox := _ } _ _ _
    · exact replaceAnswer_keeps { c with outbox := _ } _
    · exact replaceAnswer_keeps { c with outbox := _ } _
    · exact ⟨_, rfl⟩

theorem writeError_neg_iff {id : Option Bytes} {code : ErrorCode} {field : Option String} :
    (c.writeError alloc id code field).2 < 0 ↔
      ¬ Room alloc c.outbox c.frameMax (errorCalls id code field) := by
  obtain ⟨hout, hend⟩ := finish_planned alloc c.outbox (errorCalls id code field)
  unfold Conn.writeError
  cases hrun : (run (Writer.step alloc) (Writer.init c.outbox)
      (errorCalls id code field)).finish with
  | mk w st =>
    rw [hrun] at hout hend
    dsimp only at hout hend ⊢
    rcases hend with ⟨hok, hfits, hcomplete⟩ | ⟨hneg, hnot⟩
    · rw [if_neg (by rw [hok]; decide), hout]
      constructor
      · intro hneg hroom
        obtain ⟨b', hframe, -⟩ := frameFinish_of_room hroom
        rw [hframe] at hneg
        exact absurd hneg (by decide : ¬ Status.ok < 0)
      · intro hnone
        by_contra hneg
        exact hnone (room_of_frameFinish hcomplete hfits hneg)
    · rw [if_pos hneg]
      refine iff_of_true hneg fun hroom => hnot ⟨?_, hroom.complete⟩
      exact ((Buffer.fits_append _ _).mp hroom.fits).1

theorem writeSuccessEnd_ok (w : Writer) (start : ℕ) :
    (Conn.writeSuccessEnd alloc c w start).2 = Status.ok := by
  unfold Conn.writeSuccessEnd
  dsimp only
  split_ifs
  · rfl
  · rfl
  · rfl

/-- The answer fails exactly when the request cannot be answered in any way. -/
theorem respond_neg_iff {answer : Answer} {request : Request} :
    (c.respond alloc answer request).2 < 0 ↔ ¬ Served alloc c answer request := by
  cases request with
  | unreadable => exact iff_of_false (by decide : ¬ Status.ok < 0) (not_not.mpr trivial)
  | refused id code field => exact iff_of_false (by decide : ¬ Status.ok < 0) (not_not.mpr trivial)
  | invoke id handler =>
    rw [Conn.respond, Conn.methodInvoke]
    cases handler with
    | false =>
      rw [if_pos rfl]
      exact writeError_neg_iff
    | true =>
      rw [if_neg (by decide)]
      by_cases hbegin : c.outbox.Fits alloc (planned (successCalls id)).pieces
      · rw [writeSuccessBegin_of_fits hbegin]
        dsimp only
        rw [if_neg (by decide), ← run_append, run_out, ← rolledBack]
        unfold Served
        by_cases hneg : answer.status < 0
        · rw [if_pos hneg, writeError_neg_iff]
          simp [hbegin, hneg]
        · rw [if_neg hneg, writeSuccessEnd_ok]
          exact iff_of_false (by decide) (by simp [hbegin, hneg])
      · have hneg : (c.writeSuccessBegin alloc id).2.2 < 0 := by
          rw [Conn.writeSuccessBegin, callsInOrder_eq rfl]
          rcases (follows_calls alloc (w := Writer.init c.outbox) rfl
            (successCalls id)).outcome with ⟨hfits, -, -⟩ | ⟨hneg, -⟩
          · exact absurd hfits hbegin
          · exact hneg
        dsimp only
        rw [if_pos hneg]
        exact iff_of_true hneg fun hserved => hbegin hserved.1

end Served
section Drains

variable (J : Mcp.JsonLibrary) (serve : ℕ → Serving)

/-- A connection and the frames that it has dispatched, when one more is answered. -/
def answerNext (x : Conn × List Bytes) (frame : Bytes) : Conn × List Bytes :=
  ((x.1.dispatchFrame J (serve x.2.length).alloc (serve x.2.length).answer frame).1, x.2 ++ [frame])

/-- The next frame can be answered in some way. -/
def ServedNext (x : Conn × List Bytes) (frame : Bytes) : Prop :=
  Served (serve x.2.length).alloc x.1 (serve x.2.length).answer
    (readRequest J x.1.frameMax frame)

variable {J serve} {alloc : ℕ → Bool} {c d : Conn}

/-- Two connections whose answers go the same way. -/
structure Alike (c d : Conn) : Prop where
  outbox_eq : c.outbox = d.outbox
  frameMax_eq : c.frameMax = d.frameMax

theorem writeError_alike (alloc : ℕ → Bool) (h : Alike c d) (id : Option Bytes) (code : ErrorCode)
    (field : Option String) :
    Alike (c.writeError alloc id code field).1 (d.writeError alloc id code field).1 ∧
      (c.writeError alloc id code field).2 = (d.writeError alloc id code field).2 := by
  unfold Conn.writeError
  rw [h.outbox_eq, h.frameMax_eq]
  dsimp only
  split_ifs
  · exact ⟨⟨rfl, rfl⟩, rfl⟩
  · exact ⟨⟨rfl, rfl⟩, rfl⟩

theorem replaceAnswer_alike (h : Alike c d) (start : ℕ) :
    Alike (Conn.replaceAnswer alloc c start).1 (Conn.replaceAnswer alloc d start).1 ∧
      (Conn.replaceAnswer alloc c start).2 = (Conn.replaceAnswer alloc d start).2 := by
  have hback : Alike { c with outbox := c.outbox.truncate start }
      { d with outbox := d.outbox.truncate start } :=
    ⟨congrArg (Buffer.truncate · start) h.outbox_eq, h.frameMax_eq⟩
  obtain ⟨halike, -⟩ := writeError_alike alloc hback none .internal none
  unfold Conn.replaceAnswer
  dsimp only
  exact ⟨halike, rfl⟩

/-- An answer does not look at the inbox. -/
theorem respond_alike (h : Alike c d) (answer : Answer) (request : Request) :
    Alike (c.respond alloc answer request).1 (d.respond alloc answer request).1 ∧
      (c.respond alloc answer request).2 = (d.respond alloc answer request).2 := by
  cases request with
  | unreadable =>
    rw [Conn.respond, Conn.respond]
    dsimp only
    exact ⟨(writeError_alike _ h _ _ _).1, rfl⟩
  | refused id code field =>
    rw [Conn.respond, Conn.respond]
    dsimp only
    exact ⟨(writeError_alike _ h _ _ _).1, rfl⟩
  | invoke id handler =>
    have hbegin : c.writeSuccessBegin alloc id = d.writeSuccessBegin alloc id := by
      rw [Conn.writeSuccessBegin, Conn.writeSuccessBegin, h.outbox_eq]
    rw [Conn.respond, Conn.respond]
    unfold Conn.methodInvoke Conn.writeSuccessEnd
    rw [hbegin, h.frameMax_eq]
    dsimp only
    split_ifs
    · exact writeError_alike _ h _ _ _
    · exact ⟨⟨rfl, rfl⟩, rfl⟩
    · apply writeError_alike
      exact ⟨rfl, rfl⟩
    · apply replaceAnswer_alike
      exact ⟨rfl, rfl⟩
    · apply replaceAnswer_alike
      exact ⟨rfl, rfl⟩
    · exact ⟨⟨rfl, rfl⟩, rfl⟩

theorem dispatchFrame_alike (alloc : ℕ → Bool) (h : Alike c d) (answer : Answer) (frame : Bytes) :
    Alike (c.dispatchFrame J alloc answer frame).1 (d.dispatchFrame J alloc answer frame).1 ∧
      (c.dispatchFrame J alloc answer frame).2 = (d.dispatchFrame J alloc answer frame).2 := by
  rw [Conn.dispatchFrame, Conn.dispatchFrame, h.frameMax_eq]
  exact respond_alike h _ _

theorem dispatchFrame_keeps (alloc : ℕ → Bool) (c : Conn) (answer : Answer) (frame : Bytes) :
    ∃ b, (c.dispatchFrame J alloc answer frame).1 = { c with outbox := b } :=
  respond_keeps c _ _

/-- A frame that is handled leaves the inbox, and the connection as it was but for
the answer. -/
theorem handle_line {l rest : Bytes} (hl : (10 : UInt8) ∉ l) (hdata : c.inbox.data = l ++ 10 :: rest)
    (serving : Serving) :
    let r := c.handle J serving (Mcp.trimCr l)
    r.1.inbox.data = rest ∧ r.1.inbox.max = c.inbox.max ∧ r.1.frameMax = c.frameMax ∧
      r.1.closing = c.closing := by
  obtain ⟨b, hb⟩ := dispatchFrame_keeps (J := J) serving.alloc c serving.answer
    (Mcp.trimCr l)
  intro r
  change (frameConsume (c.dispatchFrame J serving.alloc serving.answer _).1.inbox _).1.data = _ ∧
    (frameConsume (c.dispatchFrame J serving.alloc serving.answer _).1.inbox _).1.max = _ ∧
    (c.dispatchFrame J serving.alloc serving.answer _).1.frameMax = _ ∧
    (c.dispatchFrame J serving.alloc serving.answer _).1.closing = _
  rw [hb]
  obtain ⟨hleft, hmax⟩ := frameConsume_line hl hdata
  exact ⟨hleft, hmax, rfl, rfl⟩

theorem handle_neg_iff (J : Mcp.JsonLibrary) (serve : ℕ → Serving) (x : Conn × List Bytes) (h : Alike c x.1) (frame : Bytes) :
    (c.handle J (serve x.2.length) frame).2 < 0 ↔ ¬ ServedNext J serve x frame := by
  have hstatus : (c.handle J (serve x.2.length) frame).2 =
      (x.1.dispatchFrame J (serve x.2.length).alloc (serve x.2.length).answer frame).2 :=
    (dispatchFrame_alike _ h _ _).2
  rw [hstatus]
  exact respond_neg_iff

theorem handle_alike (x : Conn × List Bytes) (h : Alike c x.1) (frame : Bytes) :
    Alike (c.handle J (serve x.2.length) frame).1 (answerNext J serve x frame).1 := by
  obtain ⟨houtbox, hframeMax⟩ := (dispatchFrame_alike (J := J) (serve x.2.length).alloc
    h (serve x.2.length).answer frame).1
  exact ⟨houtbox, hframeMax⟩

/-- What draining does to the lines of the inbox: they are dispatched in order, up to
the first that cannot be answered. `x` is what the answers see. -/
theorem drainFrames_lines (J : Mcp.JsonLibrary) (serve : ℕ → Serving) {ls : List Bytes}
    {t : Bytes} (turns : ℕ) (x : Conn × List Bytes)
    (hx : Alike c x.1) (hclosing : c.closing = false) (hdata : c.inbox.data = stream ls ++ t)
    (hls : ∀ l ∈ ls, Proper c.frameMax l) (ht : (10 : UInt8) ∉ t)
    (htail : t = [] ∨ t.length < c.frameMax) (hturns : ls.length < turns) :
    let r := c.drainFrames J serve x.2 turns
    ∃ pre post, ls = pre ++ post ∧ r.2.1 = x.2 ++ pre.map Mcp.trimCr ∧
      r.1.inbox.data = stream post ++ t ∧ r.1.inbox.max = c.inbox.max ∧
      r.1.frameMax = c.frameMax ∧ r.1.closing = false ∧
      (¬ r.2.2 < 0 ∧ post = [] ∨
        r.2.2 < 0 ∧ ∃ before l, pre = before ++ [l] ∧
          ¬ ServedNext J serve (run (answerNext J serve) x (before.map Mcp.trimCr))
            (Mcp.trimCr l)) := by
  induction ls generalizing c x turns with
  | nil =>
    obtain ⟨turns, rfl⟩ : ∃ k, turns = k + 1 := ⟨turns - 1, by omega⟩
    have hnext : frameNext c.inbox.data c.frameMax = .error Status.again := by
      rw [hdata]
      exact frameNext_tail ht htail
    have hdrain : c.drainFrames J serve x.2 (turns + 1) = (c, x.2, Status.ok) := by
      rw [Conn.drainFrames, hclosing, hnext]
      rfl
    rw [hdrain]
    exact ⟨[], [], rfl, by simp, hdata, rfl, rfl, hclosing,
      Or.inl ⟨(by decide : ¬ Status.ok < 0), rfl⟩⟩
  | cons l ls ih =>
    obtain ⟨turns, rfl⟩ : ∃ k, turns = k + 1 := ⟨turns - 1, by omega⟩
    rw [stream_cons, List.append_assoc, List.cons_append] at hdata
    obtain ⟨hproper, hrest⟩ := List.forall_mem_cons.mp hls
    obtain ⟨hleft, hmax, hframeMax, hopen⟩ :=
      handle_line (J := J) hproper.line hdata (serve x.2.length)
    have hneg := handle_neg_iff J serve x hx (Mcp.trimCr l)
    have hnext : frameNext c.inbox.data c.frameMax = .ok (Mcp.trimCr l) := by
      rw [hdata]
      exact frameNext_line hproper _
    have hdrain : c.drainFrames J serve x.2 (turns + 1) =
        if (c.handle J (serve x.2.length) (Mcp.trimCr l)).2 < 0 then
          ((c.handle J (serve x.2.length) (Mcp.trimCr l)).1, x.2 ++ [Mcp.trimCr l],
            (c.handle J (serve x.2.length) (Mcp.trimCr l)).2)
        else
          (c.handle J (serve x.2.length) (Mcp.trimCr l)).1.drainFrames J serve
            (x.2 ++ [Mcp.trimCr l]) turns := by
      rw [Conn.drainFrames, hclosing, hnext]
      rfl
    rw [hdrain]
    split_ifs with hfailed
    · exact ⟨[l], ls, rfl, rfl, hleft, hmax, hframeMax, hopen.trans hclosing,
        Or.inr ⟨hfailed, [], l, rfl, hneg.mp hfailed⟩⟩
    · have hturns' : ls.length < turns := by
        rw [List.length_cons] at hturns
        omega
      obtain ⟨pre, post, rfl, hdispatched, hinbox, hmax', hframeMax', hclosing', hend⟩ :=
        ih turns (answerNext J serve x (Mcp.trimCr l)) (handle_alike x hx _)
          (hopen.trans hclosing) hleft (by rwa [hframeMax]) (by rwa [hframeMax]) hturns'
      refine ⟨l :: pre, post, rfl, ?_, hinbox, hmax'.trans hmax, hframeMax'.trans hframeMax,
        hclosing', ?_⟩
      · have hlog : (answerNext J serve x (Mcp.trimCr l)).2 = x.2 ++ [Mcp.trimCr l] := rfl
        rw [hlog] at hdispatched
        rw [hdispatched]
        simp
      · refine hend.imp_right ?_
        rintro ⟨hfailed', before, l', rfl, hserved⟩
        exact ⟨hfailed', l :: before, l', rfl, hserved⟩

end Drains

section Reads

/-- How many of the bytes that are left one call of the read loop takes, and whether it
sees their end or fails. -/
def taken (frameMax : ℕ) : ℕ → ℕ → List ReadAnswer → ℕ × Bool
  | _, _, [] => (0, false)
  | len, left, .ready n :: rest =>
    if frameMax ≤ len then (0, false)
    else
      let k := min (min (n + 1) (min (frameMax - len) readChunk)) left
      if k = 0 then (0, true)
      else
        match taken frameMax (len + k) (left - k) rest with
        | (m, ended) => (k + m, ended)
  | len, left, .intr :: rest =>
    if frameMax ≤ len then (0, false) else taken frameMax len left rest
  | _, _, .again :: _ => (0, false)
  | len, _, .failed _ :: _ => (0, decide (len < frameMax))

variable {alloc : ℕ → Bool} {c : Conn}

/-- What the read loop did: `k` bytes moved from the socket to the inbox. -/
structure Moved (alloc : ℕ → Bool) (c : Conn) (unread : Bytes) (answers : List ReadAnswer)
    (k : ℕ) (b : Buffer) : Prop where
  result : c.read alloc unread answers =
    ({ c with inbox := b }, unread.drop k, (c.read alloc unread answers).2.2)
  data_eq : b.data = c.inbox.data ++ unread.take k
  max_eq : b.max = c.frameMax
  taken_eq : c.frameMax < 2 ^ 63 → (∀ n ≤ c.frameMax, alloc n = true) →
    k = (taken c.frameMax c.inbox.len unread.length answers).1 ∧
      ((c.read alloc unread answers).2.2 < 0 ↔
        (taken c.frameMax c.inbox.len unread.length answers).2 = true)

theorem taken_ceiling {frameMax len left : ℕ} (h : frameMax ≤ len) (answers : List ReadAnswer) :
    taken frameMax len left answers = (0, false) := by
  cases answers with
  | nil => rfl
  | cons a answers =>
    cases a with
    | ready n => rw [taken, if_pos h]
    | again => rfl
    | intr => rw [taken, if_pos h]
    | failed f => rw [taken, decide_eq_false (not_lt.mpr h)]

theorem moved_nothing {unread : Bytes} {answers : List ReadAnswer} {b : Buffer}
    (hb : b.data = c.inbox.data) (hmax : b.max = c.frameMax) (st : Status)
    (hread : c.read alloc unread answers = ({ c with inbox := b }, unread, st))
    (hst : c.frameMax < 2 ^ 63 → (∀ n ≤ c.frameMax, alloc n = true) →
      taken c.frameMax c.inbox.len unread.length answers = (0, decide (st < 0))) :
    Moved alloc c unread answers 0 b := by
  refine ⟨by rw [hread]; rfl, by simp [hb], hmax, fun hbound hgranted => ?_⟩
  rw [hst hbound hgranted, hread]
  simp

theorem fill_data {n : ℕ} (room : c.inbox.Roomy n) {p : Bytes} (hp : p.length ≤ n) :
    (c.fill room p).inbox.data = c.inbox.data ++ p := by
  change c.inbox.data ++ p.take n = _
  rw [List.take_of_length_le hp]

/-- A part of a read loop, and the rest of it. -/
theorem Moved.after {unread : Bytes} {a : ReadAnswer} {answers : List ReadAnswer} {k : ℕ}
    {b : Buffer} {n : ℕ} (room : c.inbox.Roomy n) {p : Bytes} (hp : p.length ≤ n)
    (hfront : p = unread.take p.length)
    (h : Moved alloc (c.fill room p) (unread.drop p.length) answers k b)
    (hread : c.read alloc unread (a :: answers) =
      (c.fill room p).read alloc (unread.drop p.length) answers)
    (htaken : taken c.frameMax c.inbox.len unread.length (a :: answers) =
      (p.length + (taken c.frameMax (c.inbox.len + p.length) (unread.length - p.length) answers).1,
        (taken c.frameMax (c.inbox.len + p.length) (unread.length - p.length) answers).2)) :
    Moved alloc c unread (a :: answers) (p.length + k) b := by
  obtain ⟨hresult, hdata, hmax, htake⟩ := h
  refine ⟨?_, ?_, hmax, ?_⟩
  · rw [hread, hresult, List.drop_drop]
    rfl
  · rw [hdata, fill_data room hp, List.take_add, List.append_assoc, ← hfront]
  · intro hbound hgranted
    obtain ⟨hk, hneg⟩ := htake hbound hgranted
    have hlen : (c.fill room p).inbox.len = c.inbox.len + p.length := by
      simp [Buffer.len, fill_data room hp]
    have hframeMax : (c.fill room p).frameMax = c.frameMax := rfl
    rw [hlen, List.length_drop, hframeMax] at hk hneg
    rw [htaken, hread, hneg, hk]
    exact ⟨rfl, Iff.rfl⟩

/-- At the ceiling, or without memory, nothing is read. -/
theorem moved_or_room (alloc : ℕ → Bool) (hmax : c.inbox.max = c.frameMax) (unread : Bytes)
    (answers : List ReadAnswer) :
    Moved alloc c unread answers 0 c.inbox ∨
      c.inbox.len < c.frameMax ∧ ∃ room, c.inbox.reserve alloc c.chunk = .ok room := by
  by_cases hceiling : c.frameMax ≤ c.inbox.len
  · refine Or.inl (moved_nothing rfl hmax Status.ok ?_ fun _ _ => ?_)
    · cases answers <;> rw [Conn.read, if_pos hceiling]
    · rw [taken_ceiling hceiling]
      rfl
  · cases hroom : c.inbox.reserve alloc c.chunk with
    | error st =>
      refine Or.inl (moved_nothing rfl hmax st ?_ fun hbound hgranted => ?_)
      · unfold Conn.read
        rw [if_neg hceiling, hroom]
      · have hchunk : c.inbox.len + c.chunk ≤ c.inbox.max := by
          rw [hmax, Conn.chunk]
          omega
        rw [← hmax] at hbound hgranted
        obtain ⟨room, hok⟩ := Buffer.reserve_of_granted hbound hchunk hgranted
        rw [hroom] at hok
        cases hok
    | ok room => exact Or.inr ⟨not_le.mp hceiling, room, rfl⟩

/-- The read loop moves bytes from the socket to the inbox; where memory is granted it
moves as many as can be taken. -/
theorem read_moves (alloc : ℕ → Bool) (hmax : c.inbox.max = c.frameMax) (unread : Bytes) (answers : List ReadAnswer) :
    ∃ k b, Moved alloc c unread answers k b := by
  induction answers generalizing c unread with
  | nil =>
    rcases moved_or_room alloc hmax unread [] with hmoved | ⟨hbelow, room, hroom⟩
    · exact ⟨0, _, hmoved⟩
    · have hfill := (fill_data room (p := []) (Nat.zero_le _)).trans (List.append_nil _)
      refine ⟨0, _, moved_nothing hfill hmax Status.ok ?_ fun _ _ => rfl⟩
      unfold Conn.read
      rw [if_neg (not_le.mpr hbelow), hroom]
      rfl
  | cons a answers ih =>
    rcases moved_or_room alloc hmax unread (a :: answers) with
      hmoved | ⟨hbelow, room, hroom⟩
    · exact ⟨0, _, hmoved⟩
    · have hceiling := not_le.mpr hbelow
      have hfill := (fill_data room (p := []) (Nat.zero_le _)).trans (List.append_nil _)
      cases a with
      | again =>
        refine ⟨0, _, moved_nothing hfill hmax Status.ok ?_ fun _ _ => rfl⟩
        unfold Conn.read
        rw [if_neg hceiling, hroom]
        rfl
      | failed f =>
        refine ⟨0, _, moved_nothing hfill hmax f.val ?_ fun _ _ => ?_⟩
        · unfold Conn.read
          rw [if_neg hceiling, hroom]
          rfl
        · rw [taken, decide_eq_true hbelow, decide_eq_true f.property]
      | intr =>
        obtain ⟨k, b, hrest⟩ := ih (c := c.fill room []) hmax unread
        refine ⟨_, b, Moved.after room (p := []) (Nat.zero_le _) rfl hrest ?_ ?_⟩
        · rw [Conn.read, if_neg hceiling, hroom]
          rfl
        · rw [taken, if_neg hceiling]
          simp
      | ready n =>
        have hlength : (unread.take (min (n + 1) c.chunk)).length =
            min (min (n + 1) (min (c.frameMax - c.inbox.len) readChunk)) unread.length :=
          List.length_take
        by_cases hend : (unread.take (min (n + 1) c.chunk)).length = 0
        · refine ⟨0, _, moved_nothing hfill hmax Status.eof ?_ fun _ _ => ?_⟩
          · unfold Conn.read
            rw [if_neg hceiling, hroom]
            dsimp only
            rw [if_pos hend]
            rfl
          · rw [taken, if_neg hceiling]
            dsimp only
            rw [if_pos (hlength.symm.trans hend)]
            rfl
        · have hp : (unread.take (min (n + 1) c.chunk)).length ≤ c.chunk := by
            rw [List.length_take]
            omega
          have hfront : unread.take (min (n + 1) c.chunk) =
              unread.take (unread.take (min (n + 1) c.chunk)).length := by
            rw [List.length_take, List.take_eq_take_min]
          obtain ⟨k, b, hrest⟩ := ih (c := c.fill room (unread.take (min (n + 1) c.chunk))) hmax
            (unread.drop (unread.take (min (n + 1) c.chunk)).length)
          refine ⟨_, b, Moved.after room hp hfront hrest ?_ ?_⟩
          · rw [Conn.read, if_neg hceiling, hroom]
            dsimp only
            rw [if_neg hend]
          · rw [taken, if_neg hceiling]
            dsimp only
            rw [← hlength, if_neg hend]

end Reads
section Sessions

/-- What the client has sent and is not dispatched. -/
def Session.left (s : Session) : Bytes := s.conn.inbox.data ++ s.unread

/-- The lines in the inbox behind the reads of the event, and its tail. -/
def Session.arrived (s : Session) (e : Event) : List Bytes × Bytes :=
  lines 10 (s.conn.inbox.data ++ s.unread.take
    (taken s.conn.frameMax s.conn.inbox.len s.unread.length e.reads).1)

/-- What there is behind these lines. -/
def Session.behind (s : Session) (e : Event) : Bytes :=
  (s.arrived e).2 ++
    s.unread.drop (taken s.conn.frameMax s.conn.inbox.len s.unread.length e.reads).1

variable (J : Mcp.JsonLibrary) (serve : ℕ → Serving)

/-- The reads meet neither the end of the file nor a failure, and what stands behind a
frame is not lost to its answer or to the writes. -/
structure Session.Heard (s : Session) (e : Event) : Prop where
  granted : ∀ n ≤ s.conn.frameMax, e.alloc n = true
  unended : (taken s.conn.frameMax s.conn.inbox.len s.unread.length e.reads).2 = false
  served : ∀ before l after, (s.arrived e).1 = before ++ l :: after →
    after ≠ [] ∨ s.behind e ≠ [] →
    ServedNext J serve
      (run (answerNext J serve) (s.conn, s.dispatched) (before.map Mcp.trimCr)) (Mcp.trimCr l)
  late : s.behind e ≠ [] → ∀ f, .failed f ∉ e.late

/-- As long as there is something left, no event gives the connection up. -/
def Session.Spared (s : Session) (e : Event) : Prop :=
  s.released = false → s.left ≠ [] →
    (e.writable = true → ∀ f, .failed f ∉ e.early) ∧
    (e.readable = false → e.hangup = false) ∧
    (e.readable = true →
      { s with conn := if e.writable then (s.conn.flush e.early).1 else s.conn }.Heard J serve e)

/-- The frames are dispatched in order, and all of them before the release. -/
def Session.Faithful (fs : List Bytes) (s : Session) : Prop :=
  s.dispatched <+: fs.map Mcp.trimCr ∧ (s.released = true → s.dispatched = fs.map Mcp.trimCr)

/-- The frames in `rest` are still to be dispatched. -/
structure Session.Holds (frameMax : ℕ) (fs rest : List Bytes) (s : Session) : Prop where
  frameMax_eq : s.conn.frameMax = frameMax
  max_eq : s.conn.inbox.max = frameMax
  closing : s.conn.closing = false
  sent : fs.map Mcp.trimCr = s.dispatched ++ rest.map Mcp.trimCr
  left_eq : s.left = stream rest
  proper : ∀ f ∈ rest, Proper frameMax f

variable {J serve} {c : Conn} {s : Session} {e : Event} {frameMax : ℕ} {fs rest : List Bytes}

theorem flush_keeps (answers : List WriteAnswer) :
    (c.flush answers).1.inbox = c.inbox ∧ (c.flush answers).1.frameMax = c.frameMax ∧
      (c.flush answers).1.closing = c.closing ∧
      ((c.flush answers).2 < 0 → ∃ f, .failed f ∈ answers) := by
  induction answers generalizing c with
  | nil =>
    unfold Conn.flush
    split_ifs
    · exact ⟨rfl, rfl, rfl, fun hneg => absurd hneg (by decide : ¬ Status.ok < 0)⟩
    · exact ⟨rfl, rfl, rfl, fun hneg => absurd hneg (by decide : ¬ Status.ok < 0)⟩
  | cons a answers ih =>
    have hlater {d : Conn} (hd : (d.flush answers).2 < 0) : ∃ f, .failed f ∈ a :: answers := by
      obtain ⟨f, hf⟩ := (ih (c := d)).2.2.2 hd
      exact ⟨f, List.mem_cons_of_mem _ hf⟩
    unfold Conn.flush
    split_ifs
    · exact ⟨rfl, rfl, rfl, fun hneg => absurd hneg (by decide : ¬ Status.ok < 0)⟩
    · cases a with
      | wrote n =>
        obtain ⟨hinbox, hframeMax, hclosing, -⟩ :=
          ih (c := { c with cursor := c.cursor + min n (c.outbox.len - c.cursor) })
        exact ⟨hinbox, hframeMax, hclosing, hlater⟩
      | again => exact ⟨rfl, rfl, rfl, fun hneg => absurd hneg (by decide : ¬ Status.ok < 0)⟩
      | intr =>
        obtain ⟨hinbox, hframeMax, hclosing, -⟩ := ih (c := c)
        exact ⟨hinbox, hframeMax, hclosing, hlater⟩
      | failed f => exact ⟨rfl, rfl, rfl, fun _ => ⟨f, List.mem_cons_self⟩⟩

theorem stream_append (as bs : List Bytes) : stream (as ++ bs) = stream as ++ stream bs := by
  simp [stream]

theorem stream_eq_nil {as : List Bytes} (h : stream as = []) : as = [] := by
  cases as with
  | nil => rfl
  | cons a as => simp at h

/-- The lines of a part of the stream are its first frames. -/
theorem split_stream {a b : Bytes} (h : a ++ b = stream rest)
    (hproper : ∀ f ∈ rest, (10 : UInt8) ∉ f) :
    ∃ more, rest = (lines 10 a).1 ++ more ∧ (lines 10 a).2 ++ b = stream more := by
  have hwhole : lines 10 (stream rest) = (rest, []) := by
    rw [← List.append_nil (stream rest)]
    exact lines_of_flatten hproper List.not_mem_nil
  rw [← h, lines_append, Prod.mk.injEq] at hwhole
  refine ⟨(lines 10 ((lines 10 a).2 ++ b)).1, hwhole.1.symm, ?_⟩
  have hflatten := lines_flatten 10 ((lines 10 a).2 ++ b)
  rw [hwhole.2, List.append_nil] at hflatten
  exact hflatten.symm

/-- Behind its lines, what there is of a frame is shorter than the ceiling. -/
theorem tail_short {a b : Bytes} {more : List Bytes} (h : (lines 10 a).2 ++ b = stream more)
    (hproper : ∀ f ∈ more, Proper frameMax f) :
    (lines 10 a).2 = [] ∨ (lines 10 a).2.length < frameMax := by
  have htail := tail_notMem (10 : UInt8) a
  generalize (lines 10 a).2 = t at h htail
  cases more with
  | nil => exact Or.inl (List.append_eq_nil_iff.mp h).1
  | cons f more =>
    right
    have hf := hproper f List.mem_cons_self
    refine lt_of_le_of_lt ?_ hf.length_lt
    by_contra hlong
    rw [stream_cons, List.append_cons] at h
    have hfront : f ++ [10] <+: t := by
      refine List.prefix_of_prefix_length_le ?_ (List.prefix_append t b) ?_
      · rw [h]
        exact List.prefix_append _ _
      · rw [List.length_append, List.length_singleton]
        omega
    exact htail (hfront.subset (List.mem_append_right f List.mem_cons_self))

/-- An event with `EPOLLIN` moves frames from what is left to what is dispatched, and
gives nothing up if it is heard. -/
theorem onReadable_holds (hbound : frameMax ≤ maxControlFrame) (hs : s.Holds frameMax fs rest)
    (hheard : rest ≠ [] → s.Heard J serve e) :
    ∃ rest', (s.onReadable J serve e).Holds frameMax fs rest' ∧
      ((s.onReadable J serve e).released = true → rest' = []) := by
  obtain ⟨hframeMax, hmax, hclosing, hsent, hleft, hproper⟩ := hs
  obtain ⟨k, b, hmoved⟩ := read_moves e.alloc (hmax.trans hframeMax.symm) s.unread e.reads
  obtain ⟨hread, hdata, hbmax, htaken⟩ := hmoved
  have hsplit : b.data ++ s.unread.drop k = stream rest := by
    rw [hdata, List.append_assoc, List.take_append_drop, ← hleft]
    rfl
  obtain ⟨more, hrest, hbehind⟩ := split_stream hsplit fun f hf => (hproper f hf).line
  unfold Session.onReadable
  rw [hread]
  generalize (s.conn.read e.alloc s.unread e.reads).2.2 = st at htaken ⊢
  dsimp only
  have hcount (hheard : s.Heard J serve e) :
      k = (taken s.conn.frameMax s.conn.inbox.len s.unread.length e.reads).1 ∧ ¬ st < 0 := by
    have hword : s.conn.frameMax < 2 ^ 63 := by
      rw [hframeMax]
      exact lt_of_le_of_lt hbound (by decide)
    obtain ⟨hk, hneg⟩ := htaken hword hheard.granted
    refine ⟨hk, fun hfailed => ?_⟩
    rw [hneg, hheard.unended] at hfailed
    cases hfailed
  by_cases hfailed : st < 0
  · rw [if_pos hfailed]
    refine ⟨rest, ⟨hframeMax, hbmax.trans hframeMax, hclosing, hsent, hsplit, hproper⟩, fun _ => ?_⟩
    by_contra hne
    exact (hcount (hheard hne)).2 hfailed
  · rw [if_neg hfailed]
    have hlines : ∀ l ∈ (lines 10 b.data).1, Proper s.conn.frameMax l := by
      intro l hl
      rw [hframeMax]
      exact hproper l (hrest ▸ List.mem_append_left _ hl)
    have hmore : ∀ f ∈ more, Proper frameMax f :=
      fun f hf => hproper f (hrest ▸ List.mem_append_right _ hf)
    have htail := tail_short hbehind hmore
    rw [← hframeMax] at htail
    obtain ⟨pre, post, hls, hdispatched, hinbox, hdmax, hdframeMax, hdclosing, hend⟩ :=
      drainFrames_lines J serve (c := { s.conn with inbox := b }) (b.len + 1)
        (s.conn, s.dispatched) ⟨rfl, rfl⟩ hclosing
        (lines_flatten 10 b.data).symm hlines (tail_notMem 10 b.data) htail
        (Nat.lt_succ_of_le (lines_length_le 10 b.data))
    dsimp only at hdispatched
    generalize Conn.drainFrames J serve { s.conn with inbox := b } s.dispatched (b.len + 1) = r at *
    have hsent' : fs.map Mcp.trimCr = r.2.1 ++ (post ++ more).map Mcp.trimCr := by
      rw [hsent, hdispatched, hrest, hls]
      simp
    have hleft' : r.1.inbox.data ++ s.unread.drop k = stream (post ++ more) := by
      rw [hinbox, List.append_assoc, hbehind, stream_append]
    have hproper' : ∀ f ∈ post ++ more, Proper frameMax f := by
      intro f hf
      apply hproper f
      rw [hrest, hls, List.append_assoc]
      exact List.mem_append_right _ hf
    have hholds (d : Conn) (released : Bool) (hd : d.inbox = r.1.inbox)
        (hdm : d.frameMax = r.1.frameMax) (hdc : d.closing = r.1.closing) :
        (Session.mk d (s.unread.drop k) r.2.1 released).Holds frameMax fs (post ++ more) :=
      ⟨(hdm.trans hdframeMax).trans hframeMax, (congrArg Buffer.max hd).trans (hdmax.trans
        (hbmax.trans hframeMax)), hdc.trans hdclosing, hsent', by
          rw [Session.left, hd]
          exact hleft', hproper'⟩
    have hnone (hne : post ++ more ≠ []) : rest ≠ [] := by
      rintro rfl
      rw [hls, List.append_assoc] at hrest
      exact hne (List.append_eq_nil_iff.mp hrest.symm).2
    have harrived (hk : k = (taken s.conn.frameMax s.conn.inbox.len s.unread.length e.reads).1) :
        s.arrived e = lines 10 b.data ∧ s.behind e = stream more := by
      unfold Session.behind Session.arrived
      rw [← hk, ← hdata]
      exact ⟨rfl, hbehind⟩
    by_cases hlost : r.2.2 < 0
    · rw [if_pos hlost]
      refine ⟨post ++ more, hholds _ _ rfl rfl rfl, fun _ => ?_⟩
      by_contra hne
      rcases hend with ⟨hfine, -⟩ | ⟨-, before, l, rfl, hunserved⟩
      · exact hfine hlost
      · have hheard' := hheard (hnone hne)
        obtain ⟨hlines', hbehind'⟩ := harrived (hcount hheard').1
        apply hunserved
        apply hheard'.served before l post
        · rw [hlines', hls]
          simp
        · rw [hbehind']
          by_contra hempty
          rw [not_or, not_not, not_not] at hempty
          rw [hempty.1, stream_eq_nil hempty.2] at hne
          exact hne rfl
    · rw [if_neg hlost]
      obtain ⟨hkinbox, hkframeMax, hkclosing, hkneg⟩ := flush_keeps (c := r.1) e.late
      by_cases hwrite : (r.1.flush e.late).2 < 0
      · rw [if_pos hwrite]
        refine ⟨post ++ more, hholds _ _ hkinbox hkframeMax hkclosing, fun _ => ?_⟩
        by_contra hne
        rcases hend with ⟨-, rfl⟩ | ⟨hneg, -⟩
        · have hheard' := hheard (hnone hne)
          obtain ⟨f, hf⟩ := hkneg hwrite
          refine hheard'.late ?_ f hf
          rw [(harrived (hcount hheard').1).2]
          exact fun hempty => hne (stream_eq_nil hempty)
        · exact hlost hneg
      · rw [if_neg hwrite]
        refine ⟨post ++ more, hholds _ _ hkinbox hkframeMax hkclosing, fun hreleased => ?_⟩
        rw [hkclosing, hdclosing] at hreleased
        cases hreleased

theorem onConn_holds (hbound : frameMax ≤ maxControlFrame) (hs : s.Holds frameMax fs rest)
    (hopen : s.released = false) (hspared : s.Spared J serve e) :
    ∃ rest', (s.onConn J serve e).Holds frameMax fs rest' ∧
      ((s.onConn J serve e).released = true → rest' = []) := by
  have hspared' : rest ≠ [] → _ := fun hne => hspared hopen (by
    rw [hs.left_eq]
    exact mt stream_eq_nil hne)
  unfold Session.onConn
  rw [if_neg (by rw [hopen]; decide)]
  have hflushed : (if e.writable then s.conn.flush e.early else (s.conn, Status.ok)).1 =
      if e.writable then (s.conn.flush e.early).1 else s.conn := by
    split_ifs
    · rfl
    · rfl
  generalize hc : (if e.writable then s.conn.flush e.early else (s.conn, Status.ok)) = c at hflushed
  obtain ⟨c, st⟩ := c
  dsimp only at hflushed ⊢
  have hkept : c.inbox = s.conn.inbox ∧ c.frameMax = s.conn.frameMax ∧
      c.closing = s.conn.closing := by
    rw [hflushed]
    split_ifs
    · obtain ⟨hinbox, hframeMax, hclosing, -⟩ := flush_keeps (c := s.conn) e.early
      exact ⟨hinbox, hframeMax, hclosing⟩
    · exact ⟨rfl, rfl, rfl⟩
  obtain ⟨hframeMax, hmax, hclosing, hsent, hleft, hproper⟩ := hs
  have hholds (released : Bool) :
      (Session.mk c s.unread s.dispatched released).Holds frameMax fs rest :=
    ⟨hkept.2.1.trans hframeMax, by rw [hkept.1]; exact hmax, hkept.2.2.trans hclosing, hsent, by
      rw [Session.left, hkept.1]
      exact hleft, hproper⟩
  by_cases hneg : st < 0
  · rw [if_pos hneg]
    refine ⟨rest, hholds _, fun _ => ?_⟩
    by_contra hne
    by_cases hwritable : e.writable = true
    · rw [if_pos hwritable] at hc
      obtain ⟨f, hf⟩ := (flush_keeps (c := s.conn) e.early).2.2.2 (by
        rw [hc]
        exact hneg)
      exact (hspared' hne).1 hwritable f hf
    · rw [if_neg hwritable, Prod.mk.injEq] at hc
      rw [← hc.2] at hneg
      exact absurd hneg (by decide : ¬ Status.ok < 0)
  · rw [if_neg hneg]
    by_cases hreadable : e.readable = true
    · rw [if_pos hreadable]
      refine onReadable_holds hbound (hholds _) fun hne => ?_
      have hheard := (hspared' hne).2.2 hreadable
      rw [← hflushed] at hheard
      exact hheard
    · rw [if_neg hreadable]
      refine ⟨rest, hholds _, fun hreleased => ?_⟩
      by_contra hne
      have hstays := (hspared' hne).2.1 (by simpa using hreadable)
      rw [hstays] at hreleased
      cases hreleased

/-- Where no event gives the connection up while something is left, the frames are
dispatched once each and in order, all of them before the release. -/
theorem requests_dispatched (J : Mcp.JsonLibrary) (serve : ℕ → Serving) (frameMax : ℕ)
    (hbound : frameMax ≤ maxControlFrame) (fs : List Bytes) (hfs : ∀ f ∈ fs, Proper frameMax f)
    (events : List Event)
    (h : Along (Session.onConn J serve) (Session.Spared J serve)
      (Session.accepted frameMax (stream fs)) events) :
    Throughout (Session.onConn J serve) (Session.Faithful fs)
      (Session.accepted frameMax (stream fs)) events := by
  have hinvariant : Throughout (Session.onConn J serve)
      (fun s => ∃ rest, s.Holds frameMax fs rest ∧ (s.released = true → rest = []))
      (Session.accepted frameMax (stream fs)) events := by
    refine throughout_of_along ?_ ⟨fs, ⟨rfl, rfl, rfl, rfl, rfl, hfs⟩, fun hreleased => ?_⟩ h
    · rintro s e ⟨rest, hs, hend⟩ hspared
      by_cases hreleased : s.released = true
      · have hsame : s.onConn J serve e = s := by rw [Session.onConn, if_pos hreleased]
        rw [hsame]
        exact ⟨rest, hs, hend⟩
      · exact onConn_holds hbound hs (by simpa using hreleased) hspared
    · cases hreleased
  refine hinvariant.mono ?_
  rintro s ⟨rest, hs, hend⟩
  refine ⟨?_, fun hreleased => ?_⟩
  · rw [hs.sent]
    exact List.prefix_append _ _
  · rw [hs.sent, hend hreleased]
    simp

end Sessions

section Examples

private theorem silent_fragments :
    ∀ f ∈ ([] : List Bytes), Library.Json.WellFormed f ∧ 10 ∉ f := List.forall_mem_nil _

private def silent (_ : ℕ) : Serving :=
  ⟨fun _ => true, ⟨[], Status.ok, silent_fragments⟩⟩

private def noJson : Mcp.JsonLibrary := ⟨fun _ _ => none, fun _ => none⟩

private theorem proper_short : ∀ f ∈ ([[0x78]] : List Bytes), Proper 4096 f := by
  intro f hf
  obtain rfl := List.mem_singleton.mp hf
  exact ⟨by decide, by decide, by decide⟩

private def endFirst : Event :=
  ⟨false, true, false, [], fun _ => true, [.ready 1, .again], [.wrote 4096]⟩

/-- The end of the file comes with the next event. -/
private def endLater : List Event :=
  [endFirst, ⟨false, true, true, [], fun _ => true, [.ready 0], []⟩]

theorem requests_dispatched_later :
    (∀ f ∈ ([[0x78]] : List Bytes), Proper 4096 f) ∧
      Along (Session.onConn noJson silent) (Session.Spared noJson silent)
        (Session.accepted 4096 (stream [[0x78]])) endLater ∧
      Throughout (Session.onConn noJson silent) (Session.Faithful [[0x78]])
        (Session.accepted 4096 (stream [[0x78]])) endLater := by
  have hspared : Along (Session.onConn noJson silent) (Session.Spared noJson silent)
      (Session.accepted 4096 (stream [[0x78]])) endLater := by
    have hbehind : (Session.accepted 4096 (stream [[0x78]])).behind endFirst = [] := by
      decide
    have hlines : ((Session.accepted 4096 (stream [[0x78]])).arrived endFirst).1 = [[0x78]] := by
      decide
    refine ⟨fun _ _ => ⟨fun hwritable => absurd hwritable (by decide), fun _ => rfl, fun _ => ?_⟩,
      fun _ hleft => absurd (by decide +kernel) hleft, trivial⟩
    refine ⟨fun _ _ => rfl, by decide, ?_, fun hne => absurd hbehind hne⟩
    intro before l after hsplit hafter
    rcases hafter with hafter | hne
    · have hlength := congrArg List.length (hlines.symm.trans hsplit)
      have hpos := List.length_pos_iff.mpr hafter
      simp only [List.length_append, List.length_cons, List.length_nil] at hlength
      omega
    · exact absurd hbehind hne
  exact ⟨proper_short, hspared, requests_dispatched noJson silent 4096 (by decide) [[0x78]]
    proper_short endLater hspared⟩

/-- The same read loop sees the frame and the end of the file. -/
theorem frame_lost_to_end :
    ¬ ∀ (J : Mcp.JsonLibrary) (serve : ℕ → Serving) (frameMax : ℕ), frameMax ≤ maxControlFrame →
      ∀ fs : List Bytes, (∀ f ∈ fs, Proper frameMax f) → ∀ events : List Event,
        Throughout (Session.onConn J serve) (Session.Faithful fs)
          (Session.accepted frameMax (stream fs)) events := by
  intro h
  have hlast := (h noJson silent 4096 (by decide) [[0x78]] proper_short
    [⟨false, true, true, [], fun _ => true, [.ready 1, .ready 0], []⟩]).last
  have hall := hlast.2 (by decide)
  exact absurd hall (by decide)

end Examples
end AsmFlow.Control
