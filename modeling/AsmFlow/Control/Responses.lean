import AsmFlow.Control.Dispatch
import AsmFlow.Json.Lines

/-!
# Whole frames, one per request

An answer that finds room is one frame behind what the outbox held. What room there
is depends on the frames that the client has not read.
-/

namespace AsmFlow.Control

open Http Json Library Library.Json

/-- The identifier of a response, as the envelope writes it. -/
def idText : Option Bytes → List Bytes
  | none => [ascii "null"]
  | some id => Plan.stringText id

/-- One object that begins with the identifier, on one line. -/
def IsResponse (id : Option Bytes) (f : Bytes) : Prop :=
  ∃ text, f = text ++ [10] ∧ 10 ∉ text ∧ WellFormed text ∧
    ascii "\x7b\"id\":" ++ (idText id).flatten <+: text

/-- The calls of an answer on a fresh writer. -/
def planned (calls : List Json.Call) : Plan := Plan.calls calls [] false

/-- The calls write one complete value, whose appends and line feed find room in the
outbox and under the ceiling. -/
structure Room (alloc : ℕ → Bool) (outbox : Buffer) (frameMax : ℕ) (calls : List Json.Call) : Prop where
  complete : (planned calls).next.map Prod.fst = some []
  fits : outbox.Fits alloc ((planned calls).pieces ++ [[10]])
  short : (planned calls).pieces.flatten.length + 1 ≤ frameMax

section Plans

/-- The appends of the envelope. -/
def envelopeText (id : Option Bytes) : List Bytes :=
  [0x7B] :: (Plan.stringText (ascii "id") ++ [0x3A] :: idText id)

/-- The envelope leaves the object open behind the identifier. -/
theorem planned_envelope (id : Option Bytes) (calls : List Json.Call) :
    planned (envelopeCalls id ++ calls) =
      (Plan.puts (envelopeText id) [⟨false, true, false⟩] true).andThen (Plan.calls calls) := by
  have henvelope : Plan.calls (envelopeCalls id) [] false =
      Plan.puts (envelopeText id) [⟨false, true, false⟩] true := by
    cases id with
    | none => rfl
    | some id => simp [envelopeCalls, Plan.calls, Plan.call, Plan.beginContainer,
        Plan.prepareValue, Plan.andThen, Plan.puts, Plan.key, Plan.value, Plan.itemText, idText,
        envelopeText, jwMaxDepth]
  rw [planned, Plan.calls_append, henvelope]

theorem envelopeText_flatten (id : Option Bytes) :
    (envelopeText id).flatten = ascii "\x7b\"id\":" ++ (idText id).flatten := by
  rw [envelopeText, List.flatten_cons, List.flatten_append, List.flatten_cons,
    ← List.append_assoc, ← List.append_assoc]
  rfl

theorem planned_success (id : Option Bytes) : (planned (successCalls id)).next.isSome = true := by
  rw [successCalls, planned_envelope]
  rfl

end Plans


section Rooms

variable {alloc : ℕ → Bool} {b : Buffer}

/-- A finished writer has appended what was planned, or records why not. -/
theorem finish_planned (alloc : ℕ → Bool) (b : Buffer) (calls : List Json.Call) :
    let r := (run (Writer.step alloc) (Writer.init b) calls).finish
    r.1.out = (b.appendAll alloc (planned calls).pieces).1 ∧
      (r.2 = Status.ok ∧ b.Fits alloc (planned calls).pieces ∧
          (planned calls).next.map Prod.fst = some [] ∨
        r.2 < 0 ∧ ¬ (b.Fits alloc (planned calls).pieces ∧
          (planned calls).next.map Prod.fst = some [])) := by
  obtain ⟨hout, -, houtcome⟩ := follows_calls alloc (w := Writer.init b) rfl calls
  intro r
  unfold r Writer.finish
  rcases houtcome with ⟨hfits, hnext, hok⟩ | ⟨hneg, hnot⟩
  · dsimp only at hnext hok
    change (planned calls).next = _ at hnext
    rw [if_neg (by rw [hok]; decide), hnext]
    split_ifs with hopen
    · refine ⟨hout, Or.inr ⟨(by decide : Status.internal < 0), ?_⟩⟩
      rintro ⟨-, hclosed⟩
      rw [Option.map_some, Option.some.injEq] at hclosed
      exact hopen (List.length_eq_zero_iff.mpr hclosed)
    · refine ⟨hout, Or.inl ⟨rfl, hfits, ?_⟩⟩
      rw [Option.map_some, List.length_eq_zero_iff.mp (not_not.mp hopen)]
  · dsimp only at hneg
    rw [if_pos hneg]
    refine ⟨hout, Or.inr ⟨hneg, ?_⟩⟩
    rintro ⟨hfits, hclosed⟩
    refine hnot ⟨hfits, ?_⟩
    obtain ⟨s, hs, -⟩ := Option.map_eq_some_iff.mp hclosed
    change (planned calls).next.isSome = true
    rw [hs]
    rfl

/-- With room for it, the line feed ends the frame. -/
theorem frameFinish_of_room {frameMax : ℕ} {calls : List Json.Call} (h : Room alloc b frameMax calls) :
    ∃ b', frameFinish alloc (b.appendAll alloc (planned calls).pieces).1 b.len frameMax =
        (b', Status.ok) ∧
      b'.data = b.data ++ ((planned calls).pieces.flatten ++ [10]) := by
  obtain ⟨-, hfits, hshort⟩ := h
  obtain ⟨hpieces, hend⟩ := (Buffer.fits_append _ _).mp hfits
  have hdata : (b.appendAll alloc (planned calls).pieces).1.data =
      b.data ++ (planned calls).pieces.flatten := by
    rcases Buffer.appendAll_cases alloc b (planned calls).pieces with ⟨-, hall⟩ | ⟨hneg, -⟩
    · exact hall
    · exact absurd hneg (ok_of_fits hpieces)
  have hlen : (b.appendAll alloc (planned calls).pieces).1.len - b.len =
      (planned calls).pieces.flatten.length := by
    simp [Buffer.len, hdata]
  unfold frameFinish
  rw [hlen, if_neg (by omega), Buffer.appendByte]
  rcases Buffer.append_cases alloc (b.appendAll alloc (planned calls).pieces).1 [10] with
    ⟨b', heq, hb', -⟩ | ⟨e, he, heq⟩
  · exact ⟨b', heq, by rw [hb', hdata, List.append_assoc]⟩
  · have hfull : e = Status.ok := by
      rw [Buffer.Fits, Buffer.appendAll, heq] at hend
      dsimp only at hend
      rwa [if_pos he] at hend
    rw [hfull] at he
    exact absurd he (by decide : ¬ Status.ok < 0)

theorem frameFinish_of_neg {start frameMax : ℕ} (h : (frameFinish alloc b start frameMax).2 < 0) :
    (frameFinish alloc b start frameMax).1 = b := by
  unfold frameFinish at h ⊢
  split_ifs with hlarge
  · rfl
  · rw [if_neg hlarge] at h
    exact Buffer.append_of_neg h

/-- A frame that can be ended had room. -/
theorem room_of_frameFinish {frameMax : ℕ} {calls : List Json.Call}
    (hcomplete : (planned calls).next.map Prod.fst = some [])
    (hfits : b.Fits alloc (planned calls).pieces)
    (h : ¬ (frameFinish alloc (b.appendAll alloc (planned calls).pieces).1 b.len frameMax).2 < 0) :
    Room alloc b frameMax calls := by
  have hlen : (b.appendAll alloc (planned calls).pieces).1.len - b.len =
      (planned calls).pieces.flatten.length := by
    rcases Buffer.appendAll_cases alloc b (planned calls).pieces with ⟨-, hall⟩ | ⟨hneg, -⟩
    · simp [Buffer.len, hall]
    · exact absurd hneg (ok_of_fits hfits)
  unfold frameFinish at h
  rw [hlen] at h
  split_ifs at h with hlarge
  · exact absurd (by decide : Status.ctlFrameLarge < 0) h
  · refine ⟨hcomplete, (Buffer.fits_append _ _).mpr ⟨hfits, ?_⟩, not_lt.mp hlarge⟩
    rw [Buffer.Fits, Buffer.appendAll]
    rcases Buffer.append_cases alloc (b.appendAll alloc (planned calls).pieces).1 [10] with
      ⟨b', heq, -⟩ | ⟨e, he, heq⟩
    · rw [heq]
      rfl
    · rw [Buffer.appendByte, heq] at h
      exact absurd he h

/-- Calls that find room leave a closed writer behind their text. -/
theorem run_of_room {frameMax : ℕ} {calls : List Json.Call} (h : Room alloc b frameMax calls) :
    let w := run (Writer.step alloc) (Writer.init b) calls
    w.status = Status.ok ∧ w.stack = [] ∧ w.out.data = b.data ++ (planned calls).pieces.flatten := by
  obtain ⟨hcomplete, hfits, -⟩ := h
  have hpieces := ((Buffer.fits_append _ _).mp hfits).1
  obtain ⟨hout, -, ⟨-, hnext, hok⟩ | ⟨-, hnot⟩⟩ :=
    follows_calls alloc (w := Writer.init b) rfl calls
  · refine ⟨hok, ?_, ?_⟩
    · change (planned calls).next = _ at hnext
      rw [hnext, Option.map_some, Option.some.injEq] at hcomplete
      exact hcomplete
    · dsimp only at hout
      rw [hout]
      rcases Buffer.appendAll_cases alloc b (planned calls).pieces with ⟨-, hall⟩ | ⟨hneg, -⟩
      · exact hall
      · exact absurd hneg (ok_of_fits hpieces)
  · refine absurd ⟨hpieces, ?_⟩ hnot
    obtain ⟨s, hs, -⟩ := Option.map_eq_some_iff.mp hcomplete
    change (planned calls).next.isSome = true
    rw [hs]
    rfl

/-- What finds room behind the envelope is a response. -/
theorem isResponse_of_room {frameMax : ℕ} {id : Option Bytes} {calls : List Json.Call}
    (hraw : ∀ f ∈ fragments calls, WellFormed f ∧ 10 ∉ f)
    (h : Room alloc b frameMax (envelopeCalls id ++ calls)) :
    IsResponse id ((planned (envelopeCalls id ++ calls)).pieces.flatten ++ [10]) := by
  have hfragments : fragments (envelopeCalls id ++ calls) = fragments calls := by
    rw [fragments_append]
    cases id <;> rfl
  rw [← hfragments] at hraw
  have hps : (planned (envelopeCalls id ++ calls)).pieces =
      envelopeText id ++ (Plan.calls calls [⟨false, true, false⟩] true).pieces := by
    rw [planned_envelope]
    rfl
  refine ⟨_, rfl, clean_calls _ (fun f hf => (hraw f hf).2) _ _, ?_, ?_⟩
  · obtain ⟨k, hk⟩ := exists_depth fun f hf => (hraw f hf).1
    obtain ⟨hok, hclosed, htext⟩ := run_of_room h
    obtain ⟨p, hdata, hneg | ⟨-, hshape, -⟩⟩ :=
      run_written alloc (w := Writer.init b) _ hk rfl .start
    · rw [hok] at hneg
      exact absurd hneg (by decide : ¬ Status.ok < 0)
    · obtain rfl : p = _ := List.append_cancel_left (hdata.symm.trans htext)
      rw [hclosed, List.nil_append] at hshape
      exact ⟨_, hshape.closed (by rw [hps]; simp [envelopeText])⟩
  · rw [hps, List.flatten_append, envelopeText_flatten]
    exact List.prefix_append _ _

end Rooms

section Answers

/-- The outbox after the handler's answer has been appended, as far as it went, and
taken back. -/
def rolledBack (alloc : ℕ → Bool) (outbox : Buffer) (calls : List Json.Call) : Buffer :=
  (outbox.appendAll alloc (planned calls).pieces).1.truncate outbox.len

/-- The answer to the request finds room: the handler's result, or where that does
not, the error that replaces it. That error has no identifier to echo, so the request must
have none either. -/
def Answerable (alloc : ℕ → Bool) (c : Conn) (answer : Answer) : Request → Prop
  | .unreadable => Room alloc c.outbox c.frameMax (errorCalls none .invalidJson none)
  | .refused id code field => Room alloc c.outbox c.frameMax (errorCalls id code (some field))
  | .invoke id false => Room alloc c.outbox c.frameMax (errorCalls id .unsupported none)
  | .invoke id true =>
    c.outbox.Fits alloc (planned (successCalls id)).pieces ∧
      if answer.status < 0 then
        Room alloc (rolledBack alloc c.outbox (successCalls id ++ answer.calls)) c.frameMax
          (errorCalls id (Conn.failureCode answer.status) none)
      else
        Room alloc c.outbox c.frameMax (successCalls id ++ answer.calls ++ [.endObject]) ∨
          id = none ∧
            Room alloc
              (rolledBack alloc c.outbox (successCalls id ++ answer.calls ++ [.endObject]))
              c.frameMax (errorCalls none .internal none)

variable {alloc : ℕ → Bool} {c : Conn}

theorem rolledBack_data (alloc : ℕ → Bool) (calls : List Json.Call) :
    (rolledBack alloc c.outbox calls).data = c.outbox.data := Buffer.truncate_appendAll _

/-- An error that finds room is a response. -/
theorem writeError_answers {id : Option Bytes} {code : ErrorCode} {field : Option String}
    (h : Room alloc c.outbox c.frameMax (errorCalls id code field)) :
    ∃ f, IsResponse id f ∧
      (c.writeError alloc id code field).1.outbox.data = c.outbox.data ++ f := by
  have hresponse : IsResponse id ((planned (errorCalls id code field)).pieces.flatten ++ [10]) := by
    have hcalls : ∃ calls, errorCalls id code field = envelopeCalls id ++ calls ∧
        fragments calls = [] := by
      unfold errorCalls
      rw [List.append_assoc, List.append_assoc]
      refine ⟨_, rfl, ?_⟩
      cases field <;> rfl
    obtain ⟨calls, heq, hnone⟩ := hcalls
    rw [heq] at h ⊢
    apply isResponse_of_room ?_ h
    rw [hnone]
    exact List.forall_mem_nil _
  refine ⟨_, hresponse, ?_⟩
  obtain ⟨hout, ⟨hok, -⟩ | ⟨-, hnot⟩⟩ :=
    finish_planned alloc c.outbox (errorCalls id code field)
  · obtain ⟨b', hfinish, hdata⟩ := frameFinish_of_room h
    unfold Conn.writeError
    cases hrun : (run (Writer.step alloc) (Writer.init c.outbox)
        (errorCalls id code field)).finish with
    | mk w st =>
      rw [hrun] at hout hok
      dsimp only at hout hok ⊢
      rw [if_neg (by rw [hok]; decide), hout, hfinish]
      exact hdata
  · exact absurd ⟨((Buffer.fits_append _ _).mp h.fits).1, h.complete⟩ hnot

theorem callsInOrder_eq {w : Writer} (hw : w.status = Status.ok) (cs : List Json.Call) :
    Conn.callsInOrder alloc w cs =
      (run (Writer.step alloc) w cs, (run (Writer.step alloc) w cs).status) := by
  induction cs generalizing w with
  | nil => rw [Conn.callsInOrder, run_nil, hw]
  | cons d cs ih =>
    have hstep := follows_call alloc hw d
    rw [Conn.callsInOrder, Writer.andThen, run_cons]
    by_cases hneg : (w.call alloc d).2 < 0
    · have hfailed : (Writer.step alloc w d).status < 0 := by
        rw [Writer.step, hstep.status_eq]
        exact hneg
      rw [if_pos hneg, run_of_failed hfailed, Writer.step, hstep.status_eq]
    · rw [if_neg hneg]
      rcases hstep.outcome with ⟨-, -, hok⟩ | ⟨hneg', -⟩
      · exact ih (hstep.status_eq.trans hok)
      · exact absurd hneg' hneg

theorem run_out (b : Buffer) (calls : List Json.Call) :
    (run (Writer.step alloc) (Writer.init b) calls).out =
      (b.appendAll alloc (planned calls).pieces).1 :=
  (follows_calls alloc (w := Writer.init b) rfl calls).out_eq

theorem writeSuccessBegin_of_fits {id : Option Bytes}
    (h : c.outbox.Fits alloc (planned (successCalls id)).pieces) :
    c.writeSuccessBegin alloc id =
      (run (Writer.step alloc) (Writer.init c.outbox) (successCalls id), c.outbox.len,
        Status.ok) := by
  have hok : (run (Writer.step alloc) (Writer.init c.outbox) (successCalls id)).status =
      Status.ok := by
    rcases (follows_calls alloc (w := Writer.init c.outbox) rfl
      (successCalls id)).outcome with ⟨-, -, hok⟩ | ⟨-, hnot⟩
    · exact hok
    · exact absurd ⟨h, planned_success id⟩ hnot
  rw [Conn.writeSuccessBegin, callsInOrder_eq rfl, hok]

/-- The handler's result, ended and answered with, or replaced. -/
theorem writeSuccessEnd_answers {answer : Answer} {id : Option Bytes}
    (h : Room alloc c.outbox c.frameMax (successCalls id ++ answer.calls ++ [.endObject]) ∨
      id = none ∧
        Room alloc (rolledBack alloc c.outbox (successCalls id ++ answer.calls ++ [.endObject]))
          c.frameMax (errorCalls none .internal none)) :
    let w := run (Writer.step alloc) (Writer.init c.outbox) (successCalls id ++ answer.calls)
    ∃ f, IsResponse id f ∧
      (Conn.writeSuccessEnd alloc { c with outbox := w.out } w c.outbox.len).1.outbox.data =
        c.outbox.data ++ f := by
  intro w
  have hlast : (w.call alloc .endObject).1 =
      run (Writer.step alloc) (Writer.init c.outbox)
        (successCalls id ++ answer.calls ++ [.endObject]) := by
    rw [run_append _ _ [Json.Call.endObject]]
    rfl
  generalize hcalls : successCalls id ++ answer.calls ++ [.endObject] = calls at h hlast
  have hresponse (hroom : Room alloc c.outbox c.frameMax calls) :
      IsResponse id ((planned calls).pieces.flatten ++ [10]) := by
    rw [successCalls, List.append_assoc, List.append_assoc] at hcalls
    rw [← hcalls] at hroom ⊢
    apply isResponse_of_room ?_ hroom
    rw [fragments_append, fragments_append]
    intro f hf
    exact answer.fragments_ok f (by simpa [fragments] using hf)
  have hreplaced (hnone : ¬ Room alloc c.outbox c.frameMax calls) :
      ∃ f, IsResponse id f ∧
        (Conn.replaceAnswer alloc
          { c with outbox := (c.outbox.appendAll alloc (planned calls).pieces).1 }
          c.outbox.len).1.outbox.data = c.outbox.data ++ f := by
    obtain ⟨rfl, hroom⟩ := h.resolve_left hnone
    obtain ⟨f, hf, hdata⟩ := writeError_answers
      (c := { c with outbox := rolledBack alloc c.outbox calls }) hroom
    have hsame : Conn.replaceAnswer alloc
        { c with outbox := (c.outbox.appendAll alloc (planned calls).pieces).1 } c.outbox.len =
        (({ c with outbox := rolledBack alloc c.outbox calls }.writeError alloc none .internal
          none).1, Status.ok) := by
      rw [Conn.replaceAnswer, rolledBack]
    refine ⟨f, hf, ?_⟩
    rw [rolledBack_data] at hdata
    rw [hsame]
    dsimp only
    exact hdata
  obtain ⟨hout, hend⟩ := finish_planned alloc c.outbox calls
  unfold Conn.writeSuccessEnd
  rw [hlast]
  cases hfinish : (run (Writer.step alloc) (Writer.init c.outbox) calls).finish with
  | mk v st =>
    rw [hfinish] at hout hend
    dsimp only at hout hend ⊢
    rcases hend with ⟨hok, hfits, hcomplete⟩ | ⟨hneg, hnot⟩
    · rw [if_neg (by rw [hok]; decide), hout]
      by_cases hroom : Room alloc c.outbox c.frameMax calls
      · obtain ⟨b', hframe, hdata⟩ := frameFinish_of_room hroom
        rw [hframe]
        dsimp only
        rw [if_neg (by decide)]
        exact ⟨_, hresponse hroom, hdata⟩
      · have hneg : (frameFinish alloc (c.outbox.appendAll alloc (planned calls).pieces).1
            c.outbox.len c.frameMax).2 < 0 := by
          by_contra hneg
          exact hroom (room_of_frameFinish hcomplete hfits hneg)
        have hsame := frameFinish_of_neg hneg
        cases hframe : frameFinish alloc (c.outbox.appendAll alloc (planned calls).pieces).1
            c.outbox.len c.frameMax with
        | mk b' st' =>
          rw [hframe] at hneg hsame
          dsimp only at hneg hsame ⊢
          rw [if_pos hneg, hsame]
          exact hreplaced hroom
    · rw [if_pos hneg, hout]
      apply hreplaced
      intro hroom
      exact hnot ⟨((Buffer.fits_append _ _).mp hroom.fits).1, hroom.complete⟩

/-- A request whose answer finds room is answered with its identifier. -/
theorem respond_answers {answer : Answer} {request : Request}
    (h : Answerable alloc c answer request) :
    ∃ f, IsResponse request.id f ∧
      (c.respond alloc answer request).1.outbox.data = c.outbox.data ++ f := by
  cases request with
  | unreadable =>
    have hroom : Room alloc c.outbox c.frameMax (errorCalls none .invalidJson none) := h
    rw [Conn.respond, Request.id]
    dsimp only
    exact writeError_answers hroom
  | refused id code field =>
    rw [Conn.respond]
    dsimp only
    exact writeError_answers h
  | invoke id handler =>
    rw [Conn.respond, Conn.methodInvoke]
    cases handler with
    | false =>
      rw [if_pos rfl]
      exact writeError_answers h
    | true =>
      obtain ⟨hbegin, hrest⟩ := h
      rw [if_neg (by decide), writeSuccessBegin_of_fits hbegin]
      dsimp only
      rw [if_neg (by decide), ← run_append]
      by_cases hneg : answer.status < 0
      · rw [if_pos hneg] at hrest ⊢
        obtain ⟨f, hf, hdata⟩ := writeError_answers
          (c := { c with outbox := rolledBack alloc c.outbox (successCalls id ++ answer.calls) })
          hrest
        refine ⟨f, hf, ?_⟩
        rw [run_out, ← rolledBack]
        rw [rolledBack_data alloc (successCalls id ++ answer.calls)] at hdata
        exact hdata
      · rw [if_neg hneg] at hrest ⊢
        exact writeSuccessEnd_answers hrest

end Answers

section Turns

/-- What happens to the outbox of a client: a frame is handled, a frame cannot be read,
or some of the outbox is written. -/
inductive Turn
  | request (alloc : ℕ → Bool) (frame : Bytes) (answer : Answer)
  | protocolError (alloc : ℕ → Bool) (cause : Status)
  | flush (answers : List WriteAnswer)

variable (J : Mcp.JsonLibrary)

def Conn.turn (c : Conn) : Turn → Conn
  | .request alloc frame answer => (c.dispatchFrame J alloc answer frame).1
  | .protocolError alloc cause => c.protocolError alloc cause
  | .flush answers => (c.flush answers).1

/-- The identifier that the turn's frame is to carry, where it has one. -/
def Turn.replies (c : Conn) : Turn → Option (Option Bytes)
  | .request _ frame _ => some (readRequest J c.frameMax frame).id
  | .protocolError _ _ => some none
  | .flush _ => none

/-- What the turn has to say finds room. -/
def Turn.Roomy (c : Conn) : Turn → Prop
  | .request alloc frame answer =>
    Answerable alloc c answer (readRequest J c.frameMax frame)
  | .protocolError alloc cause =>
    Room alloc c.outbox c.frameMax
      (errorCalls none (if cause = Status.ctlFrameLarge then .frameTooLarge else .invalidJson) none)
  | .flush _ => True

/-- The outbox is made of whole frames. -/
def Conn.Framed (c : Conn) : Prop :=
  ∃ fs : List Bytes, (∀ f ∈ fs, ∃ id, IsResponse id f) ∧ c.outbox.data = fs.flatten

/-- A turn that has a frame to add adds just that one. -/
def Turn.AddsOne (c : Conn) (t : Turn) : Prop :=
  ∀ id ∈ t.replies J c, ∃ f, IsResponse id f ∧ (c.turn J t).outbox.data = c.outbox.data ++ f

variable {J} {c : Conn}

/-- What has been written leaves the outbox only when everything has. -/
theorem flush_outbox (answers : List WriteAnswer) :
    (c.flush answers).1.outbox = c.outbox ∨ (c.flush answers).1.outbox = c.outbox.clear := by
  induction answers generalizing c with
  | nil =>
    rw [Conn.flush]
    split_ifs
    · exact Or.inr rfl
    · exact Or.inl rfl
  | cons a answers ih =>
    unfold Conn.flush
    split_ifs
    · exact Or.inr rfl
    · cases a with
      | wrote n => exact ih (c := { c with cursor := c.cursor + min n (c.outbox.len - c.cursor) })
      | again => exact Or.inl rfl
      | intr => exact ih
      | failed st => exact Or.inl rfl

theorem Turn.Roomy.addsOne {t : Turn} (h : t.Roomy J c) : t.AddsOne J c := by
  intro id hid
  cases t with
  | request alloc frame answer =>
    obtain rfl := Option.some.inj hid
    exact respond_answers h
  | protocolError alloc cause =>
    obtain rfl := Option.some.inj hid
    rw [Conn.turn, Conn.protocolError, Conn.writeProtocolError]
    dsimp only
    exact writeError_answers h
  | flush answers => cases hid

/-- A turn keeps the outbox made of whole frames. -/
theorem Turn.Roomy.framed {t : Turn} (h : t.Roomy J c) (hc : c.Framed) : (c.turn J t).Framed := by
  obtain ⟨fs, hfs, hdata⟩ := hc
  have hadd {id : Option Bytes} (hid : id ∈ t.replies J c) : (c.turn J t).Framed := by
    obtain ⟨f, hf, hadded⟩ := h.addsOne id hid
    refine ⟨fs ++ [f], ?_, by rw [hadded, hdata]; simp⟩
    intro g hg
    rcases List.mem_append.mp hg with hg | hg
    · exact hfs g hg
    · obtain rfl := List.mem_singleton.mp hg
      exact ⟨id, hf⟩
  cases t with
  | request alloc frame answer => exact hadd rfl
  | protocolError alloc cause => exact hadd rfl
  | flush answers =>
    rcases flush_outbox (c := c) answers with heq | heq
    · exact ⟨fs, hfs, by rw [Conn.turn, heq, hdata]⟩
    · exact ⟨[], List.forall_mem_nil _, by rw [Conn.turn, heq]; rfl⟩

/-- Where every answer finds room, the outbox is always made of whole frames and every
request adds one, with its identifier. -/
theorem one_response_each (J : Mcp.JsonLibrary) (frameMax : ℕ) (turns : List Turn)
    (h : Along (Conn.turn J) (fun c t => t.Roomy J c) (Conn.accepted frameMax) turns) :
    Throughout (Conn.turn J) Conn.Framed (Conn.accepted frameMax) turns ∧
      Along (Conn.turn J) (fun c t => t.AddsOne J c) (Conn.accepted frameMax) turns :=
  ⟨throughout_of_along (fun _ _ hc ht => ht.framed hc)
    ⟨[], List.forall_mem_nil _, rfl⟩ h, h.mono fun _ _ ht => ht.addsOne⟩

end Turns

section Examples

private def versionFrame : Bytes := ascii "\x7b\"id\":\"a\",\"method\":\"system.version\"\x7d"

/-- A library that knows one request. -/
private def oneRequest : Mcp.JsonLibrary :=
  ⟨fun _ frame =>
    if frame = versionFrame then
      some (.object [("id", .string "a"), ("method", .string "system.version")])
    else none, fun _ => none⟩

private theorem read_versionFrame :
    readRequest oneRequest 4096 versionFrame = .invoke (some (ascii "a")) true := by decide

private theorem shortAnswer_fragments :
    ∀ f ∈ ([] : List Bytes), Library.Json.WellFormed f ∧ 10 ∉ f := List.forall_mem_nil _

private def shortAnswer : Answer where
  calls := [.beginObject, .member (ascii "version") (.string (some (ascii "1"))), .endObject]
  status := Status.ok
  fragments_ok := shortAnswer_fragments

private def shortTurns : List Turn :=
  [.request (fun _ => true) versionFrame shortAnswer, .flush [.wrote 10, .again]]

theorem one_response_each_version :
    Along (Conn.turn oneRequest) (fun c t => t.Roomy oneRequest c) (Conn.accepted 4096)
        shortTurns ∧
      Throughout (Conn.turn oneRequest) Conn.Framed (Conn.accepted 4096) shortTurns := by
  have hroomy : Along (Conn.turn oneRequest) (fun c t => t.Roomy oneRequest c)
      (Conn.accepted 4096) shortTurns := by
    refine ⟨?_, trivial, trivial⟩
    change Answerable _ _ _ (readRequest oneRequest 4096 versionFrame)
    rw [read_versionFrame]
    refine ⟨by decide, ?_⟩
    rw [if_neg (by decide)]
    exact Or.inl ⟨by decide, by decide, by decide⟩
  exact ⟨hroomy, (one_response_each oneRequest 4096 shortTurns hroomy).1⟩

private def longText : Bytes := (Plan.stringText (List.replicate 4100 97)).flatten

/-- A result beyond the ceiling. -/
private def longAnswer : Answer where
  calls := [.raw longText]
  status := Status.ok
  fragments_ok := by
    intro f hf
    obtain rfl := List.mem_singleton.mp hf
    exact ⟨⟨0, .scalar (Or.inr (Or.inl (isString_pieces _)))⟩, lf_notMem_stringText _⟩

/-- The error that replaces the result does not carry the identifier of the request. -/
theorem replaced_answer_anonymous :
    ¬ ∀ (J : Mcp.JsonLibrary) (frameMax : ℕ) (turns : List Turn),
      Throughout (Conn.turn J) Conn.Framed (Conn.accepted frameMax) turns ∧
        Along (Conn.turn J) (fun c t => t.AddsOne J c) (Conn.accepted frameMax) turns := by
  intro h
  obtain ⟨-, hadds, -⟩ := h oneRequest 4096 [.request (fun _ => true) versionFrame longAnswer]
  obtain ⟨f, ⟨text, rfl, -, -, hbegins⟩, hdata⟩ := hadds (some (ascii "a")) (by
    change some (readRequest oneRequest 4096 versionFrame).id = _
    rw [read_versionFrame]
    rfl)
  have hbefore := hbegins.trans (List.prefix_append text [10])
  rw [← List.nil_append (text ++ [10])] at hbefore
  change (Conn.turn oneRequest (Conn.accepted 4096) _).outbox.data = [] ++ (text ++ [10]) at hdata
  rw [← hdata] at hbefore
  exact absurd hbefore (by decide +kernel)

end Examples

end AsmFlow.Control
