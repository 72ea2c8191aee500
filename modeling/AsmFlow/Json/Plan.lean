import AsmFlow.Json.Writer
import AsmFlow.Library.Runs
import AsmFlow.Memory.Appends

/-!
# The bytes of an answer, before they are appended

Which bytes the writer appends for a call depends on its stack alone. A plan is
these bytes and the stack after them, or no stack where the call does not fit the
grammar. The writer appends what is planned, as far as there is room.
-/

namespace AsmFlow.Json

open Http Library

/-- The pieces a call appends, and the stack and the root flag after it. -/
structure Plan where
  pieces : List Bytes
  next : Option (List Level × Bool)

namespace Plan

/-- Pieces that are appended with nothing else changing. -/
def puts (ps : List Bytes) (st : List Level) (d : Bool) : Plan := ⟨ps, some (st, d)⟩

def refuse : Plan := ⟨[], none⟩

def andThen (p : Plan) (f : List Level → Bool → Plan) : Plan :=
  match p.next with
  | none => p
  | some (st, d) => ⟨p.pieces ++ (f st d).pieces, (f st d).next⟩

def prepareValue (st : List Level) (d : Bool) : Plan :=
  match st with
  | [] => if d then refuse else ⟨[], some ([], true)⟩
  | l :: rest =>
    if l.array then
      (if l.hasItem then puts [[0x2C]] (l :: rest) d else puts [] (l :: rest) d).andThen fun st d =>
        ⟨[], some (st.modifyHead fun l => { l with hasItem := true }, d)⟩
    else if l.wantValue then ⟨[], some ({ l with wantValue := false } :: rest, d)⟩
    else refuse

def value (text : List Bytes) (st : List Level) (d : Bool) : Plan :=
  (prepareValue st d).andThen (puts text)

def beginContainer (array : Bool) (opening : UInt8) (st : List Level) (d : Bool) : Plan :=
  (prepareValue st d).andThen fun st d => (puts [[opening]] st d).andThen fun st d =>
    if jwMaxDepth ≤ st.length then refuse else ⟨[], some (⟨array, false, false⟩ :: st, d)⟩

def endContainer (array : Bool) (closing : UInt8) (st : List Level) (d : Bool) : Plan :=
  match st with
  | [] => refuse
  | l :: rest =>
    if l.array ≠ array then refuse
    else if l.wantValue then refuse
    else puts [[closing]] rest d

/-- The appends of `af_jw_emit_string`. -/
def stringText (s : Bytes) : List Bytes := [0x22] :: (stringPieces 0 s ++ [[0x22]])

def key (k : Bytes) (st : List Level) (d : Bool) : Plan :=
  match st with
  | [] => refuse
  | l :: rest =>
    if l.array then refuse
    else if l.wantValue then refuse
    else
      (if l.hasItem then puts [[0x2C]] (l :: rest) d else puts [] (l :: rest) d).andThen fun st d =>
        (puts (stringText k) st d).andThen fun st d =>
          (puts [[0x3A]] st d).andThen fun st d =>
            ⟨[], some (st.modifyHead fun l => { l with hasItem := true, wantValue := true }, d)⟩

def itemText : Item → List Bytes
  | .stringN s => stringText s
  | .string none => [ascii "null"]
  | .string (some s) => stringText s
  | .uint value => [decimal value.toNat]
  | .int value =>
    (if value < 0 then [[0x2D]] else []) ++
      [decimal (if value < 0 then -value else value).toUInt64.toNat]
  | .bool value => [if value then ascii "true" else ascii "false"]
  | .null => [ascii "null"]

def call (c : Call) (st : List Level) (d : Bool) : Plan :=
  match c with
  | .beginObject => beginContainer false 0x7B st d
  | .beginArray => beginContainer true 0x5B st d
  | .endObject => endContainer false 0x7D st d
  | .endArray => endContainer true 0x5D st d
  | .key k => key k st d
  | .item i => value (itemText i) st d
  | .raw json => value [json] st d
  | .member k i => (key k st d).andThen (value (itemText i))
  | .finish => if st.length ≠ 0 then refuse else puts [] st d

def calls : List Call → List Level → Bool → Plan
  | [], st, d => puts [] st d
  | c :: cs, st, d => (call c st d).andThen (calls cs)

theorem andThen_assoc (p : Plan) (f g : List Level → Bool → Plan) :
    (p.andThen f).andThen g = p.andThen fun st d => (f st d).andThen g := by
  obtain ⟨ps, next⟩ := p
  cases next with
  | none => rfl
  | some s =>
    simp only [andThen]
    obtain ⟨qs, next⟩ := f s.1 s.2
    cases next with
    | none => rfl
    | some s' => simp

theorem calls_append (cs ds : List Call) (st : List Level) (d : Bool) :
    calls (cs ++ ds) st d = (calls cs st d).andThen (calls ds) := by
  induction cs generalizing st d with
  | nil => rfl
  | cons c cs ih =>
    rw [List.cons_append, calls, calls, andThen_assoc]
    congr 1
    funext st d
    exact ih st d

end Plan

section Follows

variable {alloc : ℕ → Bool} {w : Writer}

/-- A sound writer has done what is planned: all of it, or up to the first append
without room, or up to where the plan ends without a stack. -/
structure Follows (alloc : ℕ → Bool) (w : Writer) (r : Writer × Status) (p : Plan) : Prop where
  out_eq : r.1.out = (w.out.appendAll alloc p.pieces).1
  status_eq : r.1.status = r.2
  outcome : (w.out.Fits alloc p.pieces ∧ p.next = some (r.1.stack, r.1.rootDone) ∧
      r.2 = Status.ok) ∨
    (r.2 < 0 ∧ ¬ (w.out.Fits alloc p.pieces ∧ p.next.isSome = true))

theorem ok_of_fits {b : Buffer} {ps : List Bytes} (h : b.Fits alloc ps) :
    ¬ (b.appendAll alloc ps).2 < 0 := by
  rw [show (b.appendAll alloc ps).2 = Status.ok from h]
  decide

theorem neg_of_not_fits {b : Buffer} {ps : List Bytes} (h : ¬ b.Fits alloc ps) :
    (b.appendAll alloc ps).2 < 0 := by
  rcases Buffer.appendAll_cases alloc b ps with ⟨hok, -⟩ | ⟨hneg, -⟩
  · exact absurd hok h
  · exact hneg

/-- The rule for one step after another. -/
theorem Follows.andThen {r : Writer × Status} {next : Writer → Writer × Status} {p : Plan}
    {f : List Level → Bool → Plan} (h : Follows alloc w r p)
    (hnext : ∀ v : Writer, v.status = Status.ok → p.next = some (v.stack, v.rootDone) →
      Follows alloc v (next v) (f v.stack v.rootDone)) :
    Follows alloc w (Writer.andThen r next) (p.andThen f) := by
  obtain ⟨hout, hstatus, ⟨hfits, hplan, hok⟩ | ⟨hneg, hnot⟩⟩ := h
  · have hrun := hnext r.1 (hstatus.trans hok) hplan
    unfold Writer.andThen Plan.andThen
    rw [if_neg (by rw [hok]; decide), hplan]
    have hpieces : w.out.appendAll alloc (p.pieces ++ (f r.1.stack r.1.rootDone).pieces) =
        r.1.out.appendAll alloc (f r.1.stack r.1.rootDone).pieces := by
      rw [Buffer.appendAll_append, if_neg (ok_of_fits hfits), hout]
    have hsame : w.out.Fits alloc (p.pieces ++ (f r.1.stack r.1.rootDone).pieces) ↔
        r.1.out.Fits alloc (f r.1.stack r.1.rootDone).pieces := by
      rw [Buffer.Fits, Buffer.Fits, hpieces]
    refine ⟨?_, hrun.status_eq, ?_⟩
    · rw [hpieces]
      exact hrun.out_eq
    · rw [hsame]
      exact hrun.outcome
  · unfold Writer.andThen
    rw [if_pos hneg]
    unfold Plan.andThen
    cases hplan : p.next with
    | none => exact ⟨hout, hstatus, Or.inr ⟨hneg, hnot⟩⟩
    | some s =>
      have hfull : (w.out.appendAll alloc p.pieces).2 < 0 := by
        apply neg_of_not_fits
        intro hfits
        exact hnot ⟨hfits, by rw [hplan]; rfl⟩
      have hstop (ps : List Bytes) :
          w.out.appendAll alloc (p.pieces ++ ps) = w.out.appendAll alloc p.pieces := by
        rw [Buffer.appendAll_append, if_pos hfull]
      refine ⟨?_, hstatus, Or.inr ⟨hneg, ?_⟩⟩
      · rw [hstop]
        exact hout
      · rintro ⟨hfits, -⟩
        rw [Buffer.Fits, hstop] at hfits
        rw [hfits] at hfull
        exact absurd hfull (by decide : ¬ Status.ok < 0)

theorem follows_self {v : Writer} {st : List Level} {d : Bool} (hv : v.status = Status.ok)
    (hout : v.out = w.out) (hst : v.stack = st) (hd : v.rootDone = d) :
    Follows alloc w (v, Status.ok) ⟨[], some (st, d)⟩ :=
  ⟨hout, hv, Or.inl ⟨rfl, by rw [hst, hd], rfl⟩⟩

theorem follows_fail (hw : w.status = Status.ok) {code : Status} (hcode : code < 0) :
    Follows alloc w (w.fail code) Plan.refuse := by
  have hsound : ¬ w.status < 0 := by
    rw [hw]
    decide
  rw [Writer.fail, if_neg hsound]
  exact ⟨rfl, rfl, Or.inr ⟨hcode, by simp [Plan.refuse]⟩⟩

theorem follows_emit (alloc : ℕ → Bool) (hw : w.status = Status.ok) (p : Bytes) :
    Follows alloc w (w.emit alloc p) (Plan.puts [p] w.stack w.rootDone) := by
  have hsound : ¬ w.status < 0 := by
    rw [hw]
    decide
  unfold Writer.emit
  rcases Buffer.append_cases alloc w.out p with ⟨b, heq, -, -⟩ | ⟨e, he, heq⟩
  · have hall : w.out.appendAll alloc [p] = (b, Status.ok) := by
      simp [Buffer.appendAll, heq, Status.ok]
    rw [heq]
    dsimp only
    rw [if_neg (by decide)]
    exact ⟨by rw [Plan.puts, hall], hw, Or.inl ⟨by rw [Plan.puts, Buffer.Fits, hall], rfl, rfl⟩⟩
  · have hall : w.out.appendAll alloc [p] = (w.out, e) := by
      simp [Buffer.appendAll, heq, he]
    rw [heq]
    dsimp only
    rw [if_pos he, Writer.fail, if_neg hsound]
    refine ⟨by rw [Plan.puts, hall], rfl, Or.inr ⟨he, ?_⟩⟩
    rintro ⟨hfits, -⟩
    rw [Plan.puts, Buffer.Fits, hall] at hfits
    rw [show e = Status.ok from hfits] at he
    exact absurd he (by decide : ¬ Status.ok < 0)

theorem follows_emitAll (hw : w.status = Status.ok) (ps : List Bytes) :
    Follows alloc w (w.emitAll alloc ps) (Plan.puts ps w.stack w.rootDone) := by
  induction ps generalizing w with
  | nil => exact follows_self hw rfl rfl rfl
  | cons p ps ih =>
    have hcons : Plan.puts (p :: ps) w.stack w.rootDone =
        (Plan.puts [p] w.stack w.rootDone).andThen (Plan.puts ps) := rfl
    rw [hcons]
    exact (follows_emit _ hw p).andThen fun v hv _ => ih hv

/-- The comma that is due before the next element or member. -/
theorem follows_comma (hw : w.status = Status.ok) (due : Bool) :
    Follows alloc w (if due then w.emit alloc [0x2C] else (w, Status.ok))
      (if due then Plan.puts [[0x2C]] w.stack w.rootDone else Plan.puts [] w.stack w.rootDone) := by
  cases due with
  | true => exact follows_emit _ hw _
  | false => exact follows_self hw rfl rfl rfl

theorem follows_prepareValue (hw : w.status = Status.ok) :
    Follows alloc w (w.prepareValue alloc) (Plan.prepareValue w.stack w.rootDone) := by
  obtain ⟨out, stack, status, rootDone, hdepth⟩ := w
  obtain rfl : status = Status.ok := hw
  unfold Writer.prepareValue Plan.prepareValue
  rw [if_neg (by decide : ¬ Status.ok < 0)]
  cases stack with
  | nil =>
    cases rootDone with
    | true => exact follows_fail rfl (by decide)
    | false => exact follows_self rfl rfl rfl rfl
  | cons l rest =>
    obtain ⟨array, hasItem, wantValue⟩ := l
    cases array with
    | true =>
      simp only [reduceIte]
      apply (follows_comma (w := ⟨out, ⟨true, hasItem, wantValue⟩ :: rest, Status.ok, rootDone,
        hdepth⟩) rfl hasItem).andThen
      intro v hv _
      exact follows_self hv rfl rfl rfl
    | false =>
      cases wantValue with
      | true => exact follows_self rfl rfl rfl rfl
      | false => exact follows_fail rfl (by decide)

theorem follows_value (hw : w.status = Status.ok) {next : Writer → Writer × Status}
    {text : List Bytes}
    (hnext : ∀ v : Writer, v.status = Status.ok →
      Follows alloc v (next v) (Plan.puts text v.stack v.rootDone)) :
    Follows alloc w (Writer.andThen (w.prepareValue alloc) next)
      (Plan.value text w.stack w.rootDone) :=
  (follows_prepareValue hw).andThen fun v hv _ => hnext v hv

theorem follows_item (hw : w.status = Status.ok) (i : Item) :
    Follows alloc w (w.item alloc i) (Plan.value (Plan.itemText i) w.stack w.rootDone) := by
  cases i with
  | stringN s => exact follows_value hw fun v hv => follows_emitAll hv _
  | string s =>
    cases s with
    | none => exact follows_value hw fun v hv => follows_emit _ hv _
    | some s => exact follows_value hw fun v hv => follows_emitAll hv _
  | uint value => exact follows_value hw fun v hv => follows_emit _ hv _
  | int value =>
    simp only [Writer.item, Writer.int]
    apply follows_value hw
    intro v hv
    by_cases hneg : value < 0
    · simp only [Plan.itemText, if_pos hneg]
      exact (follows_emit _ hv [0x2D]).andThen fun u hu _ => follows_emit _ hu _
    · simp only [Plan.itemText, if_neg hneg]
      exact (follows_self (w := v) hv rfl rfl rfl).andThen fun u hu _ => follows_emit _ hu _
  | bool value => exact follows_value hw fun v hv => follows_emit _ hv _
  | null => exact follows_value hw fun v hv => follows_emit _ hv _

theorem follows_key (hw : w.status = Status.ok) (k : Bytes) :
    Follows alloc w (w.key alloc k) (Plan.key k w.stack w.rootDone) := by
  obtain ⟨out, stack, status, rootDone, hdepth⟩ := w
  obtain rfl : status = Status.ok := hw
  unfold Writer.key Plan.key
  rw [if_neg (by decide : ¬ Status.ok < 0)]
  cases stack with
  | nil => exact follows_fail rfl (by decide)
  | cons l rest =>
    obtain ⟨array, hasItem, wantValue⟩ := l
    cases array with
    | true => exact follows_fail rfl (by decide)
    | false =>
      cases wantValue with
      | true => exact follows_fail rfl (by decide)
      | false =>
        simp only [Bool.false_eq_true, reduceIte]
        apply (follows_comma (w := ⟨out, ⟨false, hasItem, false⟩ :: rest, Status.ok, rootDone,
          hdepth⟩) rfl hasItem).andThen
        intro v hv _
        apply (follows_emitAll hv _).andThen
        intro u hu _
        apply (follows_emit _ hu _).andThen
        intro t ht _
        exact follows_self ht rfl rfl rfl

theorem follows_beginContainer (hw : w.status = Status.ok) (array : Bool) (opening : UInt8) :
    Follows alloc w (w.beginContainer alloc array opening)
      (Plan.beginContainer array opening w.stack w.rootDone) := by
  apply (follows_prepareValue hw).andThen
  intro v hv _
  apply (follows_emit _ hv _).andThen
  intro u hu _
  unfold Writer.push
  by_cases hdeep : jwMaxDepth ≤ u.stack.length
  · rw [dif_pos hdeep, if_pos hdeep]
    exact follows_fail hu (by decide)
  · rw [dif_neg hdeep, if_neg hdeep]
    exact follows_self hu rfl rfl rfl

theorem follows_endContainer (hw : w.status = Status.ok) (array : Bool) (closing : UInt8) :
    Follows alloc w (w.endContainer alloc array closing)
      (Plan.endContainer array closing w.stack w.rootDone) := by
  obtain ⟨out, stack, status, rootDone, hdepth⟩ := w
  obtain rfl : status = Status.ok := hw
  unfold Writer.endContainer Plan.endContainer
  rw [if_neg (by decide : ¬ Status.ok < 0)]
  cases stack with
  | nil => exact follows_fail rfl (by decide)
  | cons l rest =>
    dsimp only
    by_cases hkind : l.array ≠ array
    · rw [if_pos hkind, if_pos hkind]
      exact follows_fail rfl (by decide)
    · rw [if_neg hkind, if_neg hkind]
      by_cases hwant : l.wantValue = true
      · rw [if_pos hwant, if_pos hwant]
        exact follows_fail rfl (by decide)
      · rw [if_neg hwant, if_neg hwant]
        obtain ⟨hout, hstatus, houtcome⟩ := follows_emit alloc
          (w := ⟨out, rest, Status.ok, rootDone, le_trans (Nat.le_succ _) hdepth⟩) rfl [closing]
        exact ⟨hout, hstatus, houtcome⟩

/-- Every call does what is planned for it. -/
theorem follows_call (alloc : ℕ → Bool) (hw : w.status = Status.ok) (c : Call) :
    Follows alloc w (w.call alloc c) (Plan.call c w.stack w.rootDone) := by
  cases c with
  | beginObject => exact follows_beginContainer hw _ _
  | beginArray => exact follows_beginContainer hw _ _
  | endObject => exact follows_endContainer hw _ _
  | endArray => exact follows_endContainer hw _ _
  | key k => exact follows_key hw k
  | item i => exact follows_item hw i
  | raw json => exact follows_value hw fun v hv => follows_emit _ hv _
  | member k i => exact (follows_key hw k).andThen fun v hv _ => follows_item hv i
  | finish =>
    have hsound : ¬ w.status < 0 := by
      rw [hw]
      decide
    simp only [Writer.call, Writer.finish, Plan.call]
    rw [if_neg hsound]
    by_cases hopen : w.stack.length ≠ 0
    · rw [if_pos hopen, if_pos hopen]
      exact ⟨rfl, rfl, Or.inr ⟨(by decide : Status.internal < 0), by simp [Plan.refuse]⟩⟩
    · rw [if_neg hopen, if_neg hopen]
      exact follows_self hw rfl rfl rfl

theorem status_of_step (hw : w.status = Status.ok ∨ w.status < 0) (c : Call) :
    (w.call alloc c).1.status = (w.call alloc c).2 := by
  rcases hw with hok | hfailed
  · exact (follows_call _ hok c).status_eq
  · rw [Writer.call_of_failed hfailed]

/-- A run of calls, taken as one: each call follows the one before unless that failed. -/
theorem follows_calls (alloc : ℕ → Bool) (hw : w.status = Status.ok) (cs : List Call) :
    Follows alloc w (run (Writer.step alloc) w cs, (run (Writer.step alloc) w cs).status)
      (Plan.calls cs w.stack w.rootDone) := by
  induction cs generalizing w with
  | nil => 
    have hself : (run (Writer.step alloc) w []).status = Status.ok := hw
    rw [hself]
    exact follows_self hw rfl rfl rfl
  | cons c cs ih =>
    have hstep := follows_call alloc hw c
    have hrun : (run (Writer.step alloc) w (c :: cs),
        (run (Writer.step alloc) w (c :: cs)).status) =
        Writer.andThen (w.call alloc c) fun v =>
          (run (Writer.step alloc) v cs, (run (Writer.step alloc) v cs).status) := by
      unfold Writer.andThen
      by_cases hneg : (w.call alloc c).2 < 0
      · have hfailed : (Writer.step alloc w c).status < 0 := by
          rw [Writer.step, hstep.status_eq]
          exact hneg
        rw [if_pos hneg, run_cons, run_of_failed hfailed, Writer.step, hstep.status_eq]
      · rw [if_neg hneg]
        rfl
    rw [hrun]
    exact hstep.andThen fun v hv _ => ih hv

end Follows
end AsmFlow.Json
