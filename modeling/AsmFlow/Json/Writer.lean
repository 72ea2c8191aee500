import AsmFlow.Http.Response
import AsmFlow.Json.Utf8
import AsmFlow.Library.Runs
import AsmFlow.Memory.Buffer

/-!
# The JSON writer

`json_write.asm`. The writer borrows its output buffer and appends to it piece by
piece; a level of its stack remembers what is due inside one open container. What
the allocator answers is asked by the capacity it is asked for, as in the buffer.
-/

namespace AsmFlow.Json

open Http

/-- `AF_JW_MAX_DEPTH`. -/
def jwMaxDepth : ℕ := 32

/-- The state byte of a level, flag by flag. -/
structure Level where
  array : Bool
  hasItem : Bool
  wantValue : Bool
  deriving DecidableEq, Repr

/-- `af_json_writer`; the innermost level comes first. -/
structure Writer where
  out : Buffer
  stack : List Level
  status : Status
  rootDone : Bool
  depth_le : stack.length ≤ jwMaxDepth

/-- `af_jw_init`. -/
def Writer.init (out : Buffer) : Writer := ⟨out, [], Status.ok, false, Nat.zero_le _⟩

namespace Writer

variable (alloc : ℕ → Bool)

def depth (w : Writer) : ℕ := w.stack.length

/-- `af_jw_fail`. -/
def fail (w : Writer) (code : Status) : Writer × Status :=
  if w.status < 0 then (w, w.status) else ({ w with status := code }, code)

/-- An append to the output, and `.buffer_failed`. -/
def emit (w : Writer) (p : Bytes) : Writer × Status :=
  match w.out.append alloc p with
  | (out, st) => if st < 0 then { w with out }.fail st else ({ w with out }, Status.ok)

/-- The next step of a function, unless this one failed. -/
def andThen (r : Writer × Status) (next : Writer → Writer × Status) : Writer × Status :=
  if r.2 < 0 then r else next r.1

/-- A write to the state byte of the innermost level. -/
def onTop (w : Writer) (f : Level → Level) : Writer :=
  { w with
    stack := w.stack.modifyHead f
    depth_le := by rw [List.length_modifyHead]; exact w.depth_le }

/-- `af_jw_prepare_value`. -/
def prepareValue (w : Writer) : Writer × Status :=
  if w.status < 0 then (w, w.status)
  else
    match w.stack with
    | [] =>
      if w.rootDone then w.fail Status.internal
      else ({ w with rootDone := true }, Status.ok)
    | l :: _ =>
      if l.array then
        andThen (if l.hasItem then w.emit alloc [0x2C] else (w, Status.ok)) fun w =>
          (w.onTop fun l => { l with hasItem := true }, Status.ok)
      else if l.wantValue then (w.onTop fun l => { l with wantValue := false }, Status.ok)
      else w.fail Status.internal

/-- `af_jw_push`. -/
def push (w : Writer) (array : Bool) : Writer × Status :=
  if h : jwMaxDepth ≤ w.stack.length then w.fail Status.jsonDepth
  else
    ({ w with stack := ⟨array, false, false⟩ :: w.stack, depth_le := not_le.mp h }, Status.ok)

/-- `af_jw_begin_object` and `af_jw_begin_array`. -/
def beginContainer (w : Writer) (array : Bool) (opening : UInt8) : Writer × Status :=
  andThen (w.prepareValue alloc) fun w => andThen (w.emit alloc [opening]) fun w => w.push array

def beginObject (w : Writer) : Writer × Status := w.beginContainer alloc false 0x7B

def beginArray (w : Writer) : Writer × Status := w.beginContainer alloc true 0x5B

/-- `af_jw_end`. -/
def endContainer (w : Writer) (array : Bool) (closing : UInt8) : Writer × Status :=
  if w.status < 0 then (w, w.status)
  else
    match hstack : w.stack with
    | [] => w.fail Status.internal
    | l :: st =>
      if l.array ≠ array then w.fail Status.internal
      else if l.wantValue then w.fail Status.internal
      else
        { w with
          stack := st
          depth_le := by
            have hle := w.depth_le
            rw [hstack, List.length_cons] at hle
            omega }.emit alloc [closing]

def endObject (w : Writer) : Writer × Status := w.endContainer alloc false 0x7D

def endArray (w : Writer) : Writer × Status := w.endContainer alloc true 0x5D

end Writer

/-- `hexdigits`. -/
def hexDigit (n : UInt8) : UInt8 := if n < 10 then 0x30 + n else 0x57 + n

/-- What a control byte is replaced by, append by append. -/
def controlPieces (b : UInt8) : List Bytes :=
  if b = 8 then [ascii "\\b"]
  else if b = 12 then [ascii "\\f"]
  else if b = 10 then [ascii "\\n"]
  else if b = 13 then [ascii "\\r"]
  else if b = 9 then [ascii "\\t"]
  else [ascii "\\u00", [hexDigit (b >>> 4 &&& 15)], [hexDigit (b &&& 15)]]

/-- `U+FFFD`. -/
def replacement : Bytes := [0xEF, 0xBF, 0xBD]

/-- The loop of `af_jw_emit_string`, as its appends; `skip` bytes at the front have
been copied with the sequence they belong to. -/
def stringPieces : ℕ → Bytes → List Bytes
  | _, [] => []
  | skip + 1, _ :: rest => stringPieces skip rest
  | 0, b :: rest =>
    if 0x80 ≤ b then
      match utf8SequenceLength (b :: rest) with
      | none => replacement :: stringPieces 0 rest
      | some (n, _) => (b :: rest).take n :: stringPieces (n - 1) rest
    else if b < 0x20 then controlPieces b ++ stringPieces 0 rest
    else if b = 0x22 then ascii "\\\"" :: stringPieces 0 rest
    else if b = 0x5C then ascii "\\\\" :: stringPieces 0 rest
    else if b = 0x7F then controlPieces b ++ stringPieces 0 rest
    else [b] :: stringPieces 0 rest

namespace Writer

variable (alloc : ℕ → Bool)

/-- Appends one after the other, up to the first that fails. -/
def emitAll (w : Writer) : List Bytes → Writer × Status
  | [] => (w, Status.ok)
  | p :: ps => andThen (w.emit alloc p) fun w => w.emitAll ps

/-- `af_jw_emit_string`. -/
def emitString (w : Writer) (s : Bytes) : Writer × Status :=
  w.emitAll alloc ([0x22] :: (stringPieces 0 s ++ [[0x22]]))

/-- `af_jw_key_n`, and `af_jw_key` on the bytes of a C string. -/
def key (w : Writer) (k : Bytes) : Writer × Status :=
  if w.status < 0 then (w, w.status)
  else
    match w.stack with
    | [] => w.fail Status.internal
    | l :: _ =>
      if l.array then w.fail Status.internal
      else if l.wantValue then w.fail Status.internal
      else
        andThen (if l.hasItem then w.emit alloc [0x2C] else (w, Status.ok)) fun w =>
          andThen (w.emitString alloc k) fun w =>
            andThen (w.emit alloc [0x3A]) fun w =>
              (w.onTop fun l => { l with hasItem := true, wantValue := true }, Status.ok)

/-- `af_jw_string_n`. -/
def stringN (w : Writer) (s : Bytes) : Writer × Status :=
  andThen (w.prepareValue alloc) fun w => w.emitString alloc s

/-- `af_jw_literal`, and `af_jw_raw`. -/
def literal (w : Writer) (text : Bytes) : Writer × Status :=
  andThen (w.prepareValue alloc) fun w => w.emit alloc text

def raw (w : Writer) (json : Bytes) : Writer × Status := w.literal alloc json

def null (w : Writer) : Writer × Status := w.literal alloc (ascii "null")

def bool (w : Writer) (value : Bool) : Writer × Status :=
  w.literal alloc (if value then ascii "true" else ascii "false")

/-- `af_jw_string`; a null pointer writes JSON null. -/
def string (w : Writer) (s : Option Bytes) : Writer × Status :=
  match s with
  | none => w.null alloc
  | some s => w.stringN alloc s

/-- `af_jw_uint`. -/
def uint (w : Writer) (value : Word) : Writer × Status :=
  andThen (w.prepareValue alloc) fun w => w.emit alloc (decimal value.toNat)

/-- `af_jw_int`; the magnitude of the least integer is its own negation. -/
def int (w : Writer) (value : Int64) : Writer × Status :=
  andThen (w.prepareValue alloc) fun w =>
    andThen (if value < 0 then w.emit alloc [0x2D] else (w, Status.ok)) fun w =>
      w.emit alloc (decimal (if value < 0 then -value else value).toUInt64.toNat)

/-- `af_jw_finish`. -/
def finish (w : Writer) : Writer × Status :=
  if w.status < 0 then (w, w.status)
  else if w.stack.length ≠ 0 then ({ w with status := Status.internal }, Status.internal)
  else (w, Status.ok)

end Writer

/-- A value that is written in one call and that has an `af_jw_member` form. -/
inductive Item
  | stringN (s : Bytes)
  | string (s : Option Bytes)
  | uint (value : Word)
  | int (value : Int64)
  | bool (value : Bool)
  | null
  deriving DecidableEq

/-- The functions of the writer that a caller uses. -/
inductive Call
  | beginObject
  | beginArray
  | endObject
  | endArray
  | key (k : Bytes)
  | item (i : Item)
  | raw (json : Bytes)
  | member (k : Bytes) (i : Item)
  | finish
  deriving DecidableEq

namespace Writer

variable (alloc : ℕ → Bool)

def item (w : Writer) : Item → Writer × Status
  | .stringN s => w.stringN alloc s
  | .string s => w.string alloc s
  | .uint value => w.uint alloc value
  | .int value => w.int alloc value
  | .bool value => w.bool alloc value
  | .null => w.null alloc

def call (w : Writer) : Call → Writer × Status
  | .beginObject => w.beginObject alloc
  | .beginArray => w.beginArray alloc
  | .endObject => w.endObject alloc
  | .endArray => w.endArray alloc
  | .key k => w.key alloc k
  | .item i => w.item alloc i
  | .raw json => w.raw alloc json
  | .member k i => andThen (w.key alloc k) fun w => w.item alloc i
  | .finish => w.finish

def step (w : Writer) (c : Call) : Writer := (w.call alloc c).1

end Writer

/-- The calls that write a value. -/
def Call.isValue : Call → Bool
  | .beginObject | .beginArray | .item _ | .raw _ | .member _ _ => true
  | .endObject | .endArray | .key _ | .finish => false

/-- The fragments that a caller supplies. -/
def fragments (calls : List Call) : List Bytes :=
  calls.filterMap fun
    | .raw json => some json
    | _ => none

theorem fragments_append (cs ds : List Call) :
    fragments (cs ++ ds) = fragments cs ++ fragments ds := List.filterMap_append

theorem fragments_cons (c : Call) (calls : List Call) :
    fragments (c :: calls) = fragments [c] ++ fragments calls := fragments_append [c] calls

section Failed

variable {alloc : ℕ → Bool} {w : Writer}

namespace Writer

theorem fail_of_failed (h : w.status < 0) (code : Status) : w.fail code = (w, w.status) := if_pos h

theorem prepareValue_of_failed (h : w.status < 0) : w.prepareValue alloc = (w, w.status) := if_pos h

theorem andThen_of_failed (h : w.status < 0) (next : Writer → Writer × Status) :
    andThen (w, w.status) next = (w, w.status) := if_pos h

theorem item_of_failed (h : w.status < 0) (i : Item) : w.item alloc i = (w, w.status) := by
  cases i with
  | string s =>
    cases s <;>
      simp only [item, string, stringN, null, literal, prepareValue_of_failed h,
        andThen_of_failed h]
  | stringN | uint | int | bool | null =>
    simp only [item, stringN, uint, int, bool, null, literal, prepareValue_of_failed h,
      andThen_of_failed h]

/-- Once a failure is recorded, every call returns it and does nothing. -/
theorem call_of_failed (h : w.status < 0) (c : Call) : w.call alloc c = (w, w.status) := by
  cases c with
  | beginObject | beginArray =>
    simp only [call, beginObject, beginArray, beginContainer, prepareValue_of_failed h,
      andThen_of_failed h]
  | endObject | endArray => exact if_pos h
  | key k => exact if_pos h
  | item i => exact item_of_failed h i
  | raw json => simp only [call, raw, literal, prepareValue_of_failed h, andThen_of_failed h]
  | member k i =>
    have hkey : w.key alloc k = (w, w.status) := if_pos h
    simp only [call, hkey, andThen_of_failed h]
  | finish => exact if_pos h

end Writer

theorem run_of_failed (h : w.status < 0) (calls : List Call) :
    Library.run (Writer.step alloc) w calls = w := by
  induction calls with
  | nil => rfl
  | cons c calls ih =>
    have hstay : Writer.step alloc w c = w := by rw [Writer.step, Writer.call_of_failed h]
    rw [Library.run_cons, hstay, ih]

end Failed
end AsmFlow.Json
