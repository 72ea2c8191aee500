import AsmFlow.Config.Snapshot
import AsmFlow.Json.Utf8
import AsmFlow.Machine.Status
import AsmFlow.Mcp.Json

/-!
# Typed field accessors

`config_field.asm`, and the checks of `config_load.asm` and `config_util.asm` on keys
and identifiers. A failure carries the JSON pointer of the field.
-/

namespace AsmFlow.Config

open Json

/-- A segment of a JSON pointer. -/
inductive Seg
  | key (name : String)
  | index (i : ℕ)
  deriving DecidableEq, Repr

/-- What `af_cfg_error` names: the pointer, the code and the message. A failed allocation
leaves no message. -/
structure Fail where
  pointer : List Seg
  code : Status
  message : Option String
  neg : code < 0

/-- The pointer was in the field when the loader of the field failed. -/
def under {α : Type} (seg : Seg) (r : Except Fail α) : Except Fail α :=
  r.mapError fun f => { f with pointer := seg :: f.pointer }

/-- `af_cfg_fail_here`. -/
def failHere (key : String) (code : Status) (message : String)
    (neg : code < 0 := by decide) : Fail :=
  ⟨[.key key], code, some message, neg⟩

/-- A failure at the pointer itself. -/
def failAt (code : Status) (message : String) (neg : code < 0 := by decide) : Fail :=
  ⟨[], code, some message, neg⟩

/-- A test before the next step. -/
def check (ok : Bool) (f : Fail) : Except Fail Unit := if ok then .ok () else .error f

/-- What the arena answers to the allocation for the value at a pointer. -/
abbrev Arena := List Seg → Bool

def Arena.under (arena : Arena) (seg : Seg) : Arena := fun pointer => arena (seg :: pointer)

/-- `af_arena_calloc` and `af_cfg_intern`. -/
def keep (granted : Bool) : Except Fail Unit :=
  check granted ⟨[], Status.nomem, none, by decide⟩

def fmMissing : String := "required key is absent"
def fmType : String := "value has the wrong JSON type"
def fmRange : String := "value is outside the permitted range"
def fmEnum : String := "value is not one of the permitted choices"

/-- The member an accessor reads: `.classify` where there is none. -/
def require (v : Mcp.Json) (key : String) : Except Fail Mcp.Json :=
  if v.isObject = false then .error (failHere key Status.cfgSchema fmType)
  else
    match v.member key with
    | none => .error (failHere key Status.cfgMissingKey fmMissing)
    | some x => .ok x

/-- `af_cfg_req_str`. -/
def reqStr (v : Mcp.Json) (key : String) : Except Fail String := do
  match ← require v key with
  | .string s => .ok s
  | _ => .error (failHere key Status.cfgSchema fmType)

/-- `af_cfg_req_int`. -/
def reqInt (v : Mcp.Json) (key : String) (min max : ℤ) : Except Fail ℤ := do
  match ← require v key with
  | .integer n =>
    if n < min then .error (failHere key Status.cfgSchema fmRange)
    else if max < n then .error (failHere key Status.cfgSchema fmRange)
    else .ok n
  | _ => .error (failHere key Status.cfgSchema fmType)

/-- `af_cfg_req_bool`. -/
def reqBool (v : Mcp.Json) (key : String) : Except Fail Bool := do
  match ← require v key with
  | .bool b => .ok b
  | _ => .error (failHere key Status.cfgSchema fmType)

/-- `af_cfg_opt_bool`: where there is no object, it records nothing. -/
def optBool (v : Mcp.Json) (key : String) (default : Bool) : Except Fail Bool :=
  if v.isObject = false then .error ⟨[], Status.jsonType, none, by decide⟩
  else if (v.member key).isNone then .ok default
  else reqBool v key

/-- `af_cfg_enum_lookup`, in a table of names. -/
def enumLookup {α : Type} (table : List (String × α)) (s : String) : Option α :=
  (table.find? fun entry => entry.1 == s).map Prod.snd

/-- `af_cfg_req_enum`. -/
def reqEnum {α : Type} (v : Mcp.Json) (key : String) (table : List (String × α)) :
    Except Fail α := do
  match ← require v key with
  | .string s =>
    match enumLookup table s with
    | none => .error (failHere key Status.cfgSchema fmEnum)
    | some a => .ok a
  | _ => .error (failHere key Status.cfgSchema fmType)

/-- `af_cfg_req_obj`. -/
def reqObj (v : Mcp.Json) (key : String) : Except Fail Mcp.Json := do
  match ← require v key with
  | .object members => .ok (.object members)
  | _ => .error (failHere key Status.cfgSchema fmType)

/-- `af_cfg_req_arr`. -/
def reqArr (v : Mcp.Json) (key : String) (min max : ℕ) : Except Fail (List Mcp.Json) := do
  match ← require v key with
  | .array xs =>
    if xs.length < min then .error (failHere key Status.cfgSchema fmRange)
    else if max < xs.length then .error (failHere key Status.cfgSchema fmRange)
    else .ok xs
  | _ => .error (failHere key Status.cfgSchema fmType)

/-- `af_cfg_check_keys`: the first member that is not on the list is named. -/
def checkKeys (v : Mcp.Json) (allowed : List String) : Except Fail Unit :=
  match v with
  | .object members =>
    match members.find? fun m => !allowed.contains m.1 with
    | none => .ok ()
    | some m =>
      .error (failHere m.1 Status.cfgUnknownKey "unknown key is not permitted here")
  | _ => .ok ()

/-! ## Names -/

/-- The bytes of a string. -/
def text (s : String) : Bytes := utf8Text s.toList

def isLower (b : UInt8) : Bool := 0x61 ≤ b && b ≤ 0x7A

def isUpper (b : UInt8) : Bool := 0x41 ≤ b && b ≤ 0x5A

def isDecimal (b : UInt8) : Bool := 0x30 ≤ b && b ≤ 0x39

/-- `af_cfg_id_valid`. -/
def idValid (s : Bytes) : Bool :=
  match s with
  | [] => false
  | b :: rest =>
    decide (s.length ≤ 64) && (isLower b || isDecimal b) &&
      rest.all fun b => isLower b || isDecimal b || b == 0x2E || b == 0x5F || b == 0x2D

/-- `af_cfg_model_alias_valid`. -/
def modelAliasValid (s : Bytes) : Bool :=
  match s with
  | [] => false
  | b :: rest =>
    decide (s.length ≤ 128) && (isDecimal b || isUpper b || isLower b) &&
      rest.all fun b => isDecimal b || isUpper b || isLower b || b == 0x2E || b == 0x5F ||
        b == 0x3A || b == 0x2F || b == 0x2D

/-- `tbl_plaintext_keys`. -/
def plaintextKeys : List String :=
  ["api_key", "apikey", "secret", "password", "token", "authorization", "private_key",
    "credential", "credentials", "passphrase", "bearer"]

/-- `af_cfg_ci_eq`, over the length of both. -/
def ciEq (s t : Bytes) : Bool :=
  s.map (fun b => if isUpper b then b + 32 else b) ==
    t.map fun b => if isUpper b then b + 32 else b

/-- `af_cfg_key_is_credential`. -/
def keyIsCredential (key : String) : Bool := plaintextKeys.any fun k => ciEq (text key) (text k)

mutual

/-- `af_cfg_reject_plaintext`. -/
def rejectPlaintext : Mcp.Json → Except Fail Unit
  | .array xs => rejectElements 0 xs
  | .object members => rejectMembers members
  | .null => .ok ()
  | .bool _ => .ok ()
  | .integer _ => .ok ()
  | .real _ => .ok ()
  | .string _ => .ok ()

/-- `.array_loop`. -/
def rejectElements (i : ℕ) : List Mcp.Json → Except Fail Unit
  | [] => .ok ()
  | x :: xs =>
    match under (.index i) (rejectPlaintext x) with
    | .error f => .error f
    | .ok () => rejectElements (i + 1) xs

/-- `.object_loop`. -/
def rejectMembers : List (String × Mcp.Json) → Except Fail Unit
  | [] => .ok ()
  | (key, x) :: members =>
    if keyIsCredential key then
      .error (failHere key Status.cfgPlaintext
        "plaintext credentials are not accepted in configuration")
    else
      match under (.key key) (rejectPlaintext x) with
      | .error f => .error f
      | .ok () => rejectMembers members

end

end AsmFlow.Config
