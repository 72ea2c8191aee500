import AsmFlow.Config.Snapshot

/-!
# JSON values

The values the JSON library delivers, and the accessors of `json.asm` on them. The
library itself is a parameter.
-/

namespace AsmFlow.Mcp

inductive Json
  | null
  | bool (b : Bool)
  | integer (n : ℤ)
  | real (bits : ℕ)
  | string (s : String)
  | array (xs : List Json)
  | object (members : List (String × Json))

namespace Json

/-- `af_json_member`. -/
def member (v : Json) (key : String) : Option Json :=
  match v with
  | .object members => (members.find? fun m => m.1 == key).map Prod.snd
  | _ => none

def isObject : Json → Bool
  | .object _ => true
  | _ => false

/-- `af_json_get_integer`. -/
def getInteger (v : Json) (key : String) : Option ℤ :=
  match v.member key with
  | some (.integer n) => some n
  | _ => none

/-- `af_json_get_string`. -/
def getString (v : Json) (key : String) : Option String :=
  match v.member key with
  | some (.string s) => some s
  | _ => none

/-- `af_json_get_bool`. -/
def getBool (v : Json) (key : String) : Option Bool :=
  match v.member key with
  | some (.bool b) => some b
  | _ => none

/-- `af_json_get_object`. -/
def getObject (v : Json) (key : String) : Option Json :=
  match v.member key with
  | some (.object members) => some (.object members)
  | _ => none

/-- `af_json_get_array`. -/
def getArray (v : Json) (key : String) : Option (List Json) :=
  match v.member key with
  | some (.array xs) => some xs
  | _ => none

end Json

/-- `af_json_parse` under a limit on the bytes, and `af_jsonc_dump`. -/
structure JsonLibrary where
  parse : ℕ → Bytes → Option Json
  dump : Json → Option Bytes

/-! ## Messages -/

/-- What a line of the protocol pipe is. A response carries its result or its error, and the
code of the error. -/
inductive Message
  | contaminated
  | response (id : ℤ) (payload : Json) (error : Option ℤ)
  /-- A notification, or a request of the server. -/
  | request

namespace Message

/-- `.request_or_notification`. -/
def ofRequest (v : Json) : Message :=
  if (v.getString "method").isNone then .contaminated
  else if (v.member "result").isSome then .contaminated
  else if (v.member "error").isSome then .contaminated
  else
    let idOk : Bool :=
      match v.member "id" with
      | none | some (.string _) | some (.integer _) | some .null => true
      | _ => false
    let paramsOk : Bool :=
      match v.member "params" with
      | none | some (.object _) | some (.array _) => true
      | _ => false
    if idOk && paramsOk then .request else .contaminated

/-- `.response_error_only`. -/
def ofError (id : ℤ) (e : Json) : Message :=
  if e.isObject = false then .contaminated
  else
    match e.getInteger "code", e.getString "message" with
    | some code, some _ => .response id e (some code)
    | _, _ => .contaminated

/-- The classification of `af_mcp_on_message`. -/
def ofJson (v : Json) : Message :=
  if v.isObject = false then .contaminated
  else if v.getString "jsonrpc" ≠ some "2.0" then .contaminated
  else if (v.member "method").isSome then ofRequest v
  else
    match v.getInteger "id" with
    | none => .contaminated
    | some id =>
      match v.member "result", v.member "error" with
      | some _, some _ => .contaminated
      | some r, none => .response id r none
      | none, some e => ofError id e
      | none, none => .contaminated

end Message
end AsmFlow.Mcp
