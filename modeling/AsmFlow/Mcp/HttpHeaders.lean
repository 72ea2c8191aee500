import AsmFlow.Config.Fields
import AsmFlow.Http.Response
import AsmFlow.Mcp.Json
import AsmFlow.Memory.Buffer

/-!
# Headers of the requests to MCP servers

`mcp_http_modern.asm` and the header lists of `mcp_http_legacy.asm`: the lines that are given
to libcurl, each without the NUL it ends with.
-/

namespace AsmFlow.McpHttp

open Config Http Json
open Mcp (JsonLibrary)

/-- `AF_MCP_HTTP_HEADER_HARD_MAX`. -/
def headerHardMax : ℕ := 1024 * 1024

/-- What the allocator grants: the buffers, and `curl_slist_append` behind so many lines. -/
structure Grant where
  alloc : ℕ → Bool
  slist : ℕ → Bool

/-- `HX_SLIST`, and the status of what was added last. -/
abbrev Adding := List Bytes × Status

/-- The next line, unless the last one failed. -/
def Adding.andThen (r : Adding) (f : List Bytes → Adding) : Adding := if r.2 < 0 then r else f r.1

/-- `af_cfg_header_name_valid` -/
def headerNameValid (name : Bytes) : Bool :=
  decide (1 ≤ name.length) && decide (name.length ≤ 64) &&
    name.all fun b => b == 0x2D || (0x30 ≤ b && b ≤ 0x39) || (0x41 ≤ b && b ≤ 0x5A) ||
      (0x61 ≤ b && b ≤ 0x7A)

/-- A header name that the loader of the configuration accepted. -/
abbrev HeaderName := { name : Bytes // headerNameValid name = true }

/-- `MCP_AUTH`, with what `af_cfg_getenv` returns for its variable. -/
inductive Credential
  | none
  | bearer (secret : Option Bytes)
  | header (name : HeaderName) (secret : Option Bytes)

/-- `LH_SESSION`: what `af_mcp_http_commit_legacy_session` stores has only visible characters.
It is empty before. -/
abbrev SessionId := { id : Bytes // ∀ b ∈ id, 33 ≤ b ∧ b ≤ 126 }

/-- The methods of the requests and notifications over HTTP. -/
inductive RpcMethod
  | discover
  | initializeServer
  | toolsList
  | resourcesList
  | promptsList
  | toolsCall
  | initialized
  | cancelled
  deriving DecidableEq, Repr

def RpcMethod.name : RpcMethod → Bytes
  | .discover => ascii "server/discover"
  | .initializeServer => ascii "initialize"
  | .toolsList => ascii "tools/list"
  | .resourcesList => ascii "resources/list"
  | .promptsList => ascii "prompts/list"
  | .toolsCall => ascii "tools/call"
  | .initialized => ascii "notifications/initialized"
  | .cancelled => ascii "notifications/cancelled"

section Lines

variable (g : Grant)

/-- `af_mcp_http_slist_add_static` -/
def addStatic (line : Bytes) (xs : List Bytes) : Adding :=
  if g.slist xs.length then (xs ++ [line], .ok) else (xs, .nomem)

/-- Parts that are appended to the staging buffer until one fails. -/
def stage : Buffer → List Bytes → Buffer × Status
  | b, [] => (b, .ok)
  | b, p :: ps =>
    if (b.append g.alloc p).2 < 0 then b.append g.alloc p else stage (b.append g.alloc p).1 ps

/-- The last parts and the NUL; then the line is copied. -/
def addStaged (b : Buffer) (parts : List Bytes) (xs : List Bytes) : Adding :=
  let staged := stage g b (parts ++ [[0]])
  if staged.2 < 0 then (xs, staged.2) else addStatic g staged.1.data.dropLast xs

/-- `af_mcp_http_slist_add_pair` -/
def addPair (start value : Bytes) (xs : List Bytes) : Adding :=
  addStaged g (Buffer.init headerHardMax) [start, value] xs

/-- `af_mcp_http_add_auth` -/
def addAuth (c : Credential) (xs : List Bytes) : Adding :=
  let checked (secret : Option Bytes) (add : Bytes → Adding) : Adding :=
    match secret with
    | none => (xs, .cfgSecretMissing)
    | some s =>
      if s = [] then (xs, .cfgSecretMissing)
      else if 65536 < s.length then (xs, .cfgPlaintext)
      else if s.any fun b => b < 32 || b == 127 then (xs, .cfgPlaintext)
      else add s
  match c with
  | .none => (xs, .ok)
  | .bearer secret => checked secret fun s => addPair g (ascii "Authorization: Bearer ") s xs
  | .header name secret =>
    checked secret fun s => addStaged g (Buffer.init headerHardMax) [name.val, ascii ": ", s] xs

end Lines

/-! ## Arguments of a tool -/

/-- `.token` -/
def suffixValid (suffix : Bytes) : Bool :=
  decide (1 ≤ suffix.length) && decide (suffix.length ≤ 64) &&
    suffix.all fun b => (0x30 ≤ b && b ≤ 0x39) || (0x41 ≤ b && b ≤ 0x5A) ||
      (0x61 ≤ b && b ≤ 0x7A) || b == 0x2D

/-- The parts that a primitive value is written in. -/
def paramValue : Mcp.Json → Option (List Bytes)
  | .string s => if (text s).all fun b => 32 ≤ b && b < 127 then some [text s] else none
  | .integer n => some (if n < 0 then [ascii "-", decimal n.natAbs] else [decimal n.natAbs])
  | .bool b => some [if b then ascii "true" else ascii "false"]
  | _ => none

section Params

variable (g : Grant)

/-- `af_mcp_http_add_param` -/
def addParam (suffix : Bytes) (v : Mcp.Json) (xs : List Bytes) : Adding :=
  if suffixValid suffix = false then (xs, .invalid)
  else
    let staged := stage g (Buffer.init headerHardMax) [ascii "Mcp-Param-", suffix, ascii ": "]
    if staged.2 < 0 then (xs, staged.2)
    else
      match paramValue v with
      | none => (xs, .mcpProtocol)
      | some parts => addStaged g staged.1 parts xs

/-- `.prop_loop`. A specification that is no object, or whose header is no string, and
arguments that are no object are refused. -/
def addParams (args : Mcp.Json) : List (String × Mcp.Json) → List Bytes → Adding
  | [], xs => (xs, .ok)
  | (key, spec) :: props, xs =>
    if spec.isObject = false then (xs, .mcpProtocol)
    else
      match spec.member "x-mcp-header" with
      | none => addParams args props xs
      | some (.string suffix) =>
        if args.isObject = false then (xs, .mcpProtocol)
        else
          match args.member key with
          | none => addParams args props xs
          | some v => (addParam g (text suffix) v xs).andThen (addParams args props)
      | some _ => (xs, .mcpProtocol)

/-- `.tool_loop` -/
def findTool (name : String) (inventory : Mcp.Json) : Option Mcp.Json :=
  match inventory with
  | .array tools => tools.find? fun t => t.getString "name" == some name
  | _ => none

/-- The properties of the schema of a tool. -/
def toolProperties (name : String) (inventory : Mcp.Json) : List (String × Mcp.Json) :=
  match (findTool name inventory).bind fun t =>
      (t.member "inputSchema").bind fun s => s.member "properties" with
  | some (.object props) => props
  | _ => []

/-- `params` and `name` of a body. -/
def toolName (J : JsonLibrary) (body : Bytes) : Option (Mcp.Json × String) :=
  (J.parse body.length body).bind fun root => (root.member "params").bind fun params =>
    (params.getString "name").map fun name => (params, name)

/-- `af_mcp_http_add_tool_metadata` -/
def addToolMetadata (J : JsonLibrary) (tools body : Bytes) (xs : List Bytes) : Adding :=
  if (J.parse body.length body).isNone then (xs, .jsonParse)
  else
    match toolName J body with
    | none => (xs, .mcpProtocol)
    | some (params, name) =>
      (addPair g (ascii "Mcp-Name: ") (text name) xs).andThen fun xs =>
        match params.member "arguments" with
        | none => (xs, .ok)
        | some args =>
          if tools = [] then (xs, .ok)
          else
            match J.parse tools.length tools with
            | none => (xs, .mcpProtocol)
            | some inventory => addParams g args (toolProperties name inventory) xs

end Params

/-! ## The lists -/

section Lists

variable (g : Grant)

def contentType : Bytes := ascii "Content-Type: application/json"

def acceptBoth : Bytes := ascii "Accept: application/json, text/event-stream"

def acceptStream : Bytes := ascii "Accept: text/event-stream"

def expectNothing : Bytes := ascii "Expect:"

def modernVersion : Bytes := ascii "MCP-Protocol-Version: 2026-07-28"

def legacyVersion : Bytes := ascii "MCP-Protocol-Version: 2025-11-25"

/-- Static lines, one after the other. -/
def addStatics : List Bytes → List Bytes → Adding
  | [], xs => (xs, .ok)
  | line :: lines, xs => (addStatic g line xs).andThen (addStatics lines)

/-- `af_mcp_http_modern_headers`, up to the method. -/
def modernOpening (method : RpcMethod) : Adding :=
  (addStatics g [contentType, acceptBoth, expectNothing, modernVersion] []).andThen
    (addPair g (ascii "Mcp-Method: ") method.name)

/-- `af_mcp_http_modern_headers` -/
def modernHeaders (J : JsonLibrary) (c : Credential) (method : RpcMethod) (tools body : Bytes) :
    Adding :=
  ((modernOpening g method).andThen fun xs =>
    if method = .toolsCall then addToolMetadata g J tools body xs else (xs, .ok)).andThen
      (addAuth g c)

/-- `af_mcp_http_legacy_add_session` -/
def addSession (session : SessionId) (xs : List Bytes) : Adding :=
  if session.val = [] then (xs, .ok) else addPair g (ascii "Mcp-Session-Id: ") session.val xs

/-- `af_mcp_http_legacy_headers` -/
def legacyHeaders (c : Credential) (isInitialize : Bool) (session : SessionId) : Adding :=
  ((addStatics g [contentType, acceptBoth, expectNothing] []).andThen fun xs =>
    if isInitialize then (xs, .ok)
    else (addStatic g legacyVersion xs).andThen (addSession g session)).andThen (addAuth g c)

/-- `af_mcp_http_legacy_get_headers`, up to the event id. -/
def getOpening (session : SessionId) : Adding :=
  (addStatics g [acceptStream, legacyVersion] []).andThen (addSession g session)

/-- `af_mcp_http_legacy_get_headers` -/
def legacyGetHeaders (c : Credential) (session : SessionId) (lastEvent : Bytes) : Adding :=
  ((getOpening g session).andThen fun xs =>
    if lastEvent = [] then (xs, .ok) else addPair g (ascii "Last-Event-ID: ") lastEvent xs).andThen
      (addAuth g c)

end Lists

/-- A request over HTTP, with what its headers are made of. -/
inductive HeaderRequest
  | modern (method : RpcMethod) (tools body : Bytes)
  | legacy (isInitialize : Bool) (session : SessionId)
  | legacyGet (session : SessionId) (lastEvent : Bytes)

/-- The header list of a request, and its status. -/
def headers (J : JsonLibrary) (g : Grant) (c : Credential) : HeaderRequest → Adding
  | .modern method tools body => modernHeaders g J c method tools body
  | .legacy isInitialize session => legacyHeaders g c isInitialize session
  | .legacyGet session lastEvent => legacyGetHeaders g c session lastEvent

/-! ## What the lists should be -/

/-- A header with a value. -/
def headerLine (start value : Bytes) : Bytes := start ++ value

/-- The one line of a credential. -/
def credentialLines : Credential → List Bytes
  | .none => []
  | .bearer secret => secret.toList.map (headerLine (ascii "Authorization: Bearer "))
  | .header name secret => secret.toList.map (headerLine (name.val ++ ascii ": "))

/-- The annotated arguments that are present, under their headers. -/
def annotated (args : Mcp.Json) (props : List (String × Mcp.Json)) : List (String × Mcp.Json) :=
  props.filterMap fun p => (p.2.getString "x-mcp-header").bind fun suffix =>
    (args.member p.1).map fun v => (suffix, v)

def paramLine (p : String × Mcp.Json) : Bytes :=
  ascii "Mcp-Param-" ++ text p.1 ++ ascii ": " ++ ((paramValue p.2).getD []).flatten

/-- `Mcp-Name`, and a line for each annotated argument. -/
def toolLines (J : JsonLibrary) (tools body : Bytes) : List Bytes :=
  match toolName J body with
  | none => []
  | some (params, name) =>
    headerLine (ascii "Mcp-Name: ") (text name) ::
      match params.member "arguments", J.parse tools.length tools with
      | some args, some inventory =>
        if tools = [] then [] else (annotated args (toolProperties name inventory)).map paramLine
      | _, _ => []

def sessionLines (session : SessionId) : List Bytes :=
  if session.val = [] then [] else [headerLine (ascii "Mcp-Session-Id: ") session.val]

/-- The intended headers of a request. -/
def intended (J : JsonLibrary) (c : Credential) : HeaderRequest → List Bytes
  | .modern method tools body =>
    [contentType, acceptBoth, expectNothing, modernVersion,
      headerLine (ascii "Mcp-Method: ") method.name] ++
      (if method = .toolsCall then toolLines J tools body else []) ++ credentialLines c
  | .legacy isInitialize session =>
    [contentType, acceptBoth, expectNothing] ++
      (if isInitialize then [] else legacyVersion :: sessionLines session) ++ credentialLines c
  | .legacyGet session lastEvent =>
    [acceptStream, legacyVersion] ++ sessionLines session ++
      (if lastEvent = [] then [] else [headerLine (ascii "Last-Event-ID: ") lastEvent]) ++
      credentialLines c

/-- No carriage return, line feed or NUL. -/
def CleanLine (line : Bytes) : Prop := ∀ b ∈ line, b ≠ 13 ∧ b ≠ 10 ∧ b ≠ 0

instance (line : Bytes) : Decidable (CleanLine line) := List.decidableBAll _ line

/-- No line carries another header, and a list that is finished is the intended one. -/
structure NoInjection (J : JsonLibrary) (g : Grant) (c : Credential) (r : HeaderRequest) : Prop where
  clean : ∀ line ∈ (headers J g c r).1, CleanLine line
  exact : 0 ≤ (headers J g c r).2 → (headers J g c r).1 = intended J c r

/-- There is memory for a line of two parts behind `n` others. -/
def lineGranted (g : Grant) (n : ℕ) (start value : Bytes) : Bool :=
  Buffer.roomFor g.alloc headerHardMax 0 0 [start.length, value.length, 1] && g.slist n

/-- The name of a tool and the id of an event are clean, unless the memory for their line, or for
one before it, is refused. -/
def CleanValues (J : JsonLibrary) (g : Grant) : HeaderRequest → Prop
  | .modern method _ body =>
    method = .toolsCall → (∀ i < 4, g.slist i = true) →
      lineGranted g 4 (ascii "Mcp-Method: ") method.name = true → ∀ params name,
      toolName J body = some (params, name) →
      lineGranted g 5 (ascii "Mcp-Name: ") (text name) = true → CleanLine (text name)
  | .legacy _ _ => True
  | .legacyGet session lastEvent =>
    (∀ i < 2, g.slist i = true) →
      (session.val = [] ∨ lineGranted g 2 (ascii "Mcp-Session-Id: ") session.val = true) →
      lineGranted g (2 + (sessionLines session).length) (ascii "Last-Event-ID: ") lastEvent =
        true → CleanLine lastEvent

/-! ## What is added -/

theorem cleanLine_append {p q : Bytes} : CleanLine (p ++ q) ↔ CleanLine p ∧ CleanLine q := by
  simp only [CleanLine, List.forall_mem_append]

theorem cleanLine_flatten {ps : List Bytes} (h : ∀ p ∈ ps, CleanLine p) : CleanLine ps.flatten := by
  intro b hb
  obtain ⟨p, hp, hbp⟩ := List.mem_flatten.mp hb
  exact h p hp b hbp

/-- Bytes from the blank on. -/
theorem cleanLine_of_visible {p : Bytes} (h : ∀ b ∈ p, 32 ≤ b) : CleanLine p := by
  intro b hb
  have hlow : 32 ≤ b.toNat := UInt8.le_iff_toNat_le.mp (h b hb)
  refine ⟨?_, ?_, ?_⟩
  all_goals
    rintro rfl
    exact absurd hlow (by decide)

/-- The lines that are added are clean; when all went well they are the given ones. -/
structure Adds (xs ok : List Bytes) (r : Adding) : Prop where
  lines : ∃ new, r.1 = xs ++ new ∧ ∀ l ∈ new, CleanLine l
  done : 0 ≤ r.2 → r.1 = xs ++ ok

theorem Adds.none (xs : List Bytes) (st : Status) : Adds xs [] (xs, st) :=
  ⟨⟨[], by simp, by simp⟩, fun _ => by simp⟩

theorem Adds.error (xs ok : List Bytes) {st : Status} (h : st < 0) : Adds xs ok (xs, st) :=
  ⟨⟨[], by simp, by simp⟩, fun h' => absurd h (not_lt.mpr h')⟩

theorem Adds.one {xs : List Bytes} {line : Bytes} (h : CleanLine line) (st : Status) :
    Adds xs [line] (xs ++ [line], st) :=
  ⟨⟨[line], rfl, by simpa using h⟩, fun _ => rfl⟩

theorem Adds.andThen {xs a b : List Bytes} {r : Adding} {f : List Bytes → Adding}
    (h : Adds xs a r) (hf : 0 ≤ r.2 → Adds (xs ++ a) b (f r.1)) :
    Adds xs (a ++ b) (r.andThen f) := by
  unfold Adding.andThen
  split_ifs with hneg
  · exact ⟨h.lines, fun h' => absurd hneg (not_lt.mpr h')⟩
  · have hdone := h.done (not_lt.mp hneg)
    obtain ⟨new, hnew, hclean⟩ := h.lines
    obtain ⟨⟨more, hmore, hclean'⟩, hend⟩ := hf (not_lt.mp hneg)
    have ha : new = a := List.append_cancel_left (hnew.symm.trans hdone)
    refine ⟨⟨a ++ more, by rw [hmore, List.append_assoc], ?_⟩, ?_⟩
    · intro l hl
      rcases List.mem_append.mp hl with hl | hl
      · exact hclean l (ha ▸ hl)
      · exact hclean' l hl
    · intro h'
      rw [hend h', List.append_assoc]

theorem andThen_of_ok {r : Adding} (h : 0 ≤ r.2) (f : List Bytes → Adding) :
    r.andThen f = f r.1 := by
  rw [Adding.andThen, if_neg (not_lt.mpr h)]

theorem andThen_ok_iff {r : Adding} {f : List Bytes → Adding} :
    0 ≤ (r.andThen f).2 ↔ 0 ≤ r.2 ∧ 0 ≤ (f r.1).2 := by
  unfold Adding.andThen
  split_ifs with hneg
  · exact ⟨fun h => absurd hneg (not_lt.mpr h), fun h => h.1⟩
  · exact ⟨fun h => ⟨not_lt.mp hneg, h⟩, fun h => h.2⟩

/-- What is added later stands behind what is there. -/
theorem Adds.mem {xs ok : List Bytes} {r : Adding} (h : Adds xs ok r) {line : Bytes}
    (hmem : line ∈ xs) : line ∈ r.1 := by
  obtain ⟨new, hnew, -⟩ := h.lines
  rw [hnew]
  exact List.mem_append_left new hmem

theorem andThen_mem {r : Adding} {f : List Bytes → Adding} {line : Bytes} (hmem : line ∈ r.1)
    (hf : ∀ xs, line ∈ xs → line ∈ (f xs).1) : line ∈ (r.andThen f).1 := by
  unfold Adding.andThen
  split_ifs
  · exact hmem
  · exact hf _ hmem

section Add

variable {g : Grant}

theorem addStatic_adds {line : Bytes} (h : CleanLine line) (xs : List Bytes) :
    Adds xs [line] (addStatic g line xs) := by
  unfold addStatic
  split_ifs
  · exact .one h _
  · exact .error _ _ (by decide)

theorem addStatics_adds {lines : List Bytes} (h : ∀ l ∈ lines, CleanLine l) (xs : List Bytes) :
    Adds xs lines (addStatics g lines xs) := by
  induction lines generalizing xs with
  | nil => exact .none _ _
  | cons line lines ih =>
    have hline := addStatic_adds (g := g) (h line List.mem_cons_self) xs
    refine hline.andThen (b := lines) fun hok => ?_
    rw [hline.done hok]
    exact ih (fun l hl => h l (List.mem_cons_of_mem line hl)) _

theorem addStatics_ok_iff (lines xs : List Bytes) :
    0 ≤ (addStatics g lines xs).2 ↔ ∀ i < lines.length, g.slist (xs.length + i) = true := by
  induction lines generalizing xs with
  | nil => exact ⟨fun _ i hi => absurd hi (Nat.not_lt_zero i), fun _ => le_refl (0 : Status)⟩
  | cons line lines ih =>
    rw [addStatics, andThen_ok_iff]
    by_cases hgrant : g.slist xs.length = true
    · have hadd : addStatic g line xs = (xs ++ [line], .ok) := if_pos hgrant
      rw [hadd, ih, List.length_append, List.length_singleton]
      constructor
      · rintro ⟨-, h⟩ i hi
        cases i with
        | zero => exact hgrant
        | succ i =>
          rw [List.length_cons] at hi
          have := h i (Nat.lt_of_succ_lt_succ hi)
          rwa [Nat.add_assoc, Nat.add_comm 1 i] at this
      · intro h
        refine ⟨le_refl (0 : Status), fun i hi => ?_⟩
        have := h (i + 1) (Nat.succ_lt_succ hi)
        rwa [Nat.add_assoc, Nat.add_comm 1 i]
    · have hadd : addStatic g line xs = (xs, .nomem) := if_neg hgrant
      rw [hadd]
      constructor
      · rintro ⟨hneg, -⟩
        exact absurd hneg (by decide : ¬ 0 ≤ Status.nomem)
      · intro h
        exact absurd (h 0 (Nat.succ_pos _)) hgrant

theorem stage_data {b : Buffer} {parts : List Bytes} (h : 0 ≤ (stage g b parts).2) :
    (stage g b parts).1.data = b.data ++ parts.flatten := by
  induction parts generalizing b with
  | nil => simp [stage]
  | cons p parts ih =>
    rw [stage] at h ⊢
    split_ifs at h ⊢ with hneg
    · exact absurd hneg (not_lt.mpr h)
    · rw [ih h, (Buffer.append_of_ok (not_lt.mp hneg)).1]
      simp

/-- Whether the parts fit is decided by their sizes. -/
theorem stage_ok_iff (b : Buffer) (parts : List Bytes) :
    0 ≤ (stage g b parts).2 ↔
      Buffer.roomFor g.alloc b.max b.len b.cap (parts.map List.length) = true := by
  induction parts generalizing b with
  | nil =>
    simp only [List.map_nil, Buffer.roomFor, iff_true]
    exact le_refl (0 : Status)
  | cons p parts ih =>
    rw [stage, List.map_cons, Buffer.roomFor]
    rcases Buffer.append_eq g.alloc b p with ⟨b', heq, hlen, hmax, hroom⟩ | ⟨hneg, hroom⟩
    · rw [heq, hroom, if_neg (by decide : ¬ Status.ok < 0)]
      dsimp only
      rw [ih b', hlen, hmax]
    · rw [hroom, if_pos hneg]
      simp [hneg]

/-- A staged line is added when there is memory for it; otherwise nothing is. -/
theorem addStaged_cases (b : Buffer) (parts xs : List Bytes) :
    (0 ≤ (stage g b (parts ++ [[0]])).2 ∧ g.slist xs.length = true ∧
        addStaged g b parts xs = (xs ++ [b.data ++ parts.flatten], .ok)) ∨
      (¬ (0 ≤ (stage g b (parts ++ [[0]])).2 ∧ g.slist xs.length = true) ∧
        ∃ e < 0, addStaged g b parts xs = (xs, e)) := by
  unfold addStaged
  dsimp only
  split_ifs with hneg
  · exact Or.inr ⟨fun h => absurd hneg (not_lt.mpr h.1), _, hneg, rfl⟩
  · rw [stage_data (not_lt.mp hneg)]
    unfold addStatic
    split_ifs with hlist
    · left
      exact ⟨not_lt.mp hneg, hlist, by simp⟩
    · exact Or.inr ⟨fun h => hlist h.2, .nomem, by decide, rfl⟩

theorem addStaged_adds {b : Buffer} {parts : List Bytes} (h : CleanLine (b.data ++ parts.flatten))
    (xs : List Bytes) : Adds xs [b.data ++ parts.flatten] (addStaged g b parts xs) := by
  rcases addStaged_cases (g := g) b parts xs with ⟨-, -, heq⟩ | ⟨-, e, he, heq⟩
  · rw [heq]
    exact .one h _
  · rw [heq]
    exact .error _ _ he

theorem addPair_cases (start value : Bytes) (xs : List Bytes) :
    (lineGranted g xs.length start value = true ∧
        addPair g start value xs = (xs ++ [headerLine start value], .ok)) ∨
      (¬ lineGranted g xs.length start value = true ∧
        ∃ e < 0, addPair g start value xs = (xs, e)) := by
  have hroom := stage_ok_iff (g := g) (Buffer.init headerHardMax) [start, value, [0]]
  rcases addStaged_cases (g := g) (Buffer.init headerHardMax) [start, value] xs with
    ⟨hstage, hlist, heq⟩ | ⟨hrefused, e, he, heq⟩
  · refine Or.inl ⟨?_, by simpa [addPair, Buffer.init, headerLine] using heq⟩
    rw [lineGranted, Bool.and_eq_true]
    exact ⟨hroom.mp hstage, hlist⟩
  · refine Or.inr ⟨fun h => hrefused ?_, e, he, heq⟩
    rw [lineGranted, Bool.and_eq_true] at h
    exact ⟨hroom.mpr h.1, h.2⟩

theorem addPair_ok_iff {start value : Bytes} {xs : List Bytes} :
    0 ≤ (addPair g start value xs).2 ↔ lineGranted g xs.length start value = true := by
  rcases addPair_cases (g := g) start value xs with ⟨hgranted, heq⟩ | ⟨hrefused, e, he, heq⟩
  · rw [heq]
    exact ⟨fun _ => hgranted, fun _ => le_refl (0 : Status)⟩
  · rw [heq]
    exact ⟨fun h => absurd he (not_lt.mpr h), fun h => absurd h hrefused⟩

/-- The value has to be clean only where it is added. -/
theorem addPair_adds {start value : Bytes} {xs : List Bytes} (hstart : CleanLine start)
    (hvalue : lineGranted g xs.length start value = true → CleanLine value) :
    Adds xs [headerLine start value] (addPair g start value xs) := by
  rcases addPair_cases (g := g) start value xs with ⟨hgranted, heq⟩ | ⟨-, e, he, heq⟩
  · rw [heq]
    exact .one (cleanLine_append.mpr ⟨hstart, hvalue hgranted⟩) _
  · rw [heq]
    exact .error _ _ he

/-- A line of two parts that was added is in the list. -/
theorem addPair_mem {start value : Bytes} {xs : List Bytes}
    (h : lineGranted g xs.length start value = true) :
    headerLine start value ∈ (addPair g start value xs).1 := by
  rcases addPair_cases (g := g) start value xs with ⟨-, heq⟩ | ⟨hrefused, -⟩
  · rw [heq]
    simp
  · exact absurd h hrefused

/-- A secret that is sent has no control characters. -/
theorem clean_of_secret {s : Bytes} (h : ¬ (s.any fun b => b < 32 || b == 127) = true) :
    CleanLine s := by
  refine cleanLine_of_visible fun b hb => ?_
  by_contra hlow
  apply h
  rw [List.any_eq_true]
  exact ⟨b, hb, by simp [UInt8.not_le.mp hlow]⟩

theorem clean_of_headerName (name : HeaderName) : CleanLine name.val := by
  have hvalid := name.property
  simp only [headerNameValid, Bool.and_eq_true, List.all_eq_true, Bool.or_eq_true, beq_iff_eq,
    decide_eq_true_eq] at hvalid
  refine cleanLine_of_visible fun b hb => ?_
  rcases hvalid.2 b hb with ((rfl | ⟨hb, -⟩) | ⟨hb, -⟩) | ⟨hb, -⟩
  · decide
  · exact UInt8.le_trans (by decide) hb
  · exact UInt8.le_trans (by decide) hb
  · exact UInt8.le_trans (by decide) hb

theorem addAuth_adds (c : Credential) (xs : List Bytes) :
    Adds xs (credentialLines c) (addAuth g c xs) := by
  cases c with
  | none => exact .none _ _
  | bearer secret =>
    simp only [addAuth]
    cases secret with
    | none => exact .error _ _ (by decide)
    | some s =>
      dsimp only
      split_ifs with hempty hlong hcontrol
      · exact .error _ _ (by decide)
      · exact .error _ _ (by decide)
      · exact .error _ _ (by decide)
      · exact addPair_adds (by decide) fun _ => clean_of_secret hcontrol
  | header name secret =>
    simp only [addAuth]
    cases secret with
    | none => exact .error _ _ (by decide)
    | some s =>
      dsimp only
      split_ifs with hempty hlong hcontrol
      · exact .error _ _ (by decide)
      · exact .error _ _ (by decide)
      · exact .error _ _ (by decide)
      · have hsep : CleanLine (ascii ": ") := by decide
        have hline : CleanLine ((Buffer.init headerHardMax).data ++
            [name.val, ascii ": ", s].flatten) := by
          simpa [Buffer.init, cleanLine_append] using
            ⟨clean_of_headerName name, hsep, clean_of_secret hcontrol⟩
        have h := addStaged_adds (g := g) hline xs
        simpa [Buffer.init, credentialLines, headerLine] using h

theorem clean_of_suffix {suffix : Bytes} (h : suffixValid suffix = true) : CleanLine suffix := by
  simp only [suffixValid, Bool.and_eq_true, List.all_eq_true, Bool.or_eq_true, beq_iff_eq,
    decide_eq_true_eq] at h
  refine cleanLine_of_visible fun b hb => ?_
  rcases h.2 b hb with ((⟨hb, -⟩ | ⟨hb, -⟩) | ⟨hb, -⟩) | rfl
  · exact UInt8.le_trans (by decide) hb
  · exact UInt8.le_trans (by decide) hb
  · exact UInt8.le_trans (by decide) hb
  · decide

theorem clean_decimal (n : ℕ) : CleanLine (decimal n) := by
  refine cleanLine_of_visible fun b hb => ?_
  unfold decimal at hb
  split_ifs at hb
  · obtain rfl := List.mem_singleton.mp hb
    decide
  · obtain ⟨d, hd, rfl⟩ := List.mem_map.mp hb
    have hlt : d < 10 := Nat.digits_lt_base (by decide) (List.mem_reverse.mp hd)
    rw [UInt8.le_iff_toNat_le, UInt8.toNat_ofNat_of_lt' (lt_of_lt_of_le
      (Nat.add_lt_add_left hlt 48) (by decide))]
    exact le_trans (by decide : (32 : UInt8).toNat ≤ 48) (Nat.le_add_right 48 d)

theorem clean_paramValue {v : Mcp.Json} {parts : List Bytes} (h : paramValue v = some parts) :
    CleanLine parts.flatten := by
  have hsign : CleanLine (ascii "-") := by decide
  cases v with
  | null => cases h
  | bool b =>
    obtain rfl := Option.some.inj h
    cases b <;> decide
  | integer n =>
    obtain rfl := Option.some.inj h
    split_ifs
    · simpa [cleanLine_append] using ⟨hsign, clean_decimal n.natAbs⟩
    · simpa using clean_decimal n.natAbs
  | real bits => cases h
  | string s =>
    simp only [paramValue] at h
    split_ifs at h with hvisible
    obtain rfl := Option.some.inj h
    rw [List.all_eq_true] at hvisible
    simp only [List.flatten_cons, List.flatten_nil, List.append_nil]
    refine cleanLine_of_visible fun b hb => ?_
    have := hvisible b hb
    simp only [Bool.and_eq_true, decide_eq_true_eq] at this
    exact this.1
  | array xs => cases h
  | object members => cases h

theorem addParam_adds (suffix : String) (v : Mcp.Json) (xs : List Bytes) :
    Adds xs [paramLine (suffix, v)] (addParam g (text suffix) v xs) := by
  unfold addParam
  by_cases hsuffix : suffixValid (text suffix) = false
  · rw [if_pos hsuffix]
    exact .error _ _ (by decide)
  · rw [if_neg hsuffix]
    dsimp only
    split_ifs with hneg
    · exact .error _ _ hneg
    · cases hvalue : paramValue v with
      | none => exact .error _ _ (by decide)
      | some parts =>
        have hstart : CleanLine (ascii "Mcp-Param-") := by decide
        have hsep : CleanLine (ascii ": ") := by decide
        have hdata := stage_data (not_lt.mp hneg)
        simp only [Buffer.init, List.nil_append, List.flatten_cons, List.flatten_nil,
          List.append_nil] at hdata
        have hline : paramLine (suffix, v) =
            (stage g (Buffer.init headerHardMax)
              [ascii "Mcp-Param-", text suffix, ascii ": "]).1.data ++ parts.flatten := by
          change _ = (stage g ⟨[], 0, headerHardMax, _, _⟩ _).1.data ++ _
          rw [hdata, paramLine, hvalue]
          simp
        rw [hline]
        refine addStaged_adds ?_ xs
        rw [← hline, paramLine, hvalue]
        simp only [cleanLine_append, Option.getD_some]
        exact ⟨⟨⟨hstart, clean_of_suffix (by simpa using hsuffix)⟩, hsep⟩, clean_paramValue hvalue⟩

theorem addParams_adds (args : Mcp.Json) (props : List (String × Mcp.Json)) (xs : List Bytes) :
    Adds xs ((annotated args props).map paramLine) (addParams g args props xs) := by
  induction props generalizing xs with
  | nil => exact .none _ _
  | cons p props ih =>
    obtain ⟨key, spec⟩ := p
    simp only [addParams]
    by_cases hspec : spec.isObject = false
    · rw [if_pos hspec]
      exact .error _ _ (by decide)
    · rw [if_neg hspec]
      have hskip (h : (spec.getString "x-mcp-header").bind (fun suffix =>
          (args.member key).map fun v => (suffix, v)) = none) :
          annotated args ((key, spec) :: props) = annotated args props := by
        simp [annotated, h]
      cases hheader : spec.member "x-mcp-header" with
      | none =>
        rw [hskip (by simp [Mcp.Json.getString, hheader])]
        exact ih xs
      | some header =>
        cases header with
        | string suffix =>
          dsimp only
          have hstring : spec.getString "x-mcp-header" = some suffix := by
            simp [Mcp.Json.getString, hheader]
          by_cases hargs : args.isObject = false
          · rw [if_pos hargs]
            exact .error _ _ (by decide)
          · rw [if_neg hargs]
            cases harg : args.member key with
            | none =>
              rw [hskip (by simp [harg])]
              exact ih xs
            | some v =>
              have hhere : annotated args ((key, spec) :: props) =
                  (suffix, v) :: annotated args props := by
                simp [annotated, hstring, harg]
              rw [hhere]
              refine (addParam_adds suffix v xs).andThen fun hok => ?_
              rw [(addParam_adds suffix v xs).done hok]
              exact ih _
        | null => exact .error _ _ (by decide)
        | bool b => exact .error _ _ (by decide)
        | integer n => exact .error _ _ (by decide)
        | real bits => exact .error _ _ (by decide)
        | array items => exact .error _ _ (by decide)
        | object members => exact .error _ _ (by decide)

theorem clean_method (method : RpcMethod) : CleanLine method.name := by
  cases method <;> decide

theorem modernStatics_adds :
    Adds [] [contentType, acceptBoth, expectNothing, modernVersion]
      (addStatics g [contentType, acceptBoth, expectNothing, modernVersion] []) :=
  addStatics_adds (by decide) []

theorem modernOpening_adds (method : RpcMethod) :
    Adds [] [contentType, acceptBoth, expectNothing, modernVersion,
      headerLine (ascii "Mcp-Method: ") method.name] (modernOpening g method) := by
  have hopen := modernStatics_adds (g := g)
  refine hopen.andThen (b := [headerLine (ascii "Mcp-Method: ") method.name]) fun hok => ?_
  rw [hopen.done hok]
  exact addPair_adds (by decide) fun _ => clean_method method

theorem modernOpening_ok_iff (method : RpcMethod) :
    0 ≤ (modernOpening g method).2 ↔
      (∀ i < 4, g.slist i = true) ∧ lineGranted g 4 (ascii "Mcp-Method: ") method.name = true := by
  have hstatics := addStatics_ok_iff (g := g)
    [contentType, acceptBoth, expectNothing, modernVersion] []
  simp only [List.length_nil, Nat.zero_add] at hstatics
  rw [modernOpening, andThen_ok_iff, addPair_ok_iff]
  constructor
  · rintro ⟨hok, hmethod⟩
    rw [modernStatics_adds.done hok] at hmethod
    exact ⟨hstatics.mp hok, hmethod⟩
  · rintro ⟨hgranted, hmethod⟩
    refine ⟨hstatics.mpr hgranted, ?_⟩
    rw [modernStatics_adds.done (hstatics.mpr hgranted)]
    exact hmethod

theorem clean_session (session : SessionId) : CleanLine session.val :=
  cleanLine_of_visible fun b hb => UInt8.le_trans (by decide) (session.property b hb).1

theorem addSession_adds (session : SessionId) (xs : List Bytes) :
    Adds xs (sessionLines session) (addSession g session xs) := by
  unfold addSession sessionLines
  split_ifs
  · exact .none _ _
  · exact addPair_adds (by decide) fun _ => clean_session session

theorem addSession_ok_iff (session : SessionId) (xs : List Bytes) :
    0 ≤ (addSession g session xs).2 ↔ session.val = [] ∨
      lineGranted g xs.length (ascii "Mcp-Session-Id: ") session.val = true := by
  unfold addSession
  split_ifs with hempty
  · exact ⟨fun _ => Or.inl hempty, fun _ => le_refl (0 : Status)⟩
  · rw [addPair_ok_iff]
    exact ⟨Or.inr, fun h => h.resolve_left hempty⟩

theorem getStatics_adds :
    Adds [] [acceptStream, legacyVersion] (addStatics g [acceptStream, legacyVersion] []) :=
  addStatics_adds (by decide) []

theorem getOpening_adds (session : SessionId) :
    Adds [] ([acceptStream, legacyVersion] ++ sessionLines session) (getOpening g session) := by
  have hopen := getStatics_adds (g := g)
  refine hopen.andThen fun hok => ?_
  rw [hopen.done hok]
  exact addSession_adds session _

theorem getOpening_ok_iff (session : SessionId) :
    0 ≤ (getOpening g session).2 ↔ (∀ i < 2, g.slist i = true) ∧
      (session.val = [] ∨ lineGranted g 2 (ascii "Mcp-Session-Id: ") session.val = true) := by
  have hstatics := addStatics_ok_iff (g := g) [acceptStream, legacyVersion] []
  simp only [List.length_nil, Nat.zero_add] at hstatics
  rw [getOpening, andThen_ok_iff, addSession_ok_iff]
  constructor
  · rintro ⟨hok, hsession⟩
    rw [getStatics_adds.done hok] at hsession
    exact ⟨hstatics.mp hok, hsession⟩
  · rintro ⟨hgranted, hsession⟩
    refine ⟨hstatics.mpr hgranted, ?_⟩
    rw [getStatics_adds.done (hstatics.mpr hgranted)]
    exact hsession

/-- What is added behind the name of a tool. -/
theorem toolArguments_adds {J : JsonLibrary} {tools body : Bytes} {params : Mcp.Json}
    {name : String} (hname : toolName J body = some (params, name)) (xs : List Bytes) :
    Adds xs ((toolLines J tools body).tail)
      (match params.member "arguments" with
        | none => (xs, .ok)
        | some args =>
          if tools = [] then (xs, .ok)
          else
            match J.parse tools.length tools with
            | none => (xs, .mcpProtocol)
            | some inventory => addParams g args (toolProperties name inventory) xs) := by
  simp only [toolLines, hname, List.tail_cons]
  cases params.member "arguments" with
  | none => exact .none _ _
  | some args =>
    dsimp only
    cases J.parse tools.length tools with
    | none =>
      split_ifs
      · exact .none _ _
      · exact .error _ _ (by decide)
    | some inventory =>
      dsimp only
      split_ifs
      · exact .none _ _
      · exact addParams_adds args _ xs

theorem addToolMetadata_adds {J : JsonLibrary} {tools body : Bytes} {xs : List Bytes}
    (hclean : ∀ params name, toolName J body = some (params, name) →
      lineGranted g xs.length (ascii "Mcp-Name: ") (text name) = true → CleanLine (text name)) :
    Adds xs (toolLines J tools body) (addToolMetadata g J tools body xs) := by
  unfold addToolMetadata
  by_cases hparse : (J.parse body.length body).isNone = true
  · rw [if_pos hparse]
    exact .error _ _ (by decide)
  · rw [if_neg hparse]
    cases hname : toolName J body with
    | none => exact .error _ _ (by decide)
    | some found =>
      obtain ⟨params, name⟩ := found
      have hlines : toolLines J tools body =
          [headerLine (ascii "Mcp-Name: ") (text name)] ++ (toolLines J tools body).tail := by
        simp [toolLines, hname]
      rw [hlines]
      have hpair := addPair_adds (by decide : CleanLine (ascii "Mcp-Name: "))
        (hclean params name hname)
      refine hpair.andThen fun hok => ?_
      rw [hpair.done hok]
      exact toolArguments_adds hname _

theorem addToolMetadata_mem {J : JsonLibrary} {tools body : Bytes} {params : Mcp.Json}
    {name : String} {xs : List Bytes} (hname : toolName J body = some (params, name))
    (hgranted : lineGranted g xs.length (ascii "Mcp-Name: ") (text name) = true) :
    headerLine (ascii "Mcp-Name: ") (text name) ∈ (addToolMetadata g J tools body xs).1 := by
  have hparse : ¬ (J.parse body.length body).isNone = true := by
    intro hnone
    rw [Option.isNone_iff_eq_none] at hnone
    simp [toolName, hnone] at hname
  unfold addToolMetadata
  rw [if_neg hparse, hname]
  exact andThen_mem (addPair_mem hgranted) fun xs h => (toolArguments_adds hname xs).mem h

theorem modernHeaders_adds {J : JsonLibrary} {c : Credential} {method : RpcMethod}
    {tools body : Bytes} (hclean : CleanValues J g (.modern method tools body)) :
    Adds [] (intended J c (.modern method tools body)) (modernHeaders g J c method tools body) := by
  have hopen := modernOpening_adds (g := g) method
  have hbody : Adds [] ([contentType, acceptBoth, expectNothing, modernVersion,
      headerLine (ascii "Mcp-Method: ") method.name] ++
        (if method = .toolsCall then toolLines J tools body else []))
      ((modernOpening g method).andThen fun xs =>
        if method = .toolsCall then addToolMetadata g J tools body xs else (xs, .ok)) := by
    refine hopen.andThen fun hok => ?_
    rw [hopen.done hok]
    obtain ⟨hstatics, hmethod⟩ := (modernOpening_ok_iff method).mp hok
    split_ifs with hcall
    · exact addToolMetadata_adds (hclean hcall hstatics hmethod)
    · exact .none _ _
  refine hbody.andThen fun hok => ?_
  rw [hbody.done hok]
  exact addAuth_adds c _

theorem legacyHeaders_adds (J : JsonLibrary) (c : Credential) (isInitialize : Bool)
    (session : SessionId) :
    Adds [] (intended J c (.legacy isInitialize session))
      (legacyHeaders g c isInitialize session) := by
  have hopen := addStatics_adds (g := g)
    (by decide : ∀ l ∈ [contentType, acceptBoth, expectNothing], CleanLine l) []
  have hbody : Adds [] ([contentType, acceptBoth, expectNothing] ++
      (if isInitialize then [] else legacyVersion :: sessionLines session))
      ((addStatics g [contentType, acceptBoth, expectNothing] []).andThen fun xs =>
        if isInitialize then (xs, .ok)
        else (addStatic g legacyVersion xs).andThen (addSession g session)) := by
    refine hopen.andThen fun hok => ?_
    rw [hopen.done hok]
    split_ifs
    · exact .none _ _
    · have hversion := addStatic_adds (g := g) (by decide : CleanLine legacyVersion)
        ([] ++ [contentType, acceptBoth, expectNothing])
      refine hversion.andThen (b := sessionLines session) fun hok' => ?_
      rw [hversion.done hok']
      exact addSession_adds session _
  refine hbody.andThen fun hok => ?_
  rw [hbody.done hok]
  exact addAuth_adds c _

theorem legacyGetHeaders_adds {J : JsonLibrary} {c : Credential} {session : SessionId}
    {lastEvent : Bytes} (hclean : CleanValues J g (.legacyGet session lastEvent)) :
    Adds [] (intended J c (.legacyGet session lastEvent))
      (legacyGetHeaders g c session lastEvent) := by
  have hopen := getOpening_adds (g := g) session
  have hbody : Adds [] ([acceptStream, legacyVersion] ++ sessionLines session ++
      (if lastEvent = [] then [] else [headerLine (ascii "Last-Event-ID: ") lastEvent]))
      ((getOpening g session).andThen fun xs =>
        if lastEvent = [] then (xs, .ok)
        else addPair g (ascii "Last-Event-ID: ") lastEvent xs) := by
    refine hopen.andThen fun hok => ?_
    rw [hopen.done hok]
    obtain ⟨hstatics, hsession⟩ := (getOpening_ok_iff session).mp hok
    split_ifs with hempty
    · exact .none _ _
    · refine addPair_adds (by decide) fun hgranted => hclean hstatics hsession ?_
      rwa [List.nil_append, List.length_append, List.length_cons, List.length_cons,
        List.length_nil] at hgranted
  refine hbody.andThen fun hok => ?_
  rw [hbody.done hok]
  exact addAuth_adds c _

theorem headers_adds {J : JsonLibrary} (c : Credential) {r : HeaderRequest}
    (hclean : CleanValues J g r) : Adds [] (intended J c r) (headers J g c r) := by
  cases r with
  | modern method tools body => exact modernHeaders_adds hclean
  | legacy isInitialize session => exact legacyHeaders_adds J c isInitialize session
  | legacyGet session lastEvent => exact legacyGetHeaders_adds hclean

/-- The name of a tool that is added is a part of the list. -/
theorem name_mem_headers {J : JsonLibrary} {c : Credential} {tools body : Bytes}
    {params : Mcp.Json} {name : String} (hstatics : ∀ i < 4, g.slist i = true)
    (hmethod : lineGranted g 4 (ascii "Mcp-Method: ") RpcMethod.toolsCall.name = true)
    (hname : toolName J body = some (params, name))
    (hgranted : lineGranted g 5 (ascii "Mcp-Name: ") (text name) = true) :
    headerLine (ascii "Mcp-Name: ") (text name) ∈
      (headers J g c (.modern .toolsCall tools body)).1 := by
  have hopen := (modernOpening_ok_iff .toolsCall).mpr ⟨hstatics, hmethod⟩
  refine andThen_mem ?_ fun xs h => (addAuth_adds c xs).mem h
  rw [andThen_of_ok hopen, if_pos rfl, (modernOpening_adds .toolsCall).done hopen]
  exact addToolMetadata_mem hname hgranted

theorem lastEvent_mem_headers {J : JsonLibrary} {c : Credential} {session : SessionId}
    {lastEvent : Bytes} (hstatics : ∀ i < 2, g.slist i = true)
    (hsession : session.val = [] ∨
      lineGranted g 2 (ascii "Mcp-Session-Id: ") session.val = true)
    (hgranted : lineGranted g (2 + (sessionLines session).length) (ascii "Last-Event-ID: ")
      lastEvent = true) (hne : lastEvent ≠ []) :
    headerLine (ascii "Last-Event-ID: ") lastEvent ∈
      (headers J g c (.legacyGet session lastEvent)).1 := by
  have hopen := (getOpening_ok_iff session).mpr ⟨hstatics, hsession⟩
  refine andThen_mem ?_ fun xs h => (addAuth_adds c xs).mem h
  rw [andThen_of_ok hopen, if_neg hne, (getOpening_adds session).done hopen]
  refine addPair_mem ?_
  rwa [List.nil_append, List.length_append, List.length_cons, List.length_cons, List.length_nil]

end Add

/-- The lines are clean, and a finished list is the intended one, exactly when the names of tools
and the ids of events that are added are clean: nothing looks at these. -/
theorem headers_noInjection_iff (J : JsonLibrary) (g : Grant) (c : Credential)
    (r : HeaderRequest) : NoInjection J g c r ↔ CleanValues J g r := by
  constructor
  · rintro ⟨hclean, -⟩
    cases r with
    | modern method tools body =>
      rintro rfl hstatics hmethod params name hname hgranted
      have hline := hclean _ (name_mem_headers hstatics hmethod hname hgranted)
      exact (cleanLine_append.mp hline).2
    | legacy isInitialize session => trivial
    | legacyGet session lastEvent =>
      intro hstatics hsession hgranted
      by_cases hempty : lastEvent = []
      · rw [hempty]
        decide
      · have hline := hclean _ (lastEvent_mem_headers hstatics hsession hgranted hempty)
        exact (cleanLine_append.mp hline).2
  · intro hclean
    have hadds := headers_adds c hclean
    obtain ⟨new, hnew, hlines⟩ := hadds.lines
    refine ⟨fun line hline => hlines line ?_, hadds.done⟩
    rwa [hnew] at hline

/-! ## A name that goes on behind a line break -/

private def brokenName : String := "a\r\nB: 1"

private def callText : Bytes :=
  ascii ("\x7b\"jsonrpc\":\"2.0\",\"id\":1,\"method\":\"tools/call\"," ++
    "\"params\":\x7b\"name\":\"a\\r\\nB: 1\"\x7d\x7d")

/-- A library that knows this text. -/
private def oneCall : JsonLibrary where
  parse _ text :=
    if text = callText then
      some (.object [("jsonrpc", .string "2.0"), ("id", .integer 1),
        ("method", .string "tools/call"), ("params", .object [("name", .string brokenName)])])
    else none
  dump _ := none

private def allMemory : Grant := ⟨fun _ => true, fun _ => true⟩

/-- The rest of the name is a header of its own. -/
theorem headers_smuggled : ¬ ∀ J g c r, NoInjection J g c r := by
  intro h
  have hclean := (h oneCall allMemory .none (.modern .toolsCall [] callText)).clean
  have hline : headerLine (ascii "Mcp-Name: ") (text brokenName) ∈
      (headers oneCall allMemory .none (.modern .toolsCall [] callText)).1 := by
    decide
  exact absurd (hclean _ hline) (by decide)

end AsmFlow.McpHttp
