import AsmFlow.Tui.Model

/-!
# The runtime of the console

`tui_run.asm`: the control calls of the console, the frames it keeps for a rollback, and
the keys that refresh, move and change screens. A refresh of the overview or of the
providers is staged: the frames are applied to the model one by one, and where one fails
the frames that are kept are applied again.
-/

namespace AsmFlow.Console

open Http Json Tui

/-- `AF_TUI_CONN_*`. -/
inductive Connection
  | connected
  | stale
  | disconnected
  deriving DecidableEq, Repr

/-- `AF_TUI_SCREEN_*`. -/
inductive ScreenId
  | overview
  | providers
  | routes
  | requests
  | mcp
  | logs
  | settings
  deriving DecidableEq, Repr

def ScreenId.listScreen : ScreenId → Option ListScreen
  | .providers => some .providers
  | .routes => some .routes
  | .mcp => some .mcp
  | _ => none

/-- What a control call leaves behind: the envelope in its buffer, or an error, and the
buffer as it was or with what had come. -/
inductive Reply
  | frame (bytes : Bytes)
  | fault (e : Status) (neg : e < 0) (left : Option Bytes)

def Reply.status : Reply → Status
  | .frame _ => Status.ok
  | .fault e _ _ => e

def Reply.into (old : Bytes) : Reply → Bytes
  | .frame bytes => bytes
  | .fault _ _ left => left.getD old

/-- What the control socket and the allocator do during one key. -/
structure Outcome where
  opened : Status
  reply : Kind → Reply
  detail : Reply
  versionGranted : Bool
  granted : Kind → Bool
  again : Kind → Bool

/-- `tui_responses`, the connection and the screen beside the model. -/
structure Runtime where
  model : Model
  responses : Kind → Bytes
  connection : Connection
  current : ScreenId

section Keys

variable (loadb : Bytes → Option Mcp.Json) (o : Outcome)

/-- `_af_tuir_call`, with the response buffer of the kind. -/
def call (r : Runtime) (k : Kind) : Runtime × Status :=
  let r := { r with responses := Function.update r.responses k ((o.reply k).into (r.responses k)) }
  if (o.reply k).status < 0 then (r, (o.reply k).status)
  else
    match r.model.setFrame loadb (o.granted k) k (r.responses k) with
    | (m, st) => ({ r with model := m }, st)

/-- Calls in order, up to the first that fails. -/
def callAll : List Kind → Runtime → Runtime × Status
  | [], r => (r, Status.ok)
  | k :: ks, r =>
    match call loadb o r k with
    | (r, st) => if st < 0 then (r, st) else callAll ks r

/-- `AF_CTL_PROTOCOL_VERSION`. -/
def protocolVersion : ℤ := 1

/-- `_af_tuir_validate_version`. -/
def validateVersion (granted : Bool) (bytes : Bytes) : Status :=
  match parseDoc loadb granted ⟨bytes.length, 64, 1024 * 1024, 10000⟩ bytes with
  | .error _ => Status.invalid
  | .ok root =>
    if root.getBool "ok" = some true then
      match root.getObject "result" with
      | none => Status.invalid
      | some result =>
        if result.getInteger "protocol_version" = some protocolVersion then Status.ok
        else Status.invalid
    else Status.invalid

/-- The calls of the bootstrap behind the version. -/
def bootKinds : List Kind :=
  [.snapshot, .providers, .routes, .requests, .mcp, .logs, .config]

/-- `_af_tuir_bootstrap`. -/
def bootstrap (r : Runtime) : Runtime × Status :=
  match call loadb o { r with model := r.model.reset } .version with
  | (r, st) =>
    if st < 0 then (r, st)
    else
      let version := validateVersion loadb o.versionGranted (r.responses .version)
      if version < 0 then (r, version) else callAll loadb o bootKinds r

/-- `_af_tuir_reconnect`. -/
def reconnect (r : Runtime) : Runtime :=
  if o.opened < 0 then { r with connection := .disconnected }
  else
    match bootstrap loadb o r with
    | (r, st) => { r with connection := if st < 0 then .disconnected else .connected }

/-- `_af_tuir_provider_get`; its response is for no one. -/
def providerGet (r : Runtime) (m : Model) : Status :=
  if r.connection ≠ .connected then Status.ctlState
  else if (m.screens .providers).selectedId = [] then Status.notFound
  else if ctlIdMax < (m.screens .providers).selectedId.length then Status.limit
  else o.detail.status

/-- `_af_tuir_save_selection`. -/
def saveSelection (s : Screen) : Except Status Bytes :=
  if ctlIdMax < s.selectedId.length then .error Status.limit else .ok s.selectedId

/-- `.find` of `_af_tuir_restore_selection`. -/
def restoreFrom (k : ListScreen) (saved : Bytes) : ℕ → Screen → Screen
  | 0, s => s
  | n + 1, s =>
    if s.selectedId = saved then s
    else
      match s.selectNext k with
      | (s, st) => if st < 0 then s else restoreFrom k saved n s

/-- `_af_tuir_restore_selection`; its callers drop the status. -/
def restoreSelection (k : ListScreen) (saved : Bytes) (s : Screen) : Screen :=
  if saved = [] then s else restoreFrom k saved maxRows s

/-- Applies the frames that are kept again, whatever becomes of them. -/
def reapply (responses : Kind → Bytes) : List Kind → Model → Model
  | [], m => m
  | k :: ks, m => reapply responses ks (m.setFrame loadb (o.again k) k (responses k)).1

/-- `_af_tuir_provider_refresh`. -/
def providerRefresh (r : Runtime) : Runtime × Status :=
  if r.connection ≠ .connected then (r, Status.ctlState)
  else
    match saveSelection (r.model.screens .providers) with
    | .error e => (r, e)
    | .ok saved =>
      match o.reply .providers with
      | .fault e _ _ => (r, e)
      | .frame bytes =>
        let rollback := fun m : Model =>
          (reapply loadb o r.responses [.providers] m).onScreen .providers
            (restoreSelection .providers saved)
        match r.model.setFrame loadb (o.granted .providers) .providers bytes with
        | (m, st) =>
          if st < 0 then ({ r with model := rollback m }, st)
          else if providerGet o r m < 0 then ({ r with model := rollback m }, providerGet o r m)
          else
            ({ r with
                model := m
                responses := Function.update r.responses .providers bytes }, Status.ok)

/-- The documents of the overview. -/
def overviewKinds : List Kind := [.snapshot, .providers, .routes, .mcp]

/-- The error of the first call that fails. -/
def firstFault : List Kind → Option Status
  | [] => none
  | k :: ks =>
    match o.reply k with
    | .fault e _ _ => some e
    | .frame _ => firstFault ks

/-- Applies the staged frames in order, up to the first that fails. -/
def applyStaged : List Kind → Model → Model × Status
  | [], m => (m, Status.ok)
  | k :: ks, m =>
    match m.setFrame loadb (o.granted k) k ((o.reply k).into []) with
    | (m, st) => if st < 0 then (m, st) else applyStaged ks m

/-- `.overview` of `_af_tuir_refresh_current`. -/
def overviewRefresh (r : Runtime) : Runtime × Status :=
  match saveSelection (r.model.screens .providers), saveSelection (r.model.screens .routes) with
  | .error e, _ => (r, e)
  | _, .error e => (r, e)
  | .ok providers, .ok routes =>
    match firstFault o overviewKinds with
    | some e => (r, e)
    | none =>
      match applyStaged loadb o overviewKinds r.model with
      | (m, st) =>
        if st < 0 then
          let m := reapply loadb o r.responses overviewKinds m
          let m := m.onScreen .providers (restoreSelection .providers providers)
          ({ r with model := m.onScreen .routes (restoreSelection .routes routes) }, st)
        else
          ({ r with
              model := m
              responses := fun k =>
                if k ∈ overviewKinds then (o.reply k).into [] else r.responses k }, Status.ok)

/-- `_af_tuir_refresh_current`, while connected. -/
def refreshCurrent (r : Runtime) : Runtime × Status :=
  match r.current with
  | .overview => overviewRefresh loadb o r
  | .providers => providerRefresh loadb o r
  | .routes => call loadb o r .routes
  | .requests => call loadb o r .requests
  | .mcp => call loadb o r .mcp
  | .logs => call loadb o r .logs
  | .settings => call loadb o r .config

end Keys

/-- What happens to the console. -/
inductive Event
  | refresh (o : Outcome)
  | rowNext (o : Outcome)
  | rowPrev (o : Outcome)
  | screen (current : ScreenId)
  | restart (o : Outcome)
  | present
  | poll (lost : Bool)

/-- `_af_tuir_move_selection`, behind the move itself. -/
def afterMove (o : Outcome) (r : Runtime) (moved : Model × Status) : Runtime :=
  let stale := ¬ moved.2 < 0 ∧ r.current = .providers ∧ providerGet o r moved.1 < 0
  { r with model := moved.1, connection := if stale then .stale else r.connection }

/-- `_af_tuir_mcp_restart`, and its failure. -/
def restart (o : Outcome) (r : Runtime) : Runtime :=
  let failed := r.connection ≠ .connected ∨ (r.model.screens .mcp).selectedId = [] ∨
    ctlIdMax < (r.model.screens .mcp).selectedId.length ∨ o.detail.status < 0
  { r with connection := if failed then .stale else r.connection }

/-- One turn of the loop: a key of `_af_tuir_handle_key`, a poll, or a frame for the
terminal. -/
def turn (loadb : Bytes → Option Mcp.Json) (r : Runtime) : Event → Runtime
  | .refresh o =>
    if r.connection = .connected then
      match refreshCurrent loadb o r with
      | (r, st) => if st < 0 then { r with connection := .stale } else r
    else reconnect loadb o r
  | .rowNext o =>
    match r.current.listScreen with
    | none => r
    | some k => afterMove o r (r.model.selectNext k)
  | .rowPrev o =>
    match r.current.listScreen with
    | none => r
    | some k => afterMove o r (r.model.selectPrev k)
  | .screen current => { r with current := current }
  | .restart o => restart o r
  | .present =>
    match r.current.listScreen with
    | none => r
    | some k => { r with model := r.model.build k }
  | .poll lost =>
    if r.connection ≠ .disconnected ∧ lost = true then { r with connection := .disconnected }
    else r

end AsmFlow.Console
