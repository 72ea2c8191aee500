import AsmFlow.Library.Runs
import AsmFlow.Library.Slots
import AsmFlow.Providers.Exchange

/-!
# The exchange engine

The table of exchange slots, the links from client connections to them, and the
routing table all exchanges share. One action of the world is one call made from
the event loop: a request starts, libcurl reports a header, a body write or the
end of a transfer, the client's outbox drains, the client goes away, or the
daemon shuts an exchange down.
-/

namespace AsmFlow.Providers

open Library Routing

/-- `AF_PROV_MAX_EXCHANGES`. -/
def provMaxExchanges : ℕ := 64

abbrev Slot := Fin provMaxExchanges

/-- An exchange since boot: the route it serves and what it has done. -/
structure History where
  route : CfgRoute
  trace : List Event

/-- `af_prov_engine` with the routing table and the `HC_EXCHANGE` links of the
connections, each named by its place in the listener's table. -/
structure World where
  table : Table
  slots : Slot → Exchange
  conns : ℕ → Option Slot
  history : List History
  active : Word
  maxActive : Word
  total : Word
  failed : Word
  cancelled : Word
  retried : Word

namespace World

/-- The ceiling of `af_prov_engine_init`: the configured one, never more than
the table has; zero is unset. -/
def ceiling (configured : Word) : Word :=
  if configured = 0 then 64 else if 64 ≤ configured then 64 else configured

def boot (configured : Word) : World :=
  { table := ⟨[], []⟩, slots := fun _ => Exchange.zero, conns := fun _ => none, history := []
    active := 0, maxActive := ceiling configured, total := 0, failed := 0, cancelled := 0
    retried := 0 }

def traceOf (w : World) (serial : ℕ) : List Event :=
  ((w.history[serial]?).map History.trace).getD []

/-- What a function called on slot `i` works on. -/
def focus (w : World) (i : Slot) : Focus := ⟨w.table, w.slots i, w.traceOf (w.slots i).serial⟩

/-- What it leaves behind. -/
def refocus (w : World) (i : Slot) (f : Focus) : World :=
  { w with
    table := f.table, slots := Function.update w.slots i f.x
    history := w.history.modify (w.slots i).serial fun h => { h with trace := f.trace } }

/-- `af_prov_slot_alloc`, the search. -/
def freeSlot (w : World) : Option Slot :=
  if w.maxActive ≤ w.active then none
  else (List.finRange provMaxExchanges).find? fun i => decide ((w.slots i).state = .free)

/-- `af_prov_slot_alloc`, the taking. -/
def occupy (w : World) (i : Slot) (route : CfgRoute) : World :=
  { w with
    slots := Function.update w.slots i
      { Exchange.zero with state := .starting, serial := w.history.length }
    history := w.history ++ [⟨route, []⟩]
    active := w.active + 1, total := w.total + 1 }

/-- `af_prov_exchange_dispose` and `af_prov_slot_release`. -/
def dispose (w : World) (i : Slot) (nowNs : Word) : World :=
  if (w.slots i).state = .free then w
  else
    let w := w.refocus i (disposeExchange (w.focus i) nowNs)
    { w with active := if w.active = 0 then w.active else w.active - 1 }

/-- A write to the record of slot `i`. -/
def onSlot (w : World) (i : Slot) (g : Exchange → Exchange) : World :=
  { w with slots := Function.update w.slots i (g (w.slots i)) }

/-- Entries for the trace of the exchange in slot `i`, if there is one. -/
def note (w : World) (i : Slot) (es : List Event) : World :=
  if (w.slots i).live then
    { w with history := w.history.modify (w.slots i).serial fun h =>
        { h with trace := h.trace ++ es } }
  else w

/-- The connection and the exchange forget each other. -/
def unlink (w : World) (c : ℕ) (i : Slot) : World :=
  { w with conns := Function.update w.conns c none }.onSlot i forgetClient

end World

/-- `af_prov_exchange_start`. -/
def exchangeStart (w : World) (s : StartRequest) : World × Status :=
  match w.freeSlot with
  | none => (w, .routeCapacity)
  | some i =>
    let w := w.occupy i s.route
    match startExchange (w.focus i) s with
    | (f, status) =>
      let w := w.refocus i f
      if status < 0 then (w.dispose i s.disposeNs, status)
      else ({ w with conns := Function.update w.conns s.conn (some i) }, .ok)

/-- `af_prov_exchange_finish`. -/
def exchangeFinish (w : World) (i : Slot) (r : FinishEnv) : World :=
  let x := w.slots i
  if x.state ≠ .active then w.dispose i r.releaseNs
  else
    let verdict := r.verdict x
    match x.conn with
    | none =>
      let f := attemptRelease (endTransfer (w.focus i) verdict) .upCancelled r.releaseNs
      (w.refocus i f).dispose i r.releaseNs
    | some c =>
      let w := if verdict < 0 then { w with failed := w.failed + 1 } else w
      match finishExchange (w.focus i) r with
      | (f, true) =>
        let w := w.refocus i f
        { w with retried := w.retried + 1 }
      | (f, false) => ((w.refocus i f).unlink c i).dispose i r.answerNs

/-- `af_prov_conn_detach`. -/
def connDetach (w : World) (c : ℕ) (nowNs : Word) : World :=
  match w.conns c with
  | none => w
  | some i =>
    let w := ((w.unlink c i).onSlot i markCancelled).note i [.clientGone, .cancelled]
    { w with cancelled := w.cancelled + 1 }.dispose i nowNs

/-- `af_prov_exchange_abandon`; the engine's shutdown is one for each slot. -/
def exchangeAbandon (w : World) (i : Slot) (nowNs : Word) : World :=
  match (w.slots i).conn with
  | none => w.dispose i nowNs
  | some c => (w.unlink c i).dispose i nowNs

/-- `af_prov_conn_drained`, when the outbox is low enough. -/
def connDrained (w : World) (c : ℕ) : World :=
  match w.conns c with
  | none => w
  | some i => w.onSlot i clearPaused

inductive Action
  | start (s : StartRequest)
  | header (i : Slot) (line : HeaderLine)
  | write (i : Slot) (o : WriteEnv)
  | drained (c : ℕ)
  | finish (i : Slot) (r : FinishEnv)
  | detach (c : ℕ) (nowNs : Word)
  | abandon (i : Slot) (nowNs : Word)
  | dispose (i : Slot) (nowNs : Word)
  | look (id : Bytes) (alloc : Bool) (nowNs : Word)

/-- The control socket's listing looks at a provider's state. -/
def controlLook (t : Table) (id : Bytes) (alloc : Bool) (nowNs : Word) : Table :=
  match routingProvider t id alloc with
  | (t, none) => t
  | (t, some k) => t.onProvider k (healthRefresh · nowNs)

def worldStep (w : World) : Action → World
  | .start s => (exchangeStart w s).1
  | .header i line => w.refocus i (onHeader (w.focus i) line)
  | .write i o => w.refocus i (onWrite (w.focus i) o)
  | .drained c => connDrained w c
  | .finish i r => exchangeFinish w i r
  | .detach c nowNs => connDetach w c nowNs
  | .abandon i nowNs => exchangeAbandon w i nowNs
  | .dispose i nowNs => w.dispose i nowNs
  | .look id alloc nowNs => { w with table := controlLook w.table id alloc nowNs }

end AsmFlow.Providers
