import AsmFlow.Http.Slot
import AsmFlow.Library.Runs

/-!
# The server's events

`af_http_on_conn` and the other ways into a connection: its exchange, the idle
sweep, the listener and the first phase of a shutdown. What the kernel, the
allocator and the transfer library answer comes with the event. Besides the
connection it leaves, an event says what it did on the way.
-/

namespace AsmFlow.Http

open Library Providers

/-- `AF_HTTP_MAX_CLIENTS`. -/
def clientsMax : ℕ := 128

variable {P : Type}

/-- Something done to a connection, with the connection as it was then. -/
inductive Act (P : Type)
  | flushed (x : Slot P) (w : Writes)
  | fed (x : Slot P)
  /-- The write side is shut down. -/
  | shut (x : Slot P)
  | released (x : Slot P)
  | accepted

/-- The slot an event leaves, unless it is released, and what was done. -/
structure Done (P : Type) where
  slot : Option (Slot P)
  acts : List (Act P)

namespace Done

def keep (x : Slot P) : Done P := ⟨some x, []⟩

def release (x : Slot P) : Done P := ⟨none, [.released x]⟩

def after (a : Act P) (d : Done P) : Done P := { d with acts := a :: d.acts }

end Done

/-- What a read returns. `ended` is the end of the stream and any error but
`AF_E_AGAIN`. -/
inductive ReadResult
  | got (d : Bytes)
  | again
  | ended
  deriving DecidableEq, Repr

/-- What one event on a connection meets: the mask, the flush it asks for, the read and the
flush behind it, the flush of a hangup, and whether a shutdown of the write side works. -/
structure ConnEvent where
  writable : Bool
  readable : Bool
  hup : Bool
  first : Writes
  read : ReadResult
  second : Writes
  third : Writes
  shutOk : Bool

/-- How an exchange ends: with a response, or a committed stream with its last chunks. -/
inductive Ending
  | answered (a : Answer)
  | streamed (last : List Piece)

namespace Slot

/-- `af_http_conn_flush` on the way of an event. -/
def flushing (x : Slot P) (w : Writes) (k : Slot P → Bool → Done P) : Done P :=
  .after (.flushed x w) (k (x.flush w).1 (x.flush w).2)

/-- `af_http_begin_drain`. -/
def beginDrain (x : Slot P) (shutOk closes : Bool) : Done P :=
  if x.conn.draining then .keep x
  else
    let y := x.withConn { x.conn with draining := true }
    if shutOk then .after (.shut x) (.keep { y with interest := ⟨true, false⟩ })
    else .after (.shut x) (if closes then .release y else .keep y)

/-- `.maybe_close`. -/
def maybeClose (shutting : Bool) (x : Slot P) (shutOk : Bool) : Done P :=
  if x.conn.upstream then .keep x
  else if x.conn.closing = false then .keep x
  else if x.conn.outbox.holds then .keep x
  else if shutting then .release x
  else x.beginDrain shutOk true

def close (x : Slot P) : Slot P := x.withConn { x.conn with closing := true }

/-- `.drain_then_close`. -/
def drainThenClose (shutting : Bool) (x : Slot P) (e : ConnEvent) : Done P :=
  if x.conn.upstream then .release x
  else x.close.flushing e.third fun y _ => y.maybeClose shutting e.shutOk

/-- An event while the daemon is shutting down. -/
def graceful (x : Slot P) (e : ConnEvent) : Done P :=
  if e.hup then x.close.drainThenClose true e
  else if x.conn.upstream then .keep x.close
  else if x.conn.outbox.holds then .keep x.close
  else .release x.close

section Server

variable (s : Server Outbox) (T : Parser P)

/-- `af_http_conn_feed`. -/
def feeding (x : Slot P) (k : Slot P → Done P) : Done P :=
  .after (.fed x) (k { x with client := s.feed T x.client })

/-- `af_http_conn_read`: the bytes that fit the inbox, or why there are none. -/
def received (x : Slot P) (d : Bytes) : Option (Slot P) :=
  if x.client.inbox.length + d.length ≤ s.headerMax + s.bodyMax + readChunk then
    some { x with client := { x.client with inbox := x.client.inbox ++ d } }
  else none

/-- `.read_ended`. -/
def readEnded (x : Slot P) (e : ConnEvent) : Done P :=
  if x.conn.upstream then .release x
  else x.close.feeding s T fun y => y.flushing e.second fun z _ => z.drainThenClose false e

/-- `.read`. -/
def reading (x : Slot P) (e : ConnEvent) : Done P :=
  if x.conn.draining then
    match e.read with
    | .ended => .release x
    | _ => .keep x
  else
    match e.read with
    | .again => x.maybeClose false e.shutOk
    | .ended => x.readEnded s T e
    | .got d =>
      match x.received s d with
      | none => (x.withConn (x.conn.setFault .bodyTooLarge)).readEnded s T e
      | some y =>
        y.feeding s T fun y => y.flushing e.second fun z ok =>
          if ok then z.maybeClose false e.shutOk else .release z

/-- `af_http_on_conn`, behind the flush. -/
def onEvents (shutting : Bool) (x : Slot P) (e : ConnEvent) : Done P :=
  if shutting then x.graceful e
  else if e.readable then x.reading s T e
  else if e.hup then x.drainThenClose false e
  else x.maybeClose false e.shutOk

/-- `af_http_on_conn`. -/
def onConn (shutting : Bool) (x : Slot P) (e : ConnEvent) : Done P :=
  if e.writable then
    x.flushing e.first fun y ok => if ok then y.onEvents s T shutting e else .release y
  else x.onEvents s T shutting e

/-- `af_http_conn_resume`. -/
def resume (shutting : Bool) (x : Slot P) (w : Writes) (shutOk : Bool) : Done P :=
  if x.conn.upstream then .keep x
  else if shutting then
    (x.withConn { x.conn with responded := false }).close.flushing w fun y ok =>
      if ok = false then .release y
      else if y.conn.outbox.holds then .keep y
      else .release y
  else
    let y := { x with client := { x.client with toReader := Server.resume x.client.toReader } }
    if y.conn.keepAlive = false then y.beginDrain shutOk false
    else y.feeding s T fun z => z.flushing w fun z _ => .keep z

/-- What the client is told in the end. -/
def conclude (x : Slot P) (a : Answer) : Slot P :=
  match a with
  | .response status flags body =>
    x.withConn (Conn.commit s.post { x.conn with response := body } status flags).1
  | .error id => x.withConn (s.sendError x.conn id).1

/-- The connection without its exchange. -/
def detached (x : Slot P) : Slot P :=
  { x.withConn { x.conn with upstream := false } with paused := false }

/-- The last bytes of an ending, before they are flushed. -/
def ended (alloc : ℕ → Bool) (x : Slot P) : Ending → Slot P
  | .answered a => x.conclude s a
  | .streamed last =>
    let y := (x.emitAll last).1
    y.withOutbox (y.conn.outbox.append alloc lastChunk).1

/-- `af_prov_exchange_finish`, for a connection that is still there. The exchange is no
longer active, so a transfer that its flush resumed would be aborted. -/
def finish (alloc : ℕ → Bool) (shutting : Bool) (x : Slot P) (ending : Ending)
    (sys : List SysWrite) (w : Writes) (shutOk : Bool) : Done P :=
  if x.conn.upstream = false then .keep x
  else
    (x.ended s alloc ending).flushing ⟨sys, []⟩ fun y _ =>
      y.detached.resume s T shutting w shutOk

/-- The head of a streamed response, in `af_prov_headers_complete`. -/
def streamHead (alloc : ℕ → Bool) (x : Slot P) (status : ℕ) (w : Writes) : Done P :=
  if x.conn.upstream = false then .keep x
  else
    match x.conn.outbox.writeHead alloc status 0 (some x.conn.requestId) true
      { HeadFlags.none with sse := true, chunked := true, noStore := true } with
    | (o, st) =>
      if st < 0 then .keep (x.withOutbox o)
      else
        (x.withConn { x.conn with outbox := o, responded := true }).flushing w fun y _ => .keep y

/-- A write callback; the library makes none for a paused transfer. -/
def streamWrite (x : Slot P) (pieces : List Piece) : Done P :=
  if x.conn.upstream = false ∨ x.paused then .keep x else .keep (x.onWrite pieces).1

/-- `af_http_on_timer`, for a connection past its timeout. -/
def sweep (x : Slot P) (w : Writes) : Done P :=
  if x.conn.upstream then .keep x
  else if x.conn.closing = false ∧ x.conn.headerBytes ≠ 0 ∧ x.conn.messageDone = false then
    (x.withConn (s.sendError x.conn .requestTimeout).1).close.flushing w fun y _ => .release y
  else .release x

end Server

/-- `af_http_server_stop_accepting`, for one connection. -/
def stopped (x : Slot P) : Done P :=
  if x.conn.upstream then .keep { x.close with interest := ⟨false, false⟩ }
  else if x.conn.outbox.holds then .keep { x.close with interest := ⟨false, true⟩ }
  else .release x.close

end Slot

/-! ## The table of connections -/

structure Daemon (P : Type) where
  slots : Fin clientsMax → Option (Slot P)
  /-- The listener is open and registered. -/
  listening : Bool
  /-- `RT_SHUTTING_DOWN`. -/
  shutting : Bool

inductive DaemonEvent
  | accept
  | conn (i : Fin clientsMax) (e : ConnEvent)
  | streamHead (i : Fin clientsMax) (status : ℕ) (w : Writes)
  | streamWrite (i : Fin clientsMax) (pieces : List Piece)
  | finish (i : Fin clientsMax) (ending : Ending) (sys : List SysWrite) (w : Writes)
    (shutOk : Bool)
  | sweep (i : Fin clientsMax) (w : Writes)
  /-- The first termination signal. -/
  | stop

namespace Daemon

variable (s : Server Outbox) (T : Parser P)

/-- `af_http_slot_alloc`. -/
def freeSlot (d : Daemon P) : Option (Fin clientsMax) :=
  (List.finRange clientsMax).find? fun i => (d.slots i).isNone

/-- An accepted connection, as `af_http_on_listen` registers it. -/
def accepted : Slot P := ⟨Client.fresh T.start .fresh, ⟨true, false⟩, false⟩

/-- An event of one connection. A closed slot has none. -/
def onSlot (d : Daemon P) (i : Fin clientsMax) (f : Slot P → Done P) : Daemon P × List (Act P) :=
  match d.slots i with
  | none => (d, [])
  | some x => ({ d with slots := Function.update d.slots i (f x).slot }, (f x).acts)

/-- `af_daemon_on_signal`: the flag, and `af_http_server_stop_accepting`. -/
def stop (d : Daemon P) : Daemon P × List (Act P) :=
  (⟨fun i => (d.slots i).bind fun x => x.stopped.slot, false, true⟩,
    (List.finRange clientsMax).flatMap fun i =>
      match d.slots i with
      | none => []
      | some x => x.stopped.acts)

/-- One event, with the allocator it meets. -/
def react (alloc : ℕ → Bool) (d : Daemon P) : DaemonEvent → Daemon P × List (Act P)
  | .accept =>
    if d.listening && !d.shutting then
      match d.freeSlot with
      | none => (d, [])
      | some i => ({ d with slots := Function.update d.slots i (some (accepted T)) }, [.accepted])
    else (d, [])
  | .conn i e => d.onSlot i fun x => x.onConn { s with post := Outbox.post alloc } T d.shutting e
  | .streamHead i status w => d.onSlot i fun x => x.streamHead alloc status w
  | .streamWrite i pieces => d.onSlot i fun x => x.streamWrite pieces
  | .finish i ending sys w shutOk =>
    d.onSlot i fun x =>
      x.finish { s with post := Outbox.post alloc } T alloc d.shutting ending sys w shutOk
  | .sweep i w => d.onSlot i fun x => x.sweep { s with post := Outbox.post alloc } w
  | .stop => d.stop

/-- `af_http_server_inflight_count`. -/
def inflightCount (d : Daemon P) : ℕ :=
  (List.finRange clientsMax).countP fun i =>
    match d.slots i with
    | none => false
    | some x => x.conn.upstream || x.conn.outbox.holds

/-- How many slots hold a connection. -/
def openCount (d : Daemon P) : ℕ :=
  (List.finRange clientsMax).countP fun i => (d.slots i).isSome

/-- An event and its allocator. -/
abbrev Occurrence := (ℕ → Bool) × DaemonEvent

def step (d : Daemon P) (a : Occurrence) : Daemon P := (d.react s T a.1 a.2).1

end Daemon
end AsmFlow.Http
