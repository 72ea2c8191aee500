import AsmFlow.Library.Runs
import AsmFlow.Mcp.Era

/-!
# The supervisor of a server

What starts a server, stops it, collects its process and decides whether it is started again:
`af_mcp_start`, `af_mcp_stop`, the commands of an operator, the handlers of the event loop and
`af_mcp_sweep_child`. Over HTTP there is no process; the transfers are known by what they
bring.
-/

namespace AsmFlow.Mcp

/-- What a start meets. -/
structure StartAnswer where
  /-- Over HTTP a transfer of before is still there. -/
  busy : Bool
  /-- `af_mcp_spawn`: the process. -/
  spawn : Except Fault ℕ+
  /-- The pipes cannot be registered with the loop. -/
  unregistered : Option Fault
  /-- The status of the process then killed, unless somebody else has collected it. -/
  ended : Option ℕ
  killed : Bool
  /-- Over HTTP the adapter can be made. -/
  made : Bool
  probe : ListAnswer
  fail : FailAnswer

/-- What a stop meets. -/
structure StopAnswer where
  reap : ReapAnswer
  killed : Bool
  elapsed : ℕ

/-- The cancellation of an expired call over HTTP. -/
structure CancelAnswer where
  transfer : Transfer
  fault : Option Fault

/-- What a sweep meets. `killed` and `retried` say that the kernel takes the SIGKILL to the
process group, behind the reaping and in the retry. -/
structure SweepAnswer where
  now : ℕ
  reap : ReapAnswer
  killed : Bool
  retried : Bool
  exit : FailAnswer
  write : WriteAnswer
  writeFail : FailAnswer
  emit : Fin maxCalls → EmitAnswer
  cancel : Fin maxCalls → CancelAnswer
  callFail : FailAnswer
  memory : Memory
  advance : AdvanceAnswer
  transfer : Transfer
  lists : ListKind → ListAnswer
  listed : ℕ
  start : StartAnswer

namespace Child

variable (c : Child)

/-- What `af_mcp_spawn` leaves in the record. -/
def spawn (pid : ℕ+) : Child :=
  ({ c with
      pid := pid
      pgid := pid
      stdinFd := true
      stdoutFd := true
      stderrFd := true
      starts := c.starts + 1 } : Child).withFlags ({ · with stdinOpen := true, reaped := false })

/-- The shutdown is over. -/
def unstop : Child :=
  c.withFlags
    ({ · with
      stopping := false, restartAfterStop := false, termSent := false, manualRestart := false })

/-- `.stopped_after_reap`. -/
def standStill : Child := (c.setState .stopped).unstop

/-- `.manual_restart_due`. -/
def restartNow : Child :=
  ({ c with nextStart := 0, state := .restarting } : Child).note .restarted

/-- An operator takes back the stop. -/
def resume : Child := (c.withFlags ({ · with manualStop := false })).note .resumed

/-- A process that exits with 0 is not started again. -/
def endsCleanly : Bool := c.lastExit == 0 && c.cfg.restart.mode != .always

/-- The stop is taken note of. -/
def heedStop (manual : Bool) : Child :=
  let c := c.withFlags ({ · with stopping := true, termSent := false })
  if manual then
    ((c.withFlags ({ · with manualStop := true, legacyNext := false })).setState .stopped).note
      .stopped
  else c

/-- `af_mcp_reset`. -/
def reset : Child × Status :=
  if 0 < c.pid then (c, Status.closed)
  else if 0 < c.pgid then (c, Status.closed)
  else if c.state ≠ .crashLoop then (c, Status.mcpNotReady)
  else
    ((({ c with
        budget := .empty, nextStart := 0, scanCursor := 0, state := .restarting } : Child).unstop.withFlags
          ({ · with manualStop := false, legacyNext := false })).note .reset, Status.ok)

/-- What becomes of a server whose shutdown is over. -/
def settleExit (a : FailAnswer) : Child :=
  let f := c.flags
  if f.restartAfterStop = false then c.standStill
  else
    let c := c.unstop
    if f.manualStop then c.standStill
    else if f.legacyNext then c.startNow
    else if f.manualRestart then c.restartNow
    else if f.eof && !f.processFailure && c.endsCleanly then c.standStill
    else c.scheduleRestart a

end Child

namespace Server

variable (s : Server)

/-- `af_mcp_teardown`. -/
def teardown (killed : Bool) : Server :=
  if s.http then s.invalidate else (s.withChild (s.child.teardown killed)).dropView

def scheduleRestart (a : FailAnswer) : Server := s.withChild (s.child.scheduleRestart a)

/-! ## Starting -/

/-- `af_mcp_start` refuses. -/
def refusesStart (busy : Bool) : Bool :=
  s.child.state == .crashLoop || s.child.state == .disabled ||
    (s.http && (s.adapter || busy)) || 0 < s.child.pid || 0 < s.child.pgid

/-- The timeout of the request that a server is probed with, and the request. -/
def probeWith (kind : CallKind) (a : StartAnswer) : Server × Option (Fin maxCalls) :=
  s.request kind s.child.cfg.probeTimeoutMs a.probe

/-- What the probe of a server comes to, by what an unsent one leaves. -/
def probed (failed : Server → Server) : Server × Option (Fin maxCalls) → Server × Status
  | (s, some _) => (s, Status.ok)
  | (s, none) => (failed s, Status.mcpProtocol)

/-- `.register_failed`. -/
def startUnregistered (a : StartAnswer) : Server :=
  let s := s.withChild (s.child.setState .failed)
  let s := s.withChild (s.child.collect (a.ended.elim .gone .collected))
  (s.teardown a.killed).scheduleRestart a.fail

/-- The process is there. -/
def startProbing (legacy : Bool) (a : StartAnswer) : Server × Status :=
  match (s.withChild (s.child.setState .probing)).probeWith
      (if legacy then .legacyInitialize else .discover) a with
  | (s, some _) => (s, Status.ok)
  | (s, none) => (s.childFailed Status.mcpProtocol a.fail, Status.mcpProtocol)

/-- `af_mcp_start`, over stdio and behind what is forgotten. -/
def startStdio (legacy : Bool) (a : StartAnswer) : Server × Status :=
  match a.spawn with
  | .error f => ((s.withChild (s.child.setState .failed)).scheduleRestart a.fail, f.val)
  | .ok pid =>
    let s := s.withChild (s.child.spawn pid)
    match a.unregistered with
    | some f => (s.startUnregistered a, f.val)
    | none => s.startProbing legacy a

/-- `.http_start_failed`. -/
def startAborted (a : StartAnswer) : Server :=
  (s.withChild (s.child.setState .failed)).invalidate.scheduleRestart a.fail

/-- `af_mcp_http_start`. -/
def startHttp (a : StartAnswer) : Server × Status :=
  if a.made = false then (({ s with adapter := false } : Server).startAborted a, Status.nomem)
  else
    let c := { s.child with state := .probing, starts := s.child.starts + 1 }
    match ({ s with child := c, adapter := true, scope := .own } : Server).probeWith .discover a with
    | (s, some _) => (s, Status.ok)
    | (s, none) => (({ s with adapter := false } : Server).startAborted a, Status.mcpProtocol)

/-- `af_mcp_start`. `manual` says that an operator asks for it. -/
def start (manual : Bool) (a : StartAnswer) : Server × Status :=
  if s.refusesStart a.busy then (s, Status.closed)
  else if s.http then (s.renew manual).startHttp a
  else (s.renew manual).startStdio s.child.flags.legacyNext a

/-! ## The commands of an operator -/

/-- `af_mcp_stop`. -/
def stop (manual : Bool) (a : StopAnswer) : Server × Status :=
  if s.child.state = .disabled then (s, Status.mcpNotReady)
  else if s.child.state = .crashLoop then (s, Status.mcpCrashLoop)
  else
    let s := (s.withChild (s.child.heedStop manual)).invalidate
    if s.http then (s.withChild s.child.standStill, Status.ok)
    else
      let s := s.withChild s.child.closeStdin
      if s.child.pid = 0 then
        let s := s.teardown a.killed
        (s.withChild s.child.standStill, Status.ok)
      else
        match s.child.reap a.reap with
        | (c, true) =>
          let s := (s.withChild c).teardown a.killed
          (s.withChild s.child.standStill, Status.ok)
        | (c, false) => (s.withChild (c.armGrace a.elapsed), Status.ok)

/-- `af_mcp_manual_start`. -/
def manualStart (a : StartAnswer) : Server × Status :=
  if s.child.state = .crashLoop then (s, Status.mcpCrashLoop)
  else if s.child.state = .disabled then (s, Status.mcpNotReady)
  else if s.http && s.adapter then (s, Status.closed)
  else if 0 < s.child.pid then (s, Status.closed)
  else (s.withChild s.child.resume).start true a

/-- `af_mcp_manual_restart`. -/
def manualRestart (elapsed : ℕ) : Server × Status :=
  if s.child.state = .crashLoop then (s, Status.mcpCrashLoop)
  else if s.child.state = .disabled then (s, Status.mcpNotReady)
  else
    let s := s.withChild s.child.resume
    if s.http = true ∨ s.child.pid = 0 then
      let s := s.invalidate
      (s.withChild s.child.unstop.restartNow, Status.ok)
    else
      let s := s.withChild
        ((s.child.withFlags
          ({ · with
            stopping := true, restartAfterStop := true, manualRestart := true,
            termSent := false })).setState .restarting)
      let s := s.invalidate
      (s.withChild (s.child.closeStdin.armGrace elapsed), Status.ok)

/-- `af_mcp_reset`. -/
def reset : Server × Status := (s.withChild s.child.reset.1, s.child.reset.2)

/-- A tool is called for an operator. -/
def callTool (encoded : Bool) (a : ListAnswer) : Server × Status :=
  if encoded = false then (s, Status.internal)
  else
    match s.request .toolTest s.child.cfg.listTimeoutMs a with
    | (s, some _) => (s, Status.ok)
    | (s, none) => (s, Status.internal)

/-- `af_ctl_m_mcp_tool_test`, behind the parameters. -/
def toolTest (known encoded : Bool) (a : ListAnswer) : Server × Status :=
  if s.child.state ≠ .ready then (s, Status.mcpNotReady)
  else if s.child.flags.stopping then (s, Status.mcpNotReady)
  else if s.child.flags.toolsCurrent = false then (s, Status.mcpNotReady)
  else if known = false then (s, Status.notFound)
  else
    match s.child.findCall .toolTest with
    | some (i, k) =>
      if k.done = false then (s, Status.mcpNotReady) else (s.release i).callTool encoded a
    | none => s.callTool encoded a

/-! ## The event loop -/

section Events

variable (J : JsonLibrary) (m : Memory)

/-- `.failed` of `af_mcp_on_stdout`: the pipe is closed. -/
def hangUp (why : Status) (a : FailAnswer) : Server :=
  let c := if why = Status.eof then s.child.withFlags ({ · with eof := true }) else s.child
  (s.withChild { c with stdoutFd := false }).childFailed why a

/-- `af_mcp_on_stdout`. -/
def onStdout (r : ReadAnswer) (a : AdvanceAnswer) (f : FailAnswer) : Server :=
  match s.child.readStdout J m r with
  | (c, st) =>
    if st < 0 then (s.withChild c).hangUp st f else (s.withChild c).advance J m a

/-- `af_mcp_on_stderr`, by what the reading of the pipe comes to. -/
def onStderr (r : Option Fault) (f : FailAnswer) : Server :=
  match r with
  | none => s
  | some why =>
    let s := s.withChild { s.child with stderrFd := false }
    if why.val = Status.eof then s else s.childFailed why.val f

/-- `af_mcp_on_message`, for what a transfer brings. -/
def hear (line : Bytes) : Server := s.withChild (s.child.onMessage J m line).1

/-- A call whose transfer is over is done. -/
def conclude (i : Fin maxCalls) (status : Option Status) : Server :=
  match s.child.calls i with
  | none => s
  | some k =>
    s.withChild (s.child.setCall i (some { k with done := true, status := status.getD k.status }))

/-- `af_mcp_http_complete`, for the request of a call. A legacy call that timed out is
cancelled. -/
def onTransfer (i : Fin maxCalls) (status : Option Status) (cancel : Option Transfer)
    (a : AdvanceAnswer) : Server :=
  let s := s.conclude i status
  let s := cancel.elim s s.authorize
  s.advance J m a

/-- `af_mcp_http_complete`, for the initialized notification. The advisory GET that follows
reads the credentials as well. -/
def onNotified (fault : Option Fault) (get : Transfer) (getFault : Option Fault)
    (lists : ListKind → ListAnswer) (now : ℕ) (f : FailAnswer) : Server :=
  if s.notifyPending = false then s
  else
    let s := { s with notifyPending := false }
    match fault with
    | some why => s.childFailed why.val f
    | none =>
      let s := s.authorize get
      match getFault with
      | some why => s.childFailed why.val f
      | none =>
        match s.beginInventory lists now with
        | (s, st) => if st < 0 then s.childFailed st f else s

/-! ## The sweep -/

/-- A process that was collected, and its pipes closed. -/
def onExit (a : FailAnswer) : Server :=
  if s.child.flags.stopping then s.withChild (s.child.settleExit a)
  else if s.child.endsCleanly then s.withChild (s.child.setState .stopped)
  else s.childFailed Status.mcpSpawn a

/-- One call of the sweep over HTTP, with the error of the cancellation. -/
def expireHttp (now : ℕ) (i : Fin maxCalls) (a : CancelAnswer) : Server × Option Status :=
  match s.child.calls i with
  | none => (s, none)
  | some k =>
    if k.done ∨ k.deadline = 0 ∨ now < k.deadline then (s, none)
    else
      let s := s.authorize a.transfer
      (s.withChild (s.child.complete i k Status.mcpTimeout k.result k.errorCode .timeout),
        a.fault.map (·.val))

/-- `af_mcp_sweep_calls`: the first error of a cancellation. -/
def sweepCalls (a : SweepAnswer) : Server × Option Status :=
  if s.http = false then
    let r := s.child.sweepCalls a.now a.emit
    (s.withChild r.1, r.2)
  else
    (List.finRange maxCalls).foldl
      (fun t i =>
        ((t.1.expireHttp a.now i (a.cancel i)).1, t.2.or (t.1.expireHttp a.now i (a.cancel i)).2))
      (s, none)

/-- What is queued for the process is written. -/
def flush (a : SweepAnswer) : Server :=
  if s.child.flags.stdinOpen = false then s
  else
    match s.child.writeStdin a.write with
    | (c, st) => if st < 0 then (s.withChild c).childFailed st a.writeFail else s.withChild c

/-- The calls that nobody answered, and what follows from those that are answered. -/
def attend (a : SweepAnswer) : Server :=
  match s.sweepCalls a with
  | (s, some st) => s.childFailed st a.callFail
  | (s, none) => s.advance J a.memory a.advance

/-- Over HTTP a list that has expired is asked for again. -/
def keepFresh (a : SweepAnswer) : Server :=
  if s.http = true ∧ s.promptsIssued = true ∧ s.posting a.transfer = false ∧
      s.fetchedNs < s.expiresNs ∧ s.expiresNs ≤ a.now then
    (({ s with expiresNs := 0 } : Server).refreshInventory a.lists a.listed).1
  else s

/-- A start that is due: a restart, or the first one. -/
def startDue (a : SweepAnswer) : Server :=
  if s.child.state = .restarting then
    if a.now < s.child.nextStart then s else (s.start false a.start).1
  else if s.child.state = .stopped ∧ s.child.flags.manualStop = false ∧ s.child.starts = 0 then
    (s.start false a.start).1
  else s

/-- `.calls`. -/
def sweepRest (a : SweepAnswer) : Server := (((s.flush a).attend J a).keepFresh a).startDue a

/-- `.no_child`. -/
def sweepGroup (a : SweepAnswer) : Server :=
  if s.child.pgid = 0 then s.sweepRest J a
  else
    let s := s.teardown a.retried
    if 0 < s.child.pgid then s else s.sweepRest J a

/-- `af_mcp_sweep_child`. -/
def sweep (a : SweepAnswer) : Server :=
  if s.child.pid = 0 then s.sweepGroup J a
  else
    match s.child.reap a.reap with
    | (c, true) => (((s.withChild c).teardown a.killed).onExit a.exit).sweepGroup J a
    | (c, false) => (s.withChild (c.advanceShutdown a.now)).sweepRest J a

end Events

/-! ## Runs -/

/-- Something that happens to a server. -/
inductive Event
  | stdout (m : Memory) (r : ReadAnswer) (a : AdvanceAnswer) (f : FailAnswer)
  | stderr (r : Option Fault) (f : FailAnswer)
  | message (m : Memory) (line : Bytes)
  | transfer (m : Memory) (i : Fin maxCalls) (status : Option Status) (cancel : Option Transfer)
    (a : AdvanceAnswer)
  | notified (fault : Option Fault) (get : Transfer) (getFault : Option Fault)
    (lists : ListKind → ListAnswer) (now : ℕ) (f : FailAnswer)
  | tick (a : SweepAnswer)
  | start (a : StartAnswer)
  | stop (manual : Bool) (a : StopAnswer)
  | restart (elapsed : ℕ)
  | reset
  | discover (lists : ListKind → ListAnswer) (now : ℕ)
  | toolTest (known encoded : Bool) (a : ListAnswer)

/-- An event is handled. A pipe that is closed has no events, and only a server over HTTP has
transfers. -/
def step (J : JsonLibrary) (s : Server) : Event → Server
  | .stdout m r a f => if s.child.stdoutFd then s.onStdout J m r a f else s
  | .stderr r f => if s.child.stderrFd then s.onStderr r f else s
  | .message m line => if s.http then s.hear J m line else s
  | .transfer m i status cancel a => if s.http then s.onTransfer J m i status cancel a else s
  | .notified fault get getFault lists now f =>
    if s.http then s.onNotified fault get getFault lists now f else s
  | .tick a => s.sweep J a
  | .start a => (s.manualStart a).1
  | .stop manual a => (s.stop manual a).1
  | .restart elapsed => (s.manualRestart elapsed).1
  | .reset => s.reset.1
  | .discover lists now => (s.refreshInventory lists now).1
  | .toolTest known encoded a => (s.toolTest known encoded a).1

end Server
end AsmFlow.Mcp
