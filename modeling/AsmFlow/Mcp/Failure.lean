import AsmFlow.Mcp.Stdout

/-!
# The end of a process

What the supervisor does when a child is to go, or has gone: the pipes, the signals, the
reaping, what is forgotten with the process, and `af_mcp_child_failed` with the restart it may
schedule.
-/

namespace AsmFlow.Mcp

/-- `AF_MCP_TERM_WAIT_MS`. -/
def termWaitMs : ℕ := 2000

/-- What a failure meets: the time that passed until the clock is read, and what a register
holds. -/
structure FailAnswer where
  elapsed : ℕ
  stale : ℕ

/-- What `wait4` answers. -/
inductive ReapAnswer
  | running
  | collected (status : ℕ)
  /-- Somebody else has collected it. -/
  | gone
  | failed

namespace Child

variable (c : Child)

/-- `af_mcp_invalidate_process_view`. -/
def invalidate : Child :=
  ({ c.releaseCalls with era := .unknown, scanCursor := 0 } : Child).withFlags
    ({ · with probed := false, listed := false, toolsCurrent := false })

/-- `af_mcp_close_stdin`. -/
def closeStdin : Child :=
  if c.stdinFd = false then c
  else ({ c with stdinFd := false } : Child).withFlags ({ · with stdinOpen := false })

/-- `af_mcp_close_pipes`. -/
def closePipes : Child :=
  ({ c with stdinFd := false, stdoutFd := false, stderrFd := false } : Child).withFlags
    ({ · with stdinOpen := false })

/-- The process group is given up once a signal to it was accepted. -/
def killGroup (killed : Bool) : Child := if killed then { c with pgid := 0 } else c

/-- `af_mcp_teardown`. -/
def teardown (killed : Bool) : Child := (c.killGroup killed).closePipes.invalidate

/-- `af_mcp_arm_shutdown_grace`. -/
def armGrace (elapsed : ℕ) : Child :=
  let c := c.read elapsed
  { c with nextStart := (c.clock + c.cfg.shutdownGraceMs * nsPerMs) % 2 ^ 64 }

/-- `af_mcp_advance_shutdown`, less the signals. -/
def advanceShutdown (now : ℕ) : Child :=
  if c.flags.stopping = false ∨ c.pid = 0 ∨ c.nextStart = 0 ∨ now < c.nextStart then c
  else if c.flags.termSent then c
  else
    ({ c with nextStart := (now + termWaitMs * nsPerMs) % 2 ^ 64 } : Child).withFlags
      ({ · with termSent := true })

/-- A process that is collected. -/
def collect (a : ReapAnswer) : Child :=
  let c := ({ c with pid := 0 } : Child).withFlags ({ · with reaped := true })
  match a with
  | .collected status => { c with lastExit := status, exits := c.exits + 1 }
  | _ => c

/-- `af_mcp_reap`: whether the process was collected. -/
def reap (a : ReapAnswer) : Child × Bool :=
  if c.pid = 0 then (c, false)
  else
    match a with
    | .running | .failed => (c, false)
    | a => (c.collect a, true)

/-- `af_mcp_schedule_restart`. -/
def scheduleRestart (a : FailAnswer) : Child :=
  if c.cfg.restart.mode = .never then c
  else
    let c := c.read a.elapsed
    match c.cfg.restart.schedule c.budget c.clock a.stale with
    | .leave => c
    | .crashLoop b => ({ c with budget := b, state := .crashLoop } : Child).note (.exhausted c.clock)
    | .restart b t =>
      ({ c with budget := b, nextStart := t, state := .restarting } : Child).note
        (.scheduled ⟨c.clock, t, b.backoffMs⟩)

/-- The server is to be started at the next sweep, outside the budget. -/
def startNow : Child := ({ c with nextStart := 0, state := .restarting } : Child).note .granted

/-- What `af_mcp_start` forgets of the process before. -/
def renew (manual : Bool) : Child :=
  ({ c with
      flags := c.flags.fresh
      era := .unknown
      nextId := 0
      nextStart := 0
      calls := fun _ => none
      inbox := []
      scanCursor := 0
      outbox := []
      state := .starting
      past := c.present :: c.past
      present := .empty } : Child).note
    (.spawned c.state c.pid c.pgid c.flags.legacyNext manual)

/-- A failed child whose process is still there is stopped first. -/
def beginStop (elapsed : ℕ) : Child :=
  ((c.withFlags ({ · with stopping := true, restartAfterStop := true, termSent := false })).closeStdin).armGrace
    elapsed

/-- `af_mcp_child_failed`. -/
def childFailed (why : Status) (a : FailAnswer) : Child :=
  if c.state = .crashLoop ∨ c.state = .disabled then c
  else
    let c := if why = Status.eof then c else c.withFlags ({ · with processFailure := true })
    if c.flags.stopping then c
    else
      let c := (c.setState .failed).invalidate
      if c.flags.manualStop then c
      else if 0 < c.pid then c.beginStop a.elapsed
      else if c.flags.legacyNext then c.startNow
      else c.scheduleRestart a

end Child
end AsmFlow.Mcp
