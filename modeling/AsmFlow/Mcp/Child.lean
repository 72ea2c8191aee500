import AsmFlow.Mcp.Json
import AsmFlow.Mcp.Restart
import AsmFlow.Memory.Buffer

/-!
# The record of a supervised server

`af_mcp_child`, for a server on stdio, with the calls it has in flight. Beside the record
stands what it does not hold and the results are about: for each process lifetime what the
process wrote and what was said to it, the clock, and a list of what was done to the server.
-/

namespace AsmFlow.Mcp

/-- `AF_MCP_MAX_CALLS`. -/
def maxCalls : ℕ := 8

/-- `AF_MCP_INVENTORY_MAX`. -/
def inventoryMax : ℕ := 1024 * 1024

/-- `AF_MCP_FRAME_HARD_MAX`. -/
def frameHardMax : ℕ := 64 * 1024 * 1024

/-- `AF_MCP_READ_CHUNK`. -/
def readChunk : ℕ := 65536

/-- `AF_MCP_INBOX_MAX`. -/
def inboxMax : ℕ := frameHardMax + readChunk

/-- `AF_MCP_S_*`. -/
inductive State
  | stopped
  | starting
  | probing
  | ready
  | degraded
  | failed
  | restarting
  | crashLoop
  | disabled
  deriving DecidableEq, Repr

/-- `AF_ERA_*`. -/
inductive Era
  | unknown
  | modern
  | legacy
  deriving DecidableEq, Repr

/-- `AF_MCP_CALL_*`, the kinds. -/
inductive CallKind
  | discover
  | legacyInitialize
  | tools
  | resources
  | prompts
  | toolTest
  deriving DecidableEq, Repr

/-- The three list requests. -/
def CallKind.isInventory : CallKind → Bool
  | .tools | .resources | .prompts => true
  | _ => false

/-- `af_mcp_call`, of a slot that is not free. -/
structure Call where
  id : ℕ
  kind : CallKind
  deadline : ℕ
  done : Bool
  status : Status
  result : Bytes
  errorCode : ℤ
  deriving DecidableEq, Repr

/-- `MC_FLAGS`, less what only the HTTP transport uses. -/
structure Flags where
  stdinOpen : Bool
  reaped : Bool
  stopping : Bool
  manualStop : Bool
  probed : Bool
  discarding : Bool
  eof : Bool
  listed : Bool
  restartAfterStop : Bool
  termSent : Bool
  manualRestart : Bool
  toolsCurrent : Bool
  processFailure : Bool
  legacyNext : Bool
  deriving DecidableEq, Repr

def Flags.none : Flags :=
  ⟨false, false, false, false, false, false, false, false, false, false, false, false, false, false⟩

/-- The flags without `AF_MC_F_PROCESS_LIFETIME` and `AF_MC_F_LEGACY_NEXT`. -/
def Flags.fresh (f : Flags) : Flags := { Flags.none with manualStop := f.manualStop }

/-- A message AsmFlow sends. `modern` says whether a request carries the modern metadata. -/
inductive Frame
  | request (id : ℕ) (kind : CallKind) (modern : Bool)
  | initialized
  | cancelled (id : ℕ)
  deriving DecidableEq, Repr

/-- The part of the `MCP_*` record that the supervisor reads. -/
structure ServerConfig where
  enabled : Bool
  restart : RestartPolicy
  /-- `MCP_PROTO_LEGACY`. -/
  legacy : Bool
  startupTimeoutMs : ℕ
  requestTimeoutMs : ℕ
  shutdownGraceMs : ℕ
  /-- `MC_FRAME_MAX`, from `limits.mcp_frame_max_bytes`. -/
  frameMax : ℕ
  le_frameMax : 1024 ≤ frameMax
  frameMax_le : frameMax ≤ frameHardMax

/-- An automatic restart that was recorded: when, for when, and behind which back-off. -/
structure Scheduled where
  time : ℕ
  nextStart : ℕ
  backoffMs : ℕ
  deriving DecidableEq, Repr

/-- What a call was completed by: a line of the process, or its deadline. -/
inductive Cause
  | line (line : Bytes) (m : Message)
  | timeout

/-- Something said in a process lifetime: a call gets its id, a frame is put in the outbox, a
call is completed, the era is decided. -/
inductive Talk
  | issued (id : ℕ) (kind : CallKind)
  | queued (f : Frame)
  | completed (id : ℕ) (kind : CallKind) (status : Status) (cause : Cause)
  | decided (era : Era)

/-- What a process wrote to its stdout and was read, the lines of it that were delivered, and
what was said. -/
structure Lifetime where
  heard : Bytes
  lines : List Bytes
  talk : List Talk

def Lifetime.empty : Lifetime := ⟨[], [], []⟩

/-- Something done to the server. -/
inductive Deed
  /-- A start, with the state it was started from, the process and the process group the
  record held, whether it is for the legacy protocol and whether an operator asks for it. -/
  | spawned (state : State) (pid pgid : ℕ) (legacy manual : Bool)
  | scheduled (r : Scheduled)
  /-- A start outside the budget, to settle the era. -/
  | granted
  /-- The budget is spent. -/
  | exhausted (time : ℕ)
  | reset
  /-- A manual stop is accepted. -/
  | stopped
  /-- A manual start or restart takes back the stop. -/
  | resumed
  /-- A manual restart is due. -/
  | restarted

structure Child where
  cfg : ServerConfig
  state : State
  /-- `MC_PID` and `MC_PGID`; zero for none. -/
  pid : ℕ
  pgid : ℕ
  /-- The descriptors are open. -/
  stdinFd : Bool
  stdoutFd : Bool
  stderrFd : Bool
  inbox : Bytes
  scanCursor : ℕ
  outbox : List Frame
  era : Era
  nextId : ℕ
  calls : Fin maxCalls → Option Call
  budget : Budget
  nextStart : ℕ
  starts : ℕ
  exits : ℕ
  lastExit : ℕ
  contaminated : ℕ
  oversized : ℕ
  framesIn : ℕ
  framesOut : ℕ
  notifications : ℕ
  unmatched : ℕ
  flags : Flags
  present : Lifetime
  past : List Lifetime
  clock : ℕ
  deeds : List Deed

namespace Child

/-- `af_mcp_child_init`. -/
def init (cfg : ServerConfig) : Child where
  cfg := cfg
  state := if cfg.enabled then .stopped else .disabled
  pid := 0
  pgid := 0
  stdinFd := false
  stdoutFd := false
  stderrFd := false
  inbox := []
  scanCursor := 0
  outbox := []
  era := .unknown
  nextId := 0
  calls := fun _ => none
  budget := .empty
  nextStart := 0
  starts := 0
  exits := 0
  lastExit := 0
  contaminated := 0
  oversized := 0
  framesIn := 0
  framesOut := 0
  notifications := 0
  unmatched := 0
  flags := .none
  present := .empty
  past := []
  clock := 0
  deeds := []

variable (c : Child)

def setState (s : State) : Child := { c with state := s }

def withFlags (f : Flags → Flags) : Child := { c with flags := f c.flags }

def say (t : Talk) : Child :=
  { c with present := { c.present with talk := c.present.talk ++ [t] } }

def note (d : Deed) : Child := { c with deeds := c.deeds ++ [d] }

/-- `af_monotonic_now`, so much later than the last reading. -/
def read (elapsed : ℕ) : Child := { c with clock := min (c.clock + elapsed) maxU64 }

def setCall (i : Fin maxCalls) (k : Option Call) : Child :=
  { c with calls := Function.update c.calls i k }

end Child
end AsmFlow.Mcp
