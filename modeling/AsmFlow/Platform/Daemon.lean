import AsmFlow.Library.Logs
import AsmFlow.Library.Runs
import AsmFlow.Library.Unwinding
import AsmFlow.Machine.Status
import Mathlib.Data.List.ReduceOption

/-!
# The life of the daemon

`daemon.asm`: what `af_daemon_run` acquires before it serves, in its order and with what each
failure leads to; the loop that serves, and drains behind a signal to terminate; and what the
shutdown gives back.
-/

namespace AsmFlow.Daemon

open Library

/-- What the daemon holds. All but the context, the descriptor of the signals and the
configuration have a flag in `CTX_FLAGS`. -/
inductive Part
  | context
  | signalfd
  | arena
  | error
  | config
  | db
  | loop
  | control
  | routing
  | engine
  | mcp
  | http
  deriving DecidableEq, Repr

/-- The calls of `af_daemon_run` that can fail. -/
inductive Call
  | alloc
  | signalsBlock
  | signalfdOpen
  | arenaInit
  | cfgErrInit
  | loadConfig
  | checkConfigPath
  | prepareDatabasePath
  | dbOpen
  | checkPrivateFile
  | migrationsApply
  | dbEnableWal
  | repoSyncConfig
  | loopInit
  | loopAdd
  | ctlServerInit
  | ctlCheckPermissions
  | routingInit
  | provEngineInit
  | mcpSupInit
  | httpServerInit
  deriving DecidableEq, Repr

/-- What is written to stderr, less what names a path or a rule of the configuration. -/
inductive Line
  | configRejected
  | readFailed
  | configPermissions
  | secretHint
  | storageFailed
  | controlFailed
  | internalFailed
  | listenerFailed
  | upstreamFailed
  | shutdown
  | acceptsStopped
  | drained
  | deadline
  | mcpStopped
  | dbClosed
  deriving DecidableEq, Repr

def Line.text : Line → String
  | configRejected => "asmflowd: configuration rejected\n"
  | readFailed => "asmflowd: could not read the configuration file: "
  | configPermissions => "asmflowd: configuration path is not owner-private\n"
  | secretHint => "  hint: the file is valid; a referenced environment variable is unset\n"
  | storageFailed => "asmflowd: storage could not be opened or migrated\n"
  | controlFailed => "asmflowd: the control socket could not be bound\n"
  | internalFailed => "asmflowd: internal startup failure\n"
  | listenerFailed => "asmflowd: the gateway listener could not be bound\n"
  | upstreamFailed => "asmflowd: the upstream client could not be started\n"
  | shutdown => "asmflowd: shutting down\n"
  | acceptsStopped => "shutdown.accepts_stopped\n"
  | drained => "shutdown.inflight_drained\n"
  | deadline => "shutdown.inflight_deadline\n"
  | mcpStopped => "shutdown.mcp_stopped\n"
  | dbClosed => "shutdown.db_closed\n"

/-- `AF_EXIT_*`. -/
def exitOk : ℕ := 0
def exitConfig : ℕ := 3
def exitStorage : ℕ := 4
def exitListener : ℕ := 5
def exitInternal : ℕ := 70

/-- `AF_SHUTDOWN_GRACE_NS`. -/
def shutdownGraceNs : ℕ := 5 * 10 ^ 9

def maxU64 : ℕ := 2 ^ 64 - 1

/-- A negative status. -/
abbrev Fault := { st : Status // st < 0 }

/-- The labels of `af_daemon_run` that a failed call jumps to. -/
inductive Branch
  | noContext
  | internal
  | configRejected
  | configPermissionsFailed
  | storageFailed
  | upstreamFailed
  | listenerFailed
  | controlFailed
  deriving DecidableEq, Repr

/-- `CTX_EXIT` behind a failure. The code of the upstream is written over its status. -/
def Branch.exit : Branch → ℕ
  | noContext | internal => exitInternal
  | configRejected | configPermissionsFailed | upstreamFailed => exitConfig
  | storageFailed => exitStorage
  | listenerFailed | controlFailed => exitListener

/-- What is said at a label. `detail` says that the error object has a code. -/
def Branch.lines (st : Status) (detail : Bool) : Branch → List Line
  | noContext | internal => [.internalFailed]
  | configRejected =>
    (if st = Status.cfgSecretMissing then [.secretHint] else []) ++
      if detail then [.configRejected] else []
  | configPermissionsFailed => [.configPermissions]
  | storageFailed => [.storageFailed]
  | upstreamFailed => [.upstreamFailed]
  | listenerFailed => [.listenerFailed]
  | controlFailed => [.controlFailed]

/-- A call, where its failure leads, and what it acquires. -/
structure Stage where
  call : Call
  failed : Branch
  acquires : Option Part

/-- `af_daemon_run`, up to the loop. -/
def stages : List Stage :=
  [⟨.alloc, .noContext, some .context⟩,
    ⟨.signalsBlock, .internal, none⟩,
    ⟨.signalfdOpen, .internal, some .signalfd⟩,
    ⟨.arenaInit, .internal, some .arena⟩,
    ⟨.cfgErrInit, .internal, some .error⟩,
    ⟨.loadConfig, .configRejected, some .config⟩,
    ⟨.checkConfigPath, .configPermissionsFailed, none⟩,
    ⟨.prepareDatabasePath, .storageFailed, none⟩,
    ⟨.dbOpen, .storageFailed, some .db⟩,
    ⟨.checkPrivateFile, .storageFailed, none⟩,
    ⟨.migrationsApply, .storageFailed, none⟩,
    ⟨.dbEnableWal, .storageFailed, none⟩,
    ⟨.repoSyncConfig, .storageFailed, none⟩,
    ⟨.loopInit, .internal, some .loop⟩,
    ⟨.loopAdd, .internal, none⟩,
    ⟨.ctlServerInit, .controlFailed, some .control⟩,
    ⟨.ctlCheckPermissions, .controlFailed, none⟩,
    ⟨.routingInit, .internal, some .routing⟩,
    ⟨.provEngineInit, .upstreamFailed, some .engine⟩,
    ⟨.mcpSupInit, .internal, some .mcp⟩,
    ⟨.httpServerInit, .listenerFailed, some .http⟩]

/-- A step of the shutdown: a part is given back if it is held, or a line is written if the
daemon was told to terminate. -/
inductive Undo
  | free (p : Part)
  | trace (l : Line)

def Undo.part : Undo → Option Part
  | free p => some p
  | trace _ => none

def Undo.line : Undo → Option Line
  | free _ => none
  | trace l => some l

/-- `.shutdown`. -/
def teardown : List Undo :=
  [.free .http, .free .mcp, .trace .mcpStopped, .free .engine, .free .routing, .free .control,
    .free .loop, .free .signalfd, .free .db, .trace .dbClosed, .free .config, .free .error,
    .free .arena, .free .context]

/-! ## The configuration -/

/-- The part of `af_runtime` that the daemon itself writes. `P` is a path, `S` a snapshot. -/
structure Runtime (P S : Type) where
  configPath : Option P
  config : Option S
  reloadCount : ℕ
  ready : Bool
  shuttingDown : Bool
  /-- `RT_SHUTDOWN_DEADLINE_NS`. -/
  deadlineNs : ℕ
  termSignals : ℕ

/-- What a configuration is found, read, parsed and resolved by. -/
structure Loader (P S : Type) where
  defaultPath : Except Fault P
  readFile : P → Except Fault (List UInt8)
  parse : List UInt8 → Except Fault S
  resolveSecrets : S → Status

/-- What a load leaves: the snapshots it made, those whose reference it gave up. -/
structure Loaded (P S : Type) where
  runtime : Runtime P S
  status : Status
  made : List S
  dropped : List S
  lines : List Line

variable {P S : Type}

/-- `af_daemon_load_config`, once the path is known. -/
def Runtime.publish (rt : Runtime P S) (L : Loader P S) (path : P) : Loaded P S :=
  match L.readFile path with
  | .error f => ⟨rt, f.val, [], [], [.readFailed]⟩
  | .ok text =>
    match L.parse text with
    | .error f => ⟨rt, f.val, [], [], []⟩
    | .ok candidate =>
      if L.resolveSecrets candidate < 0 then
        ⟨rt, L.resolveSecrets candidate, [candidate], [candidate], []⟩
      else
        ⟨{ rt with config := some candidate, reloadCount := rt.reloadCount + 1 }, Status.ok,
          [candidate], rt.config.toList, []⟩

/-- `af_daemon_load_config`. -/
def Runtime.loadConfig (rt : Runtime P S) (L : Loader P S) : Loaded P S :=
  match rt.configPath with
  | some path => rt.publish L path
  | none =>
    match L.defaultPath with
    | .error f => ⟨rt, f.val, [], [], []⟩
    | .ok path => ({ rt with configPath := some path } : Runtime P S).publish L path

/-! ## The daemon -/

inductive Phase
  | starting
  | serving
  | left
  deriving DecidableEq, Repr

end Daemon

open Daemon Library

/-- The daemon, with what it acquired and gave back and what happened to it. -/
structure Daemon (P S : Type) where
  runtime : Runtime P S
  acquired : List Part
  released : List Part
  /-- The snapshots that were made, and those whose reference was given up. -/
  made : List S
  dropped : List S
  exit : ℕ
  lines : List Line
  phase : Phase
  /-- The calls of `af_http_server_stop_accepting`. -/
  stops : ℕ

namespace Daemon

/-- What a start meets. -/
structure Answers (P S : Type) where
  status : Call → Status
  loader : Loader P S
  /-- A rejected configuration leaves a code in the error object. -/
  detail : Bool

/-- A signal, and the clock as it is read behind it. -/
structure Signal where
  number : ℕ
  clock : Option ℕ

/-- What one turn of the loop meets: the requests in flight and the clock, where it looks at
them, the signals that the step of the event loop brings, and its status. -/
structure Turn where
  inflight : ℕ
  clock : Option ℕ
  signals : List Signal
  status : Status

variable {P S : Type}

def init (path : Option P) : Daemon P S where
  runtime := ⟨path, none, 0, false, false, 0, 0⟩
  acquired := []
  released := []
  made := []
  dropped := []
  exit := exitOk
  lines := []
  phase := .starting
  stops := 0

variable (d : Daemon P S)

def say (ls : List Line) : Daemon P S := { d with lines := d.lines ++ ls }

def acquire (p : Option Part) : Daemon P S := { d with acquired := d.acquired ++ p.toList }

/-- `.shutdown`. -/
def shutdown : Daemon P S :=
  { d with
    released := d.released ++ unwind (teardown.filterMap Undo.part) d.acquired
    dropped := d.dropped ++ d.runtime.config.toList
    lines := d.lines ++ .shutdown ::
      if d.runtime.shuttingDown then teardown.filterMap Undo.line else []
    phase := .left }

/-- A call of the start has failed. Without a context there is nothing to shut down. -/
def fail (b : Branch) (st : Status) (detail : Bool) : Daemon P S :=
  let d := { d.say (b.lines st detail) with exit := b.exit }
  if b = .noContext then { d with phase := .left } else d.shutdown

/-- A call of the start. -/
def attempt (a : Answers P S) (c : Call) : Daemon P S × Status :=
  if c = .loadConfig then
    let l := d.runtime.loadConfig a.loader
    ({ d with
        runtime := l.runtime
        made := d.made ++ l.made
        dropped := d.dropped ++ l.dropped
        lines := d.lines ++ l.lines }, l.status)
  else (d, a.status c)

/-- The daemon is ready. -/
def serve : Daemon P S :=
  { d with runtime := { d.runtime with ready := true }, phase := .serving }

def boot (a : Answers P S) : List Stage → Daemon P S → Daemon P S
  | [], d => d.serve
  | g :: gs, d =>
    match d.attempt a g.call with
    | (d, st) => if st < 0 then d.fail g.failed st a.detail else boot a gs (d.acquire g.acquires)

/-- `af_daemon_run`, up to the loop. -/
def start (path : Option P) (a : Answers P S) : Daemon P S := boot a stages (init path)

/-! ## The loop -/

/-- `af_signal_is_termination`. -/
def isTermination (number : ℕ) : Bool := number == 15 || number == 2 || number == 3

/-- The end of the grace that begins now. -/
@[irreducible] def graceEnd (now : ℕ) : ℕ := min (now + shutdownGraceNs) maxU64

/-- The deadline behind a signal. -/
def deadlineAfter (rt : Runtime P S) : Option ℕ → ℕ
  | none => rt.deadlineNs
  | some now => if rt.termSignals = 0 then graceEnd now else now

/-- `af_daemon_on_signal`, for one signal. -/
def onSignal (g : Signal) : Daemon P S :=
  if isTermination g.number = false then d
  else
    let heard :=
      { d with
        runtime :=
          { d.runtime with
            ready := false
            shuttingDown := true
            termSignals := d.runtime.termSignals + 1
            deadlineNs := deadlineAfter d.runtime g.clock } }
    if d.runtime.termSignals = 0 then
      { heard.say [.acceptsStopped] with stops := d.stops + 1 }
    else heard

/-- The loop is left for the shutdown. -/
def leave (l : Line) : Daemon P S := (d.say [l]).shutdown

/-- `af_loop_step`, in the loop of the daemon. -/
def loopStep (t : Turn) : Daemon P S :=
  let d := t.signals.foldl onSignal d
  if t.status < 0 then { d with exit := exitInternal : Daemon P S }.shutdown else d

/-- `.serve_draining`. -/
def drain (t : Turn) : Daemon P S :=
  if t.inflight = 0 then d.leave .drained
  else
    match t.clock with
    | none => d.leave .deadline
    | some now =>
      if d.runtime.deadlineNs ≤ now then d.leave .deadline
      else d.loopStep t

/-- `.serve`. -/
def turn (t : Turn) : Daemon P S :=
  if d.phase ≠ .serving then d
  else if d.runtime.shuttingDown then d.drain t
  else d.loopStep t

/-! ## What is acquired is given back -/

/-- All that the daemon acquires, in its order. -/
def parts : List Part := stages.filterMap Stage.acquires

/-- The order of the shutdown. -/
def undone : List Part := teardown.filterMap Undo.part

/-- What a part cannot be without: the storage its record is kept in, what it is registered
with, what it reads, and what it gives back to when it is shut down. -/
def Part.needs : Part → List Part
  | .context => []
  | .signalfd | .arena | .error => [.context]
  | .config => [.arena, .error]
  | .db => [.config]
  | .loop => [.signalfd, .context]
  | .control => [.loop, .db, .config]
  | .routing => [.context]
  | .engine => [.loop, .routing, .config]
  | .mcp => [.loop, .engine, .config]
  | .http => [.loop, .control, .engine, .routing, .mcp, .config]

theorem parts_nodup : parts.Nodup := by decide

theorem undone_perm : undone.Perm parts := by decide

/-- The shutdown goes backwards, less the descriptor of the signals, which outlives the loop. -/
theorem undone_reverse :
    undone.filter (· != .signalfd) = (parts.filter (· != .signalfd)).reverse := by decide

/-- What a part needs is acquired before it, and given back behind it. -/
theorem needs_before : ∀ p ∈ parts, ∀ q ∈ p.needs,
    [q, p].Sublist parts ∧ [p, q].Sublist undone := by decide

/-- A daemon that gave nothing back so far. -/
structure Holds (held : List Part) (d : Daemon P S) : Prop where
  acquired : d.acquired = held
  released : d.released = []
  made : d.made.Perm (d.dropped ++ d.runtime.config.toList)
  loaded : d.runtime.config = none ∨ .config ∈ held

/-- A daemon that has shut down. -/
structure Unwound (held : List Part) (d : Daemon P S) : Prop where
  phase : d.phase = .left
  acquired : d.acquired = held
  released : d.released = unwind undone held
  made : d.made.Perm d.dropped

section Unwinding

variable {d : Daemon P S} {held : List Part}

/-- The references of the snapshots that a load makes are kept or given up. -/
theorem Runtime.publish_made (rt : Runtime P S) (L : Loader P S) (path : P) :
    (rt.config.toList ++ (rt.publish L path).made).Perm
      ((rt.publish L path).dropped ++ (rt.publish L path).runtime.config.toList) := by
  unfold Runtime.publish
  cases L.readFile path with
  | error f => simp
  | ok text =>
    cases hparse : L.parse text with
    | error f => simp [hparse]
    | ok candidate =>
      simp only [hparse]
      split_ifs
      · exact List.perm_append_comm
      · exact .refl _

/-- A load that fails leaves the configuration that was published. -/
theorem Runtime.publish_failed {rt : Runtime P S} {L : Loader P S} {path : P}
    (h : (rt.publish L path).status < 0) : (rt.publish L path).runtime = rt := by
  unfold Runtime.publish at h ⊢
  cases hread : L.readFile path with
  | error f => rfl
  | ok text =>
    simp only [hread] at h ⊢
    cases hparse : L.parse text with
    | error f => rfl
    | ok candidate =>
      simp only [hparse] at h ⊢
      split_ifs with hsecrets
      · rfl
      · rw [if_neg hsecrets] at h
        exact absurd h (lt_irrefl _)

theorem Runtime.loadConfig_made (rt : Runtime P S) (L : Loader P S) :
    (rt.config.toList ++ (rt.loadConfig L).made).Perm
      ((rt.loadConfig L).dropped ++ (rt.loadConfig L).runtime.config.toList) := by
  unfold Runtime.loadConfig
  cases rt.configPath with
  | some path => exact rt.publish_made L path
  | none =>
    cases hpath : L.defaultPath with
    | error f => simp
    | ok path => exact Runtime.publish_made { rt with configPath := some path } L path

theorem Runtime.loadConfig_failed {rt : Runtime P S} {L : Loader P S}
    (h : (rt.loadConfig L).status < 0) : (rt.loadConfig L).runtime.config = rt.config := by
  unfold Runtime.loadConfig at h ⊢
  cases hpath : rt.configPath with
  | some path =>
    simp only [hpath] at h ⊢
    rw [publish_failed h]
  | none =>
    simp only [hpath] at h ⊢
    cases hdefault : L.defaultPath with
    | error f => rfl
    | ok path =>
      simp only [hdefault] at h ⊢
      rw [publish_failed h]

namespace Holds

theorem init (path : Option P) : Holds [] (Daemon.init (S := S) path) :=
  ⟨rfl, rfl, .refl _, Or.inl rfl⟩

theorem shutdown (h : Holds held d) : Unwound held d.shutdown where
  phase := rfl
  acquired := h.acquired
  released := by
    unfold Daemon.shutdown
    rw [h.released, h.acquired]
    rfl
  made := h.made

theorem fail (h : Holds held d) {b : Branch} (hb : b = .noContext → held = []) (st : Status)
    (detail : Bool) : Unwound held (d.fail b st detail) ∧ (d.fail b st detail).exit = b.exit := by
  have hsaid : Holds held { d.say (b.lines st detail) with exit := b.exit } :=
    ⟨h.acquired, h.released, h.made, h.loaded⟩
  unfold Daemon.fail
  dsimp only
  split_ifs with hcontext
  · obtain rfl := hb hcontext
    have hnone : d.runtime.config = none := h.loaded.resolve_right (List.not_mem_nil)
    have hmade := h.made
    rw [hnone, Option.toList_none, List.append_nil] at hmade
    exact ⟨⟨rfl, h.acquired, h.released, hmade⟩, rfl⟩
  · exact ⟨hsaid.shutdown, rfl⟩

theorem attempt (h : Holds held d) (a : Answers P S) {g : Stage}
    (hload : g.call = .loadConfig → g.acquires = some .config) :
    ((d.attempt a g.call).2 < 0 → Holds held (d.attempt a g.call).1) ∧
      Holds (held ++ g.acquires.toList) ((d.attempt a g.call).1.acquire g.acquires) := by
  unfold Daemon.attempt
  split_ifs with hcall
  · have hmade : (d.made ++ (d.runtime.loadConfig a.loader).made).Perm
        (d.dropped ++ (d.runtime.loadConfig a.loader).dropped ++
          (d.runtime.loadConfig a.loader).runtime.config.toList) := by
      have hledger := (d.runtime.loadConfig_made a.loader).append_left d.dropped
      rw [← List.append_assoc, ← List.append_assoc] at hledger
      exact (h.made.append_right _).trans hledger
    constructor
    · intro hfailed
      refine ⟨h.acquired, h.released, hmade, ?_⟩
      dsimp only
      rw [Runtime.loadConfig_failed hfailed]
      exact h.loaded
    · refine ⟨congrArg (· ++ g.acquires.toList) h.acquired, h.released, hmade, Or.inr ?_⟩
      rw [hload hcall]
      exact List.mem_append_right _ (List.mem_singleton_self _)
  · constructor
    · exact fun _ => h
    · exact ⟨congrArg (· ++ g.acquires.toList) h.acquired, h.released, h.made,
        h.loaded.imp_right (List.mem_append_left _)⟩

end Holds
end Unwinding

/-! ## The start -/

/-- Stages from which nothing is lost: without a context nothing is held, and what is loaded
is acquired, once. -/
def Staged : List Part → List Stage → Prop
  | _, [] => True
  | held, g :: gs =>
    (g.failed = .noContext → held = []) ∧
      (g.call = .loadConfig → g.acquires = some .config ∧ ∀ g' ∈ gs, g'.call ≠ .loadConfig) ∧
        Staged (held ++ g.acquires.toList) gs

theorem staged_stages : Staged [] stages := by
  unfold stages
  simp [Staged]

section Start

variable (path : Option P) (a : Answers P S)

/-- The status of a call of the start. -/
def statusOf (c : Call) : Status :=
  if c = .loadConfig then ((init path).runtime.loadConfig a.loader).status else a.status c

def Fails (g : Stage) : Prop := statusOf path a g.call < 0

instance : DecidablePred (Fails path a) := fun _ => inferInstanceAs (Decidable (_ < 0))

/-- The stage at which a start ends. -/
def firstFailure : Option Stage := stages.find? fun g => decide (Fails path a g)

/-- What was acquired when the start ended. -/
def acquiredBefore (gs : List Stage) : List Part :=
  (gs.takeWhile fun stage => decide (¬Fails path a stage)).filterMap Stage.acquires

/-- A daemon that was told nothing yet. -/
structure Fresh (d : Daemon P S) : Prop where
  exit : d.exit = exitOk
  shuttingDown : d.runtime.shuttingDown = false
  deadlineNs : d.runtime.deadlineNs = 0
  termSignals : d.runtime.termSignals = 0
  stops : d.stops = 0

variable {path a} {d : Daemon P S}

theorem Runtime.publish_fresh (rt : Runtime P S) (L : Loader P S) (path : P) :
    ∃ config count, (rt.publish L path).runtime =
      { rt with config := config, reloadCount := count } := by
  unfold Runtime.publish
  cases L.readFile path with
  | error f => exact ⟨_, _, rfl⟩
  | ok text =>
    cases hparse : L.parse text with
    | error f =>
      simp only [hparse]
      exact ⟨_, _, rfl⟩
    | ok candidate =>
      simp only [hparse]
      split_ifs
      · exact ⟨_, _, rfl⟩
      · exact ⟨_, _, rfl⟩

theorem Runtime.loadConfig_fresh (rt : Runtime P S) (L : Loader P S) :
    ∃ path config count, (rt.loadConfig L).runtime =
      { rt with configPath := path, config := config, reloadCount := count } := by
  unfold Runtime.loadConfig
  cases hpath : rt.configPath with
  | some path =>
    obtain ⟨config, count, heq⟩ := rt.publish_fresh L path
    refine ⟨some path, config, count, ?_⟩
    rw [heq, ← hpath]
  | none =>
    cases L.defaultPath with
    | error f => exact ⟨rt.configPath, rt.config, rt.reloadCount, rfl⟩
    | ok path =>
      obtain ⟨config, count, heq⟩ :=
        Runtime.publish_fresh { rt with configPath := some path } L path
      exact ⟨some path, config, count, heq⟩

theorem Fresh.attempt (h : Fresh d) (c : Call) : Fresh (d.attempt a c).1 := by
  unfold Daemon.attempt
  split_ifs
  · obtain ⟨path, config, count, heq⟩ := d.runtime.loadConfig_fresh a.loader
    dsimp only
    rw [heq]
    exact ⟨h.exit, h.shuttingDown, h.deadlineNs, h.termSignals, h.stops⟩
  · exact h

/-- A start acquires stage by stage, or ends at the first stage that fails and gives back what
the stages before it acquired. -/
theorem boot_spec (path : Option P) (a : Answers P S) : ∀ {gs : List Stage} {held : List Part} {d : Daemon P S}, Staged held gs →
    Holds held d → Fresh d →
    ((∃ g ∈ gs, g.call = .loadConfig) → d.runtime = (init (S := S) path).runtime) →
    match gs.find? fun g => decide (Fails path a g) with
    | some g => Unwound (held ++ acquiredBefore path a gs) (boot a gs d) ∧
        (boot a gs d).exit = g.failed.exit
    | none => Holds (held ++ gs.filterMap Stage.acquires) (boot a gs d) ∧
        Fresh (boot a gs d) ∧ (boot a gs d).phase = .serving ∧ (boot a gs d).runtime.ready = true
  | [], held, d, _, hholds, hfresh, _ => by
    refine ⟨?_, ?_, rfl, rfl⟩
    · rw [List.filterMap_nil, List.append_nil]
      exact ⟨hholds.acquired, hholds.released, hholds.made, hholds.loaded⟩
    · exact ⟨hfresh.exit, hfresh.shuttingDown, hfresh.deadlineNs, hfresh.termSignals,
        hfresh.stops⟩
  | g :: gs, held, d, hstaged, hholds, hfresh, hruntime => by
    obtain ⟨hcontext, hload, hrest⟩ := hstaged
    have hstatus : (d.attempt a g.call).2 = statusOf path a g.call := by
      unfold Daemon.attempt statusOf
      split_ifs with hcall
      · rw [hruntime ⟨g, List.mem_cons_self, hcall⟩]
      · rfl
    obtain ⟨hheld, hnext⟩ := hholds.attempt a (g := g) fun hcall => (hload hcall).1
    by_cases hfails : Fails path a g
    · have hneg : (d.attempt a g.call).2 < 0 := hstatus.trans_lt hfails
      have hboot : boot a (g :: gs) d =
          (d.attempt a g.call).1.fail g.failed (d.attempt a g.call).2 a.detail := by
        rw [boot]
        exact if_pos hneg
      have hnone : acquiredBefore path a (g :: gs) = [] := by
        simp [acquiredBefore, hfails]
      rw [List.find?_cons_of_pos (by simpa using hfails)]
      dsimp only
      rw [hboot, hnone, List.append_nil]
      exact (hheld hneg).fail hcontext _ _
    · have hok : ¬(d.attempt a g.call).2 < 0 := hstatus ▸ hfails
      have hboot : boot a (g :: gs) d =
          boot a gs ((d.attempt a g.call).1.acquire g.acquires) := by
        rw [boot]
        exact if_neg hok
      have hmore : acquiredBefore path a (g :: gs) =
          g.acquires.toList ++ acquiredBefore path a gs := by
        unfold acquiredBefore
        rw [List.takeWhile_cons_of_pos (by simpa using hfails), List.filterMap_cons]
        cases g.acquires <;> rfl
      have hfresh' : Fresh ((d.attempt a g.call).1.acquire g.acquires) := by
        have hsame := hfresh.attempt (a := a) g.call
        exact ⟨hsame.exit, hsame.shuttingDown, hsame.deadlineNs, hsame.termSignals, hsame.stops⟩
      have ih := boot_spec path a hrest hnext hfresh' (by
        rintro ⟨g', hg', hcall⟩
        have hother : g.call ≠ .loadConfig := fun heq => (hload heq).2 g' hg' hcall
        have hsame : d.attempt a g.call = (d, a.status g.call) := if_neg hother
        rw [hsame]
        exact hruntime ⟨g', List.mem_cons_of_mem _ hg', hcall⟩)
      rw [List.find?_cons_of_neg (by simpa using hfails), hboot, hmore]
      cases hfind : gs.find? fun g => decide (Fails path a g) with
      | some g' =>
        rw [hfind] at ih
        rwa [← List.append_assoc]
      | none =>
        rw [hfind] at ih
        have hall : (g :: gs).filterMap Stage.acquires =
            g.acquires.toList ++ gs.filterMap Stage.acquires := by
          rw [List.filterMap_cons]
          cases g.acquires <;> rfl
        rw [hall]
        dsimp only
        rw [← List.append_assoc]
        exact ih

/-- The daemon serves with all parts, or has given back what it held. -/
structure Ran (path : Option P) (a : Answers P S) (d : Daemon P S) : Prop where
  failed : ∀ g, firstFailure path a = some g →
    Unwound (acquiredBefore path a stages) d ∧ d.exit = g.failed.exit
  started : firstFailure path a = none →
    Holds parts d ∧ d.phase = .serving ∧ d.exit = exitOk ∨
      Unwound parts d ∧ (d.exit = exitOk ∨ d.exit = exitInternal)

theorem ran_start (path : Option P) (a : Answers P S) : Ran path a (start path a) := by
  have hboot := boot_spec path a staged_stages (.init path) ⟨rfl, rfl, rfl, rfl, rfl⟩
    (fun _ => rfl)
  constructor
  · intro g hg
    unfold firstFailure at hg
    rw [hg] at hboot
    exact hboot
  · intro hnone
    unfold firstFailure at hnone
    rw [hnone] at hboot
    obtain ⟨hholds, hfresh, hphase, -⟩ := hboot
    exact Or.inl ⟨hholds, hphase, hfresh.exit⟩

end Start

/-! ## The loop and the shutdown -/

section Loop

variable {d : Daemon P S} {held : List Part}

/-- What signals do not touch. -/
theorem signals_frame (d : Daemon P S) (gs : List Signal) :
    ∃ rt : Runtime P S, ∃ lines stops,
      gs.foldl onSignal d = { d with runtime := rt, lines, stops } ∧
        rt.config = d.runtime.config := by
  induction gs generalizing d with
  | nil => exact ⟨d.runtime, d.lines, d.stops, rfl, rfl⟩
  | cons g gs ih =>
    obtain ⟨rt, lines, stops, heq, hconfig⟩ := ih (d.onSignal g)
    rw [List.foldl_cons, heq]
    rw [heq] at *
    unfold onSignal at hconfig ⊢
    dsimp only at hconfig ⊢
    split_ifs at hconfig ⊢
    · exact ⟨_, _, _, rfl, hconfig⟩
    · exact ⟨_, _, _, rfl, hconfig⟩
    · exact ⟨_, _, _, rfl, hconfig⟩

/-- A daemon whose loop goes on holds what it held. -/
theorem Holds.loopStep (h : Holds held d) (hphase : d.phase = .serving) (hexit : d.exit = exitOk)
    (t : Turn) :
    Holds held (d.loopStep t) ∧ (d.loopStep t).phase = .serving ∧ (d.loopStep t).exit = exitOk ∨
      Unwound held (d.loopStep t) ∧ (d.loopStep t).exit = exitInternal := by
  obtain ⟨rt, lines, stops, heq, hconfig⟩ := d.signals_frame t.signals
  have hheld : Holds held { d with runtime := rt, lines, stops } := by
    refine ⟨h.acquired, h.released, ?_, ?_⟩
    · dsimp only
      rw [hconfig]
      exact h.made
    · dsimp only
      rw [hconfig]
      exact h.loaded
  unfold Daemon.loopStep
  dsimp only
  rw [heq]
  split_ifs
  · exact Or.inr
      ⟨Holds.shutdown ⟨hheld.acquired, hheld.released, hheld.made, hheld.loaded⟩, rfl⟩
  · exact Or.inl ⟨hheld, hphase, hexit⟩

theorem Holds.leave (h : Holds held d) (l : Line) : Unwound held (d.leave l) :=
  Holds.shutdown ⟨h.acquired, h.released, h.made, h.loaded⟩

theorem Ran.turn {path : Option P} {a : Answers P S} (h : Ran path a d) (t : Turn) :
    Ran path a (d.turn t) := by
  unfold Daemon.turn
  split_ifs with hphase hdown
  · exact h
  all_goals
    have hserving : d.phase = .serving := not_not.mp hphase
    refine ⟨fun g hg => ?_, fun hnone => ?_⟩
    · have hleft := (h.failed g hg).1.phase
      rw [hserving] at hleft
      cases hleft
    rcases h.started hnone with ⟨hholds, -, hexit⟩ | ⟨hunwound, -⟩
    case inr =>
      have hleft := hunwound.phase
      rw [hserving] at hleft
      cases hleft
  · unfold Daemon.drain
    split_ifs
    · exact Or.inr ⟨hholds.leave _, Or.inl hexit⟩
    cases t.clock with
    | none => exact Or.inr ⟨hholds.leave _, Or.inl hexit⟩
    | some now =>
      dsimp only
      split_ifs
      · exact Or.inr ⟨hholds.leave _, Or.inl hexit⟩
      · exact (hholds.loopStep hserving hexit t).imp_right fun hleft =>
          ⟨hleft.1, Or.inr hleft.2⟩
  · exact (hholds.loopStep hserving hexit t).imp_right fun hleft => ⟨hleft.1, Or.inr hleft.2⟩

theorem ran_run (path : Option P) (a : Answers P S) (ts : List Turn) :
    Ran path a (run turn (start path a) ts) :=
  (throughout_of_invariant ts (fun _ t h => h.turn t) (ran_start path a)).last

theorem acquiredBefore_initial (path : Option P) (a : Answers P S) :
    acquiredBefore path a stages <+: parts :=
  (List.takeWhile_prefix _).filterMap _

/-- What has been shut down gave back, once and behind all that needs it, what it acquired, with
all that this needs, and no snapshot keeps a reference. -/
theorem Unwound.orderly (h : Unwound held d) (hheld : held <+: parts) :
    d.acquired <+: parts ∧ d.released.Perm d.acquired ∧
      d.released.filter (· != .signalfd) = (d.acquired.filter (· != .signalfd)).reverse ∧
      d.dropped.Perm d.made ∧
      ∀ p ∈ d.acquired, ∀ q ∈ p.needs, q ∈ d.acquired ∧ [p, q].Sublist d.released := by
  rw [h.acquired, h.released]
  refine ⟨hheld, unwind_perm parts_nodup undone_perm hheld,
    unwind_reverse parts_nodup hheld undone_reverse, h.made.symm, ?_⟩
  intro p hp q hq
  obtain ⟨hbefore, hbehind⟩ := needs_before p (hheld.subset hp) q hq
  have hqheld : q ∈ held := mem_of_before parts_nodup hheld hbefore hp
  exact ⟨hqheld, unwind_before hbehind hp hqheld⟩

/-- Whatever a start and a run of the daemon meet: where a stage of the start fails, what the
stages before it acquired is given back and nothing is served; else the daemon serves with all
its parts until it shuts down. A shutdown goes backwards, less the descriptor of the signals:
it gives back each part once, and none before the parts that need it; each snapshot that was
made loses its reference once. -/
theorem unwinds (path : Option P) (a : Answers P S) (ts : List Turn) :
    let d := run turn (start path a) ts
    (∀ g, firstFailure path a = some g →
      d.phase = .left ∧ d.exit = g.failed.exit ∧ d.acquired = acquiredBefore path a stages) ∧
    (firstFailure path a = none → d.acquired = parts ∧
      (d.phase = .serving ∧ d.released = [] ∨
        d.phase = .left ∧ (d.exit = exitOk ∨ d.exit = exitInternal))) ∧
    (d.phase = .left → d.acquired <+: parts ∧ d.released.Perm d.acquired ∧
      d.released.filter (· != .signalfd) = (d.acquired.filter (· != .signalfd)).reverse ∧
      d.dropped.Perm d.made ∧
        ∀ p ∈ d.acquired, ∀ q ∈ p.needs, q ∈ d.acquired ∧ [p, q].Sublist d.released) := by
  intro d
  have hran : Ran path a d := ran_run path a ts
  refine ⟨?_, ?_, ?_⟩
  · intro g hg
    obtain ⟨hunwound, hexit⟩ := hran.failed g hg
    exact ⟨hunwound.phase, hexit, hunwound.acquired⟩
  · intro hnone
    rcases hran.started hnone with ⟨hholds, hphase, -⟩ | ⟨hunwound, hexit⟩
    · exact ⟨hholds.acquired, Or.inl ⟨hphase, hholds.released⟩⟩
    · exact ⟨hunwound.acquired, Or.inr ⟨hunwound.phase, hexit⟩⟩
  · intro hleft
    cases hfirst : firstFailure path a with
    | some g => exact (hran.failed g hfirst).1.orderly (acquiredBefore_initial path a)
    | none =>
      rcases hran.started hfirst with ⟨-, hphase, -⟩ | ⟨hunwound, -⟩
      · rw [hphase] at hleft
        cases hleft
      · exact hunwound.orderly (List.prefix_refl _)

end Loop

/-! ## Draining -/

/-- The signals to terminate, by the clock behind each. -/
def terminations (ts : List Turn) : List (Option ℕ) :=
  ts.flatMap fun t => (t.signals.filter fun g => isTermination g.number).map Signal.clock

/-- The readings of the clock, in their order. -/
def readings (ts : List Turn) : List ℕ :=
  ts.flatMap fun t => t.clock.toList ++ t.signals.filterMap Signal.clock

/-- The time for which requests in flight are waited for is over: it is five seconds, which a
second signal takes back. Where the first signal finds no clock, there is none. -/
def Overdue (now : ℕ) : List (Option ℕ) → Prop
  | [] => False
  | none :: _ => True
  | some first :: more =>
    (∃ c ∈ more, c.isSome = true) ∨ graceEnd first ≤ now

/-- The deadline behind the signals. -/
def deadlineOf : List (Option ℕ) → ℕ
  | [] => 0
  | first :: more => more.reduceOption.getLast?.getD (first.elim 0 graceEnd)

theorem deadlineOf_cons (first : Option ℕ) (more : List (Option ℕ)) :
    deadlineOf (first :: more) = more.reduceOption.getLast?.getD (first.elim 0 graceEnd) := by
  rw [deadlineOf]

theorem deadlineOf_singleton (first : Option ℕ) : deadlineOf [first] = first.elim 0 graceEnd := by
  rw [deadlineOf_cons, List.reduceOption_nil, List.getLast?_nil, Option.getD_none]

theorem deadlineOf_concat {cs : List (Option ℕ)} (hcs : cs ≠ []) (c : Option ℕ) :
    deadlineOf (cs ++ [c]) = c.getD (deadlineOf cs) := by
  obtain ⟨first, more, rfl⟩ := List.exists_cons_of_ne_nil hcs
  rw [List.cons_append, deadlineOf_cons, deadlineOf_cons, List.reduceOption_append,
    List.reduceOption_singleton]
  cases c with
  | none => rw [Option.toList_none, List.append_nil, Option.getD_none]
  | some now => rw [Option.toList_some, List.getLast?_concat, Option.getD_some, Option.getD_some]

theorem overdue_none (now : ℕ) (more : List (Option ℕ)) : Overdue now (none :: more) := trivial

theorem overdue_some {now first : ℕ} {more : List (Option ℕ)} :
    Overdue now (some first :: more) ↔ (∃ c ∈ more, c.isSome = true) ∨ graceEnd first ≤ now :=
  Iff.rfl

/-- Behind readings that are not later, the deadline has passed if the time is over. -/
theorem deadlineOf_le_iff {cs : List (Option ℕ)} {now : ℕ} (hcs : cs ≠ [])
    (hpast : ∀ c, some c ∈ cs → c ≤ now) : deadlineOf cs ≤ now ↔ Overdue now cs := by
  obtain ⟨first, more, rfl⟩ := List.exists_cons_of_ne_nil hcs
  rw [deadlineOf_cons]
  cases hlast : more.reduceOption.getLast? with
  | some last =>
    have hmem : some last ∈ more := List.reduceOption_mem_iff.mp (List.mem_of_getLast? hlast)
    have hle : last ≤ now := hpast last (List.mem_cons_of_mem _ hmem)
    rw [Option.getD_some]
    refine iff_of_true hle ?_
    cases first with
    | none => exact overdue_none now more
    | some t =>
      rw [overdue_some]
      exact Or.inl ⟨some last, hmem, Option.isSome_some⟩
  | none =>
    have hnone : ∀ c ∈ more, ¬c.isSome = true := by
      intro c hc hsome
      obtain ⟨t, rfl⟩ := Option.isSome_iff_exists.mp hsome
      have hmem : t ∈ more.reduceOption := List.reduceOption_mem_iff.mpr hc
      rw [List.getLast?_eq_none_iff.mp hlast] at hmem
      cases hmem
    rw [Option.getD_none]
    cases first with
    | none => exact iff_of_true (Nat.zero_le now) (overdue_none now more)
    | some t =>
      rw [overdue_some, Option.elim_some]
      constructor
      · exact Or.inr
      · rintro (⟨c, hc, hsome⟩ | hle)
        · exact absurd hsome (hnone c hc)
        · exact hle

/-- What a daemon that serves makes of the signals. -/
structure Heard (cs : List (Option ℕ)) (d : Daemon P S) : Prop where
  termSignals : d.runtime.termSignals = cs.length
  shuttingDown : d.runtime.shuttingDown = true ↔ cs ≠ []
  ready : d.runtime.ready = true ↔ cs = []
  deadlineNs : d.runtime.deadlineNs = deadlineOf cs
  stops : d.stops = if cs = [] then 0 else 1

section Draining

variable {d : Daemon P S} {cs : List (Option ℕ)}

theorem Heard.onSignal (h : Heard cs d) (g : Signal) :
    Heard (cs ++ ([g].filter fun g => isTermination g.number).map Signal.clock) (d.onSignal g) := by
  unfold Daemon.onSignal
  by_cases hother : isTermination g.number = false
  · rw [if_pos hother]
    simpa [hother] using h
  have hterm : isTermination g.number = true := Bool.eq_true_of_not_eq_false hother
  rw [if_neg hother]
  simp only [List.filter_cons, hterm, if_true, List.filter_nil, List.map_cons, List.map_nil]
  have hzero : d.runtime.termSignals = 0 ↔ cs = [] := by
    rw [h.termSignals, List.length_eq_zero_iff]
  have hdeadline : deadlineAfter d.runtime g.clock = deadlineOf (cs ++ [g.clock]) := by
    by_cases hcs : cs = []
    · subst hcs
      rw [List.nil_append, deadlineOf_singleton]
      cases g.clock with
      | none => rw [deadlineAfter, h.deadlineNs, deadlineOf, Option.elim_none]
      | some now => rw [deadlineAfter, if_pos (hzero.mpr rfl), Option.elim_some]
    · rw [deadlineOf_concat hcs]
      cases g.clock with
      | none => rw [deadlineAfter, h.deadlineNs, Option.getD_none]
      | some now => rw [deadlineAfter, if_neg (hzero.not.mpr hcs), Option.getD_some]
  have hmore : cs ++ [g.clock] ≠ [] := List.append_ne_nil_of_right_ne_nil _ (List.cons_ne_nil _ _)
  have hlength : d.runtime.termSignals + 1 = (cs ++ [g.clock]).length := by
    rw [h.termSignals, List.length_append, List.length_singleton]
  split_ifs with hfirst
  · have hstops := h.stops
    rw [if_pos (hzero.mp hfirst)] at hstops
    refine ⟨hlength, iff_of_true rfl hmore, iff_of_false Bool.false_ne_true hmore, hdeadline, ?_⟩
    rw [if_neg hmore]
    exact congrArg (· + 1) hstops
  · have hstops := h.stops
    rw [if_neg (hzero.not.mp hfirst)] at hstops
    refine ⟨hlength, iff_of_true rfl hmore, iff_of_false Bool.false_ne_true hmore, hdeadline, ?_⟩
    rw [if_neg hmore]
    exact hstops

theorem Heard.signals (h : Heard cs d) (gs : List Signal) :
    Heard (cs ++ (gs.filter fun g => isTermination g.number).map Signal.clock)
      (gs.foldl Daemon.onSignal d) := by
  induction gs generalizing cs d with
  | nil => simpa using h
  | cons g gs ih =>
    have hrest := ih (h.onSignal g)
    rwa [List.append_assoc, ← List.map_append, ← List.filter_append] at hrest

theorem heard_start (path : Option P) (a : Answers P S)
    (hserving : (start path a).phase = .serving) : Heard [] (start path a) := by
  have hboot := boot_spec path a staged_stages (.init path) ⟨rfl, rfl, rfl, rfl, rfl⟩
    (fun _ => rfl)
  cases hfirst : stages.find? fun g => decide (Fails path a g) with
  | some g =>
    rw [hfirst] at hboot
    have hleft : (start path a).phase = .left := hboot.1.phase
    rw [hserving] at hleft
    cases hleft
  | none =>
    rw [hfirst] at hboot
    obtain ⟨-, hfresh, -, hready⟩ := hboot
    have hdown : (start path a).runtime.shuttingDown = false := hfresh.shuttingDown
    exact ⟨hfresh.termSignals, by simp [hdown], iff_of_true hready rfl, hfresh.deadlineNs,
      hfresh.stops⟩

/-- A daemon that still serves ran all steps of the loop so far. -/
theorem Heard.turn (h : Heard cs d) (t : Turn) (hserving : (d.turn t).phase = .serving) :
    Heard (cs ++ terminations [t]) (d.turn t) := by
  have hstep (hphase : (d.loopStep t).phase = .serving) :
      Heard (cs ++ terminations [t]) (d.loopStep t) := by
    have hsignals := h.signals t.signals
    unfold Daemon.loopStep at hphase ⊢
    dsimp only at hphase ⊢
    split_ifs at hphase ⊢ with hfailed
    · cases hphase
    · simpa [terminations] using hsignals
  unfold Daemon.turn at hserving ⊢
  split_ifs at hserving ⊢ with hleft hdown
  · exact absurd hserving hleft
  · unfold Daemon.drain at hserving ⊢
    split_ifs at hserving ⊢ with hidle
    · cases hserving
    cases hclock : t.clock with
    | none =>
      rw [hclock] at hserving
      cases hserving
    | some now =>
      simp only [hclock] at hserving ⊢
      split_ifs at hserving ⊢
      · cases hserving
      · exact hstep hserving
  · exact hstep hserving

theorem turn_of_left (hleft : d.phase ≠ .serving) (t : Turn) : d.turn t = d := if_pos hleft

theorem heard_run (path : Option P) (a : Answers P S) (ts : List Turn)
    (hserving : (run turn (start path a) ts).phase = .serving) :
    Heard (terminations ts) (run turn (start path a) ts) := by
  induction ts using List.reverseRecOn with
  | nil => exact heard_start path a hserving
  | append_singleton ts t ih =>
    rw [run_append, run_cons, run_nil] at hserving ⊢
    have hbefore : (run turn (start path a) ts).phase = .serving := by
      by_contra hleft
      rw [turn_of_left hleft t] at hserving
      exact hleft hserving
    have hturn := (ih hbefore).turn t hserving
    unfold terminations at hturn ⊢
    rwa [← List.flatMap_append] at hturn

/-- A daemon that was told to terminate leaves its loop when nothing is in flight, when the clock
cannot be read or has passed the deadline, or when the event loop fails. -/
theorem Heard.left_iff (h : Heard cs d) (hserving : d.phase = .serving) (hcs : cs ≠ []) (t : Turn) :
    (d.turn t).phase = .left ↔ t.inflight = 0 ∨ t.status < 0 ∨
      ∀ now, t.clock = some now → deadlineOf cs ≤ now := by
  have hturn : d.turn t = d.drain t := by
    unfold Daemon.turn
    rw [if_neg (not_not.mpr hserving), if_pos (h.shuttingDown.mpr hcs)]
  have hstep : (d.loopStep t).phase = .left ↔ t.status < 0 := by
    obtain ⟨rt, lines, stops, heq, -⟩ := d.signals_frame t.signals
    unfold Daemon.loopStep
    dsimp only
    split_ifs with hfailed
    · exact iff_of_true rfl hfailed
    · rw [heq]
      exact iff_of_false (by simp [hserving]) hfailed
  rw [hturn]
  unfold Daemon.drain
  split_ifs with hidle
  · exact iff_of_true rfl (Or.inl hidle)
  cases t.clock with
  | none => exact iff_of_true rfl (Or.inr (Or.inr fun now hnow => nomatch hnow))
  | some now =>
    dsimp only
    split_ifs with hdue
    · rw [h.deadlineNs] at hdue
      refine iff_of_true rfl (Or.inr (Or.inr fun now' hnow => ?_))
      obtain rfl := Option.some.inj hnow
      exact hdue
    · rw [h.deadlineNs] at hdue
      rw [hstep]
      constructor
      · exact fun hfailed => Or.inr (Or.inl hfailed)
      · rintro (hzero | hfailed | hlate)
        · exact absurd hzero hidle
        · exact hfailed
        · exact absurd (hlate now rfl) hdue

/-- Whatever the daemon meets while it serves: at the first signal to terminate, and only then,
it stops to accept and is no longer ready. From then on it leaves its loop as soon as nothing is
in flight, and otherwise when five seconds have passed or a second signal came, unless the clock
or the event loop fails. -/
theorem drains (path : Option P) (a : Answers P S) {ts : List Turn} {t : Turn}
    (hclock : (readings (ts ++ [t])).Pairwise (· ≤ ·)) :
    let d := run turn (start path a) ts
    d.phase = .serving →
      d.stops = (if terminations ts = [] then 0 else 1) ∧
      (d.runtime.ready = true ↔ terminations ts = []) ∧
      (terminations ts ≠ [] →
        ((d.turn t).phase = .left ↔ t.inflight = 0 ∨ t.status < 0 ∨
          ∀ now, t.clock = some now → Overdue now (terminations ts))) := by
  intro d hserving
  have hheard : Heard (terminations ts) d := heard_run path a ts hserving
  refine ⟨hheard.stops, hheard.ready, fun htold => ?_⟩
  rw [hheard.left_iff hserving htold]
  have hpast : ∀ now, t.clock = some now → ∀ c, some c ∈ terminations ts → c ≤ now := by
    intro now hnow c hc
    unfold readings at hclock
    rw [List.flatMap_append, List.pairwise_append] at hclock
    apply hclock.2.2
    · obtain ⟨u, hu, hmem⟩ := List.mem_flatMap.mp hc
      obtain ⟨g, hg, hread⟩ := List.mem_map.mp hmem
      refine List.mem_flatMap.mpr ⟨u, hu, List.mem_append_right _ ?_⟩
      exact List.mem_filterMap.mpr ⟨g, List.mem_of_mem_filter hg, hread⟩
    · simp [hnow]
  refine or_congr_right (or_congr_right (forall₂_congr fun now hnow => ?_))
  exact deadlineOf_le_iff htold (hpast now hnow)

/-- Nothing goes wrong at the start. -/
def flawless : Answers Unit Unit :=
  ⟨fun _ => Status.ok, ⟨.ok (), fun _ => .ok [], fun _ => .ok (), fun _ => Status.ok⟩, false⟩

theorem drains_sigterm :
    let ts : List Turn := [⟨0, none, [⟨15, some 10⟩], Status.ok⟩]
    let t : Turn := ⟨1, some 11, [], Status.ok⟩
    let d := run turn (start none flawless) ts
    d.stops = (if terminations ts = [] then 0 else 1) ∧
      (d.runtime.ready = true ↔ terminations ts = []) ∧
      (terminations ts ≠ [] →
        ((d.turn t).phase = .left ↔ t.inflight = 0 ∨ t.status < 0 ∨
          ∀ now, t.clock = some now → Overdue now (terminations ts))) :=
  drains none flawless (by decide) rfl

end Draining

end Daemon
end AsmFlow
