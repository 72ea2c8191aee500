import AsmFlow.Library.Windows
import AsmFlow.Machine.Status

/-!
# The restart budget

`af_mcp_schedule_restart`: a sliding window over the restarts that were recorded, and a
back-off that doubles up to a ceiling. Times are readings of the monotonic clock, in
nanoseconds.
-/

namespace AsmFlow.Mcp

open Library

/-- `NS_PER_MS`. -/
def nsPerMs : ℕ := 1000000

/-- The largest 64-bit value. -/
def maxU64 : ℕ := 2 ^ 64 - 1

/-- `AF_MCP_RESTART_HISTORY_MAX`. -/
def historyMax : ℕ := 100

/-- `AF_RESTART_*`. -/
inductive RestartMode
  | never
  | onFailure
  | always
  deriving DecidableEq, Repr

/-- What `af_cfg_load_restart` accepts. -/
structure RestartPolicy where
  mode : RestartMode
  maxRestarts : ℕ
  windowMs : ℕ
  backoffMs : ℕ
  maxBackoffMs : ℕ
  maxRestarts_le : maxRestarts ≤ 100
  window_ge : 1000 ≤ windowMs
  window_le : windowMs ≤ 86400000
  backoff_le : backoffMs ≤ 3600000
  maxBackoff_le : maxBackoffMs ≤ 3600000
  backoff_le_max : backoffMs ≤ maxBackoffMs

/-- `MC_RESTART_HISTORY` up to `MC_RESTARTS`, `MC_WINDOW_START` and `MC_BACKOFF_MS`. -/
structure Budget where
  history : List ℕ
  windowStart : ℕ
  backoffMs : ℕ
  deriving DecidableEq, Repr

/-- What becomes of a server whose process is gone: nothing, no more restarts, or a restart
at some time. -/
inductive Verdict
  | leave
  | crashLoop (b : Budget)
  | restart (b : Budget) (nextStart : ℕ)
  deriving DecidableEq, Repr

def Budget.empty : Budget := ⟨[], 0, 0⟩

/-- The time of the next start, saturated. -/
def deadline (now backoff : ℕ) : ℕ :=
  if 2 ^ 64 ≤ backoff * nsPerMs then maxU64
  else if 2 ^ 64 ≤ now + backoff * nsPerMs then maxU64
  else now + backoff * nsPerMs

theorem le_deadline {now : ℕ} (hnow : now ≤ maxU64) (backoff : ℕ) :
    now ≤ deadline now backoff := by
  unfold deadline
  split_ifs <;> omega

namespace RestartPolicy

variable (p : RestartPolicy)

/-- The lower end of the window, unless its length overflows. -/
def cutoff (now : ℕ) : Option ℕ :=
  if p.windowMs = 0 then some 0
  else if 2 ^ 64 ≤ p.windowMs * nsPerMs then none
  else if now < p.windowMs * nsPerMs then some 0
  else some (now - p.windowMs * nsPerMs)

/-- `.compact`: the timestamps of the window move to the front. -/
def compact (b : Budget) (cutoff : ℕ) : Budget :=
  let kept := since cutoff b.history
  ⟨kept, kept.head?.getD 0, if kept = [] then 0 else b.backoffMs⟩

/-- The back-off after `current`. A doubling that carries jumps behind the load of the
ceiling, and takes what the register holds. -/
def nextBackoff (current stale : ℕ) : ℕ :=
  if current = 0 then min p.backoffMs p.maxBackoffMs
  else if 2 ^ 64 ≤ current + current then stale
  else min (current + current) p.maxBackoffMs

/-- `af_mcp_schedule_restart`, behind the reading of the clock. -/
def schedule (b : Budget) (now stale : ℕ) : Verdict :=
  if p.mode = .never then .leave
  else
    match p.cutoff now with
    | none => .crashLoop b
    | some cutoff =>
      if historyMax < b.history.length then .crashLoop b
      else
        let kept := compact b cutoff
        if p.maxRestarts = 0 then .crashLoop kept
        else if historyMax < p.maxRestarts then .crashLoop kept
        else if p.maxRestarts ≤ kept.history.length then .crashLoop kept
        else
          let backoff := p.nextBackoff kept.backoffMs stale
          .restart
            { history := kept.history ++ [now]
              windowStart := if kept.history = [] then now else kept.windowStart
              backoffMs := backoff }
            (deadline now backoff)

/-! ## The window -/

/-- The window of an accepted configuration. -/
def windowNs : ℕ := p.windowMs * nsPerMs

theorem cutoff_eq (now : ℕ) : p.cutoff now = some (now - p.windowNs) := by
  have hge := p.window_ge
  have hle := p.window_le
  unfold cutoff windowNs nsPerMs
  rw [if_neg (by omega), if_neg (by omega)]
  split
  · rw [Nat.sub_eq_zero_of_le (by omega)]
  · rfl

theorem monotone_cutoff : Monotone fun now => now - p.windowNs :=
  fun _ _ h => Nat.sub_le_sub_right h _

theorem nextBackoff_of_le {current : ℕ} (h : current ≤ p.maxBackoffMs) (stale : ℕ) :
    p.nextBackoff current stale ≤ p.maxBackoffMs ∧ current ≤ p.nextBackoff current stale := by
  have hmax := p.maxBackoff_le
  unfold nextBackoff
  split_ifs with hzero hcarry
  · exact ⟨min_le_right _ _, by omega⟩
  · omega
  · exact ⟨min_le_right _ _, le_min (by omega) h⟩

end RestartPolicy
end AsmFlow.Mcp
