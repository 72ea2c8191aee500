import AsmFlow.Library.Lines
import AsmFlow.Library.Runs
import AsmFlow.Memory.Buffer
import Mathlib.Data.List.DropRight

/-!
# The kept tail of standard error

`af_mcp_capture_stderr` and `af_mcp_flush_errline`: lines are cut at their ceiling,
and the newest of what results is kept.
-/

namespace AsmFlow.Mcp

open Library

/-- `AF_MCP_STDERR_KEEP`. -/
def stderrKeep : ℕ := 64 * 1024

/-- `AF_MCP_STDERR_LINE_HARD_MAX`. -/
def stderrLineHardMax : ℕ := 1024 * 1024

/-- What `af_mcp_child` holds for standard error. -/
structure Stderr where
  errline : Buffer
  errlog : Buffer
  /-- `AF_MC_F_ERR_TRUNCATED`. -/
  truncated : Bool
  /-- `MC_STDERR_TRUNC`. -/
  truncations : ℕ
  /-- `MC_STDERR_MAX`. -/
  max : ℕ

namespace Stderr

/-- `af_mcp_child_init`, and the limit of the configuration. -/
def init (max : ℕ) : Stderr :=
  ⟨Buffer.init stderrLineHardMax, Buffer.init (stderrKeep * 2), false, 0, max⟩

/-- `.have_ceiling`. -/
def ceiling (t : Stderr) : ℕ := if t.max = 0 then 65536 else t.max

/-- The newest suffix of the old tail, the line and a line feed: the new bytes of the
line, and how many bytes leave the old tail. -/
def makeRoom (log line : ℕ) : ℕ × ℕ :=
  -- a line that fills the tail loses its own oldest bytes
  if stderrKeep ≤ line then (line - (stderrKeep - 1), log)
  else (0, if log ≤ stderrKeep - 1 - line then 0 else log - (stderrKeep - 1 - line))

/-- `.consume_old`. -/
def consumeOld (log : Buffer) (n : ℕ) : Buffer × Status :=
  if n = 0 then (log, Status.ok) else log.consume n

/-- `.append_line`. -/
def appendLine (alloc : ℕ → Bool) (log : Buffer) (line : Bytes) : Buffer :=
  match log.append alloc line with
  | (log, st) => if st < 0 then log else (log.append alloc [10]).1

/-- The line goes into the tail. -/
def keepLine (alloc : ℕ → Bool) (log : Buffer) (line : Bytes) : Buffer :=
  match consumeOld log (makeRoom log.len line.length).2 with
  | (log', st) =>
    if st < 0 then log' else appendLine alloc log' (line.drop (makeRoom log.len line.length).1)

/-- `af_mcp_flush_errline`. -/
def flushErrline (alloc : ℕ → Bool) (t : Stderr) : Stderr :=
  if t.errline.len = 0 then { t with truncated := false }
  else
    { t with
      truncated := false
      errlog := keepLine alloc t.errlog t.errline.data
      errline := t.errline.clear }

/-- `.truncated`. -/
def truncate (t : Stderr) : Stderr :=
  { t with truncated := true, truncations := t.truncations + 1 }

/-- `.append`. -/
def errlineByte (alloc : ℕ → Bool) (t : Stderr) (c : UInt8) : Stderr :=
  match t.errline.append alloc [c] with
  | (line, st) => if st < 0 then t.truncate else { t with errline := line }

/-- `.next`. -/
def captureByte (alloc : ℕ → Bool) (t : Stderr) (c : UInt8) : Stderr :=
  if c = 10 then t.flushErrline alloc
  else if t.truncated then t
  else if t.errline.len < t.ceiling then t.errlineByte alloc c
  else t.truncate

/-- `af_mcp_capture_stderr`. -/
def capture (alloc : ℕ → Bool) (t : Stderr) (s : Bytes) : Stderr := s.foldl (captureByte alloc) t

end Stderr

/-- What is done to the tail, each time with its own allocator. -/
inductive StderrCall
  | capture (alloc : ℕ → Bool) (s : Bytes)
  | flush (alloc : ℕ → Bool)

namespace Stderr

def step (t : Stderr) : StderrCall → Stderr
  | .capture alloc s => t.capture alloc s
  | .flush alloc => t.flushErrline alloc

/-! ## The stream and its lines -/

/-- A byte of the stream, or the end of a line. -/
def mark (c : UInt8) : Option UInt8 := if c = 10 then none else some c

/-- What a call adds to the stream. -/
def marks : StderrCall → List (Option UInt8)
  | .capture _ s => s.map mark
  | .flush _ => [none]

/-- The lines that have ended. -/
def ended (s : List (Option UInt8)) : List Bytes := (lines none s).1.map (List.filterMap id)

/-- The line that has not ended. -/
def unfinished (s : List (Option UInt8)) : Bytes := (lines none s).2.filterMap id

/-- The lines that are not empty, each up to the ceiling and with its line feed. -/
def kept (ceiling : ℕ) (ls : List Bytes) : Bytes :=
  (ls.filter (· ≠ [])).flatMap fun l => l.take ceiling ++ [10]

/-- How many lines are over the ceiling. -/
def overlong (ceiling : ℕ) (ls : List Bytes) : ℕ := ls.countP fun l => decide (ceiling < l.length)

/-- No ceiling is over the hard one. -/
def lineCeiling (max : ℕ) : ℕ := min (if max = 0 then 65536 else max) stderrLineHardMax

theorem lineCeiling_pos (max : ℕ) : 0 < lineCeiling max := by
  unfold lineCeiling
  split_ifs with hmax
  · decide
  · exact lt_min (Nat.pos_of_ne_zero hmax) (by decide)

section Stream

variable (s : List (Option UInt8)) (c : UInt8)

theorem lines_byte :
    lines none (s ++ [some c]) = ((lines none s).1, (lines none s).2 ++ [some c]) := by
  have htail : none ∉ (lines none s).2 ++ [some c] := by
    intro hmem
    rcases List.mem_append.mp hmem with hmem | hmem
    · exact tail_notMem none s hmem
    · cases List.mem_singleton.mp hmem
  rw [lines_append, lines_of_notMem htail, List.append_nil]

theorem lines_end : lines none (s ++ [none]) = ((lines none s).1 ++ [(lines none s).2], []) := by
  rw [lines_append, lines_line (tail_notMem none s) []]
  rfl

@[simp] theorem ended_byte : ended (s ++ [some c]) = ended s := by
  rw [ended, lines_byte]
  rfl

@[simp] theorem unfinished_byte : unfinished (s ++ [some c]) = unfinished s ++ [c] := by
  rw [unfinished, lines_byte, List.filterMap_append]
  rfl

@[simp] theorem ended_end : ended (s ++ [none]) = ended s ++ [unfinished s] := by
  rw [ended, lines_end, List.map_append]
  rfl

@[simp] theorem unfinished_end : unfinished (s ++ [none]) = [] := by
  rw [unfinished, lines_end]
  rfl

end Stream

theorem kept_snoc (n : ℕ) (ls : List Bytes) (l : Bytes) :
    kept n (ls ++ [l]) = kept n ls ++ if l = [] then [] else l.take n ++ [10] := by
  unfold kept
  rw [List.filter_append, List.flatMap_append]
  split_ifs with hl
  · rw [hl]
    rfl
  · simp [hl]

theorem overlong_snoc (n : ℕ) (ls : List Bytes) (l : Bytes) :
    overlong n (ls ++ [l]) = overlong n ls + if n < l.length then 1 else 0 := by
  unfold overlong
  rw [List.countP_append]
  simp [List.countP_cons]

/-- The tail of a tail with more behind it. -/
theorem rtake_rtake_append {α : Type*} (k : ℕ) (l m : List α) :
    (l.rtake k ++ m).rtake k = (l ++ m).rtake k := by
  unfold List.rtake
  by_cases hk : l.length ≤ k
  · rw [Nat.sub_eq_zero_of_le hk, List.drop_zero]
  · have hlength : (l.drop (l.length - k) ++ m).length - k = m.length := by
      rw [List.length_append, List.length_drop]
      omega
    have hall : (l ++ m).length - k = l.length - k + m.length := by
      rw [List.length_append]
      omega
    rw [hlength, hall, ← List.drop_drop, List.drop_append_of_le_length (Nat.sub_le _ _)]

/-- What is kept of the old tail and of the line is the newest of both. -/
theorem makeRoom_spec (log line : Bytes) :
    log.drop (makeRoom log.length line.length).2 ++
        (line.drop (makeRoom log.length line.length).1 ++ [10]) =
      (log ++ (line ++ [10])).rtake stderrKeep ∧
    (makeRoom log.length line.length).2 ≤ log.length ∧
    log.length - (makeRoom log.length line.length).2 +
      (line.length - (makeRoom log.length line.length).1) + 1 ≤ stderrKeep := by
  have hkeep : 0 < stderrKeep := by decide
  have hlength : (log ++ (line ++ [10])).length = log.length + (line.length + 1) := by
    rw [List.length_append, List.length_append, List.length_singleton]
  unfold makeRoom List.rtake
  rw [hlength]
  split_ifs with hbig hfits
  · dsimp only
    have hdrop : log.length + (line.length + 1) - stderrKeep =
        log.length + (line.length - (stderrKeep - 1)) := by omega
    have hnew : (line ++ [10]).drop (line.length - (stderrKeep - 1)) =
        line.drop (line.length - (stderrKeep - 1)) ++ [10] :=
      List.drop_append_of_le_length (Nat.sub_le _ _)
    rw [hdrop, ← List.drop_drop, List.drop_left, List.drop_length, List.nil_append, hnew]
    exact ⟨rfl, le_rfl, by omega⟩
  · dsimp only
    rw [Nat.sub_eq_zero_of_le (by omega)]
    exact ⟨rfl, Nat.zero_le _, by omega⟩
  · dsimp only
    have hdrop : log.length + (line.length + 1) - stderrKeep =
        log.length - (stderrKeep - 1 - line.length) := by omega
    rw [hdrop, List.drop_append_of_le_length (Nat.sub_le _ _)]
    exact ⟨rfl, Nat.sub_le _ _, by omega⟩

/-- The allocator grants what the two buffers may ask for. -/
def Granting (alloc : ℕ → Bool) : Prop := ∀ n ≤ stderrLineHardMax, alloc n = true

section Keep

variable {alloc : ℕ → Bool} {log : Buffer}

theorem append_log (ha : Granting alloc) (hmax : log.max = stderrKeep * 2) {p : Bytes}
    (hroom : log.len + p.length ≤ stderrKeep) :
    ∃ log', log.append alloc p = (log', Status.ok) ∧ log'.data = log.data ++ p ∧
      log'.max = stderrKeep * 2 := by
  have hsmall : stderrKeep * 2 ≤ stderrLineHardMax := by decide
  have hgrants : ∀ k ≤ log.max, alloc k = true := fun k hk =>
    ha k (hk.trans (by rw [hmax]; exact hsmall))
  have hword : log.max < 2 ^ 63 := by
    rw [hmax]
    decide
  rcases Buffer.append_granting hgrants hword p with ⟨log', heq, hdata, hmax', -⟩ | ⟨-, hbig⟩
  · exact ⟨log', heq, hdata, by rw [hmax', hmax]⟩
  · rw [hmax] at hbig
    omega

theorem appendLine_data (ha : Granting alloc) (hmax : log.max = stderrKeep * 2) {line : Bytes}
    (hroom : log.len + line.length + 1 ≤ stderrKeep) :
    (appendLine alloc log line).data = log.data ++ (line ++ [10]) ∧
      (appendLine alloc log line).max = stderrKeep * 2 := by
  obtain ⟨log', heq, hdata, hmax'⟩ := append_log ha hmax (p := line) (by omega)
  have hlen : log'.len = log.len + line.length := by
    rw [Buffer.len, hdata, List.length_append]
    rfl
  obtain ⟨log'', heq', hdata', hmax''⟩ :=
    append_log ha hmax' (p := [10]) (by rw [hlen, List.length_singleton]; exact hroom)
  unfold appendLine
  rw [heq]
  dsimp only
  rw [if_neg (by decide), heq', hdata', hdata, List.append_assoc]
  exact ⟨rfl, hmax''⟩

theorem consumeOld_data {n : ℕ} (hn : n ≤ log.len) :
    (consumeOld log n).2 = Status.ok ∧ (consumeOld log n).1.data = log.data.drop n ∧
      (consumeOld log n).1.max = log.max := by
  unfold consumeOld
  split_ifs with hzero
  · rw [hzero]
    exact ⟨rfl, rfl, rfl⟩
  · unfold Buffer.consume
    rw [if_neg (not_lt.mpr hn)]
    exact ⟨rfl, rfl, rfl⟩

theorem keepLine_data (ha : Granting alloc) (hmax : log.max = stderrKeep * 2) (line : Bytes) :
    (keepLine alloc log line).data = (log.data ++ (line ++ [10])).rtake stderrKeep ∧
      (keepLine alloc log line).max = stderrKeep * 2 := by
  obtain ⟨hdata, hold, hroom⟩ := makeRoom_spec log.data line
  change (makeRoom log.len line.length).2 ≤ log.len at hold
  obtain ⟨hok, hrest, hkept⟩ := consumeOld_data hold
  have hlen : (consumeOld log (makeRoom log.len line.length).2).1.len =
      log.len - (makeRoom log.len line.length).2 := by
    rw [Buffer.len]
    exact (congrArg List.length hrest).trans List.length_drop
  have hfits : (consumeOld log (makeRoom log.len line.length).2).1.len +
      (line.drop (makeRoom log.len line.length).1).length + 1 ≤ stderrKeep := by
    rw [hlen, List.length_drop]
    exact hroom
  have happend := appendLine_data ha (hkept.trans hmax) hfits
  have hkeep : keepLine alloc log line =
      appendLine alloc (consumeOld log (makeRoom log.len line.length).2).1
        (line.drop (makeRoom log.len line.length).1) := by
    unfold keepLine
    rw [show consumeOld log (makeRoom log.len line.length).2 =
      ((consumeOld log (makeRoom log.len line.length).2).1, Status.ok) from Prod.ext rfl hok]
    exact if_neg (by decide)
  rw [hkeep, happend.1]
  exact ⟨(congrArg (· ++ _) hrest).trans hdata, happend.2⟩

end Keep

/-! ## The tail and the stream -/

/-- What the tail holds of the stream so far. -/
structure Holds (t : Stderr) (s : List (Option UInt8)) : Prop where
  line : t.errline.data = (unfinished s).take (lineCeiling t.max)
  lineMax : t.errline.max = stderrLineHardMax
  log : t.errlog.data = (kept (lineCeiling t.max) (ended s)).rtake stderrKeep
  logMax : t.errlog.max = stderrKeep * 2
  truncated : t.truncated = decide (lineCeiling t.max < (unfinished s).length)
  counted : t.truncations = overlong (lineCeiling t.max) (ended s ++ [unfinished s])

theorem holds_init (max : ℕ) : Holds (init max) [] where
  line := List.take_nil.symm
  lineMax := rfl
  log := (List.rtake_nil _).symm
  logMax := rfl
  truncated := (decide_eq_false (Nat.not_lt_zero _)).symm
  counted := by
    have hcount : overlong (lineCeiling max) [[]] = 0 := by
      rw [← List.nil_append [[]], overlong_snoc, List.length_nil, if_neg (Nat.not_lt_zero _)]
      rfl
    exact hcount.symm

section Steps

variable {alloc : ℕ → Bool} {t : Stderr} {s : List (Option UInt8)}

theorem Holds.len (h : Holds t s) :
    t.errline.len = min (lineCeiling t.max) (unfinished s).length := by
  rw [Buffer.len, h.line, List.length_take]

/-- The end of a line, by a line feed or by a flush. -/
theorem holds_flush (ha : Granting alloc) (h : Holds t s) :
    Holds (t.flushErrline alloc) (s ++ [none]) := by
  have hpos := lineCeiling_pos t.max
  have hlen := h.len
  unfold flushErrline
  split_ifs with hempty
  · have hnil : unfinished s = [] := List.length_eq_zero_iff.mp (by omega)
    have hline := h.line
    have hlogged := h.log
    have hcounted := h.counted
    rw [hnil] at hline hcounted
    refine ⟨?_, h.lineMax, ?_, h.logMax, ?_, ?_⟩
    · rw [unfinished_end]
      exact hline
    · rw [ended_end, hnil, kept_snoc, if_pos rfl, List.append_nil]
      exact hlogged
    · rw [unfinished_end]
      rfl
    · rw [ended_end, unfinished_end, hnil, overlong_snoc, List.length_nil,
        if_neg (Nat.not_lt_zero _)]
      exact hcounted
  · have hsome : unfinished s ≠ [] := by
      intro hnil
      rw [hnil] at hlen
      simp at hlen
      exact hempty hlen
    obtain ⟨hdata, hmax⟩ := keepLine_data ha h.logMax t.errline.data
    refine ⟨?_, h.lineMax, ?_, hmax, ?_, ?_⟩
    · rw [unfinished_end, List.take_nil]
      rfl
    · rw [ended_end, kept_snoc, if_neg hsome]
      refine hdata.trans ?_
      rw [h.log, h.line, rtake_rtake_append]
    · rw [unfinished_end]
      rfl
    · rw [ended_end, unfinished_end, overlong_snoc, List.length_nil, if_neg (Nat.not_lt_zero _)]
      exact h.counted

/-- The first byte over the ceiling. -/
theorem holds_truncate (h : Holds t s) (hfull : (unfinished s).length = lineCeiling t.max)
    (c : UInt8) : Holds t.truncate (s ++ [some c]) := by
  have hcounted := h.counted
  rw [overlong_snoc, if_neg (by omega)] at hcounted
  refine ⟨?_, h.lineMax, ?_, h.logMax, ?_, ?_⟩
  · rw [unfinished_byte]
    exact h.line.trans (List.take_append_of_le_length hfull.ge).symm
  · rw [ended_byte]
    exact h.log
  · rw [unfinished_byte, List.length_append, List.length_singleton]
    exact (decide_eq_true (by change lineCeiling t.max < _; omega)).symm
  · rw [ended_byte, unfinished_byte, overlong_snoc, List.length_append, List.length_singleton,
      if_pos (by change lineCeiling t.max < _; omega)]
    exact congrArg Nat.succ hcounted

theorem holds_byte (ha : Granting alloc) (h : Holds t s) {c : UInt8} (hc : c ≠ 10) :
    Holds (t.captureByte alloc c) (s ++ [some c]) := by
  have hlen := h.len
  have htruncated := h.truncated
  unfold captureByte
  rw [if_neg hc]
  by_cases hover : lineCeiling t.max < (unfinished s).length
  · have hcounted := h.counted
    rw [decide_eq_true hover] at htruncated
    rw [overlong_snoc, if_pos hover] at hcounted
    rw [if_pos htruncated]
    refine ⟨?_, h.lineMax, ?_, h.logMax, ?_, ?_⟩
    · rw [unfinished_byte, List.take_append_of_le_length hover.le]
      exact h.line
    · rw [ended_byte]
      exact h.log
    · rw [unfinished_byte, List.length_append, htruncated, decide_eq_true (by omega)]
    · rw [ended_byte, unfinished_byte, overlong_snoc, List.length_append, if_pos (by omega)]
      exact hcounted
  · rw [decide_eq_false hover] at htruncated
    rw [htruncated, if_neg Bool.false_ne_true]
    have hwhole : t.errline.len = (unfinished s).length := by omega
    have hceiling : lineCeiling t.max = min t.ceiling stderrLineHardMax := rfl
    split_ifs with hroom
    · have hgrants : ∀ k ≤ t.errline.max, alloc k = true := by
        rw [h.lineMax]
        exact ha
      have hword : t.errline.max < 2 ^ 63 := by
        rw [h.lineMax]
        decide
      unfold errlineByte
      rcases Buffer.append_granting hgrants hword [c] with
        ⟨line, heq, hdata, hmax, hfits⟩ | ⟨⟨e, he, heq⟩, hbig⟩
      · rw [h.lineMax, List.length_singleton] at hfits
        rw [heq]
        dsimp only
        rw [if_neg (by decide)]
        have hcounted := h.counted
        rw [overlong_snoc, if_neg hover] at hcounted
        have hunder : (unfinished s).length + 1 ≤ lineCeiling t.max := by omega
        have hline : (unfinished s).take (lineCeiling t.max) = unfinished s :=
          List.take_of_length_le (by omega)
        refine ⟨?_, hmax.trans h.lineMax, ?_, h.logMax, ?_, ?_⟩
        · rw [unfinished_byte, List.take_of_length_le (by simpa using hunder)]
          rw [hdata, h.line, hline]
        · rw [ended_byte]
          exact h.log
        · rw [unfinished_byte, List.length_append]
          exact htruncated.trans (decide_eq_false (not_lt.mpr hunder)).symm
        · have hsame : ¬lineCeiling t.max < (unfinished s ++ [c]).length := by
            rw [List.length_append]
            exact not_lt.mpr hunder
          rw [ended_byte, unfinished_byte, overlong_snoc]
          exact hcounted.trans (congrArg _ (if_neg hsame).symm)
      · rw [h.lineMax, List.length_singleton] at hbig
        rw [heq]
        dsimp only
        rw [if_pos he]
        exact holds_truncate h (by omega) c
    · exact holds_truncate h (by omega) c

theorem holds_capture (ha : Granting alloc) (h : Holds t s) (d : Bytes) :
    Holds (t.capture alloc d) (s ++ d.map mark) := by
  induction d generalizing t s with
  | nil =>
    rw [List.map_nil, List.append_nil]
    exact h
  | cons c d ih =>
    have hfirst : Holds (t.captureByte alloc c) (s ++ [mark c]) := by
      unfold mark
      split_ifs with hc
      · rw [captureByte, if_pos hc]
        exact holds_flush ha h
      · exact holds_byte ha h hc
    have hrest := ih hfirst
    rw [List.append_assoc] at hrest
    exact hrest

end Steps

/-- The allocator of a call. -/
def allocator : StderrCall → ℕ → Bool
  | .capture alloc _ => alloc
  | .flush alloc => alloc

theorem max_byte (alloc : ℕ → Bool) (t : Stderr) (c : UInt8) :
    (t.captureByte alloc c).max = t.max := by
  unfold captureByte flushErrline errlineByte truncate
  split_ifs
  all_goals first | rfl | skip
  split
  split_ifs
  · rfl
  · rfl

theorem max_step (t : Stderr) (call : StderrCall) : (t.step call).max = t.max := by
  cases call with
  | capture alloc d =>
    change (d.foldl (captureByte alloc) t).max = t.max
    induction d generalizing t with
    | nil => rfl
    | cons c d ih => exact (ih _).trans (max_byte alloc t c)
  | flush alloc =>
    unfold step flushErrline
    split_ifs
    · rfl
    · rfl

theorem holds_run {t : Stderr} {s : List (Option UInt8)} (h : Holds t s) {calls : List StderrCall}
    (ha : ∀ call ∈ calls, Granting (allocator call)) :
    Holds (run step t calls) (s ++ calls.flatMap marks) ∧ (run step t calls).max = t.max := by
  induction calls generalizing t s with
  | nil =>
    rw [List.flatMap_nil, List.append_nil]
    exact ⟨h, rfl⟩
  | cons call calls ih =>
    have hgrants := ha call List.mem_cons_self
    have hstep : Holds (t.step call) (s ++ marks call) := by
      cases call with
      | capture alloc d => exact holds_capture hgrants h d
      | flush alloc => exact holds_flush hgrants h
    obtain ⟨hrun, hmax⟩ := ih hstep fun call hcall => ha call (List.mem_cons_of_mem _ hcall)
    rw [List.append_assoc] at hrun
    exact ⟨hrun, hmax.trans (max_step t call)⟩

/-- However standard error is cut into reads: the log is the newest of the lines, each
up to its ceiling, and every line over the ceiling is counted once. -/
theorem stderr_tail_exact {max : ℕ} {calls : List StderrCall}
    (ha : ∀ call ∈ calls, Granting (allocator call)) :
    (run step (init max) calls).errlog.data =
        (kept (lineCeiling max) (ended (calls.flatMap marks))).rtake stderrKeep ∧
      (run step (init max) calls).truncations = overlong (lineCeiling max)
        (ended (calls.flatMap marks) ++ [unfinished (calls.flatMap marks)]) := by
  obtain ⟨hholds, hmax⟩ := holds_run (holds_init max) ha
  have hlog := hholds.log
  have hcounted := hholds.counted
  rw [hmax] at hlog hcounted
  exact ⟨hlog, hcounted⟩

/-- A line in two reads that goes over a ceiling of two bytes, an empty line, and a
line that a flush ends. -/
def splitCalls : List StderrCall :=
  [.capture (fun _ => true) [97, 98], .capture (fun _ => true) [99, 10, 10, 100],
    .flush fun _ => true]

theorem stderr_tail_exact_split :
    (run step (init 2) splitCalls).errlog.data = [97, 98, 10, 100, 10] ∧
      (run step (init 2) splitCalls).truncations = 1 := by
  have hgranting : ∀ call ∈ splitCalls, Granting (allocator call) := by
    intro call hcall n _
    rcases List.mem_cons.mp hcall with rfl | hcall
    · rfl
    · rcases List.mem_cons.mp hcall with rfl | hcall
      · rfl
      · rw [List.mem_singleton.mp hcall]
        rfl
  obtain ⟨hlog, hcounted⟩ := stderr_tail_exact hgranting
  exact ⟨hlog.trans (by decide), hcounted.trans (by decide)⟩

end Stderr

end AsmFlow.Mcp
