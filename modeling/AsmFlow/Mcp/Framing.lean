import AsmFlow.Http.Response
import AsmFlow.Library.Lines
import AsmFlow.Mcp.Stdout

/-!
# Framing does not depend on the reads

The bytes of a stream, cut into reads, against its lines taken one after the
other. The two agree on every cutting of a stream exactly when no line of it is
one byte over the ceiling because of its carriage return: read whole, such a
line is measured without the carriage return; read up to it, with it.
-/

namespace AsmFlow.Mcp

open Library

/-- The ways in which a stream can be read. -/
def Reads (s : Bytes) (ds : List Bytes) : Prop :=
  ds.flatten = s ∧ ∀ d ∈ ds, d ≠ [] ∧ d.length ≤ readChunk

namespace Child

variable (J : JsonLibrary) (m : Memory)

/-- A child as it is when its pipes are new. -/
structure Listening (c : Child) : Prop where
  isOpen : c.stdoutFd = true
  inbox_eq : c.inbox = []
  cursor_eq : c.scanCursor = 0
  keeping : c.flags.discarding = false

/-- Reads, one after the other, up to the first that fails. -/
def readAll (c : Child) : List Bytes → Child × Status
  | [] => (c, Status.ok)
  | d :: ds =>
    match c.readStdout J m (.got d) with
    | (e, st) => if st < 0 then (e, st) else e.readAll ds

/-- Complete lines, one after the other, up to the first that is rejected. -/
def hearLines (c : Child) : List Bytes → Child × Status
  | [] => (c, Status.ok)
  | l :: ls =>
    match c.deliver J m (trimCr l) with
    | (d, st) => if st < 0 then (d, st) else d.hearLines ls

/-- The tail behind the last line. -/
def hearTail (c : Child) (t : Bytes) : Child × Status :=
  if c.cfg.frameMax < t.length then (c.overlong, Status.mcpProtocol)
  else (c, Status.ok)

/-- A stream split at its line feeds. -/
def naive (c : Child) (s : Bytes) : Child × Status :=
  match c.hearLines J m (lines 10 s).1 with
  | (d, st) => if st < 0 then (d, st) else d.hearTail (lines 10 s).2

/-- A line that is delivered and understood. -/
def Accepts (c : Child) (l : Bytes) : Prop :=
  (trimCr l).length ≤ c.cfg.frameMax ∧ c.classify J m (trimCr l) ≠ .contaminated

/-- A line that is over the ceiling by its carriage return only. -/
def Spoils (c : Child) (l : Bytes) : Prop :=
  l.length = c.cfg.frameMax + 1 ∧ l.getLast? = some 13

/-- Such a line is reached. -/
def Spoilt (c : Child) (s : Bytes) : Prop :=
  ∃ pre l post, (lines 10 s).1 = pre ++ l :: post ∧ (∀ k ∈ pre, c.Accepts J m k) ∧ c.Spoils l

/-- The same child with other input: what waits in the inbox, how far it was scanned, and what
was read in all. -/
def withInput (c : Child) (inbox : Bytes) (cursor : ℕ) (heard : Bytes) : Child :=
  { c with inbox := inbox, scanCursor := cursor, present := { c.present with heard := heard } }

/-- What a framing leaves beside unread input. -/
def bare (c : Child) : Child := c.withInput [] 0 []

/-- The delivered lines, the counters and everything else but unread input, and the status. -/
def outcome (r : Child × Status) : Child × Status := (r.1.bare, r.2)

theorem outcome_inj {r q : Child × Status} (h : outcome r = outcome q) :
    r.2 = q.2 ∧ r.1.framesIn = q.1.framesIn ∧ r.1.present.lines = q.1.present.lines := by
  obtain ⟨hbare, hstatus⟩ := Prod.mk.inj h
  have hcount : r.1.bare.framesIn = q.1.bare.framesIn := congrArg Child.framesIn hbare
  have hlines : r.1.bare.present.lines = q.1.bare.present.lines :=
    congrArg (fun c : Child => c.present.lines) hbare
  exact ⟨hstatus, hcount, hlines⟩

/-! ## One line -/

section Line

variable {J m} {c : Child} {inbox heard l : Bytes} {cursor : ℕ}

@[simp] theorem withInput_self (c : Child) :
    c.withInput c.inbox c.scanCursor c.present.heard = c := rfl

@[simp] theorem withInput_withInput (c : Child) (i i' : Bytes) (k k' : ℕ) (h h' : Bytes) :
    (c.withInput i k h).withInput i' k' h' = c.withInput i' k' h' := rfl

@[simp] theorem bare_withInput (c : Child) (i : Bytes) (k : ℕ) (h : Bytes) :
    (c.withInput i k h).bare = c.bare := rfl

/-- The message layer does not look at the input. -/
theorem onMessage_withInput (c : Child) (i : Bytes) (k : ℕ) (h : Bytes) (l : Bytes) :
    (c.withInput i k h).onMessage J m l =
      ((c.onMessage J m l).1.withInput i k h, (c.onMessage J m l).2) := by
  have hclass : (c.withInput i k h).classify J m l = c.classify J m l := rfl
  unfold onMessage
  rw [hclass]
  cases c.classify J m l with
  | contaminated => rfl
  | request => rfl
  | response id payload error =>
    have hfind : (c.withInput i k h).callFind id = c.callFind id := rfl
    dsimp only
    rw [hfind]
    rcases c.callFind id with _ | ⟨j, call⟩
    · rfl
    · dsimp only
      split_ifs
      · rfl
      · rfl

theorem deliver_withInput (c : Child) (i : Bytes) (k : ℕ) (h : Bytes) (l : Bytes) :
    (c.withInput i k h).deliver J m l =
      ((c.deliver J m l).1.withInput i k h, (c.deliver J m l).2) := by
  unfold deliver
  have hcfg : (c.withInput i k h).cfg = c.cfg := rfl
  rw [hcfg]
  split_ifs
  · rfl
  · exact onMessage_withInput (c.handOver l) i k h l

/-- What a line leaves alone. -/
structure Kept (c d : Child) : Prop where
  cfg_eq : d.cfg = c.cfg
  flags_eq : d.flags = c.flags
  stdoutFd_eq : d.stdoutFd = c.stdoutFd
  inbox_eq : d.inbox = c.inbox
  cursor_eq : d.scanCursor = c.scanCursor
  heard_eq : d.present.heard = c.present.heard

theorem Kept.refl (c : Child) : Kept c c := ⟨rfl, rfl, rfl, rfl, rfl, rfl⟩

theorem Kept.trans {c d e : Child} (h : Kept c d) (h' : Kept d e) : Kept c e :=
  ⟨h'.cfg_eq.trans h.cfg_eq, h'.flags_eq.trans h.flags_eq, h'.stdoutFd_eq.trans h.stdoutFd_eq,
    h'.inbox_eq.trans h.inbox_eq, h'.cursor_eq.trans h.cursor_eq, h'.heard_eq.trans h.heard_eq⟩

theorem Kept.overlong (c : Child) : Kept c c.overlong := ⟨rfl, rfl, rfl, rfl, rfl, rfl⟩

/-- A message is counted or completes a call, and is refused exactly when it is no message. -/
theorem onMessage_spec (c : Child) (l : Bytes) :
    Kept c (c.onMessage J m l).1 ∧ (c.onMessage J m l).1.framesIn = c.framesIn ∧
      (c.onMessage J m l).1.present.lines = c.present.lines ∧
      (((c.onMessage J m l).2 = Status.ok ∧ c.classify J m l ≠ .contaminated) ∨
        ((c.onMessage J m l).2 = Status.mcpProtocol ∧ c.classify J m l = .contaminated)) := by
  unfold onMessage
  cases c.classify J m l with
  | contaminated => exact ⟨⟨rfl, rfl, rfl, rfl, rfl, rfl⟩, rfl, rfl, Or.inr ⟨rfl, rfl⟩⟩
  | request => exact ⟨⟨rfl, rfl, rfl, rfl, rfl, rfl⟩, rfl, rfl, Or.inl ⟨rfl, nofun⟩⟩
  | response id payload error =>
    dsimp only
    rcases c.callFind id with _ | ⟨j, call⟩
    · exact ⟨⟨rfl, rfl, rfl, rfl, rfl, rfl⟩, rfl, rfl, Or.inl ⟨rfl, nofun⟩⟩
    · dsimp only
      cases call.done with
      | true => exact ⟨⟨rfl, rfl, rfl, rfl, rfl, rfl⟩, rfl, rfl, Or.inl ⟨rfl, nofun⟩⟩
      | false => exact ⟨⟨rfl, rfl, rfl, rfl, rfl, rfl⟩, rfl, rfl, Or.inl ⟨rfl, nofun⟩⟩

theorem frameMax_ne (c : Child) : c.cfg.frameMax ≠ 0 :=
  Nat.ne_of_gt (lt_of_lt_of_le (by decide) c.cfg.le_frameMax)

/-- A line over the ceiling is counted and rejected. -/
theorem deliver_of_lt (h : c.cfg.frameMax < l.length) :
    c.deliver J m l = (c.overlong, Status.mcpProtocol) := by
  unfold deliver
  rw [if_pos ⟨c.frameMax_ne, h⟩]

theorem deliver_of_le (h : l.length ≤ c.cfg.frameMax) :
    c.deliver J m l = (c.handOver l).onMessage J m l := by
  unfold deliver
  rw [if_neg (fun hlt => absurd hlt.2 (not_lt.mpr h))]

/-- What delivering a line does: it is accepted or rejected, and counted if it was delivered. -/
theorem deliver_spec (c : Child) (l : Bytes) :
    Kept c (c.deliver J m l).1 ∧ c.framesIn ≤ (c.deliver J m l).1.framesIn ∧
      (((c.deliver J m l).2 = Status.ok ∧ l.length ≤ c.cfg.frameMax ∧
          c.classify J m l ≠ .contaminated) ∨
        ((c.deliver J m l).2 = Status.mcpProtocol ∧
          ¬(l.length ≤ c.cfg.frameMax ∧ c.classify J m l ≠ .contaminated))) := by
  by_cases hlength : l.length ≤ c.cfg.frameMax
  · rw [deliver_of_le hlength]
    obtain ⟨hkept, hcount, -, hstatus⟩ := onMessage_spec (J := J) (m := m) (c.handOver l) l
    have hclass : (c.handOver l).classify J m l = c.classify J m l := rfl
    rw [hclass] at hstatus
    have hcounted : Kept c (c.handOver l) := ⟨rfl, rfl, rfl, rfl, rfl, rfl⟩
    refine ⟨hcounted.trans hkept, ?_, ?_⟩
    · rw [hcount]
      exact Nat.le_succ _
    · rcases hstatus with ⟨hok, hmessage⟩ | ⟨hbad, hmessage⟩
      · exact Or.inl ⟨hok, hlength, hmessage⟩
      · exact Or.inr ⟨hbad, fun h => h.2 hmessage⟩
  · rw [deliver_of_lt (not_le.mp hlength)]
    exact ⟨⟨rfl, rfl, rfl, rfl, rfl, rfl⟩, le_refl _, Or.inr ⟨rfl, fun h => hlength h.1⟩⟩

end Line

/-! ## Lines -/

section Lines

variable {J m} {c d : Child} {ls ks : List Bytes} {s t : Bytes}

theorem hearLines_cons_ok {l : Bytes} (h : c.Accepts J m l) :
    c.hearLines J m (l :: ls) = (c.deliver J m (trimCr l)).1.hearLines J m ls := by
  obtain ⟨-, -, ⟨hok, -⟩ | ⟨-, hrejected⟩⟩ := deliver_spec (J := J) (m := m) c (trimCr l)
  · rw [hearLines]
    dsimp only
    rw [hok, if_neg (by decide)]
  · exact absurd h hrejected

theorem hearLines_cons_rejected {l : Bytes} (ls : List Bytes) (h : ¬c.Accepts J m l) :
    c.hearLines J m (l :: ls) = c.deliver J m (trimCr l) ∧
      (c.deliver J m (trimCr l)).2 = Status.mcpProtocol := by
  obtain ⟨-, -, ⟨-, haccepted⟩ | ⟨hbad, -⟩⟩ := deliver_spec (J := J) (m := m) c (trimCr l)
  · exact absurd haccepted h
  · refine ⟨?_, hbad⟩
    rw [hearLines]
    dsimp only
    rw [if_pos (by rw [hbad]; decide)]

/-- Whether a line is accepted does not depend on the lines before it. -/
theorem Kept.accepts (h : Kept c d) (l : Bytes) : d.Accepts J m l ↔ c.Accepts J m l := by
  unfold Accepts classify
  rw [h.cfg_eq]

theorem Kept.spoils (h : Kept c d) (l : Bytes) : d.Spoils l ↔ c.Spoils l := by
  unfold Spoils
  rw [h.cfg_eq]

theorem hearLines_spec (c : Child) (ls : List Bytes) :
    Kept c (c.hearLines J m ls).1 ∧ c.framesIn ≤ (c.hearLines J m ls).1.framesIn ∧
      (((c.hearLines J m ls).2 = Status.ok ∧ ∀ l ∈ ls, c.Accepts J m l) ∨
        ((c.hearLines J m ls).2 = Status.mcpProtocol ∧ ¬∀ l ∈ ls, c.Accepts J m l)) := by
  induction ls generalizing c with
  | nil => exact ⟨.refl c, le_refl _, Or.inl ⟨rfl, nofun⟩⟩
  | cons l ls ih =>
    obtain ⟨hkept, hcount, -⟩ := deliver_spec (J := J) (m := m) c (trimCr l)
    by_cases h : c.Accepts J m l
    · rw [hearLines_cons_ok h]
      obtain ⟨hkept', hcount', hstatus⟩ := ih (c.deliver J m (trimCr l)).1
      refine ⟨hkept.trans hkept', le_trans hcount hcount', ?_⟩
      rcases hstatus with ⟨hok, hall⟩ | ⟨hbad, hsome⟩
      · left
        refine ⟨hok, ?_⟩
        intro k hk
        rcases List.mem_cons.mp hk with rfl | hk
        · exact h
        · exact (hkept.accepts k).mp (hall k hk)
      · right
        refine ⟨hbad, fun hall => hsome ?_⟩
        intro k hk
        exact (hkept.accepts k).mpr (hall k (List.mem_cons_of_mem l hk))
    · obtain ⟨heq, hbad⟩ := hearLines_cons_rejected ls h
      rw [heq]
      exact ⟨hkept, hcount, Or.inr ⟨hbad, fun hall => h (hall l List.mem_cons_self)⟩⟩

/-- Accepted lines, then others. -/
theorem hearLines_append (h : ∀ l ∈ ls, c.Accepts J m l) (ks : List Bytes) :
    c.hearLines J m (ls ++ ks) = (c.hearLines J m ls).1.hearLines J m ks := by
  induction ls generalizing c with
  | nil => rfl
  | cons l ls ih =>
    have hl : c.Accepts J m l := h l List.mem_cons_self
    obtain ⟨hkept, -⟩ := deliver_spec (J := J) (m := m) c (trimCr l)
    rw [List.cons_append, hearLines_cons_ok hl, hearLines_cons_ok hl, ih]
    intro k hk
    exact (hkept.accepts k).mpr (h k (List.mem_cons_of_mem l hk))

/-- Nothing is heard behind a rejected line. -/
theorem hearLines_append_rejected (h : ¬∀ l ∈ ls, c.Accepts J m l) (ks : List Bytes) :
    c.hearLines J m (ls ++ ks) = c.hearLines J m ls := by
  induction ls generalizing c with
  | nil => exact absurd nofun h
  | cons l ls ih =>
    by_cases hl : c.Accepts J m l
    · obtain ⟨hkept, -⟩ := deliver_spec (J := J) (m := m) c (trimCr l)
      rw [List.cons_append, hearLines_cons_ok hl, hearLines_cons_ok hl, ih]
      intro hall
      apply h
      intro k hk
      rcases List.mem_cons.mp hk with rfl | hk
      · exact hl
      · exact (hkept.accepts k).mp (hall k hk)
    · rw [List.cons_append, (hearLines_cons_rejected _ hl).1, (hearLines_cons_rejected _ hl).1]

theorem hearLines_withInput (c : Child) (i : Bytes) (k : ℕ) (h : Bytes) (ls : List Bytes) :
    (c.withInput i k h).hearLines J m ls =
      ((c.hearLines J m ls).1.withInput i k h, (c.hearLines J m ls).2) := by
  induction ls generalizing c with
  | nil => rfl
  | cons l ls ih =>
    rw [hearLines, deliver_withInput, hearLines]
    dsimp only
    split_ifs
    · rfl
    · exact ih _

/-- The lines that are delivered are the lines of the stream without their carriage returns, all
of them unless one is rejected. -/
theorem hearLines_lines (c : Child) (ls : List Bytes) :
    ∃ ks, ks <+: ls.map trimCr ∧
      (c.hearLines J m ls).1.present.lines = c.present.lines ++ ks ∧
      ((c.hearLines J m ls).2 = Status.ok → ks = ls.map trimCr) := by
  induction ls generalizing c with
  | nil => exact ⟨[], List.nil_prefix, (List.append_nil _).symm, fun _ => rfl⟩
  | cons l ls ih =>
    by_cases hlength : (trimCr l).length ≤ c.cfg.frameMax
    · have hadded : (c.deliver J m (trimCr l)).1.present.lines = c.present.lines ++ [trimCr l] := by
        rw [deliver_of_le hlength]
        exact (onMessage_spec (c.handOver (trimCr l)) (trimCr l)).2.2.1
      by_cases h : c.Accepts J m l
      · obtain ⟨ks, hpre, hlines, hall⟩ := ih (c.deliver J m (trimCr l)).1
        rw [hearLines_cons_ok h]
        refine ⟨trimCr l :: ks, List.cons_prefix_cons.mpr ⟨rfl, hpre⟩, ?_, ?_⟩
        · rw [hlines, hadded, List.append_assoc]
          rfl
        · intro hok
          rw [hall hok, List.map_cons]
      · obtain ⟨heq, hbad⟩ := hearLines_cons_rejected ls h
        rw [heq]
        refine ⟨[trimCr l], List.cons_prefix_cons.mpr ⟨rfl, List.nil_prefix⟩, hadded, ?_⟩
        intro hok
        rw [hbad] at hok
        exact absurd hok (by decide)
    · have h : ¬c.Accepts J m l := fun haccepts => hlength haccepts.1
      obtain ⟨heq, hbad⟩ := hearLines_cons_rejected ls h
      rw [heq, deliver_of_lt (not_le.mp hlength)]
      exact ⟨[], List.nil_prefix, (List.append_nil _).symm,
        fun hok => absurd hok (by decide : ¬Status.mcpProtocol = Status.ok)⟩

/-! ## Streams -/

/-- All lines are accepted and the tail is within the ceiling, or something was over or wrong. -/
theorem naive_spec (c : Child) (s : Bytes) :
    Kept c (c.naive J m s).1 ∧
      ((c.naive J m s = ((c.hearLines J m (lines 10 s).1).1, Status.ok) ∧
          (∀ l ∈ (lines 10 s).1, c.Accepts J m l) ∧ (lines 10 s).2.length ≤ c.cfg.frameMax) ∨
        ((c.naive J m s).2 = Status.mcpProtocol ∧ c.naive J m s = c.hearLines J m (lines 10 s).1 ∧
          ¬∀ l ∈ (lines 10 s).1, c.Accepts J m l) ∨
        (c.naive J m s = ((c.hearLines J m (lines 10 s).1).1.overlong, Status.mcpProtocol) ∧
          (∀ l ∈ (lines 10 s).1, c.Accepts J m l) ∧ c.cfg.frameMax < (lines 10 s).2.length)) := by
  obtain ⟨hkept, -, hstatus⟩ := hearLines_spec (J := J) (m := m) c (lines 10 s).1
  unfold naive
  rcases hstatus with ⟨hok, hall⟩ | ⟨hbad, hsome⟩
  · dsimp only
    rw [hok, if_neg (by decide)]
    unfold hearTail
    rw [hkept.cfg_eq]
    split_ifs with hover
    · exact ⟨hkept.trans (Kept.overlong _), Or.inr (Or.inr ⟨rfl, hall, hover⟩)⟩
    · exact ⟨hkept, Or.inl ⟨rfl, hall, not_lt.mp hover⟩⟩
  · dsimp only
    rw [hbad, if_pos (by decide)]
    exact ⟨hkept, Or.inr (Or.inl ⟨rfl, Prod.ext rfl hbad.symm, hsome⟩)⟩

theorem naive_withInput (c : Child) (i : Bytes) (k : ℕ) (h : Bytes) (s : Bytes) :
    (c.withInput i k h).naive J m s =
      ((c.naive J m s).1.withInput i k h, (c.naive J m s).2) := by
  unfold naive
  rw [hearLines_withInput]
  dsimp only
  split_ifs
  · rfl
  · unfold hearTail
    have hcfg : ((c.hearLines J m (lines 10 s).1).1.withInput i k h).cfg =
        (c.hearLines J m (lines 10 s).1).1.cfg := rfl
    rw [hcfg]
    split_ifs
    · rfl
    · rfl

/-- After a stream that was taken in, the rest is split behind its tail. -/
theorem naive_append_ok (h : (c.naive J m s).2 = Status.ok) (t : Bytes) :
    c.naive J m (s ++ t) = (c.naive J m s).1.naive J m ((lines 10 s).2 ++ t) := by
  obtain ⟨-, ⟨heq, hall, -⟩ | ⟨hbad, -⟩ | ⟨heq, -⟩⟩ := naive_spec (J := J) (m := m) c s
  · rw [heq]
    conv_lhs => unfold naive
    rw [lines_append, hearLines_append hall]
    rfl
  · rw [hbad] at h
    exact absurd h (by decide)
  · rw [heq] at h
    exact absurd h (by decide : ¬Status.mcpProtocol = Status.ok)

/-- A line that goes on behind a tail over the ceiling is over it too, or ends with its
carriage return right at the cut. -/
theorem rejected_of_tail {p l : Bytes} (hp : c.cfg.frameMax < p.length) (hpl : p <+: l) :
    c.cfg.frameMax < (trimCr l).length ∨ c.Spoils l := by
  have hlong : p.length ≤ l.length := hpl.length_le
  unfold trimCr
  split_ifs with hcr
  · rw [List.length_dropLast]
    by_cases heq : l.length = c.cfg.frameMax + 1
    · exact Or.inr ⟨heq, hcr⟩
    · left
      omega
  · left
    omega

/-- A stream that failed stays failed in the same state, unless what comes next shows that
only a carriage return was too much. -/
theorem naive_append_failed (h : (c.naive J m s).2 < 0) (t : Bytes)
    (hclean : ¬c.Spoilt J m (s ++ t)) : c.naive J m (s ++ t) = c.naive J m s := by
  obtain ⟨-, ⟨heq, -⟩ | ⟨-, heq, hsome⟩ | ⟨heq, hall, hover⟩⟩ := naive_spec (J := J) (m := m) c s
  · rw [heq] at h
    exact absurd h (by decide : ¬Status.ok < 0)
  · have hsame : c.hearLines J m (lines 10 (s ++ t)).1 = c.hearLines J m (lines 10 s).1 := by
      rw [lines_append]
      exact hearLines_append_rejected hsome _
    rw [heq] at h ⊢
    unfold naive
    rw [hsame]
    dsimp only
    rw [if_pos h]
  · obtain ⟨hkept, -, -⟩ := hearLines_spec (J := J) (m := m) c (lines 10 s).1
    have hsplit : c.naive J m (s ++ t) =
        (c.hearLines J m (lines 10 s).1).1.naive J m ((lines 10 s).2 ++ t) := by
      conv_lhs => unfold naive
      rw [lines_append, hearLines_append hall]
      rfl
    rw [heq, hsplit]
    have hover' : (c.hearLines J m (lines 10 s).1).1.cfg.frameMax < (lines 10 s).2.length := by
      rw [hkept.cfg_eq]
      exact hover
    rcases notMem_or_line 10 ((lines 10 s).2 ++ t) with hnone | ⟨l, r, hl, hline⟩
    · unfold naive
      rw [lines_of_notMem hnone, hearLines]
      dsimp only
      rw [if_neg (by decide : ¬Status.ok < 0), hearTail, if_pos]
      rw [List.length_append]
      omega
    · have hpre : (lines 10 s).2 <+: l := by
        have htail := tail_notMem 10 s
        have hcut : (lines 10 s).2 <+: l ++ 10 :: r := by
          rw [← hline]
          exact List.prefix_append _ _
        rcases List.prefix_or_prefix_of_prefix hcut (List.prefix_append l (10 :: r)) with hpl | hlp
        · exact hpl
        · obtain ⟨u, hu⟩ := hlp
          cases u with
          | nil =>
            rw [List.append_nil] at hu
            rw [hu]
          | cons b u =>
            exfalso
            rw [← hu, List.prefix_append_right_inj, List.cons_prefix_cons] at hcut
            apply htail
            rw [← hu, hcut.1]
            exact List.mem_append_right l List.mem_cons_self
      rcases rejected_of_tail hover' hpre with hlong | hspoils
      · have hrejected : ¬(c.hearLines J m (lines 10 s).1).1.Accepts J m l :=
          fun haccepts => absurd haccepts.1 (not_le.mpr hlong)
        unfold naive
        rw [hline, lines_line hl, (hearLines_cons_rejected _ hrejected).1, deliver_of_lt hlong]
        rfl
      · exfalso
        apply hclean
        refine ⟨(lines 10 s).1, l, (lines 10 r).1, ?_, hall, (hkept.spoils l).mp hspoils⟩
        rw [lines_append, hline, lines_line hl]

/-- What spoils the rest of a stream spoils the stream. -/
theorem Spoilt.of_rest (h : (c.naive J m s).2 = Status.ok)
    (hspoilt : (c.naive J m s).1.Spoilt J m ((lines 10 s).2 ++ t)) : c.Spoilt J m (s ++ t) := by
  obtain ⟨hkept, ⟨-, hall, -⟩ | ⟨hbad, -⟩ | ⟨heq, -⟩⟩ := naive_spec (J := J) (m := m) c s
  · obtain ⟨pre, l, post, hlines, haccepts, hspoils⟩ := hspoilt
    refine ⟨(lines 10 s).1 ++ pre, l, post, ?_, ?_, (hkept.spoils l).mp hspoils⟩
    · rw [lines_append, hlines, List.append_assoc]
    · intro k hk
      rcases List.mem_append.mp hk with hk | hk
      · exact hall k hk
      · exact (hkept.accepts k).mp (haccepts k hk)
  · rw [hbad] at h
    exact absurd h (by decide)
  · rw [heq] at h
    exact absurd h (by decide : ¬Status.mcpProtocol = Status.ok)

end Lines

/-! ## The framer -/

theorem lineFeed_of_notMem {s : Bytes} (h : 10 ∉ s) (i : ℕ) : lineFeed s i = none := by
  unfold lineFeed
  rw [Option.map_eq_none_iff, List.findIdx?_eq_none_iff]
  intro b hb
  rw [beq_eq_false_iff_ne]
  rintro rfl
  exact h (List.mem_of_mem_drop hb)

theorem lineFeed_line {l : Bytes} (h : 10 ∉ l) {i : ℕ} (hi : i ≤ l.length) (r : Bytes) :
    lineFeed (l ++ 10 :: r) i = some l.length := by
  have hrest : 10 ∉ l.drop i := fun hmem => h (List.mem_of_mem_drop hmem)
  have hnone : (l.drop i).findIdx? (· == 10) = none := by
    rw [List.findIdx?_eq_none_iff]
    intro b hb
    rw [beq_eq_false_iff_ne]
    rintro rfl
    exact hrest hb
  unfold lineFeed
  rw [List.drop_append_of_le_length hi, List.findIdx?_append, hnone, List.findIdx?_cons]
  simp only [beq_self_eq_true, if_true, Option.map_some, Option.none_or, List.length_drop]
  rw [Option.some.injEq]
  omega

section Framer

variable {J m} {c : Child}

theorem naive_of_notMem {s : Bytes} (h : 10 ∉ s) : c.naive J m s = c.hearTail s := by
  unfold naive
  rw [lines_of_notMem h, hearLines]
  exact if_neg (by decide)

theorem naive_line_ok {l : Bytes} (hl : 10 ∉ l) (h : c.Accepts J m l) (r : Bytes) :
    c.naive J m (l ++ 10 :: r) = (c.deliver J m (trimCr l)).1.naive J m r := by
  unfold naive
  rw [lines_line hl, hearLines_cons_ok h]

theorem naive_line_rejected {l : Bytes} (hl : 10 ∉ l) (h : ¬c.Accepts J m l) (r : Bytes) :
    c.naive J m (l ++ 10 :: r) = c.deliver J m (trimCr l) := by
  obtain ⟨heq, hbad⟩ := hearLines_cons_rejected (J := J) (m := m) _ h
  have hneg : (c.deliver J m (trimCr l)).2 < 0 := by
    rw [hbad]
    decide
  unfold naive
  rw [lines_line hl, heq]
  exact if_pos hneg

/-- The first line leaves the inbox with what it does. -/
theorem found_eq (hkeep : c.flags.discarding = false) {l r : Bytes} (hinbox : c.inbox = l ++ 10 :: r) :
    c.found J m l.length =
      ((c.deliver J m (trimCr l)).1.withInput r 0 c.present.heard,
        (c.deliver J m (trimCr l)).2) := by
  have hstart : ({ c with scanCursor := 0 } : Child) = c.withInput c.inbox 0 c.present.heard := rfl
  have hline : c.inbox.take l.length = l := by
    rw [hinbox, List.take_left]
  have hrest : c.inbox.drop (l.length + 1) = r := by
    rw [hinbox, ← List.drop_drop, List.drop_left]
    rfl
  unfold found
  rw [if_neg (by rw [hkeep]; decide), hstart, deliver_withInput, hline]
  dsimp only [consume, withInput]
  rw [hrest]

/-- Framing an inbox is taking it line by line. -/
theorem frameLines_eq {s : Bytes} (hkeep : c.flags.discarding = false) (hinbox : c.inbox = s)
    (hscan : 10 ∉ s.take c.scanFrom) {turns : ℕ} (hturns : s.length < turns) :
    (c.frameLines J m turns).2 = (c.naive J m s).2 ∧
      (c.frameLines J m turns).1.bare = (c.naive J m s).1.bare ∧
      ((c.naive J m s).2 = Status.ok → (c.frameLines J m turns).1 =
        (c.naive J m s).1.withInput (lines 10 s).2 (lines 10 s).2.length c.present.heard) := by
  obtain ⟨turns, rfl⟩ : ∃ n, turns = n + 1 := ⟨turns - 1, by omega⟩
  induction s using lines_induction (10 : UInt8) generalizing c turns with
  | htail s hs =>
    rw [naive_of_notMem hs, lines_of_notMem hs, frameLines, hinbox]
    by_cases hnil : s = []
    · subst hnil
      have htail : c.hearTail [] = (c, Status.ok) := if_neg (Nat.not_lt_zero _)
      rw [if_pos rfl, htail]
      exact ⟨rfl, rfl, fun _ => rfl⟩
    · rw [if_neg hnil, lineFeed_of_notMem hs]
      dsimp only
      unfold incomplete hearTail
      rw [hinbox]
      by_cases hover : c.cfg.frameMax < s.length
      · rw [if_pos ⟨c.frameMax_ne, hover⟩, if_pos hover]
        exact ⟨rfl, rfl, fun hok => absurd hok (by decide : ¬Status.mcpProtocol = Status.ok)⟩
      · rw [if_neg (fun h => hover h.2), if_neg hover]
        exact ⟨rfl, rfl, fun _ => rfl⟩
  | hline l r hl ih =>
    have hfrom : c.scanFrom ≤ l.length := by
      by_contra hbeyond
      apply hscan
      rw [List.mem_iff_getElem]
      refine ⟨l.length, ?_, ?_⟩
      · rw [List.length_take, List.length_append, List.length_cons]
        omega
      · rw [List.getElem_take, List.getElem_append_right (le_refl _)]
        simp
    have hne : ¬l ++ 10 :: r = [] := by simp
    rw [frameLines, hinbox, if_neg hne, lineFeed_line hl hfrom]
    dsimp only
    rw [found_eq hkeep hinbox]
    dsimp only
    by_cases haccepts : c.Accepts J m l
    · obtain ⟨hkept, -, ⟨hok, -⟩ | ⟨-, hnot⟩⟩ := deliver_spec (J := J) (m := m) c (trimCr l)
      · rw [hok, if_neg (by decide), naive_line_ok hl haccepts, lines_line hl]
        have hlength : (l ++ 10 :: r).length = l.length + (r.length + 1) := by
          rw [List.length_append, List.length_cons]
        obtain ⟨turns, rfl⟩ : ∃ n, turns = n + 1 := ⟨turns - 1, by omega⟩
        have hrest := ih (c := (c.deliver J m (trimCr l)).1.withInput r 0 c.present.heard)
          (hkept.flags_eq ▸ hkeep) rfl (by simp [scanFrom, withInput]) turns (by omega)
        rw [naive_withInput] at hrest
        exact hrest
      · exact absurd haccepts hnot
    · obtain ⟨-, hbad⟩ := hearLines_cons_rejected [] haccepts
      rw [naive_line_rejected hl haccepts, if_pos (by rw [hbad]; decide)]
      refine ⟨rfl, rfl, fun hok => ?_⟩
      rw [hbad] at hok
      exact absurd hok (by decide)

/-- Between two reads: what waits has no line feed, was scanned, and is within the ceiling. -/
structure Pending (c : Child) (p : Bytes) : Prop where
  isOpen : c.stdoutFd = true
  keeping : c.flags.discarding = false
  inbox_eq : c.inbox = p
  cursor_eq : c.scanCursor = p.length
  notMem : 10 ∉ p
  le_frameMax : p.length ≤ c.cfg.frameMax

theorem Listening.pending (h : c.Listening) : c.Pending [] :=
  ⟨h.isOpen, h.keeping, h.inbox_eq, h.cursor_eq, nofun, Nat.zero_le _⟩

variable (hgranted : ∀ n ≤ inboxMax, m.alloc n = true)
include hgranted

/-- One read takes the stream that much further. -/
theorem readStdout_eq {p d : Bytes} (h : c.Pending p) (hd : d.length ≤ readChunk) :
    (c.readStdout J m (.got d)).2 = (c.naive J m (p ++ d)).2 ∧
      (c.readStdout J m (.got d)).1.bare = (c.naive J m (p ++ d)).1.bare ∧
      ((c.naive J m (p ++ d)).2 = Status.ok →
        ∃ heard, (c.readStdout J m (.got d)).1 = (c.naive J m (p ++ d)).1.withInput
            (lines 10 (p ++ d)).2 (lines 10 (p ++ d)).2.length heard ∧
          (c.readStdout J m (.got d)).1.Pending (lines 10 (p ++ d)).2) := by
  have hroom : (c.hear d).inbox.length + d.length ≤ inboxMax := by
    change c.inbox.length + d.length ≤ frameHardMax + readChunk
    have hp := h.le_frameMax
    have hmax := c.cfg.frameMax_le
    rw [h.inbox_eq]
    omega
  have hinbox : (c.hear d).inbox = p := h.inbox_eq
  have hread : c.readStdout J m (.got d) =
      (c.withInput (p ++ d) p.length (c.present.heard ++ d)).frameLines J m
        (p.length + d.length + 1) := by
    unfold readStdout
    rw [if_neg (by rw [h.isOpen]; decide)]
    dsimp only
    rw [if_neg (not_lt.mpr hroom), if_neg (by rw [hgranted _ hroom]; decide), hinbox]
    have hcursor : c.scanCursor = p.length := h.cursor_eq
    unfold hear withInput
    rw [← hcursor]
  have hscan : 10 ∉ (p ++ d).take
      (c.withInput (p ++ d) p.length (c.present.heard ++ d)).scanFrom := by
    have hfrom : (c.withInput (p ++ d) p.length (c.present.heard ++ d)).scanFrom = p.length :=
      if_pos (by simp [withInput])
    rw [hfrom, List.take_left]
    exact h.notMem
  obtain ⟨hstatus, hbare, hok⟩ := frameLines_eq (J := J) (m := m)
    (c := c.withInput (p ++ d) p.length (c.present.heard ++ d)) h.keeping rfl hscan
    (show (p ++ d).length < p.length + d.length + 1 by
      rw [List.length_append]
      omega)
  rw [← hread, naive_withInput] at hstatus hbare hok
  refine ⟨hstatus, hbare, fun hnaive => ⟨_, hok hnaive, ?_⟩⟩
  obtain ⟨hkept, ⟨-, -, htail⟩ | ⟨hbad, -⟩ | ⟨heq, -⟩⟩ := naive_spec (J := J) (m := m) c (p ++ d)
  · rw [hok hnaive]
    refine ⟨hkept.stdoutFd_eq.trans h.isOpen, hkept.flags_eq ▸ h.keeping, rfl, rfl,
      tail_notMem 10 _, ?_⟩
    change _ ≤ (c.naive J m (p ++ d)).1.cfg.frameMax
    rw [hkept.cfg_eq]
    exact htail
  · rw [hbad] at hnaive
    exact absurd hnaive (by decide)
  · rw [heq] at hnaive
    exact absurd hnaive (by decide : ¬Status.mcpProtocol = Status.ok)

/-- Every cutting of a stream that nothing spoils gives its lines. -/
theorem readAll_eq {p : Bytes} (h : c.Pending p) {ds : List Bytes}
    (hds : ∀ d ∈ ds, d.length ≤ readChunk) (hclean : ¬c.Spoilt J m (p ++ ds.flatten)) :
    outcome (c.readAll J m ds) = outcome (c.naive J m (p ++ ds.flatten)) := by
  induction ds generalizing c p with
  | nil =>
    rw [List.flatten_nil, List.append_nil, naive_of_notMem h.notMem, hearTail,
      if_neg (not_lt.mpr h.le_frameMax)]
    rfl
  | cons d ds ih =>
    obtain ⟨hstatus, hbare, hok⟩ := readStdout_eq (J := J) hgranted h (hds d List.mem_cons_self)
    rw [List.flatten_cons, ← List.append_assoc] at hclean ⊢
    rw [readAll]
    dsimp only
    by_cases hneg : (c.naive J m (p ++ d)).2 < 0
    · rw [if_pos (by rw [hstatus]; exact hneg), naive_append_failed hneg _ hclean]
      exact Prod.ext hbare hstatus
    · have hnaive : (c.naive J m (p ++ d)).2 = Status.ok := by
        obtain ⟨-, ⟨heq, -⟩ | ⟨hbad, -⟩ | ⟨heq, -⟩⟩ := naive_spec (J := J) (m := m) c (p ++ d)
        · rw [heq]
        · rw [hbad] at hneg
          exact absurd (by decide) hneg
        · rw [heq] at hneg
          exact absurd (by decide : Status.mcpProtocol < 0) hneg
      obtain ⟨heard, hnext, hpending⟩ := hok hnaive
      have hrest := ih hpending (fun e he => hds e (List.mem_cons_of_mem d he)) (by
        rw [hnext]
        exact fun hspoilt => hclean (Spoilt.of_rest hnaive hspoilt))
      rw [if_neg (by rw [hstatus]; exact hneg), hrest, naive_append_ok hnaive, hnext,
        naive_withInput]
      rfl

end Framer

/-! ## What a spoilt stream does -/

section Spoilt

variable {J m} {c : Child} {s : Bytes}

instance (c : Child) (l : Bytes) : Decidable (c.Spoils l) :=
  inferInstanceAs (Decidable (_ ∧ _))

/-- The first line that spoils a stream. -/
theorem Spoilt.first (h : c.Spoilt J m s) :
    ∃ pre l post, (lines 10 s).1 = pre ++ l :: post ∧ (∀ k ∈ pre, c.Accepts J m k) ∧
      (∀ k ∈ pre, ¬c.Spoils k) ∧ c.Spoils l := by
  obtain ⟨pre, l, post, hlines, haccepts, hspoils⟩ := h
  have hfound : ((pre ++ [l]).find? fun k => decide (c.Spoils k)).isSome = true := by
    rw [List.find?_isSome]
    exact ⟨l, by simp, decide_eq_true hspoils⟩
  obtain ⟨k, hk⟩ := Option.isSome_iff_exists.mp hfound
  obtain ⟨hspoils', as, bs, hsplit, hclean⟩ := List.find?_eq_some_iff_append.mp hk
  have hpre : as <+: pre := by
    have has : as <+: pre ++ [l] := by
      rw [hsplit]
      exact List.prefix_append _ _
    apply List.prefix_of_prefix_length_le has
    · exact List.prefix_append _ _
    · have hlength := congrArg List.length hsplit
      simp only [List.length_append, List.length_cons, List.length_nil] at hlength
      omega
  refine ⟨as, k, bs ++ post, ?_, ?_, ?_, of_decide_eq_true hspoils'⟩
  · calc (lines 10 s).1 = (pre ++ [l]) ++ post := by rw [hlines]; simp
      _ = (as ++ k :: bs) ++ post := by rw [hsplit]
      _ = as ++ k :: (bs ++ post) := by simp
  · intro a ha
    exact haccepts a (hpre.subset ha)
  · intro a ha hspoils''
    have := hclean a ha
    simp [hspoils''] at this

theorem readAll_append_failed {ds es : List Bytes} (h : (c.readAll J m ds).2 < 0) :
    c.readAll J m (ds ++ es) = c.readAll J m ds := by
  induction ds generalizing c with
  | nil => exact absurd h (by decide : ¬Status.ok < 0)
  | cons d ds ih =>
    rw [List.cons_append, readAll, readAll]
    rw [readAll] at h
    dsimp only at h ⊢
    split_ifs with hneg
    · rfl
    · rw [if_neg hneg] at h
      exact ih h

/-- The naive split delivers its lines without their carriage returns. -/
theorem naive_lines (c : Child) (s : Bytes) :
    ∃ ks, ks <+: (lines 10 s).1.map trimCr ∧
      (c.naive J m s).1.present.lines = c.present.lines ++ ks ∧
      ((c.naive J m s).2 = Status.ok → ks = (lines 10 s).1.map trimCr) := by
  obtain ⟨ks, hpre, hlines, hall⟩ := hearLines_lines (J := J) (m := m) c (lines 10 s).1
  obtain ⟨-, ⟨heq, haccepts, -⟩ | ⟨hbad, heq, -⟩ | ⟨heq, -⟩⟩ :=
    naive_spec (J := J) (m := m) c s
  · obtain ⟨-, -, ⟨hok, -⟩ | ⟨-, hsome⟩⟩ := hearLines_spec (J := J) (m := m) c (lines 10 s).1
    · rw [heq]
      exact ⟨ks, hpre, hlines, fun _ => hall hok⟩
    · exact absurd haccepts hsome
  · rw [heq]
    exact ⟨ks, hpre, hlines, hall⟩
  · rw [heq]
    exact ⟨ks, hpre, hlines,
      fun hok => absurd hok (by decide : ¬Status.mcpProtocol = Status.ok)⟩

theorem naive_framesIn (c : Child) (s : Bytes) :
    (c.naive J m s).1.framesIn = (c.hearLines J m (lines 10 s).1).1.framesIn := by
  obtain ⟨-, ⟨heq, -⟩ | ⟨-, heq, -⟩ | ⟨heq, -⟩⟩ := naive_spec (J := J) (m := m) c s
  · rw [heq]
  · rw [heq]
  · rw [heq]
    rfl

/-- A line that spoils is delivered when it is read whole. -/
theorem framesIn_of_spoils {l : Bytes} (h : c.Spoils l) (ls : List Bytes) :
    c.framesIn < (c.hearLines J m (l :: ls)).1.framesIn := by
  have hlength : (trimCr l).length = c.cfg.frameMax := by
    unfold trimCr
    rw [if_pos h.2, List.length_dropLast, h.1]
    rfl
  have hcount : (c.deliver J m (trimCr l)).1.framesIn = c.framesIn + 1 := by
    rw [deliver_of_le (le_of_eq hlength)]
    exact (onMessage_spec (c.handOver (trimCr l)) (trimCr l)).2.1
  by_cases haccepts : c.Accepts J m l
  · rw [hearLines_cons_ok haccepts]
    have hmono := (hearLines_spec (J := J) (m := m) (c.deliver J m (trimCr l)).1 ls).2.1
    omega
  · rw [(hearLines_cons_rejected _ haccepts).1]
    omega

/-- Reads of one byte each. -/
def bytewise (s : Bytes) : List Bytes := s.map fun b => [b]

theorem reads_bytewise (s : Bytes) : Reads s (bytewise s) := by
  constructor
  · unfold bytewise
    induction s with
    | nil => rfl
    | cons b s ih => rw [List.map_cons, List.flatten_cons, ih]; rfl
  · intro d hd
    obtain ⟨b, -, rfl⟩ := List.mem_map.mp hd
    exact ⟨List.cons_ne_nil b [], (by decide : 1 ≤ readChunk)⟩

/-- Read byte by byte, a spoilt stream fails where its lines would go on. -/
theorem bytewise_ne_of_spoilt (hlisten : c.Listening) (hgranted : ∀ n ≤ inboxMax, m.alloc n = true)
    (h : c.Spoilt J m s) :
    outcome (c.readAll J m (bytewise s)) ≠ outcome (c.naive J m s) := by
  obtain ⟨pre, l, post, hlines, haccepts, hclean, hspoils⟩ := h.first
  -- The stream up to the carriage return of the first line that spoils it.
  let front : Bytes := (pre.map (· ++ [10])).flatten ++ l
  have hnotMem : ∀ k ∈ pre ++ l :: post, 10 ∉ k := by
    rw [← hlines]
    exact line_notMem 10 s
  have hfront : lines 10 front = (pre, l) :=
    lines_of_flatten (fun k hk => hnotMem k (List.mem_append_left _ hk))
      (hnotMem l (List.mem_append_right _ List.mem_cons_self))
  obtain ⟨rest, hrest⟩ : ∃ rest, s = front ++ rest := by
    have hwhole := lines_flatten 10 s
    rw [hlines, List.map_append, List.flatten_append, List.map_cons, List.flatten_cons] at hwhole
    refine ⟨[10] ++ ((post.map (· ++ [10])).flatten ++ (lines 10 s).2), ?_⟩
    conv_lhs => rw [← hwhole]
    simp [front]
  have hfresh : ¬c.Spoilt J m ([] ++ (bytewise front).flatten) := by
    rw [(reads_bytewise front).1, List.nil_append]
    rintro ⟨as, k, bs, hsplit, -, hk⟩
    rw [hfront] at hsplit
    have hmem : k ∈ pre := by
      rw [show pre = as ++ k :: bs from hsplit]
      exact List.mem_append_right as List.mem_cons_self
    exact hclean k hmem hk
  have hread := readAll_eq (J := J) hgranted hlisten.pending
    (fun d hd => ((reads_bytewise front).2 d hd).2) hfresh
  rw [(reads_bytewise front).1, List.nil_append] at hread
  have hstop : c.naive J m front = ((c.hearLines J m pre).1.overlong, Status.mcpProtocol) := by
    obtain ⟨-, ⟨-, -, hshort⟩ | ⟨-, -, hsome⟩ | ⟨heq, -⟩⟩ :=
      naive_spec (J := J) (m := m) c front
    · rw [hfront, hspoils.1] at hshort
      omega
    · rw [hfront] at hsome
      exact absurd haccepts hsome
    · rw [heq, hfront]
  have hneg : (c.readAll J m (bytewise front)).2 < 0 := by
    rw [(outcome_inj hread).1, hstop]
    exact (by decide : Status.mcpProtocol < 0)
  have hwhole : c.readAll J m (bytewise s) = c.readAll J m (bytewise front) := by
    rw [hrest]
    unfold bytewise
    rw [List.map_append]
    exact readAll_append_failed hneg
  intro hsame
  have hfew : (c.readAll J m (bytewise s)).1.framesIn = (c.hearLines J m pre).1.framesIn := by
    rw [hwhole, (outcome_inj hread).2.1, hstop]
    rfl
  have hmore : (c.hearLines J m pre).1.framesIn < (c.naive J m s).1.framesIn := by
    obtain ⟨hkept, -⟩ := hearLines_spec (J := J) (m := m) c pre
    rw [naive_framesIn, hlines, hearLines_append haccepts]
    exact framesIn_of_spoils ((hkept.spoils l).mpr hspoils) post
  have hcount := (outcome_inj hsame).2.1
  omega

/-- All ways to read a stream agree with each other and with its split at the line feeds, and
deliver its lines without their carriage returns, exactly when no line that is reached is over
the ceiling by its carriage return only. -/
theorem framing_independent_iff (hlisten : c.Listening)
    (hgranted : ∀ n ≤ inboxMax, m.alloc n = true) (s : Bytes) :
    (∀ ds es, Reads s ds → Reads s es →
        outcome (c.readAll J m ds) = outcome (c.readAll J m es) ∧
          outcome (c.readAll J m ds) = outcome (c.naive J m s) ∧
          ∃ ks, ks <+: (lines 10 s).1.map trimCr ∧
            (c.readAll J m ds).1.present.lines = c.present.lines ++ ks ∧
            ((c.readAll J m ds).2 = Status.ok → ks = (lines 10 s).1.map trimCr)) ↔
      ¬c.Spoilt J m s := by
  constructor
  · intro hall hspoilt
    exact bytewise_ne_of_spoilt hlisten hgranted hspoilt
      (hall _ _ (reads_bytewise s) (reads_bytewise s)).2.1
  · intro hclean ds es hds hes
    have hone : ∀ fs, Reads s fs → outcome (c.readAll J m fs) = outcome (c.naive J m s) := by
      intro fs hfs
      have hread := readAll_eq (J := J) hgranted hlisten.pending
        (fun d hd => (hfs.2 d hd).2) (by rw [hfs.1]; exact hclean)
      rw [hfs.1] at hread
      exact hread
    obtain ⟨hstatus, -, hlines⟩ := outcome_inj (hone ds hds)
    refine ⟨(hone ds hds).trans (hone es hes).symm, hone ds hds, ?_⟩
    rw [hstatus, hlines]
    exact naive_lines c s

/-- A server that may send lines of 1024 bytes. -/
def smallServer : ServerConfig where
  enabled := true
  restart := ⟨.never, 0, 1000, 0, 0, by decide, by decide, by decide, by decide, by decide, by decide⟩
  legacy := false
  startupTimeoutMs := 1000
  requestTimeoutMs := 1000
  shutdownGraceMs := 1000
  frameMax := 1024
  le_frameMax := le_refl 1024
  frameMax_le := by decide

/-- The server when its pipes are new. -/
def started : Child := { Child.init smallServer with stdoutFd := true }

theorem listening_started : started.Listening := ⟨rfl, rfl, rfl, rfl⟩

/-- A library that knows one notification. -/
def oneMessage : JsonLibrary :=
  ⟨fun _ _ => some (.object [("jsonrpc", .string "2.0"), ("method", .string "m")]), fun _ => none⟩

def granting : Memory := ⟨fun _ => true, fun _ => true, fun _ => true⟩

/-- That notification, blanks behind it up to 1024 bytes. -/
def paddedNotification : Bytes :=
  Http.ascii "\x7b\"jsonrpc\":\"2.0\",\"method\":\"m\"\x7d" ++ List.replicate 994 32

/-- Ended by a carriage return and a line feed, it is delivered when one read has it all, and
too long when a read ends at the carriage return. -/
theorem framing_differs :
    paddedNotification.length = 1024 ∧
      Reads (paddedNotification ++ [13, 10]) [paddedNotification ++ [13, 10]] ∧
      Reads (paddedNotification ++ [13, 10]) [paddedNotification ++ [13], [10]] ∧
      (started.readAll oneMessage granting [paddedNotification ++ [13, 10]]).2 = Status.ok ∧
      (started.readAll oneMessage granting
        [paddedNotification ++ [13, 10]]).1.present.lines = [paddedNotification] ∧
      (started.readAll oneMessage granting [paddedNotification ++ [13], [10]]).2 =
        Status.mcpProtocol ∧
      (started.readAll oneMessage granting [paddedNotification ++ [13], [10]]).1.present.lines =
        [] := by
  refine ⟨by decide +kernel, ⟨by decide +kernel, by decide +kernel⟩,
    ⟨by decide +kernel, by decide +kernel⟩, by decide +kernel, by decide +kernel,
    by decide +kernel, by decide +kernel⟩

theorem framing_independent_short :
    outcome (started.readAll oneMessage granting [[120], [13], [10]]) =
      outcome (started.naive oneMessage granting [120, 13, 10]) := by
  have hreads : Reads [120, 13, 10] [[120], [13], [10]] := ⟨rfl, by decide⟩
  have hclean : ¬started.Spoilt oneMessage granting [120, 13, 10] := by
    rintro ⟨pre, l, post, hlines, -, hlength, -⟩
    have hl : l ∈ [[120, 13]] := by
      have hall : (lines 10 ([120, 13, 10] : Bytes)).1 = [[120, 13]] := by decide
      rw [← hall, hlines]
      exact List.mem_append_right pre List.mem_cons_self
    rw [List.mem_singleton.mp hl] at hlength
    exact absurd hlength (by decide)
  exact ((framing_independent_iff listening_started (fun _ _ => rfl) [120, 13, 10]).mpr hclean
    _ _ hreads hreads).2.1

end Spoilt

end Child
end AsmFlow.Mcp
