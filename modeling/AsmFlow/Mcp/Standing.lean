import AsmFlow.Mcp.Failure

/-!
# What talking to a process leaves as it is

Sending, receiving and expiring calls leave alone what the supervision of the process
reads; a failure is one of a few things, and so is the restart it schedules.
-/

namespace AsmFlow.Mcp

/-- Only the mode keeps the budget from being asked. -/
theorem RestartPolicy.schedule_ne_leave {p : RestartPolicy} (h : p.mode ≠ .never) (b : Budget)
    (now stale : ℕ) : p.schedule b now stale ≠ .leave := by
  unfold RestartPolicy.schedule
  rw [if_neg h]
  cases p.cutoff now with
  | none => exact Verdict.noConfusion
  | some cutoff =>
    dsimp only
    split_ifs <;> exact Verdict.noConfusion

/-- What the supervision of a process reads. -/
structure Standing where
  cfg : ServerConfig
  state : State
  flags : Flags
  pid : ℕ
  pgid : ℕ
  stdoutFd : Bool
  budget : Budget
  nextStart : ℕ
  starts : ℕ
  lastExit : ℕ
  deeds : List Deed

namespace Child

/-- A line over the ceiling is no matter of supervision. -/
def standing (c : Child) : Standing where
  cfg := c.cfg
  state := c.state
  flags := { c.flags with discarding := false }
  pid := c.pid
  pgid := c.pgid
  stdoutFd := c.stdoutFd
  budget := c.budget
  nextStart := c.nextStart
  starts := c.starts
  lastExit := c.lastExit
  deeds := c.deeds

/-- The supervision reads the same, maybe later. -/
structure Keeps (c d : Child) : Prop where
  standing : d.standing = c.standing
  clock : c.clock ≤ maxU64 → c.clock ≤ d.clock ∧ d.clock ≤ maxU64

namespace Keeps

theorem of_eq {c d : Child} (h : d.standing = c.standing) (hclock : d.clock = c.clock) :
    c.Keeps d :=
  ⟨h, fun hle => ⟨hclock.ge, hclock.le.trans hle⟩⟩

theorem refl (c : Child) : c.Keeps c := of_eq rfl rfl

theorem trans {c d e : Child} (h : c.Keeps d) (h' : d.Keeps e) : c.Keeps e where
  standing := h'.standing.trans h.standing
  clock := by
    intro hle
    obtain ⟨hcd, hd⟩ := h.clock hle
    obtain ⟨hde, he⟩ := h'.clock hd
    exact ⟨hcd.trans hde, he⟩

variable {c d : Child} (h : c.Keeps d)

include h

theorem state : d.state = c.state := congrArg Standing.state h.standing

theorem toolsCurrent : d.flags.toolsCurrent = c.flags.toolsCurrent :=
  congrArg (fun x => x.flags.toolsCurrent) h.standing

end Keeps

/-- Calls of a kind are only those there were. -/
def OnlyOld (p : CallKind → Prop) (c d : Child) : Prop :=
  ∀ i k, d.calls i = some k → p k.kind → ∃ k', c.calls i = some k' ∧ k'.kind = k.kind

namespace OnlyOld

variable {p q : CallKind → Prop} {c d e : Child}

theorem of_eq (h : d.calls = c.calls) : OnlyOld p c d := by
  intro i k hk _
  rw [h] at hk
  exact ⟨k, hk, rfl⟩

theorem refl (c : Child) : OnlyOld p c c := of_eq rfl

theorem trans (h : OnlyOld p c d) (h' : OnlyOld p d e) : OnlyOld p c e := by
  intro i k hk hp
  obtain ⟨k', hk', hkind⟩ := h' i k hk hp
  obtain ⟨k'', hk'', hkind'⟩ := h i k' hk' (by rw [hkind]; exact hp)
  exact ⟨k'', hk'', hkind'.trans hkind⟩

theorem mono (h : OnlyOld p c d) (hqp : ∀ kind, q kind → p kind) : OnlyOld q c d :=
  fun i k hk hq => h i k hk (hqp k.kind hq)

theorem of_none (h : ∀ i, d.calls i = none) : OnlyOld p c d := by
  intro i k hk _
  rw [h i] at hk
  cases hk

end OnlyOld

/-- Nothing but talk: no call is new, and the supervision reads the same. -/
structure Talks (c d : Child) : Prop where
  keeps : c.Keeps d
  old : OnlyOld (fun _ => True) c d

namespace Talks

variable {c d e : Child}

theorem of_eq (h : d.standing = c.standing) (hclock : d.clock = c.clock)
    (hcalls : d.calls = c.calls) : c.Talks d :=
  ⟨.of_eq h hclock, .of_eq hcalls⟩

theorem refl (c : Child) : c.Talks c := of_eq rfl rfl rfl

theorem trans (h : c.Talks d) (h' : d.Talks e) : c.Talks e :=
  ⟨h.keeps.trans h'.keeps, h.old.trans h'.old⟩

end Talks

variable (c : Child)

theorem talks_release (i : Fin maxCalls) : c.Talks (c.release i) := by
  refine ⟨.of_eq rfl rfl, ?_⟩
  intro j k hk _
  unfold release setCall at hk
  by_cases hj : j = i
  · rw [hj] at hk
    simp at hk
  · exact ⟨k, by simpa [hj] using hk, rfl⟩

/-- A call that is changed keeps its kind. -/
theorem talks_setCall {i : Fin maxCalls} {k k' : Call} (h : c.calls i = some k)
    (hkind : k'.kind = k.kind) : c.Talks (c.setCall i (some k')) := by
  refine ⟨.of_eq rfl rfl, ?_⟩
  intro j k'' hk'' _
  unfold setCall at hk''
  by_cases hj : j = i
  · rw [hj] at hk'' ⊢
    simp only [Function.update_self, Option.some.injEq] at hk''
    exact ⟨k, h, by rw [← hk'', hkind]⟩
  · exact ⟨k'', by simpa [hj] using hk'', rfl⟩

theorem talks_complete {i : Fin maxCalls} {k : Call} (h : c.calls i = some k) (status : Status)
    (result : Bytes) (errorCode : ℤ) (cause : Cause) :
    c.Talks (c.complete i k status result errorCode cause) := by
  unfold complete
  have hcall : c.Talks (c.setCall i (some { k with done := true, status, result, errorCode })) :=
    c.talks_setCall h rfl
  exact hcall.trans (.of_eq rfl rfl rfl)

theorem keeps_read (elapsed : ℕ) : c.Keeps (c.read elapsed) :=
  ⟨rfl, fun hle => ⟨le_min (Nat.le_add_right _ _) hle, min_le_right _ _⟩⟩

theorem findWhere_some {p : Call → Bool} {i : Fin maxCalls} {k : Call}
    (h : c.findWhere p = some (i, k)) : c.calls i = some k ∧ p k = true := by
  obtain ⟨j, -, hj⟩ := List.exists_of_findSome?_eq_some h
  cases hcall : c.calls j with
  | none =>
    rw [hcall] at hj
    cases hj
  | some k' =>
    rw [hcall, Option.bind_some] at hj
    split_ifs at hj with hp
    obtain ⟨rfl, rfl⟩ := Prod.mk.inj (Option.some.inj hj)
    exact ⟨hcall, hp⟩

theorem findCall_some {kind : CallKind} {i : Fin maxCalls} {k : Call}
    (h : c.findCall kind = some (i, k)) : c.calls i = some k ∧ k.kind = kind := by
  obtain ⟨hcall, hkind⟩ := c.findWhere_some h
  exact ⟨hcall, by simpa using hkind⟩

theorem talks_writeStdin (w : WriteAnswer) : c.Talks (c.writeStdin w).1 := by
  unfold writeStdin
  split_ifs
  · exact .refl c
  · exact .refl c
  · cases w with
    | drained => exact .of_eq rfl rfl rfl
    | blocked => exact .refl c
    | failed f => exact .refl c

/-- Sending leaves the calls as they are. -/
theorem send_spec (f : Frame) (a : SendAnswer) :
    c.Keeps (c.send f a).1 ∧ (c.send f a).1.calls = c.calls := by
  have hwrite (d : Child) (w : WriteAnswer) : d.Keeps (d.writeStdin w).1 ∧
      (d.writeStdin w).1.calls = d.calls := by
    refine ⟨(d.talks_writeStdin w).keeps, ?_⟩
    unfold writeStdin
    split_ifs
    · rfl
    · rfl
    · cases w <;> rfl
  unfold send
  split_ifs
  · exact ⟨.refl c, rfl⟩
  · cases a with
    | refused e => exact ⟨.refl c, rfl⟩
    | queued w =>
      obtain ⟨hkeeps, hcalls⟩ := hwrite (c.enqueue f) w
      exact ⟨(Keeps.of_eq rfl rfl : c.Keeps (c.enqueue f)).trans hkeeps, hcalls⟩

theorem talks_send (f : Frame) (a : SendAnswer) : c.Talks (c.send f a).1 :=
  ⟨(c.send_spec f a).1, .of_eq (c.send_spec f a).2⟩

theorem talks_notify (f : Frame) (a : NotifyAnswer) : c.Talks (c.notify f a).1 := by
  unfold notify
  cases a.built with
  | some st => exact .refl c
  | none => exact c.talks_send f a.send

/-- A call that is asked for is there when the request succeeds, and else nothing is. -/
inductive Asked (kind : CallKind) (c : Child) : Child × Option (Fin maxCalls) → Prop
  | refused {d : Child} (keeps : c.Keeps d) (calls : d.calls = c.calls) : Asked kind c (d, none)
  | sent {d : Child} {i : Fin maxCalls} {k : Call} (keeps : c.Keeps d) (free : c.calls i = none)
      (calls : d.calls = Function.update c.calls i (some k)) (hkind : k.kind = kind) :
      Asked kind c (d, some i)

theorem freeSlot_spec {i : Fin maxCalls} (h : c.freeSlot = some i) : c.calls i = none := by
  unfold freeSlot at h
  have hnone := List.find?_some h
  exact Option.isNone_iff_eq_none.mp hnone

theorem update_back {d : Child} {i : Fin maxCalls} (hfree : c.calls i = none) {k : Call}
    (hcalls : d.calls = Function.update c.calls i (some k)) : (d.release i).calls = c.calls := by
  unfold release setCall
  rw [hcalls, Function.update_idem, ← hfree, Function.update_eq_self]

/-- A slot is given out that was free. -/
theorem callAlloc_spec (kind : CallKind) (deadline : ℕ) (slotOk : Bool) :
    Asked kind c (c.callAlloc kind deadline slotOk) := by
  unfold callAlloc
  cases hfree : c.freeSlot with
  | none => exact .refused (.refl c) rfl
  | some i =>
    dsimp only
    split_ifs
    · exact .sent (.of_eq rfl rfl) (freeSlot_spec c hfree) rfl rfl
    · exact .refused (.refl c) rfl

theorem request_spec (kind : CallKind) (timeoutMs : ℕ) (a : RequestAnswer) :
    Asked kind c (c.request kind timeoutMs a) := by
  have hread := keeps_read c a.elapsed
  unfold request
  dsimp only
  cases requestDeadline (c.read a.elapsed).clock timeoutMs with
  | none => exact .refused hread rfl
  | some deadline =>
    dsimp only
    have halloc := callAlloc_spec (c.read a.elapsed) kind deadline a.slotOk
    generalize (c.read a.elapsed).callAlloc kind deadline a.slotOk = r at halloc
    cases halloc with
    | refused hkeeps hcalls => exact .refused (hread.trans hkeeps) hcalls
    | @sent d i k hkeeps hfree hcalls hkind =>
      have hback (e : Child) : e.Keeps (e.release i) := (e.talks_release i).keeps
      unfold dispatch
      dsimp only
      by_cases hbuilt : a.built = false
      · rw [if_pos hbuilt]
        exact .refused ((hread.trans hkeeps).trans (hback d))
          (update_back (c.read a.elapsed) hfree hcalls)
      · rw [if_neg hbuilt]
        obtain ⟨hsend, hsame⟩ := send_spec d (d.requestFrame kind) a.send
        generalize d.send (d.requestFrame kind) a.send = sent at hsend hsame
        obtain ⟨e, st⟩ := sent
        dsimp only at hsend hsame ⊢
        split_ifs
        · exact .refused (((hread.trans hkeeps).trans hsend).trans (hback e))
            (update_back (c.read a.elapsed) hfree (hsame.trans hcalls))
        · exact .sent ((hread.trans hkeeps).trans hsend) hfree (hsame.trans hcalls) hkind

/-! ## Receiving -/

section Receive

variable (J : JsonLibrary) (m : Memory)

theorem talks_onMessage (line : Bytes) : c.Talks (c.onMessage J m line).1 := by
  unfold onMessage
  cases c.classify J m line with
  | contaminated => exact .of_eq rfl rfl rfl
  | request => exact .of_eq rfl rfl rfl
  | response id payload error =>
    dsimp only
    cases hfind : c.callFind id with
    | none => exact .of_eq rfl rfl rfl
    | some found =>
      obtain ⟨i, k⟩ := found
      dsimp only
      split_ifs
      · exact .of_eq rfl rfl rfl
      · exact c.talks_complete (c.findWhere_some hfind).1 _ _ _ _

theorem talks_deliver (line : Bytes) : c.Talks (c.deliver J m line).1 := by
  unfold deliver
  split_ifs
  · exact .of_eq rfl rfl rfl
  · exact (Talks.of_eq rfl rfl rfl : c.Talks (c.handOver line)).trans
      ((c.handOver line).talks_onMessage J m line)

theorem talks_found (n : ℕ) : c.Talks (c.found J m n).1 := by
  unfold found
  split_ifs
  · exact .of_eq rfl rfl rfl
  · have hrewind : c.Talks { c with scanCursor := 0 } := .of_eq rfl rfl rfl
    have hdeliver := talks_deliver { c with scanCursor := 0 } J m (trimCr (c.inbox.take n))
    dsimp only
    generalize ({ c with scanCursor := 0 } : Child).deliver J m (trimCr (c.inbox.take n)) = r
      at hdeliver
    exact (hrewind.trans hdeliver).trans (.of_eq rfl rfl rfl)

theorem talks_incomplete : c.Talks c.incomplete.1 := by
  unfold incomplete
  split_ifs <;> exact .of_eq rfl rfl rfl

theorem talks_frameLines (turns : ℕ) : c.Talks (c.frameLines J m turns).1 := by
  induction turns generalizing c with
  | zero => exact .refl c
  | succ turns ih =>
    unfold frameLines
    split_ifs
    · exact .of_eq rfl rfl rfl
    · cases lineFeed c.inbox c.scanFrom with
      | none => exact c.talks_incomplete
      | some n =>
        have hfound := c.talks_found J m n
        dsimp only
        split_ifs
        · exact hfound
        · exact hfound.trans (ih _)

theorem talks_readStdout (r : ReadAnswer) : c.Talks (c.readStdout J m r).1 := by
  unfold readStdout
  split_ifs
  · exact .refl c
  · cases r with
    | again => exact .refl c
    | eof => exact .refl c
    | failed f => exact .refl c
    | got d =>
      have hhear : c.Talks (c.hear d) := .of_eq rfl rfl rfl
      dsimp only
      split_ifs
      · exact hhear
      · exact hhear
      · have htake : (c.hear d).Talks { c.hear d with inbox := (c.hear d).inbox ++ d } :=
          .of_eq rfl rfl rfl
        exact (hhear.trans htake).trans (talks_frameLines _ J m _)

end Receive

/-! ## The deadlines -/

theorem talks_emitCancelled (id : ℕ) (a : EmitAnswer) : c.Talks (c.emitCancelled id a).1 := by
  unfold emitCancelled
  cases a.built with
  | some f => exact .refl c
  | none => exact c.talks_send _ a.send

theorem cancelTimedOut_spec (k : Call) (a : EmitAnswer) :
    c.Keeps (c.cancelTimedOut k a).1 ∧ (c.cancelTimedOut k a).1.calls = c.calls := by
  have hemit : c.Keeps (c.emitCancelled k.id a).1 ∧ (c.emitCancelled k.id a).1.calls = c.calls := by
    unfold emitCancelled
    cases a.built with
    | some f => exact ⟨.refl c, rfl⟩
    | none => exact c.send_spec _ a.send
  unfold cancelTimedOut
  cases k.kind with
  | legacyInitialize => exact ⟨.refl c, rfl⟩
  | discover => exact hemit
  | _ =>
    dsimp only
    split_ifs
    · exact ⟨.refl c, rfl⟩
    · exact hemit

theorem talks_expire (now : ℕ) (i : Fin maxCalls) (a : EmitAnswer) :
    c.Talks (c.expire now i a).1 := by
  unfold expire
  cases hcall : c.calls i with
  | none => exact .refl c
  | some k =>
    dsimp only
    by_cases hwaits : k.done ∨ k.deadline = 0 ∨ now < k.deadline
    · rw [if_pos hwaits]
      exact .refl c
    · rw [if_neg hwaits]
      obtain ⟨hkeeps, hsame⟩ := c.cancelTimedOut_spec k a
      have hcall' : (c.cancelTimedOut k a).1.calls i = some k := by rw [hsame, hcall]
      exact (Talks.mk hkeeps (.of_eq hsame)).trans (talks_complete _ hcall' _ _ _ _)

theorem talks_sweepCalls (now : ℕ) (emit : Fin maxCalls → EmitAnswer) :
    c.Talks (c.sweepCalls now emit).1 := by
  unfold sweepCalls
  generalize List.finRange maxCalls = is
  generalize (none : Option Status) = first
  induction is generalizing c first with
  | nil => exact .refl c
  | cons i is ih =>
    rw [List.foldl_cons]
    exact (c.talks_expire now i (emit i)).trans (ih _ _)

end Child
end AsmFlow.Mcp
