import AsmFlow.Library.Transactions
import AsmFlow.Mcp.Rpc
import AsmFlow.Repo.Schema

/-!
# The database handle

`db.asm`. SQLite is an engine with one transaction; what it answers to each call is
an input.
-/

namespace AsmFlow.Repo

open Library

/-- `af_db_status_from_code`, on the codes of a failure. -/
def statusFromCode : ResultCode → Status
  | .busy => Status.dbBusy
  | .locked => Status.dbBusy
  | .readonly => Status.dbReadonly
  | .corrupt => Status.dbSchema
  | .notadb => Status.dbSchema
  | .other => Status.db

/-- The parts of `af_db` that transactions go through, with the engine behind it. -/
structure Handle where
  engine : Engine Db
  inTransaction : Bool
  writesBlocked : Bool

/-- An answer of SQLite. -/
abbrev SqlReply := Reply ResultCode

/-- The engine's outcome as a status. -/
def statusOf : Option ResultCode → Status
  | none => Status.ok
  | some code => statusFromCode code

namespace Handle

/-- A handle that has just been opened. -/
def opened (d : Db) : Handle := ⟨⟨d, none⟩, false, false⟩

/-- A call of SQLite on the content: `af_db_exec`, `af_db_step` on a statement without
rows, and with no effect `af_db_prepare`, `af_db_reset` and the bindings. -/
def ask (h : Handle) (f : Db → Except ResultCode Db) (r : SqlReply) : Handle × Status :=
  match h.engine.exec f r with
  | (engine, error) => ({ h with engine }, statusOf error)

/-- `af_db_begin`. -/
def begin (h : Handle) (r : SqlReply) : Handle × Status :=
  if h.inTransaction then (h, Status.internal)
  else
    match h.engine.begin .other r with
    | (engine, some code) => ({ h with engine }, statusFromCode code)
    | (engine, none) => ({ h with engine, inTransaction := true }, Status.ok)

/-- `af_db_commit`. -/
def commit (h : Handle) (r : SqlReply) : Handle × Status :=
  if h.inTransaction then
    match h.engine.commit .other r with
    | (engine, error) => ({ h with engine, inTransaction := false }, statusOf error)
  else (h, Status.internal)

/-- `af_db_rollback`. -/
def rollback (h : Handle) (r : SqlReply) : Handle × Status :=
  if h.inTransaction then
    match h.engine.rollback .other r with
    | (engine, error) => ({ h with engine, inTransaction := false }, statusOf error)
  else (h, Status.ok)

end Handle

/-- A step of a transaction: a call of SQLite with its effect, or one that does not go
through it. -/
inductive Call
  | sql (effect : Db → Except ResultCode Db)
  | outside (failure : Option Mcp.Fault)

/-- A call of SQLite that does not touch the content. -/
def Call.ready : Call := .sql .ok

/-- Calls in order, up to the first that fails. What is not answered is carried out. -/
def Handle.askAll (h : Handle) : List Call → List SqlReply → Handle × Status
  | [], _ => (h, Status.ok)
  | .outside none :: cs, rs => h.askAll cs rs
  | .outside (some f) :: _, _ => (h, f.val)
  | .sql effect :: cs, rs =>
    match h.ask effect (rs.headD .done) with
    | (h, st) => if st < 0 then (h, st) else h.askAll cs rs.tail

/-- The answers to one transaction: to its `BEGIN`, to the calls in it, and to the
`COMMIT` or `ROLLBACK` at its end. -/
structure Answers where
  first : SqlReply
  calls : List SqlReply
  last : SqlReply

/-- No call fails. -/
def Answers.none : Answers := ⟨.done, [], .done⟩

/-- What `af_repo_sync_config` and `af_migration_run_one` have in common: a transaction
of these calls, rolled back at the first that fails. -/
def Handle.transact (h : Handle) (cs : List Call) (a : Answers) : Handle × Status :=
  match h.begin a.first with
  | (h, st) =>
    if st < 0 then (h, st)
    else
      match h.askAll cs a.calls with
      | (h, st) => if st < 0 then ((h.rollback a.last).1, st) else h.commit a.last

section Statuses

theorem statusFromCode_neg (code : ResultCode) : statusFromCode code < 0 := by
  cases code <;> decide

theorem statusOf_neg_iff (error : Option ResultCode) : statusOf error < 0 ↔ error ≠ none := by
  cases error with
  | none => exact iff_of_false (by decide) (by simp)
  | some code => exact iff_of_true (statusFromCode_neg code) (by simp)

end Statuses

/-- What a call does when it is carried out. -/
def Call.effect : Call → Db → Except ResultCode Db
  | .sql effect => effect
  | .outside none => .ok
  | .outside (some _) => fun _ => .error .other

/-- What the calls make of a content, if all are carried out. -/
def carryOut (cs : List Call) (d : Db) : Except ResultCode Db := cs.foldlM (fun d c => c.effect d) d

/-- No transaction is open, and the handle knows it. -/
structure Handle.Idle (h : Handle) : Prop where
  flag : h.inTransaction = false
  closed : h.engine.working = none

section Blocks

variable {h : Handle} {d : Db}

theorem carryOut_cons (c : Call) (cs : List Call) :
    carryOut (c :: cs) d = (c.effect d).bind (carryOut cs) := List.foldlM_cons

theorem carryOut_append (cs cs' : List Call) :
    carryOut (cs ++ cs') d = (carryOut cs d).bind (carryOut cs') := List.foldlM_append

theorem carryOut_ready (cs : List Call) : carryOut (.ready :: cs) d = carryOut cs d := rfl

theorem carryOut_single (effect : Db → Except ResultCode Db) :
    carryOut [.sql effect] d = effect d := by
  rw [carryOut_cons, Call.effect]
  cases effect d <;> rfl

/-- What each of the calls keeps, all of them keep. -/
theorem carryOut_keeps {P : Db → Prop} {cs : List Call} {d' : Db}
    (hcs : ∀ c ∈ cs, ∀ d d', c.effect d = .ok d' → P d → P d') (hcarry : carryOut cs d = .ok d')
    (hP : P d) : P d' := by
  induction cs generalizing d with
  | nil => rwa [← Except.ok.inj hcarry]
  | cons c cs ih =>
    rw [carryOut_cons] at hcarry
    cases heffect : c.effect d with
    | error code =>
      rw [heffect] at hcarry
      cases hcarry
    | ok d₁ =>
      rw [heffect] at hcarry
      exact ih (fun c hc => hcs c (List.mem_cons_of_mem _ hc)) hcarry
        (hcs c List.mem_cons_self d d₁ heffect hP)

theorem ask_keeps (hopen : h.engine.working = some d) (effect : Db → Except ResultCode Db)
    (r : SqlReply) :
    let x := h.ask effect r
    x.1.inTransaction = h.inTransaction ∧ x.1.writesBlocked = h.writesBlocked ∧
      x.1.engine.committed = h.engine.committed ∧
      (x.2 < 0 ∨ x.2 = Status.ok ∧ ∃ d', effect d = .ok d' ∧ x.1.engine.working = some d') := by
  have hcommitted := Engine.exec_committed (by rw [hopen]; rfl) effect r
  intro x
  refine ⟨rfl, rfl, hcommitted, ?_⟩
  change statusOf (h.engine.exec effect r).2 < 0 ∨ statusOf (h.engine.exec effect r).2 = Status.ok ∧
    ∃ d', effect d = .ok d' ∧ (h.engine.exec effect r).1.working = some d'
  cases r with
  | failed code aborts => exact Or.inl (statusFromCode_neg code)
  | done =>
    have hvisible : h.engine.visible = d := by
      rw [Engine.visible, hopen]
      rfl
    unfold Engine.exec
    rw [hvisible]
    cases heffect : effect d with
    | error code => exact Or.inl (statusFromCode_neg code)
    | ok d' =>
      refine Or.inr ⟨rfl, d', rfl, ?_⟩
      dsimp only
      rw [Engine.write, hopen]

/-- The calls of a transaction touch nothing that is committed, and succeed only when
all of them are carried out. -/
theorem askAll_keeps (hopen : h.engine.working = some d) (cs : List Call) (rs : List SqlReply) :
    let x := h.askAll cs rs
    x.1.inTransaction = h.inTransaction ∧ x.1.writesBlocked = h.writesBlocked ∧
      x.1.engine.committed = h.engine.committed ∧
      (x.2 < 0 ∨ x.2 = Status.ok ∧ ∃ d', carryOut cs d = .ok d' ∧ x.1.engine.working = some d') := by
  induction cs generalizing h d rs with
  | nil => exact ⟨rfl, rfl, rfl, Or.inr ⟨rfl, d, rfl, hopen⟩⟩
  | cons c cs ih =>
    cases c with
    | outside failure =>
      cases failure with
      | none => exact ih hopen rs
      | some f => exact ⟨rfl, rfl, rfl, Or.inl f.property⟩
    | sql effect =>
      obtain ⟨hflag, hblocked, hcommitted, hneg | ⟨hok, d', heffect, hworking⟩⟩ :=
        ask_keeps hopen effect (rs.headD .done)
      · intro x
        have hx : x = h.ask effect (rs.headD .done) := if_pos hneg
        rw [hx]
        exact ⟨hflag, hblocked, hcommitted, Or.inl hneg⟩
      · have hfine : ¬ (h.ask effect (rs.headD .done)).2 < 0 := by
          rw [hok]
          decide
        intro x
        have hx : x = (h.ask effect (rs.headD .done)).1.askAll cs rs.tail := if_neg hfine
        obtain ⟨hflag', hblocked', hcommitted', hend⟩ := ih hworking rs.tail
        rw [hx]
        refine ⟨hflag'.trans hflag, hblocked'.trans hblocked, hcommitted'.trans hcommitted,
          hend.imp_right ?_⟩
        rintro ⟨hok', d'', hcarry, hworking'⟩
        refine ⟨hok', d'', ?_, hworking'⟩
        rw [carryOut_cons, Call.effect, heffect]
        exact hcarry

/-- Outside a transaction every call is on its own: what they all keep is kept. -/
theorem askAll_idle {P : Db → Prop} (hidle : h.Idle) (hP : P h.engine.committed) {cs : List Call}
    (hcs : ∀ c ∈ cs, ∀ d d', c.effect d = .ok d' → P d → P d') (rs : List SqlReply) :
    let x := h.askAll cs rs
    x.1.Idle ∧ x.1.writesBlocked = h.writesBlocked ∧ P x.1.engine.committed := by
  induction cs generalizing h rs with
  | nil => exact ⟨hidle, rfl, hP⟩
  | cons c cs ih =>
    have hrest : ∀ c ∈ cs, ∀ d d', c.effect d = .ok d' → P d → P d' :=
      fun c hc => hcs c (List.mem_cons_of_mem _ hc)
    cases c with
    | outside failure =>
      cases failure with
      | none => exact ih hidle hP hrest rs
      | some f => exact ⟨hidle, rfl, hP⟩
    | sql effect =>
      have hkept : (h.ask effect (rs.headD .done)).1.Idle ∧
          P (h.ask effect (rs.headD .done)).1.engine.committed := by
        obtain ⟨⟨committed, working⟩, flag, blocked⟩ := h
        obtain ⟨hflag, hclosed⟩ := hidle
        obtain rfl : flag = false := hflag
        obtain rfl : working = none := hclosed
        cases rs.headD .done with
        | failed code aborts => cases aborts <;> exact ⟨⟨rfl, rfl⟩, hP⟩
        | done =>
          unfold Handle.ask Engine.exec
          change P committed at hP
          cases heffect : effect committed with
          | error code =>
            dsimp only [Engine.visible, Option.getD_none]
            rw [heffect]
            exact ⟨⟨rfl, rfl⟩, hP⟩
          | ok d =>
            dsimp only [Engine.visible, Option.getD_none]
            rw [heffect]
            exact ⟨⟨rfl, rfl⟩, hcs _ List.mem_cons_self _ _ heffect hP⟩
      have hnext := ih hkept.1 hkept.2 hrest rs.tail
      intro x
      have hx : x = if (h.ask effect (rs.headD .done)).2 < 0 then h.ask effect (rs.headD .done)
          else (h.ask effect (rs.headD .done)).1.askAll cs rs.tail := rfl
      rw [hx]
      split_ifs
      · exact ⟨hkept.1, rfl, hkept.2⟩
      · exact hnext

/-- A transaction on an idle handle leaves it idle, if its end is: with the calls all
carried out, or with what was committed before. -/
theorem transact_spec (hidle : h.Idle) (cs : List Call) {a : Answers} (hends : a.last.Ends) :
    let x := h.transact cs a
    x.1.Idle ∧ x.1.writesBlocked = h.writesBlocked ∧
      (x.2 < 0 ∧ x.1.engine.committed = h.engine.committed ∨
        x.2 = Status.ok ∧ carryOut cs h.engine.committed = .ok x.1.engine.committed) := by
  obtain ⟨⟨committed, working⟩, flag, blocked⟩ := h
  obtain ⟨hflag, hclosed⟩ := hidle
  obtain rfl : flag = false := hflag
  obtain rfl : working = none := hclosed
  cases hfirst : a.first with
  | failed code aborts =>
    have hbegin : Handle.begin ⟨⟨committed, none⟩, false, blocked⟩ a.first =
        (⟨⟨committed, none⟩, false, blocked⟩, statusFromCode code) := by
      rw [hfirst]
      cases aborts <;> rfl
    intro x
    have hx : x = (⟨⟨committed, none⟩, false, blocked⟩, statusFromCode code) := by
      unfold x Handle.transact
      rw [hbegin]
      exact if_pos (statusFromCode_neg code)
    rw [hx]
    exact ⟨⟨rfl, rfl⟩, rfl, Or.inl ⟨statusFromCode_neg code, rfl⟩⟩
  | done =>
    have hbegin : Handle.begin ⟨⟨committed, none⟩, false, blocked⟩ a.first =
        (⟨⟨committed, some committed⟩, true, blocked⟩, Status.ok) := by
      rw [hfirst]
      rfl
    obtain ⟨hflag, hblocked, hcommitted, hend⟩ :=
      askAll_keeps (h := ⟨⟨committed, some committed⟩, true, blocked⟩) rfl cs a.calls
    intro x
    have hx : x =
        if (Handle.askAll ⟨⟨committed, some committed⟩, true, blocked⟩ cs a.calls).2 < 0 then
          (((Handle.askAll ⟨⟨committed, some committed⟩, true, blocked⟩ cs a.calls).1.rollback
            a.last).1, (Handle.askAll ⟨⟨committed, some committed⟩, true, blocked⟩ cs a.calls).2)
        else
          (Handle.askAll ⟨⟨committed, some committed⟩, true, blocked⟩ cs a.calls).1.commit
            a.last := by
      unfold x Handle.transact
      rw [hbegin]
      exact if_neg (by decide : ¬ Status.ok < 0)
    rw [hx]
    generalize Handle.askAll ⟨⟨committed, some committed⟩, true, blocked⟩ cs a.calls = y at *
    rcases hend with hneg | ⟨hok, d', hcarry, hworking⟩
    · rw [if_pos hneg]
      have hback : y.1.rollback a.last = (⟨y.1.engine.discard, false, y.1.writesBlocked⟩,
          statusOf (y.1.engine.rollback .other a.last).2) := by
        unfold Handle.rollback
        rw [if_pos hflag, ← Engine.rollback_closes ResultCode.other hends]
      rw [hback]
      exact ⟨⟨rfl, rfl⟩, hblocked, Or.inl ⟨hneg, hcommitted⟩⟩
    · obtain ⟨hclosed, hdone, hfailed⟩ :=
        Engine.commit_closes (e := y.1.engine) ResultCode.other hends
      have hcommit : y.1.commit a.last =
          (⟨(y.1.engine.commit .other a.last).1, false, y.1.writesBlocked⟩,
            statusOf (y.1.engine.commit .other a.last).2) := if_pos hflag
      rw [if_neg (by rw [hok]; decide), hcommit]
      refine ⟨⟨rfl, hclosed⟩, hblocked, ?_⟩
      cases herror : (y.1.engine.commit .other a.last).2 with
      | some code =>
        exact Or.inl ⟨statusFromCode_neg code, (hfailed (by rw [herror]; nofun)).trans hcommitted⟩
      | none =>
        have hnow := hdone herror
        rw [hworking, Option.some.injEq] at hnow
        refine Or.inr ⟨rfl, ?_⟩
        dsimp only
        rw [← hnow]
        exact hcarry

theorem askAll_none (hopen : h.engine.working = some d) {cs : List Call} {d' : Db}
    (hcarry : carryOut cs d = .ok d') : (h.askAll cs []).2 = Status.ok := by
  induction cs generalizing h d with
  | nil => rfl
  | cons c cs ih =>
    rw [carryOut_cons] at hcarry
    cases c with
    | outside failure =>
      cases failure with
      | none => exact ih hopen hcarry
      | some f => cases hcarry
    | sql effect =>
      cases heffect : effect d with
      | error code =>
        rw [Call.effect, heffect] at hcarry
        cases hcarry
      | ok d₁ =>
        rw [Call.effect, heffect] at hcarry
        have hvisible : h.engine.visible = d := by
          rw [Engine.visible, hopen]
          rfl
        have hask : h.ask effect .done = ({ h with engine := h.engine.write d₁ }, Status.ok) := by
          rw [Handle.ask, Engine.exec, hvisible, heffect]
          rfl
        have hnext : ({ h with engine := h.engine.write d₁ } : Handle).engine.working = some d₁ := by
          rw [Engine.write, hopen]
        have hstep : h.askAll (.sql effect :: cs) [] =
            Handle.askAll { h with engine := h.engine.write d₁ } cs [] := by
          rw [Handle.askAll]
          dsimp only [List.headD_nil, List.tail_nil]
          rw [hask]
          exact if_neg (by decide : ¬ Status.ok < 0)
        rw [hstep]
        exact ih hnext hcarry

/-- Where nothing fails, a transaction succeeds exactly when its calls can be carried
out. -/
theorem transact_none (hidle : h.Idle) (cs : List Call) :
    (h.transact cs .none).2 = Status.ok ↔ ∃ d, carryOut cs h.engine.committed = .ok d := by
  constructor
  · intro hok
    obtain ⟨-, -, ⟨hneg, -⟩ | ⟨-, hcarry⟩⟩ := transact_spec hidle cs (a := .none) trivial
    · rw [hok] at hneg
      exact absurd hneg (by decide : ¬ Status.ok < 0)
    · exact ⟨_, hcarry⟩
  · rintro ⟨d, hcarry⟩
    obtain ⟨⟨committed, working⟩, flag, blocked⟩ := h
    obtain ⟨hflag, hclosed⟩ := hidle
    obtain rfl : flag = false := hflag
    obtain rfl : working = none := hclosed
    have hok := askAll_none (h := ⟨⟨committed, some committed⟩, true, blocked⟩) rfl hcarry
    obtain ⟨hflag, -, -, hneg | ⟨-, d', -, hworking⟩⟩ :=
      askAll_keeps (h := ⟨⟨committed, some committed⟩, true, blocked⟩) rfl cs []
    · rw [hok] at hneg
      exact absurd hneg (by decide : ¬ Status.ok < 0)
    · have hrun : Handle.transact ⟨⟨committed, none⟩, false, blocked⟩ cs .none =
          (Handle.askAll ⟨⟨committed, some committed⟩, true, blocked⟩ cs []).1.commit .done := by
        have hfine :
            ¬ (Handle.askAll ⟨⟨committed, some committed⟩, true, blocked⟩ cs []).2 < 0 := by
          rw [hok]
          decide
        exact if_neg hfine
      rw [hrun, Handle.commit, if_pos hflag, Engine.commit, hworking]
      rfl

end Blocks
end AsmFlow.Repo
