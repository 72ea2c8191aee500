import AsmFlow.Library.Runs
import AsmFlow.Repo.Projection

/-!
# Transactions over runs

The operations of one handle in any order, with whatever SQLite answers to each call.
-/

namespace AsmFlow.Repo

open Http Library

section Reads

variable {h : Handle}

/-- Calls without effect leave the handle as it is. -/
theorem askAll_ready (rs : List SqlReply) (hkeep : h.engine.working = none ∨ ∀ r ∈ rs, r.Keeps)
    (n : ℕ) :
    let x := h.askAll (List.replicate n .ready) rs
    x.1 = h ∧ (x.2 < 0 ∨ x.2 = Status.ok) := by
  induction n generalizing rs with
  | zero => exact ⟨rfl, Or.inr rfl⟩
  | succ n ih =>
    have hfirst : h.engine.working = none ∨ (rs.headD .done).Keeps := by
      refine hkeep.imp_right fun hrs => ?_
      cases rs with
      | nil => trivial
      | cons r rs => exact hrs r List.mem_cons_self
    have hsame : (h.ask .ok (rs.headD .done)).1 = h := by
      change ({ h with engine := (h.engine.exec .ok (rs.headD .done)).1 } : Handle) = h
      rw [Engine.exec_ok hfirst]
    have hnext := ih rs.tail (hkeep.imp_right fun hrs r hr => hrs r (List.mem_of_mem_tail hr))
    intro x
    have hx : x = if (h.ask .ok (rs.headD .done)).2 < 0 then h.ask .ok (rs.headD .done)
        else (h.ask .ok (rs.headD .done)).1.askAll (List.replicate n .ready) rs.tail := rfl
    rw [hx]
    split_ifs with hneg
    · exact ⟨hsame, Or.inl hneg⟩
    · rw [hsame]
      exact hnext

theorem version_of_no_table (d : Db) (h : "schema_migrations" ∉ d.val.objects) :
    d.val.version = 0 := by
  have hnone : d.val.versions = [] := by
    by_contra hne
    exact h (d.property.versions_table hne)
  rw [Content.version, hnone]
  rfl

/-- The version is read without a change, or not at all. -/
theorem currentVersion_spec (rs : List SqlReply)
    (hkeep : h.engine.working = none ∨ ∀ r ∈ rs, r.Keeps) :
    let x := h.currentVersion rs
    x.1 = h ∧ (x.2.1 < 0 ∨ x.2.1 = Status.ok ∧ x.2.2 = h.engine.visible.val.version) := by
  obtain ⟨hsame, hend⟩ := askAll_ready rs hkeep 2
  obtain ⟨hsame', hend'⟩ := askAll_ready (rs.drop 2)
    (hkeep.imp_right fun hrs r hr => hrs r (List.mem_of_mem_drop hr)) 2
  intro x
  have hx : x = if (h.askAll [.ready, .ready] rs).2 < 0 then
      ((h.askAll [.ready, .ready] rs).1, (h.askAll [.ready, .ready] rs).2, 0)
    else if "schema_migrations" ∈ (h.askAll [.ready, .ready] rs).1.engine.visible.val.objects then
      if ((h.askAll [.ready, .ready] rs).1.askAll [.ready, .ready] (rs.drop 2)).2 < 0 then
        (((h.askAll [.ready, .ready] rs).1.askAll [.ready, .ready] (rs.drop 2)).1,
          ((h.askAll [.ready, .ready] rs).1.askAll [.ready, .ready] (rs.drop 2)).2, 0)
      else (((h.askAll [.ready, .ready] rs).1.askAll [.ready, .ready] (rs.drop 2)).1, Status.ok,
        ((h.askAll [.ready, .ready] rs).1.askAll [.ready, .ready]
          (rs.drop 2)).1.engine.visible.val.version)
    else ((h.askAll [.ready, .ready] rs).1, Status.ok, 0) := rfl
  change (h.askAll [.ready, .ready] rs).1 = h at hsame
  change (h.askAll [.ready, .ready] (rs.drop 2)).1 = h at hsame'
  rw [hx, hsame, hsame']
  split_ifs with hneg htable hneg'
  · exact ⟨rfl, Or.inl hneg⟩
  · exact ⟨rfl, Or.inl hneg'⟩
  · exact ⟨rfl, Or.inr ⟨rfl, rfl⟩⟩
  · exact ⟨rfl, Or.inr ⟨rfl, (version_of_no_table _ htable).symm⟩⟩

/-- Where nothing fails, the version is read. -/
theorem currentVersion_nil (hidle : h.Idle) :
    h.currentVersion [] = (h, Status.ok, h.engine.visible.val.version) := by
  obtain ⟨⟨committed, working⟩, flag, blocked⟩ := h
  obtain ⟨hflag, hclosed⟩ := hidle
  obtain rfl : flag = false := hflag
  obtain rfl : working = none := hclosed
  have hread : Handle.askAll ⟨⟨committed, none⟩, false, blocked⟩ [.ready, .ready] [] =
      (⟨⟨committed, none⟩, false, blocked⟩, Status.ok) := rfl
  unfold Handle.currentVersion
  rw [hread]
  dsimp only
  rw [if_neg (by decide : ¬ Status.ok < 0), List.drop_nil, hread]
  split_ifs with htable hneg
  · exact absurd hneg (by decide : ¬ Status.ok < 0)
  · rfl
  · rw [version_of_no_table _ htable]

end Reads

section Migrating

variable {h : Handle} {failAt found : ℤ} {turns : ℤ → Turn}

/-- What the migrations of this list make of a content, if all of them are done. -/
def migrateAll (failAt : ℤ) (turns : ℤ → Turn) (ms : List Migration) (d : Db) :
    Except ResultCode Db :=
  carryOut (ms.flatMap fun m => m.calls failAt (turns m.version).1) d

/-- The content is what some of the pending migrations, whole and in order, have made
of it; `rest` are the others. -/
structure MigratedTo (failAt : ℤ) (turns : ℤ → Turn) (d d' : Db) (rest : List Migration) : Prop where
  done : ∃ ms, pending d.val.version = ms ++ rest ∧ migrateAll failAt turns ms d = .ok d'
  pending_eq : pending d'.val.version = rest
  open_eq : ¬ d'.val.shape.TooNew
  final_eq : d'.val.shape.final = d.val.shape.final

/-- The migrations of an idle handle are done one by one, each whole or not at all. -/
theorem applyFrom_spec (found failAt : ℤ) (turns : ℤ → Turn) (hidle : h.Idle)
    (hends : ∀ version, (turns version).2.last.Ends) (ms : List Migration) (hopen : ¬ h.engine.committed.val.shape.TooNew)
    (hpending : pending h.engine.committed.val.version = ms.filter (found < ·.version)) :
    let x := h.applyFrom found failAt turns ms
    x.1.Idle ∧ x.1.writesBlocked = h.writesBlocked ∧
      ∃ rest, MigratedTo failAt turns h.engine.committed x.1.engine.committed rest ∧
        (x.2 < 0 ∨ x.2 = Status.ok ∧ rest = []) := by
  induction ms generalizing h with
  | nil =>
    refine ⟨hidle, rfl, [], ⟨⟨[], ?_, rfl⟩, hpending, hopen, rfl⟩, Or.inr ⟨rfl, rfl⟩⟩
    rw [hpending]
    rfl
  | cons m ms ih =>
    by_cases hold : m.version ≤ found
    · have hskip : h.applyFrom found failAt turns (m :: ms) = h.applyFrom found failAt turns ms :=
        if_pos hold
      rw [hskip]
      refine ih hidle hopen ?_
      rw [hpending, List.filter_cons_of_neg (by simpa using hold)]
    · rw [List.filter_cons_of_pos (by simpa using hold)] at hpending
      obtain ⟨hidle', hblocked, hend⟩ :=
        transact_spec hidle (m.calls failAt (turns m.version).1) (hends m.version)
      intro x
      have hx : x =
          if (h.transact (m.calls failAt (turns m.version).1) (turns m.version).2).2 < 0 then
            h.transact (m.calls failAt (turns m.version).1) (turns m.version).2
          else (h.transact (m.calls failAt (turns m.version).1)
            (turns m.version).2).1.applyFrom found failAt turns ms := if_neg hold
      rw [hx]
      generalize h.transact (m.calls failAt (turns m.version).1) (turns m.version).2 = y at *
      rcases hend with ⟨hneg, hsame⟩ | ⟨hok, hcarry⟩
      · rw [if_pos hneg]
        refine ⟨hidle', hblocked, m :: ms.filter (found < ·.version),
          ⟨⟨[], hpending, ?_⟩, ?_, ?_, ?_⟩, Or.inl hneg⟩
        · rw [hsame]
          rfl
        · rw [hsame, hpending]
        · rwa [hsame]
        · rw [hsame]
      · rw [if_neg (by rw [hok]; decide)]
        obtain ⟨hopen', hrest, hfinal⟩ := final_of_grow hopen hpending (grow_of_calls hcarry)
        obtain ⟨hidle'', hblocked', rest, ⟨⟨done, hdone, hall⟩, hpending', hopen'', hfinal'⟩, hend⟩ :=
          ih hidle' hopen' hrest
        have hsplit : pending h.engine.committed.val.version = (m :: done) ++ rest := by
          rw [hpending, ← hrest]
          exact congrArg (m :: ·) hdone
        have hcalls : migrateAll failAt turns (m :: done) h.engine.committed =
            .ok (y.1.applyFrom found failAt turns ms).1.engine.committed := by
          rw [migrateAll, List.flatMap_cons, carryOut_append, hcarry]
          exact hall
        exact ⟨hidle'', hblocked'.trans hblocked, rest,
          ⟨⟨m :: done, hsplit, hcalls⟩, hpending', hopen'', hfinal'.trans hfinal⟩, hend⟩

/-- The same where no call fails: all of them are done, if the shape allows it. -/
theorem applyFrom_none (found : ℤ) (hidle : h.Idle) (now : ℤ) (ms : List Migration) {s : Shape}
    (hopen : ¬ h.engine.committed.val.shape.TooNew)
    (hpending : pending h.engine.committed.val.version = ms.filter (found < ·.version))
    (hfinal : h.engine.committed.val.shape.final = some s) :
    (h.applyFrom found (-1) (fun _ => (.ok now, .none)) ms).2 = Status.ok := by
  induction ms generalizing h with
  | nil => rfl
  | cons m ms ih =>
    by_cases hold : m.version ≤ found
    · have hskip : h.applyFrom found (-1) (fun _ => (.ok now, .none)) (m :: ms) =
          h.applyFrom found (-1) (fun _ => (.ok now, .none)) ms := if_pos hold
      rw [hskip]
      refine ih hidle hopen ?_ hfinal
      rw [hpending, List.filter_cons_of_neg (by simpa using hold)]
    · rw [List.filter_cons_of_pos (by simpa using hold)] at hpending
      have hstep := hfinal
      rw [final_of_pending_cons hopen hpending] at hstep
      obtain ⟨s', hgrow, -⟩ := Option.bind_eq_some_iff.mp hstep
      have hok := (transact_none hidle (m.calls (-1) (.ok now))).mpr (calls_of_grow hgrow now)
      obtain ⟨hidle', -, hend⟩ :=
        transact_spec hidle (m.calls (-1) (.ok now)) (a := .none) trivial
      have hx : h.applyFrom found (-1) (fun _ => (.ok now, .none)) (m :: ms) =
          if (h.transact (m.calls (-1) (.ok now)) .none).2 < 0 then
            h.transact (m.calls (-1) (.ok now)) .none
          else (h.transact (m.calls (-1) (.ok now)) .none).1.applyFrom found (-1)
            (fun _ => (.ok now, .none)) ms := if_neg hold
      rw [hx]
      generalize h.transact (m.calls (-1) (.ok now)) .none = y at *
      rw [if_neg (by rw [hok]; decide)]
      rcases hend with ⟨hneg, -⟩ | ⟨-, hcarry⟩
      · rw [hok] at hneg
        exact absurd hneg (by decide : ¬ Status.ok < 0)
      · obtain ⟨hopen', hrest, hfinal'⟩ := final_of_grow hopen hpending (grow_of_calls hcarry)
        exact ih hidle' hopen' hrest (hfinal'.trans hfinal)

/-- A transaction that the caller has open keeps the migrations from starting. -/
theorem applyFrom_nested (found failAt : ℤ) (turns : ℤ → Turn) (hflag : h.inTransaction = true)
    (ms : List Migration) :
    let x := h.applyFrom found failAt turns ms
    x.1 = h ∧ (x.2 = Status.ok → ms.filter (found < ·.version) = []) := by
  induction ms with
  | nil => exact ⟨rfl, fun _ => rfl⟩
  | cons m ms ih =>
    by_cases hold : m.version ≤ found
    · have hskip : h.applyFrom found failAt turns (m :: ms) = h.applyFrom found failAt turns ms :=
        if_pos hold
      rw [hskip, List.filter_cons_of_neg (by simpa using hold)]
      exact ih
    · have hrefused : h.transact (m.calls failAt (turns m.version).1) (turns m.version).2 =
          (h, Status.internal) := by
        unfold Handle.transact Handle.begin
        rw [if_pos hflag]
        rfl
      have hx : h.applyFrom found failAt turns (m :: ms) = (h, Status.internal) := by
        rw [Handle.applyFrom, if_neg hold, hrefused]
        rfl
      rw [hx]
      exact ⟨rfl, fun hok => absurd hok (by decide : ¬ Status.internal = Status.ok)⟩

/-- The content is what some of the pending migrations, whole and in order, have made
of the other. -/
def PartlyMigrated (failAt : ℤ) (turns : ℤ → Turn) (d d' : Db) : Prop :=
  ∃ ms rest, pending d.val.version = ms ++ rest ∧ migrateAll failAt turns ms d = .ok d'

theorem PartlyMigrated.refl (failAt : ℤ) (turns : ℤ → Turn) (d : Db) :
    PartlyMigrated failAt turns d d := ⟨[], _, rfl, rfl⟩

theorem migrate_spec (failAt : ℤ) (turns : ℤ → Turn) (hidle : h.Idle)
    (hends : ∀ version, (turns version).2.last.Ends)
    (replies : List SqlReply) :
    let x := h.migrate failAt replies turns
    x.1.Idle ∧ PartlyMigrated failAt turns h.engine.committed x.1.engine.committed ∧
      x.1.engine.committed.val.shape.final = h.engine.committed.val.shape.final ∧
      (x.2 < 0 ∨ x.2 = Status.ok ∧
        h.engine.committed.val.shape.final = some x.1.engine.committed.val.shape) := by
  have hvisible : h.engine.visible = h.engine.committed := by
    rw [Engine.visible, hidle.closed]
    rfl
  obtain ⟨hsame, hread⟩ := currentVersion_spec replies (Or.inl hidle.closed)
  rw [hvisible] at hread
  intro x
  have hx : x = if (h.currentVersion replies).2.1 < 0 then
        ((h.currentVersion replies).1, (h.currentVersion replies).2.1)
      else if (h.currentVersion replies).2.2 < 0 ∨ schemaVersion < (h.currentVersion replies).2.2 then
        ((h.currentVersion replies).1, Status.dbSchema)
      else if (h.currentVersion replies).2.2 = schemaVersion then
        ((h.currentVersion replies).1, Status.ok)
      else (h.currentVersion replies).1.applyFrom (h.currentVersion replies).2.2 failAt turns
        migrationTable := rfl
  rw [hx, hsame]
  generalize (h.currentVersion replies).2 = y at *
  rcases hread with hneg | ⟨hok, hfound⟩
  · rw [if_pos hneg]
    exact ⟨hidle, .refl _ _ _, rfl, Or.inl hneg⟩
  · rw [if_neg (by rw [hok]; decide)]
    split_ifs with hnew hdone
    · exact ⟨hidle, .refl _ _ _, rfl, Or.inl (by decide : Status.dbSchema < 0)⟩
    · rw [hfound] at hnew hdone
      refine ⟨hidle, .refl _ _ _, rfl, Or.inr ⟨rfl, final_of_pending_nil hnew ?_⟩⟩
      change pending h.engine.committed.val.version = []
      rw [hdone]
      exact pending_schemaVersion
    · have hopen := hnew
      rw [hfound] at hopen
      obtain ⟨hidle', -, rest, hmigrated, hend⟩ :=
        applyFrom_spec y.2 failAt turns hidle hends migrationTable hopen (by rw [hfound]; rfl)
      obtain ⟨⟨ms, hsplit, hall⟩, hpending, hopen', hfinal⟩ := hmigrated
      refine ⟨hidle', ⟨ms, rest, hsplit, hall⟩, hfinal, hend.imp_right ?_⟩
      rintro ⟨hok', rfl⟩
      exact ⟨hok', hfinal.symm.trans (final_of_pending_nil hopen' hpending)⟩

/-- One uninterrupted run of the migrations on this handle. -/
def Handle.migrateOnce (h : Handle) (now : ℤ) : Handle × Status :=
  h.migrate (-1) [] fun _ => (.ok now, .none)

theorem migrateOnce_ok_iff (hidle : h.Idle) (now : ℤ) :
    (h.migrateOnce now).2 = Status.ok ↔ h.engine.committed.val.shape.final.isSome = true := by
  have hvisible : h.engine.visible = h.engine.committed := by
    rw [Engine.visible, hidle.closed]
    rfl
  constructor
  · intro hok
    obtain ⟨-, -, -, hneg | ⟨-, hfinal⟩⟩ :=
      migrate_spec (-1) (fun _ => (.ok now, .none)) hidle (fun _ => trivial) []
    · change (h.migrateOnce now).2 < 0 at hneg
      rw [hok] at hneg
      exact absurd hneg (by decide : ¬ Status.ok < 0)
    · rw [hfinal]
      rfl
  · intro hsome
    obtain ⟨s, hfinal⟩ := Option.isSome_iff_exists.mp hsome
    have hopen : ¬ h.engine.committed.val.shape.TooNew := by
      intro hnew
      rw [Shape.final, if_pos hnew] at hfinal
      cases hfinal
    have hrange : ¬ (h.engine.committed.val.version < 0 ∨
        schemaVersion < h.engine.committed.val.version) := hopen
    unfold Handle.migrateOnce Handle.migrate
    rw [currentVersion_nil hidle, hvisible]
    dsimp only
    rw [if_neg (by decide : ¬ Status.ok < 0), if_neg hrange]
    split_ifs
    · rfl
    · exact applyFrom_none _ hidle now migrationTable hopen rfl hfinal

end Migrating

/-- An operation on the handle, with what the clock and SQLite answer during it. -/
inductive Op
  | begin (reply : SqlReply)
  | commit (reply : SqlReply)
  | rollback (reply : SqlReply)
  | sync (cfg : Snapshot) (clock : Except Mcp.Fault ℤ) (answers : Answers)
  | migrate (failAt : ℤ) (replies : List SqlReply) (turns : ℤ → Turn)

/-- The operation, with its status. -/
def Op.run (h : Handle) : Op → Handle × Status
  | .begin reply => h.begin reply
  | .commit reply => h.commit reply
  | .rollback reply => h.rollback reply
  | .sync cfg clock answers => h.syncConfig cfg clock answers
  | .migrate failAt replies turns => h.migrate failAt replies turns

def opStep (h : Handle) (op : Op) : Handle := (op.run h).1

/-- The flag says whether a transaction is open. -/
def FlagTrue (h : Handle) : Prop := h.inTransaction = h.engine.working.isSome

/-- Every transaction that is open was there before the call, which left it alone. -/
def NoneLeft (h h' : Handle) : Prop :=
  h'.engine.working = none ∨ h.inTransaction = true ∧ h'.engine = h.engine

/-- A synchronisation or migration that fails leaves no transaction behind, and the
content of the last step that was committed. -/
def FailsWhole (h : Handle) : Op → Prop
  | .sync cfg clock answers =>
    let r := h.syncConfig cfg clock answers
    r.2 < 0 → NoneLeft h r.1 ∧ r.1.engine.visible = h.engine.visible
  | .migrate failAt replies turns =>
    let r := h.migrate failAt replies turns
    r.2 < 0 → NoneLeft h r.1 ∧ PartlyMigrated failAt turns h.engine.visible r.1.engine.visible
  | _ => True

/-- Migrations that succeed have made of the database what one uninterrupted run makes
of the first content. -/
def ReachesOnce (d : Db) (h : Handle) : Op → Prop
  | .migrate failAt replies turns =>
    let r := h.migrate failAt replies turns
    r.2 = Status.ok → ∀ now,
      ((Handle.opened d).migrateOnce now).2 = Status.ok ∧ r.1.engine.visible.val.shape =
        ((Handle.opened d).migrateOnce now).1.engine.visible.val.shape
  | _ => True

/-- Outside a transaction, the migrations can be completed if they can be done at all. -/
def CanRepeat (d : Db) (h : Handle) : Prop :=
  h.inTransaction = false → ∀ now,
    ((h.migrateOnce now).2 = Status.ok ↔ ((Handle.opened d).migrateOnce now).2 = Status.ok)

/-- A `COMMIT` or `ROLLBACK` that fails ends the transaction, and a query that fails
does not end that of the caller. -/
def Answered (h : Handle) : Op → Prop
  | .begin _ => True
  | .commit reply => h.inTransaction = true → reply.Ends
  | .rollback reply => h.inTransaction = true → reply.Ends
  | .sync _ _ answers => h.inTransaction = false → answers.last.Ends
  | .migrate _ replies turns =>
    if h.inTransaction then ∀ reply ∈ replies, reply.Keeps
    else ∀ version, (turns version).2.last.Ends

section Runs

variable {d : Db} {h : Handle}

/-- What holds between the operations of a run from this content: nothing is written in
a transaction of the caller, and what the migrations lead to stays the same. -/
structure Orderly (d : Db) (h : Handle) : Prop where
  flag : FlagTrue h
  unwritten : ∀ w, h.engine.working = some w → w = h.engine.committed
  final_eq : h.engine.committed.val.shape.final = d.val.shape.final

theorem Orderly.visible_eq (ho : Orderly d h) : h.engine.visible = h.engine.committed := by
  cases hworking : h.engine.working with
  | none =>
    rw [Engine.visible, hworking]
    rfl
  | some w =>
    rw [Engine.visible, hworking]
    exact ho.unwritten w hworking

theorem Orderly.idle (ho : Orderly d h) (hflag : h.inTransaction = false) : h.Idle := by
  refine ⟨hflag, ?_⟩
  have hsome := ho.flag
  rw [FlagTrue, hflag] at hsome
  exact Option.not_isSome_iff_eq_none.mp (by rw [← hsome]; decide)

theorem Orderly.of_idle (hidle : h.Idle)
    (hfinal : h.engine.committed.val.shape.final = d.val.shape.final) : Orderly d h := by
  refine ⟨?_, ?_, hfinal⟩
  · rw [FlagTrue, hidle.flag, hidle.closed]
    rfl
  · rw [hidle.closed]
    exact nofun

/-- The call, if it is carried out, leaves the shape as it is. -/
def KeepsShape (c : Call) : Prop := ∀ d d' : Db, c.effect d = .ok d' → d'.val.shape = d.val.shape

theorem keepsShape_statement (uses : List String) {f : Content → Content}
    (hf : ∀ c, (f c).shape = c.shape) : KeepsShape (.sql (statement uses f)) := by
  intro d d' heffect
  rw [((statement_eq_ok uses f).mp heffect).2, hf]

theorem keepsShape_bound (binds : ℕ) (uses : List String) {f : Content → Content}
    (hf : ∀ c, (f c).shape = c.shape) : ∀ x ∈ bound binds uses f, KeepsShape x := by
  intro x hx
  rcases List.mem_append.mp hx with hx | hx
  · rw [(List.mem_replicate.mp hx).2]
    intro d d' heffect
    rw [← Except.ok.inj heffect]
  · rw [List.mem_singleton.mp hx]
    exact keepsShape_statement uses hf

/-- A synchronisation touches rows only. -/
theorem keepsShape_syncCalls (cfg : Snapshot) (stamp : ℤ) :
    ∀ x ∈ syncCalls cfg stamp, KeepsShape x := by
  have hproviders : ∀ x ∈ writeProviders cfg stamp, KeepsShape x := by
    rw [writeProviders, List.forall_mem_append, List.forall_mem_flatMap]
    refine ⟨?_, fun p _ => ?_⟩
    · rw [List.forall_mem_cons, List.forall_mem_singleton]
      exact ⟨keepsShape_statement _ fun _ => rfl, keepsShape_statement _ fun _ => rfl⟩
    · rw [List.forall_mem_append]
      exact ⟨keepsShape_bound _ _ fun _ => rfl, keepsShape_bound _ _ fun _ => rfl⟩
  have htargets (r : RouteEntry) : ∀ x ∈ writeRouteTargets r, KeepsShape x := by
    rw [writeRouteTargets, List.forall_mem_append, List.forall_mem_cons, List.forall_mem_flatMap]
    exact ⟨keepsShape_bound _ _ fun _ => rfl, keepsShape_statement _ fun _ => rfl,
      fun t _ => keepsShape_bound _ _ fun _ => rfl⟩
  have hroutes : ∀ x ∈ writeRoutes cfg stamp, KeepsShape x := by
    rw [writeRoutes, List.forall_mem_cons, List.forall_mem_flatMap]
    refine ⟨keepsShape_statement _ fun _ => rfl, fun r _ => ?_⟩
    rw [List.forall_mem_append]
    exact ⟨keepsShape_bound _ _ fun _ => rfl, htargets r⟩
  have hservers : ∀ x ∈ writeMcpServers cfg stamp, KeepsShape x := by
    rw [writeMcpServers, List.forall_mem_cons, List.forall_mem_flatMap]
    exact ⟨keepsShape_statement _ fun _ => rfl, fun m _ => keepsShape_bound _ _ fun _ => rfl⟩
  simp only [syncCalls, List.forall_mem_append]
  exact ⟨⟨⟨⟨⟨hproviders, hroutes⟩, hservers⟩, keepsShape_bound _ _ fun _ => rfl⟩,
    keepsShape_bound _ _ fun _ => rfl⟩, keepsShape_bound _ _ fun _ => rfl⟩

theorem shape_of_syncCalls {cfg : Snapshot} {stamp : ℤ} {d d' : Db}
    (hcarry : carryOut (syncCalls cfg stamp) d = .ok d') : d'.val.shape = d.val.shape :=
  carryOut_keeps (P := fun e => e.val.shape = d.val.shape)
    (fun c hc _ _ heffect he => (keepsShape_syncCalls cfg stamp c hc _ _ heffect).trans he) hcarry rfl

theorem orderly_begin (ho : Orderly d h) (reply : SqlReply) : Orderly d (h.begin reply).1 := by
  cases hflag : h.inTransaction with
  | true =>
    rw [Handle.begin, if_pos hflag]
    exact ho
  | false =>
    have hidle := ho.idle hflag
    have hfinal := ho.final_eq
    obtain ⟨⟨committed, working⟩, flag, blocked⟩ := h
    obtain ⟨hflag, hclosed⟩ := hidle
    obtain rfl : flag = false := hflag
    obtain rfl : working = none := hclosed
    cases reply with
    | failed code aborts =>
      cases aborts <;> exact Orderly.of_idle ⟨rfl, rfl⟩ hfinal
    | done => exact ⟨rfl, fun w hw => (Option.some.inj hw).symm, hfinal⟩

theorem orderly_commit (ho : Orderly d h) {reply : SqlReply}
    (hends : h.inTransaction = true → reply.Ends) : Orderly d (h.commit reply).1 := by
  cases hflag : h.inTransaction with
  | false =>
    rw [Handle.commit, if_neg (by rw [hflag]; decide)]
    exact ho
  | true =>
    obtain ⟨hclosed, hdone, hfailed⟩ :=
      Engine.commit_closes (e := h.engine) ResultCode.other (hends hflag)
    have hcommitted : (h.engine.commit .other reply).1.committed = h.engine.committed := by
      by_cases herror : (h.engine.commit .other reply).2 = none
      · exact ho.unwritten _ (hdone herror)
      · exact hfailed herror
    have hcommit : (h.commit reply).1 =
        ⟨(h.engine.commit .other reply).1, false, h.writesBlocked⟩ := by
      rw [Handle.commit, if_pos hflag]
    rw [hcommit]
    refine Orderly.of_idle ⟨rfl, hclosed⟩ ?_
    change (h.engine.commit .other reply).1.committed.val.shape.final = _
    rw [hcommitted]
    exact ho.final_eq

theorem orderly_rollback (ho : Orderly d h) {reply : SqlReply}
    (hends : h.inTransaction = true → reply.Ends) : Orderly d (h.rollback reply).1 := by
  cases hflag : h.inTransaction with
  | false =>
    rw [Handle.rollback, if_neg (by rw [hflag]; decide)]
    exact ho
  | true =>
    have hback : (h.rollback reply).1 = ⟨h.engine.discard, false, h.writesBlocked⟩ := by
      rw [Handle.rollback, if_pos hflag, ← Engine.rollback_closes ResultCode.other (hends hflag)]
    rw [hback]
    exact Orderly.of_idle ⟨rfl, rfl⟩ ho.final_eq

theorem sync_nested (hflag : h.inTransaction = true) (cfg : Snapshot)
    (clock : Except Mcp.Fault ℤ) (answers : Answers) : (h.syncConfig cfg clock answers).1 = h := by
  unfold Handle.syncConfig
  split_ifs
  · rfl
  · cases clock with
    | error f => rfl
    | ok stamp =>
      have hrefused : h.transact (syncCalls cfg stamp) answers = (h, Status.internal) := by
        unfold Handle.transact Handle.begin
        rw [if_pos hflag]
        rfl
      dsimp only
      rw [hrefused]

/-- Outside a transaction, a synchronisation is whole or leaves what was committed. -/
theorem sync_spec (hidle : h.Idle) (cfg : Snapshot) (clock : Except Mcp.Fault ℤ)
    {answers : Answers} (hends : answers.last.Ends) :
    let x := h.syncConfig cfg clock answers
    x.1.Idle ∧ x.1.engine.committed.val.shape = h.engine.committed.val.shape ∧
      (x.2 < 0 → x.1.engine.committed = h.engine.committed) := by
  unfold Handle.syncConfig
  split_ifs
  · exact ⟨hidle, rfl, fun _ => rfl⟩
  · cases clock with
    | error f => exact ⟨hidle, rfl, fun _ => rfl⟩
    | ok stamp =>
      obtain ⟨hidle', -, ⟨-, hsame⟩ | ⟨hok, hcarry⟩⟩ :=
        transact_spec hidle (syncCalls cfg stamp) hends
      · exact ⟨hidle', by rw [hsame], fun _ => hsame⟩
      · refine ⟨hidle', shape_of_syncCalls hcarry, fun hneg => ?_⟩
        dsimp only at hneg
        rw [hok] at hneg
        exact absurd hneg (by decide : ¬ Status.ok < 0)

theorem migrate_nested (hflag : h.inTransaction = true) {replies : List SqlReply}
    (hkeep : ∀ reply ∈ replies, reply.Keeps) (failAt : ℤ) (turns : ℤ → Turn) :
    let x := h.migrate failAt replies turns
    x.1 = h ∧ (x.2 = Status.ok →
      h.engine.visible.val.shape.final = some h.engine.visible.val.shape) := by
  obtain ⟨hsame, hread⟩ := currentVersion_spec replies (Or.inr hkeep)
  intro x
  have hx : x = if (h.currentVersion replies).2.1 < 0 then
        ((h.currentVersion replies).1, (h.currentVersion replies).2.1)
      else if (h.currentVersion replies).2.2 < 0 ∨ schemaVersion < (h.currentVersion replies).2.2 then
        ((h.currentVersion replies).1, Status.dbSchema)
      else if (h.currentVersion replies).2.2 = schemaVersion then
        ((h.currentVersion replies).1, Status.ok)
      else (h.currentVersion replies).1.applyFrom (h.currentVersion replies).2.2 failAt turns
        migrationTable := rfl
  rw [hx, hsame]
  generalize (h.currentVersion replies).2 = y at *
  split_ifs with hneg hnew hdone
  · refine ⟨rfl, fun hok => ?_⟩
    dsimp only at hok
    rw [hok] at hneg
    exact absurd hneg (by decide : ¬ Status.ok < 0)
  · exact ⟨rfl, fun hok => absurd hok (by decide : ¬ Status.dbSchema = Status.ok)⟩
  · have hfound := (hread.resolve_left hneg).2
    rw [hfound] at hnew hdone
    refine ⟨rfl, fun _ => final_of_pending_nil hnew ?_⟩
    change pending h.engine.visible.val.version = []
    rw [hdone]
    exact pending_schemaVersion
  · have hfound := (hread.resolve_left hneg).2
    rw [hfound] at hnew ⊢
    obtain ⟨hstays, hnone⟩ :=
      applyFrom_nested h.engine.visible.val.version failAt turns hflag migrationTable
    exact ⟨hstays, fun hok => final_of_pending_nil hnew (hnone hok)⟩

theorem Orderly.step (ho : Orderly d h) {op : Op} (hans : Answered h op) :
    Orderly d (opStep h op) := by
  cases op with
  | begin reply => exact orderly_begin ho reply
  | commit reply => exact orderly_commit ho hans
  | rollback reply => exact orderly_rollback ho hans
  | sync cfg clock answers =>
    cases hflag : h.inTransaction with
    | true =>
      change Orderly d (h.syncConfig cfg clock answers).1
      rw [sync_nested hflag]
      exact ho
    | false =>
      obtain ⟨hidle, hshape, -⟩ := sync_spec (ho.idle hflag) cfg clock (hans hflag)
      refine Orderly.of_idle hidle ?_
      rw [← ho.final_eq, ← hshape]
      rfl
  | migrate failAt replies turns =>
    cases hflag : h.inTransaction with
    | true =>
      rw [Answered, if_pos hflag] at hans
      change Orderly d (h.migrate failAt replies turns).1
      rw [(migrate_nested hflag hans failAt turns).1]
      exact ho
    | false =>
      rw [Answered, if_neg (by rw [hflag]; decide)] at hans
      obtain ⟨hidle, -, hfinal, -⟩ := migrate_spec failAt turns (ho.idle hflag) hans replies
      exact Orderly.of_idle hidle (hfinal.trans ho.final_eq)

theorem Orderly.failsWhole (ho : Orderly d h) {op : Op} (hans : Answered h op) :
    FailsWhole h op := by
  have hnext := ho.step hans
  cases op with
  | begin reply => trivial
  | commit reply => trivial
  | rollback reply => trivial
  | sync cfg clock answers =>
    intro hneg
    cases hflag : h.inTransaction with
    | true =>
      rw [sync_nested hflag]
      exact ⟨Or.inr ⟨hflag, rfl⟩, rfl⟩
    | false =>
      obtain ⟨hidle, -, hsame⟩ := sync_spec (ho.idle hflag) cfg clock (hans hflag)
      refine ⟨Or.inl hidle.closed, ?_⟩
      rw [ho.visible_eq, ← hsame hneg]
      exact hnext.visible_eq
  | migrate failAt replies turns =>
    intro hneg
    cases hflag : h.inTransaction with
    | true =>
      rw [Answered, if_pos hflag] at hans
      rw [(migrate_nested hflag hans failAt turns).1]
      exact ⟨Or.inr ⟨hflag, rfl⟩, .refl _ _ _⟩
    | false =>
      rw [Answered, if_neg (by rw [hflag]; decide)] at hans
      obtain ⟨hidle, hpartly, -⟩ := migrate_spec failAt turns (ho.idle hflag) hans replies
      refine ⟨Or.inl hidle.closed, ?_⟩
      have hvisible : (h.migrate failAt replies turns).1.engine.visible =
          (h.migrate failAt replies turns).1.engine.committed := hnext.visible_eq
      rw [ho.visible_eq, hvisible]
      exact hpartly

/-- What one uninterrupted run makes of a database. -/
theorem migrateOnce_shape {s : Shape} (hfinal : d.val.shape.final = some s) (now : ℤ) :
    ((Handle.opened d).migrateOnce now).2 = Status.ok ∧
      ((Handle.opened d).migrateOnce now).1.engine.visible.val.shape = s := by
  have hidle : (Handle.opened d).Idle := ⟨rfl, rfl⟩
  have hok : ((Handle.opened d).migrateOnce now).2 = Status.ok :=
    (migrateOnce_ok_iff hidle now).mpr (by
      change d.val.shape.final.isSome = true
      rw [hfinal]
      rfl)
  refine ⟨hok, ?_⟩
  obtain ⟨hidle', -, hsame, hneg | ⟨-, hshape⟩⟩ :=
    migrate_spec (-1) (fun _ => (.ok now, .none)) hidle (fun _ => trivial) []
  · change ((Handle.opened d).migrateOnce now).2 < 0 at hneg
    rw [hok] at hneg
    exact absurd hneg (by decide : ¬ Status.ok < 0)
  · have hvisible : ((Handle.opened d).migrateOnce now).1.engine.visible =
        ((Handle.opened d).migrateOnce now).1.engine.committed := by
      unfold Engine.visible Handle.migrateOnce
      rw [hidle'.closed]
      rfl
    rw [hvisible]
    exact Option.some.inj (hshape.symm.trans hfinal)

theorem Orderly.reachesOnce (ho : Orderly d h) {op : Op} (hans : Answered h op) :
    ReachesOnce d h op := by
  have hnext := ho.step hans
  cases op with
  | begin reply => trivial
  | commit reply => trivial
  | rollback reply => trivial
  | sync cfg clock answers => trivial
  | migrate failAt replies turns =>
    intro hok now
    have hfinal : d.val.shape.final =
        some (h.migrate failAt replies turns).1.engine.visible.val.shape := by
      cases hflag : h.inTransaction with
      | true =>
        rw [Answered, if_pos hflag] at hans
        obtain ⟨hsame, hdone⟩ := migrate_nested hflag hans failAt turns
        rw [hsame, ← hdone hok, ho.visible_eq, ho.final_eq]
      | false =>
        rw [Answered, if_neg (by rw [hflag]; decide)] at hans
        obtain ⟨-, -, -, hneg | ⟨-, hshape⟩⟩ :=
          migrate_spec failAt turns (ho.idle hflag) hans replies
        · rw [hok] at hneg
          exact absurd hneg (by decide : ¬ Status.ok < 0)
        · rw [← ho.final_eq, hshape]
          exact congrArg (fun e : Db => some e.val.shape) (Orderly.visible_eq hnext).symm
    obtain ⟨honce, hshape⟩ := migrateOnce_shape hfinal now
    exact ⟨honce, hshape.symm⟩

theorem Orderly.canRepeat (ho : Orderly d h) : CanRepeat d h := by
  intro hflag now
  have hopened := migrateOnce_ok_iff (h := Handle.opened d) ⟨rfl, rfl⟩ now
  rw [migrateOnce_ok_iff (ho.idle hflag), hopened, ho.final_eq]
  rfl

/-- In a run whose `COMMIT`s and `ROLLBACK`s, when they fail, end the transaction, the
flag is true to the engine, nothing is done by halves, and migrations that are repeated
lead where one uninterrupted run does. -/
theorem transactions_whole (d : Db) {ops : List Op} (h : Along opStep Answered (.opened d) ops) :
    Throughout opStep (fun h => FlagTrue h ∧ CanRepeat d h) (.opened d) ops ∧
      Along opStep (fun h op => FailsWhole h op ∧ ReachesOnce d h op) (.opened d) ops := by
  have hfirst : Orderly d (.opened d) := Orderly.of_idle ⟨rfl, rfl⟩ rfl
  constructor
  · have hall : Throughout opStep (Orderly d) (.opened d) ops :=
      throughout_of_along (fun _ _ ho hans => ho.step hans) hfirst h
    exact hall.mono fun t ho => ⟨ho.flag, ho.canRepeat⟩
  · exact along_of_along (fun _ _ ho hans => ho.step hans)
      (fun t op ho hans => ⟨ho.failsWhole hans, ho.reachesOnce hans⟩) hfirst h

/-- Migrations that are interrupted twice, and then complete. -/
theorem transactions_whole_interrupted :
    let ops : List Op :=
      [.migrate 3 [] fun _ => (.ok 1000, .none),
        .migrate (-1) [] fun _ => (.ok 2000, ⟨.done, [], .failed .readonly true⟩),
        .migrate (-1) [] fun _ => (.ok 3000, .none)]
    Throughout opStep (fun h => FlagTrue h ∧ CanRepeat .fresh h) (.opened .fresh) ops ∧
      Along opStep (fun h op => FailsWhole h op ∧ ReachesOnce .fresh h op) (.opened .fresh) ops :=
  transactions_whole .fresh
    ⟨fun _ => trivial, fun _ => rfl, fun _ => trivial, trivial⟩

/-- A `COMMIT` that is answered `SQLITE_BUSY` leaves the transaction of the
synchronisation open, and the flag says that there is none. -/
theorem commit_busy_left_open :
    let r := (Handle.opened .migrated).syncConfig (oneRoute "r" "fast") (.ok 2000)
      ⟨.done, [], .failed .busy false⟩
    r.2 = Status.dbBusy ∧ r.1.inTransaction = false ∧ r.1.engine.working.isSome = true ∧
      ¬ FailsWhole (.opened .migrated) (.sync (oneRoute "r" "fast") (.ok 2000)
        ⟨.done, [], .failed .busy false⟩) := by
  refine ⟨by decide, by decide, by decide, fun hwhole => ?_⟩
  obtain ⟨hnone | ⟨hflag, -⟩, -⟩ := hwhole (by decide)
  · revert hnone
    decide
  · cases hflag

end Runs
end AsmFlow.Repo
