import AsmFlow.Repo.Handle

/-!
# The migrations

`migrations.asm`. A migration is one transaction: its statements, then the row of its
version. What the migrations make of a database depends on its shape only: the tables
and indices that exist, and the versions that are recorded.
-/

namespace AsmFlow.Repo

open Http Library

/-- A statement of a migration: what it creates, and what has to exist for it. -/
structure Creation where
  name : String
  uses : List String
  deriving DecidableEq, Repr

structure Migration where
  version : ℤ
  statements : List Creation
  deriving DecidableEq, Repr

/-- `af_migration_table`. -/
def migrationTable : List Migration :=
  [⟨1,
      [⟨"schema_migrations", []⟩, ⟨"providers", []⟩, ⟨"routes", []⟩, ⟨"route_targets", []⟩,
        ⟨"provider_health", []⟩, ⟨"requests", []⟩, ⟨"requests_received_idx", ["requests"]⟩,
        ⟨"request_attempts", []⟩, ⟨"mcp_servers", []⟩, ⟨"mcp_capability_cache", []⟩,
        ⟨"settings", []⟩]⟩,
    ⟨2, [⟨"audit_events", []⟩]⟩]

/-- `AF_SCHEMA_VERSION`. -/
def schemaVersion : ℤ := 2

namespace Content

def create (name : String) (c : Content) : Content := { c with objects := c.objects ++ [name] }

/-- `sql_insert_version`. -/
def insertVersion (version now : ℤ) (c : Content) : Content :=
  { c with versions := c.versions ++ [(version, now)] }

/-- `sql_select_version`. -/
def version (c : Content) : ℤ := (c.versions.map Prod.fst).max?.getD 0

end Content

/-- The statements of a migration, of which those that `fails` marks are not tried. -/
def creationCalls (fails : ℕ → Bool) (statements : List Creation) : List Call :=
  statements.mapIdx fun i s =>
    if fails i then .outside (some ⟨Status.db, by decide⟩)
    else .sql (statement s.uses (Content.create s.name))

/-- The row of the version. -/
def versionCalls (version : ℤ) : Except Mcp.Fault ℤ → List Call
  | .error f => [.sql (statement ["schema_migrations"] id), .ready, .outside (some f)]
  | .ok now =>
    [.sql (statement ["schema_migrations"] id), .ready, .ready,
      .sql (statement ["schema_migrations"] (Content.insertVersion version now))]

/-- The calls of `af_migration_run_one`, with the statement that
`af_migrations_inject_failure_at` lets fail. -/
def Migration.calls (m : Migration) (failAt : ℤ) (clock : Except Mcp.Fault ℤ) : List Call :=
  creationCalls (fun i => failAt = i) m.statements ++ versionCalls m.version clock

/-- What the environment answers to one migration. -/
abbrev Turn := Except Mcp.Fault ℤ × Answers

/-- `af_migrations_current_version`. -/
def Handle.currentVersion (h : Handle) (replies : List SqlReply) : Handle × Status × ℤ :=
  match h.askAll [.ready, .ready] replies with
  | (h, st) =>
    if st < 0 then (h, st, 0)
    else if "schema_migrations" ∈ h.engine.visible.val.objects then
      match h.askAll [.ready, .ready] (replies.drop 2) with
      | (h, st) => if st < 0 then (h, st, 0) else (h, Status.ok, h.engine.visible.val.version)
    else (h, Status.ok, 0)

/-- The loop of `af_migrations_apply`, from the version that was found. -/
def Handle.applyFrom (h : Handle) (found failAt : ℤ) (turns : ℤ → Turn) :
    List Migration → Handle × Status
  | [] => (h, Status.ok)
  | m :: ms =>
    if m.version ≤ found then h.applyFrom found failAt turns ms
    else
      match h.transact (m.calls failAt (turns m.version).1) (turns m.version).2 with
      | (h, st) => if st < 0 then (h, st) else h.applyFrom found failAt turns ms

/-- `af_migrations_apply`. The recorded version is compared without its sign. -/
def Handle.migrate (h : Handle) (failAt : ℤ) (replies : List SqlReply) (turns : ℤ → Turn) :
    Handle × Status :=
  match h.currentVersion replies with
  | (h, st, found) =>
    if st < 0 then (h, st)
    else if found < 0 ∨ schemaVersion < found then (h, Status.dbSchema)
    else if found = schemaVersion then (h, Status.ok)
    else h.applyFrom found failAt turns migrationTable

/-- The tables and indices, and the recorded versions. -/
structure Shape where
  objects : List String
  versions : List ℤ
  deriving DecidableEq

def Content.shape (c : Content) : Shape := ⟨c.objects, c.versions.map Prod.fst⟩

namespace Shape

/-- The version of a database of this shape. -/
def version (s : Shape) : ℤ := s.versions.max?.getD 0

/-- A database that this build does not open. -/
def TooNew (s : Shape) : Prop := s.version < 0 ∨ schemaVersion < s.version

instance (s : Shape) : Decidable s.TooNew :=
  inferInstanceAs (Decidable (s.version < 0 ∨ schemaVersion < s.version))

end Shape

/-- The database that the migrations make of one without tables. -/
def Db.migrated : Db :=
  ⟨{ objects := migrationTable.flatMap fun m => m.statements.map (·.name)
     versions := migrationTable.map fun m => (m.version, 1000)
     providers := []
     routes := []
     targets := []
     health := []
     mcpServers := [] }, by decide⟩

/-- What a statement makes of the tables and indices. -/
def Creation.grow (objects : List String) (s : Creation) : Option (List String) :=
  if (∀ name ∈ s.uses, name ∈ objects) ∧ s.name ∉ objects then some (objects ++ [s.name]) else none

/-- What a migration makes of a shape. -/
def Migration.grow (s : Shape) (m : Migration) : Option Shape :=
  (m.statements.foldlM Creation.grow s.objects).bind fun objects =>
    if "schema_migrations" ∈ objects ∧ m.version ∉ s.versions then
      some ⟨objects, s.versions ++ [m.version]⟩
    else none

/-- The migrations that a database of this version lacks. -/
def pending (found : ℤ) : List Migration := migrationTable.filter (found < ·.version)

/-- The shape that the migrations lead to. -/
def Shape.final (s : Shape) : Option Shape :=
  if s.TooNew then none else (pending s.version).foldlM Migration.grow s

section Growth

variable {c : Content} {d d' : Db}

theorem Content.Consistent.create_iff (h : c.Consistent) (name : String) :
    (c.create name).Consistent ↔ name ∉ c.objects := by
  constructor
  · intro hcreated hmem
    have hnodup : (c.objects ++ [name]).Nodup := hcreated.objects
    exact (List.disjoint_of_nodup_append hnodup) hmem (List.mem_singleton_self name)
  · intro hnew
    exact { h with
      objects := List.Nodup.append h.objects (List.nodup_singleton _) (by simpa using hnew)
      versions_table := fun hne => List.mem_append_left _ (h.versions_table hne) }

theorem Content.Consistent.insertVersion_iff (h : c.Consistent) (version now : ℤ) :
    (c.insertVersion version now).Consistent ↔
      "schema_migrations" ∈ c.objects ∧ version ∉ c.versions.map Prod.fst := by
  have hversions : (c.insertVersion version now).versions.map Prod.fst =
      c.versions.map Prod.fst ++ [version] := by
    rw [Content.insertVersion, List.map_append]
    rfl
  constructor
  · intro hinserted
    have hnodup := hinserted.versions
    rw [hversions] at hnodup
    refine ⟨hinserted.versions_table (by simp [Content.insertVersion]), fun hmem => ?_⟩
    exact (List.disjoint_of_nodup_append hnodup) hmem (List.mem_singleton_self version)
  · rintro ⟨htable, hnew⟩
    refine { h with versions := ?_, versions_table := fun _ => htable }
    rw [hversions]
    exact List.Nodup.append h.versions (List.nodup_singleton _) (by simpa using hnew)

theorem statement_eq_ok (uses : List String) (f : Content → Content) :
    statement uses f d = .ok d' ↔
      (∀ name ∈ uses, name ∈ d.val.objects) ∧ d'.val = f d.val := by
  unfold statement
  constructor
  · intro h
    split_ifs at h with huses hf
    exact ⟨huses, (congrArg Subtype.val (Except.ok.inj h)).symm⟩
  · rintro ⟨huses, hval⟩
    have hf : (f d.val).Consistent := hval ▸ d'.property
    rw [if_pos huses, dif_pos hf]
    exact congrArg Except.ok (Subtype.ext hval.symm)

/-- The statements that are carried out are those that the shape allows. -/
theorem grow_of_creationCalls {fails : ℕ → Bool} {statements : List Creation}
    (hcarry : carryOut (creationCalls fails statements) d = .ok d') :
    statements.foldlM Creation.grow d.val.objects = some d'.val.objects ∧
      d'.val.versions = d.val.versions := by
  induction statements generalizing d fails with
  | nil =>
    obtain rfl := Except.ok.inj hcarry
    exact ⟨rfl, rfl⟩
  | cons s statements ih =>
    rw [creationCalls, List.mapIdx_cons, carryOut_cons] at hcarry
    cases hfails : fails 0 with
    | true =>
      rw [hfails] at hcarry
      cases hcarry
    | false =>
      rw [hfails] at hcarry
      cases heffect : statement s.uses (Content.create s.name) d with
      | error code =>
        rw [if_neg (by decide), Call.effect, heffect] at hcarry
        cases hcarry
      | ok d₁ =>
        rw [if_neg (by decide), Call.effect, heffect] at hcarry
        obtain ⟨hgrow, hversions⟩ := ih hcarry
        obtain ⟨huses, hval⟩ := (statement_eq_ok _ _).mp heffect
        have hnew : s.name ∉ d.val.objects :=
          (d.property.create_iff s.name).mp (hval ▸ d₁.property)
        rw [hval] at hgrow hversions
        refine ⟨?_, hversions⟩
        rw [List.foldlM_cons, Creation.grow, if_pos ⟨huses, hnew⟩]
        exact hgrow

theorem creationCalls_of_grow (fails : ℕ → Bool) (hnone : ∀ i, fails i = false)
    {statements : List Creation} {objects : List String}
    (hgrow : statements.foldlM Creation.grow d.val.objects = some objects) :
    ∃ d', carryOut (creationCalls fails statements) d = .ok d' := by
  induction statements generalizing d fails with
  | nil => exact ⟨d, rfl⟩
  | cons s statements ih =>
    rw [List.foldlM_cons, Creation.grow] at hgrow
    split_ifs at hgrow with hallowed
    · obtain ⟨huses, hnew⟩ := hallowed
      have heffect : statement s.uses (Content.create s.name) d =
          .ok ⟨d.val.create s.name, (d.property.create_iff s.name).mpr hnew⟩ :=
        (statement_eq_ok _ _).mpr ⟨huses, rfl⟩
      obtain ⟨d', hcarry⟩ := ih (fun i => fails (i + 1)) (fun i => hnone (i + 1))
        (d := ⟨d.val.create s.name, (d.property.create_iff s.name).mpr hnew⟩) hgrow
      refine ⟨d', ?_⟩
      rw [creationCalls, List.mapIdx_cons, carryOut_cons, hnone 0, if_neg (by decide), Call.effect,
        heffect]
      exact hcarry
    · cases hgrow

theorem carryOut_versionCalls {version now : ℤ} :
    carryOut (versionCalls version (.ok now)) d =
      (statement ["schema_migrations"] id d).bind
        (statement ["schema_migrations"] (Content.insertVersion version now)) := by
  rw [versionCalls, carryOut_cons, Call.effect]
  congr 1
  funext d₁
  rw [carryOut_ready, carryOut_ready, carryOut_single]

theorem grow_of_calls {m : Migration} {failAt : ℤ} {clock : Except Mcp.Fault ℤ}
    (hcarry : carryOut (m.calls failAt clock) d = .ok d') :
    Migration.grow d.val.shape m = some d'.val.shape := by
  rw [Migration.calls, carryOut_append] at hcarry
  cases hcreated : carryOut (creationCalls (fun i => failAt = i) m.statements) d with
  | error code =>
    rw [hcreated] at hcarry
    cases hcarry
  | ok d₁ =>
    rw [hcreated] at hcarry
    obtain ⟨hgrow, hversions⟩ := grow_of_creationCalls hcreated
    cases clock with
    | error f =>
      have hfails : carryOut (versionCalls m.version (.error f)) d₁ = .ok d' := hcarry
      rw [versionCalls, carryOut_cons, Call.effect] at hfails
      cases hprepared : statement ["schema_migrations"] id d₁ with
      | error code =>
        rw [hprepared] at hfails
        cases hfails
      | ok d₂ =>
        rw [hprepared] at hfails
        cases hfails
    | ok now =>
      have hinserted : carryOut (versionCalls m.version (.ok now)) d₁ = .ok d' := hcarry
      rw [carryOut_versionCalls] at hinserted
      cases hprepared : statement ["schema_migrations"] id d₁ with
      | error code =>
        rw [hprepared] at hinserted
        cases hinserted
      | ok d₂ =>
        rw [hprepared] at hinserted
        obtain rfl : d₂ = d₁ := Subtype.ext ((statement_eq_ok _ _).mp hprepared).2
        obtain ⟨-, hval⟩ := (statement_eq_ok _ _).mp hinserted
        obtain ⟨htable, hnew⟩ :=
          (d₂.property.insertVersion_iff m.version now).mp (hval ▸ d'.property)
        rw [hversions] at hnew
        have hshape : d'.val.shape = ⟨d₂.val.objects, d.val.shape.versions ++ [m.version]⟩ := by
          rw [hval, Content.insertVersion, Content.shape, List.map_append, hversions]
          rfl
        have hgrow' : m.statements.foldlM Creation.grow d.val.shape.objects = some d₂.val.objects :=
          hgrow
        rw [Migration.grow, hgrow', Option.bind_some, if_pos ⟨htable, hnew⟩, hshape]

/-- Where no call fails and nothing is injected, a migration is carried out if the
shape allows it. -/
theorem calls_of_grow {m : Migration} {s : Shape} (hgrow : Migration.grow d.val.shape m = some s)
    (now : ℤ) : ∃ d', carryOut (m.calls (-1) (.ok now)) d = .ok d' := by
  rw [Migration.grow] at hgrow
  obtain ⟨objects, hcreated, hversion⟩ := Option.bind_eq_some_iff.mp hgrow
  split_ifs at hversion with hallowed
  obtain ⟨htable, hnew⟩ := hallowed
  obtain ⟨d₁, hcarry⟩ := creationCalls_of_grow (fun i => -1 = (i : ℤ))
    (fun i => by simp) hcreated
  obtain ⟨hobjects, hversions⟩ := grow_of_creationCalls hcarry
  have hsame : d₁.val.objects = objects := Option.some.inj (hobjects.symm.trans hcreated)
  have htable₁ : "schema_migrations" ∈ d₁.val.objects := hsame ▸ htable
  have hnew₁ : m.version ∉ d₁.val.versions.map Prod.fst := hversions ▸ hnew
  have hconsistent := (d₁.property.insertVersion_iff m.version now).mpr ⟨htable₁, hnew₁⟩
  have hprepared : statement ["schema_migrations"] id d₁ = .ok d₁ :=
    (statement_eq_ok _ _).mpr ⟨by simpa using htable₁, rfl⟩
  have hinserted : statement ["schema_migrations"] (Content.insertVersion m.version now) d₁ =
      .ok ⟨_, hconsistent⟩ := (statement_eq_ok _ _).mpr ⟨by simpa using htable₁, rfl⟩
  refine ⟨⟨_, hconsistent⟩, ?_⟩
  rw [Migration.calls, carryOut_append, hcarry]
  change carryOut (versionCalls m.version (.ok now)) d₁ = _
  rw [carryOut_versionCalls, hprepared]
  exact hinserted

end Growth

section Versions

variable {s s' : Shape} {m : Migration} {ms : List Migration} {found : ℤ}

theorem Shape.le_version {v : ℤ} (hv : v ∈ s.versions) : v ≤ s.version := by
  cases hmax : s.versions.max? with
  | none =>
    rw [List.max?_eq_none_iff] at hmax
    rw [hmax] at hv
    cases hv
  | some top =>
    rw [Shape.version, hmax, Option.getD_some]
    exact (List.max?_eq_some_iff.mp hmax).2 v hv

/-- A migration above the version of a database raises it to its own. -/
theorem version_of_grow (hgrow : Migration.grow s m = some s') (habove : s.version < m.version) :
    s'.version = m.version := by
  obtain ⟨objects, -, hversion⟩ := Option.bind_eq_some_iff.mp hgrow
  split_ifs at hversion
  obtain rfl := Option.some.inj hversion
  have hmax : (s.versions ++ [m.version]).max? = some m.version := by
    rw [List.max?_eq_some_iff]
    refine ⟨by simp, fun v hv => ?_⟩
    rcases List.mem_append.mp hv with hv | hv
    · exact (Shape.le_version hv).trans habove.le
    · exact (List.mem_singleton.mp hv).le
  rw [Shape.version, hmax, Option.getD_some]

theorem migrationTable_sorted : migrationTable.Pairwise (·.version < ·.version) := by decide

theorem migrationTable_range : ∀ m ∈ migrationTable, 0 ≤ m.version ∧ m.version ≤ schemaVersion := by
  decide

/-- What is pending is done from its first migration on, which leaves the others. -/
theorem pending_next (h : pending found = m :: ms) :
    found < m.version ∧ 0 ≤ m.version ∧ m.version ≤ schemaVersion ∧ pending m.version = ms := by
  have hm : m ∈ pending found := h ▸ List.mem_cons_self
  obtain ⟨htable, hfound⟩ := List.mem_filter.mp hm
  have hfound : found < m.version := of_decide_eq_true hfound
  obtain ⟨hlow, hhigh⟩ := migrationTable_range m htable
  refine ⟨hfound, hlow, hhigh, ?_⟩
  have hsorted : (m :: ms).Pairwise (·.version < ·.version) := by
    rw [← h]
    exact migrationTable_sorted.filter _
  have htwice : pending m.version = (pending found).filter (m.version < ·.version) := by
    rw [pending, pending, List.filter_filter]
    refine List.filter_congr fun x _ => ?_
    rw [← Bool.decide_and, decide_eq_decide]
    exact ⟨fun hx => ⟨hx, hfound.trans hx⟩, fun hx => hx.1⟩
  rw [htwice, h, List.filter_cons_of_neg (by simp)]
  refine List.filter_eq_self.mpr fun x hx => ?_
  exact decide_eq_true (List.rel_of_pairwise_cons hsorted hx)

theorem pending_schemaVersion : pending schemaVersion = [] := by decide

theorem final_of_pending_nil (hopen : ¬ s.TooNew) (h : pending s.version = []) :
    s.final = some s := by
  rw [Shape.final, if_neg hopen, h]
  rfl

theorem final_of_pending_cons (hopen : ¬ s.TooNew) (h : pending s.version = m :: ms) :
    s.final = (Migration.grow s m).bind fun s => ms.foldlM Migration.grow s := by
  rw [Shape.final, if_neg hopen, h, List.foldlM_cons]
  rfl

/-- A migration that is done changes nothing of what the migrations lead to. -/
theorem final_of_grow (hopen : ¬ s.TooNew) (h : pending s.version = m :: ms)
    (hgrow : Migration.grow s m = some s') :
    ¬ s'.TooNew ∧ pending s'.version = ms ∧ s'.final = s.final := by
  obtain ⟨habove, hlow, hhigh, hrest⟩ := pending_next h
  have hversion := version_of_grow hgrow habove
  rw [← hversion] at hlow hhigh hrest
  have hopen' : ¬ s'.TooNew := by
    rintro (hneg | hbig)
    · exact absurd hneg (not_lt.mpr hlow)
    · exact absurd hbig (not_lt.mpr hhigh)
  refine ⟨hopen', hrest, ?_⟩
  rw [final_of_pending_cons hopen h, hgrow, Option.bind_some, Shape.final, if_neg hopen', hrest]

end Versions
end AsmFlow.Repo
