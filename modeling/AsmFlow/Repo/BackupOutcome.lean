import AsmFlow.Repo.Backup

/-!
# What a backup leaves behind

Every way out of a backup gives back what it holds, once, and removes the name if it made it,
unless the backup succeeded.
-/

namespace AsmFlow.Repo

open Library

/-- What a frame holds; a restore lends its verified handle. -/
def Backup.holds (b : Backup) (copying lent : Bool) : Resource → Bool
  | .name => b.created
  | .reservation => b.reservation
  | .destination => b.handle
  | .backup => copying
  | .verified => lent

/-- A frame that has made the file, between the calls. -/
structure Backup.Owns (b : Backup) (copying lent : Bool) : Prop where
  created : b.created = true
  site : b.site = .own
  settled : b.ledger.Settled fun k => b.holds copying lent k = true

/-- The outcome of a failure: nothing is held, the name was made and removed. -/
structure Removed (env : BackupEnv) (lent : Bool) (r : Backup × Status) : Prop where
  neg : r.2 < 0
  settled : r.1.ledger.Settled fun k => k = .verified ∧ lent = true
  taken : r.1.ledger.taken .name = true
  site : env.unlink = none → r.1.site = .empty

/-- The outcome of a success: the name is there, and nothing else is held. -/
structure Kept (lent : Bool) (r : Backup × Status) : Prop where
  ok : r.2 = .ok
  settled : r.1.ledger.Settled fun k => k = .name ∨ k = .verified ∧ lent = true
  taken : r.1.ledger.taken .name = true
  site : r.1.site = .own

section Frame

variable {env : BackupEnv} {b : Backup} {copying lent : Bool} {st : Status}

/-- A resource is given back. -/
theorem Backup.Owns.free {b' : Backup} {copying' : Bool} {r : Resource}
    (h : b.Owns copying lent) (hheld : b.holds copying lent r = true)
    (hcreated : b'.created = true) (hsite : b'.site = .own)
    (hledger : b'.ledger = b.ledger.free (· = r))
    (hholds : ∀ k, b'.holds copying' lent k = (b.holds copying lent k && decide (k ≠ r))) :
    b'.Owns copying' lent := by
  refine ⟨hcreated, hsite, ?_⟩
  rw [hledger]
  apply h.settled.free
  · intro k hk
    rw [of_decide_eq_true hk]
    exact hheld
  · intro k
    rw [hholds k, Bool.and_eq_true, decide_eq_true_eq, decide_eq_false_iff_not]

/-- A resource is acquired that was not before. -/
theorem Backup.Owns.take {b' : Backup} {copying' : Bool} {r : Resource}
    (h : b.Owns copying lent) (hnew : b.ledger.taken r = false)
    (hcreated : b'.created = true) (hsite : b'.site = .own)
    (hledger : b'.ledger = b.ledger.take (· = r))
    (hholds : ∀ k, b'.holds copying' lent k = (decide (k = r) || b.holds copying lent k)) :
    b'.Owns copying' lent := by
  refine ⟨hcreated, hsite, ?_⟩
  rw [hledger]
  apply h.settled.take
  · intro k hk
    rw [of_decide_eq_true hk]
    exact hnew
  · intro k
    rw [hholds k, Bool.or_eq_true]

theorem Backup.Owns.closeDb (h : b.Owns copying lent) : b.closeDb.Owns copying lent := by
  unfold Backup.closeDb
  split_ifs with hhandle
  · refine h.free (r := .destination) hhandle h.created h.site rfl fun k => ?_
    cases k <;> simp [Backup.holds]
  · exact h

theorem Backup.Owns.closeReservation (h : b.Owns copying lent) (hheld : b.reservation = true) :
    b.closeReservation.Owns copying lent := by
  refine h.free (r := .reservation) hheld h.created h.site rfl fun k => ?_
  cases k <;> simp [Backup.holds, Backup.closeReservation]

/-- A failure or a success, with the steps of this frame. -/
def Ends (env : BackupEnv) (lent : Bool) (b : Backup) (r : Backup × Status) : Prop :=
  (Removed env lent r ∨ Kept lent r) ∧ r.1.steps = b.steps

theorem Backup.closeDb_handle (b : Backup) : b.closeDb.handle = false := by
  unfold Backup.closeDb
  split_ifs with hhandle
  · rfl
  · exact Bool.not_eq_true _ ▸ hhandle

@[simp] theorem Backup.closeDb_steps (b : Backup) : b.closeDb.steps = b.steps := by
  unfold Backup.closeDb
  split_ifs <;> rfl

/-- Behind both closes only the name is held. -/
theorem Backup.Owns.closeBoth (h : b.Owns false lent) :
    let d := if b.closeDb.reservation then b.closeDb.closeReservation else b.closeDb
    d.Owns false lent ∧ d.handle = false ∧ d.reservation = false ∧ d.steps = b.steps := by
  dsimp only
  split_ifs with hheld
  · exact ⟨h.closeDb.closeReservation hheld, b.closeDb_handle, rfl, b.closeDb_steps⟩
  · exact ⟨h.closeDb, b.closeDb_handle, Bool.not_eq_true _ ▸ hheld, b.closeDb_steps⟩

/-- Cleaning up is the outcome of a failure. -/
theorem Backup.Owns.cleanup (h : b.Owns false lent) (hneg : st < 0) :
    Ends env lent b (b.cleanup env st) := by
  obtain ⟨hd, hhandle, hreservation, hsteps⟩ := h.closeBoth
  have htaken := (hd.settled.kept .name hd.created).1
  unfold Backup.cleanup
  dsimp only at hd hhandle hreservation hsteps htaken ⊢
  rw [if_pos hd.created]
  refine ⟨Or.inl ⟨hneg, ?_, htaken, fun hunlink => by simp [hunlink]⟩, hsteps⟩
  apply hd.settled.free
  · intro k hk
    rw [of_decide_eq_true hk]
    exact hd.created
  · intro k
    cases k <;> simp [Backup.holds, hhandle, hreservation]

theorem Ends.congr {b' : Backup} {r : Backup × Status} (h : Ends env lent b' r)
    (hsteps : b'.steps = b.steps) : Ends env lent b r :=
  ⟨h.1, h.2.trans hsteps⟩

/-- A complete backup is kept or cleaned up. -/
theorem Backup.Owns.complete (h : b.Owns false lent) (hheld : b.reservation = true) :
    Ends env lent b (b.complete env) := by
  have hdb := h.closeDb
  have hheld' : b.closeDb.reservation = true := by
    unfold Backup.closeDb
    split_ifs <;> exact hheld
  have hclosed := hdb.closeReservation hheld'
  unfold Backup.complete
  dsimp only
  split_ifs with hintegrity
  · exact h.cleanup hintegrity
  · cases env.chmodAgain with
    | some e => exact (hdb.cleanup (statusFromErrno_neg e)).congr b.closeDb_steps
    | none =>
      cases env.sync with
      | some e => exact (hdb.cleanup (statusFromErrno_neg e)).congr b.closeDb_steps
      | none =>
        cases env.close with
        | some e => exact (hclosed.cleanup (statusFromErrno_neg e)).congr b.closeDb_steps
        | none =>
          refine ⟨Or.inr ⟨rfl, ?_, (hclosed.settled.kept .name hclosed.created).1, hclosed.site⟩,
            b.closeDb_steps⟩
          apply hclosed.settled.congr
          intro k
          have hcreated := hdb.created
          have hhandle := b.closeDb_handle
          cases k <;> simp [Backup.holds, hcreated, Backup.closeReservation, hhandle]

theorem Backup.Owns.finishBackup (h : b.Owns true lent) (hheld : b.reservation = true) :
    Ends env lent b (b.finishBackup env st) := by
  have hfree : { b with ledger := b.ledger.free (· = Resource.backup) }.Owns false lent := by
    refine h.free (r := .backup) rfl h.created h.site rfl fun k => ?_
    cases k <;> simp [Backup.holds]
  unfold Backup.finishBackup
  dsimp only
  split_ifs with hneg
  · exact hfree.cleanup hneg
  · cases env.finish with
    | some e => exact hfree.cleanup (statusFromCode_neg e)
    | none => exact hfree.complete hheld

/-- So many steps copied the whole source, and after none was it larger than the ceiling. -/
structure Within (env : BackupEnv) (pageSize ceiling steps : ℕ) : Prop where
  sized : ∀ i < steps, 0 ≤ (env.step i).pageCount ∧
    (env.step i).pageCount.toNat * pageSize ≤ ceiling
  done : ∃ i, steps = i + 1 ∧ (env.step i).code = .done

theorem mulSize_eq_some {a c bytes : ℕ} (h : Mcp.mulSize a c = some bytes) : bytes = a * c := by
  unfold Mcp.mulSize at h
  split_ifs at h
  exact (Option.some.inj h).symm

theorem sized_succ {pageSize ceiling n bytes : ℕ}
    (hn : ∀ i < n, 0 ≤ (env.step i).pageCount ∧
      (env.step i).pageCount.toNat * pageSize ≤ ceiling)
    (hnegative : ¬ (env.step n).pageCount < 0)
    (hbytes : Mcp.mulSize (env.step n).pageCount.toNat pageSize = some bytes)
    (hlarge : ¬ ceiling < bytes) :
    ∀ i < n + 1, 0 ≤ (env.step i).pageCount ∧
      (env.step i).pageCount.toNat * pageSize ≤ ceiling := by
  intro i hi
  rcases Nat.lt_succ_iff_lt_or_eq.mp hi with hi | rfl
  · exact hn i hi
  · exact ⟨not_lt.mp hnegative, mulSize_eq_some hbytes ▸ not_lt.mp hlarge⟩

/-- The loop ends: it takes the steps it may at most, and succeeds with sizes below the ceiling. -/
theorem stepLoop_spec (env : BackupEnv) (pageSize ceiling left n : ℕ)
    (hn : ∀ i < n, 0 ≤ (env.step i).pageCount ∧
      (env.step i).pageCount.toNat * pageSize ≤ ceiling) :
    let r := Backup.stepLoop env pageSize ceiling left n
    r.2 ≤ n + left ∧ (r.1 < 0 ∨ Within env pageSize ceiling r.2) := by
  have hlimit : Status.limit < 0 := by decide
  have hdb : Status.db < 0 := by decide
  have hoverflow : Status.overflow < 0 := by decide
  fun_induction Backup.stepLoop env pageSize ceiling left n with
  | case1 n => exact ⟨le_rfl, Or.inl hlimit⟩
  | case2 left n e hcode => exact ⟨by dsimp only; omega, Or.inl (statusFromCode_neg e)⟩
  | case3 left n hnegative hcode => exact ⟨by dsimp only; omega, Or.inl hdb⟩
  | case4 left n hnegative hbytes hcode => exact ⟨by dsimp only; omega, Or.inl hoverflow⟩
  | case5 left n hnegative bytes hbytes hlarge hcode =>
    exact ⟨by dsimp only; omega, Or.inl hlimit⟩
  | case6 left n hnegative bytes hbytes hlarge hcode hdone =>
    exact ⟨by dsimp only; omega, Or.inr ⟨sized_succ hn hnegative hbytes hlarge, n, rfl, hdone⟩⟩
  | case7 left n hnegative bytes hbytes hlarge hcode hdone ih =>
    obtain ⟨hsteps, hends⟩ := ih (sized_succ hn hnegative hbytes hlarge)
    exact ⟨by omega, hends⟩

/-- What becomes of a backup whose file was made, at most so many steps later. -/
structure Made (env : BackupEnv) (lent : Bool) (pageSize ceiling : ℕ) (r : Backup × Status) :
    Prop where
  ends : Removed env lent r ∨ Kept lent r ∧ Within env pageSize ceiling r.1.steps
  steps : r.1.steps ≤ backupMaxSteps

theorem Ends.made {pageSize ceiling : ℕ} {r : Backup × Status} (h : Ends env lent b r)
    (hsteps : b.steps ≤ backupMaxSteps)
    (hwithin : r.2 < 0 ∨ Within env pageSize ceiling b.steps) : Made env lent pageSize ceiling r := by
  obtain ⟨hends, hsame⟩ := h
  refine ⟨?_, hsame ▸ hsteps⟩
  rcases hends with hremoved | hkept
  · exact Or.inl hremoved
  · refine Or.inr ⟨hkept, hsame ▸ hwithin.resolve_left fun hneg => ?_⟩
    rw [hkept.ok] at hneg
    exact absurd hneg (by decide)

theorem Backup.finishBackup_neg (hneg : st < 0) : (b.finishBackup env st).2 = st := by
  unfold Backup.finishBackup
  dsimp only
  rw [if_pos hneg]
  unfold Backup.cleanup
  dsimp only
  split_ifs <;> rfl

/-- A frame that has not begun to copy. -/
structure Backup.Fresh (b : Backup) (lent : Bool) : Prop extends b.Owns false lent where
  reservation : b.reservation = true
  steps : b.steps = 0
  backup : b.ledger.taken .backup = false

theorem Backup.Fresh.failed {pageSize ceiling : ℕ} (h : b.Fresh lent) (hneg : st < 0) :
    Made env lent pageSize ceiling (b.cleanup env st) := by
  refine (h.toOwns.cleanup hneg).made (h.steps ▸ Nat.zero_le _) (Or.inl ?_)
  unfold Backup.cleanup
  dsimp only
  split_ifs <;> exact hneg

theorem Backup.Fresh.copy {pageSize ceiling : ℕ} (h : b.Fresh lent) :
    Made env lent pageSize ceiling (b.copy env pageSize ceiling) := by
  unfold Backup.copy
  cases env.init with
  | some e => exact h.failed (statusFromCode_neg e)
  | none =>
    obtain ⟨hsteps, hwithin⟩ := stepLoop_spec env pageSize ceiling backupMaxSteps 0
      fun i hi => absurd hi (Nat.not_lt_zero i)
    rcases hloop : Backup.stepLoop env pageSize ceiling backupMaxSteps 0 with ⟨st, steps⟩
    rw [hloop] at hsteps hwithin
    dsimp only at hsteps hwithin ⊢
    rw [Nat.zero_add] at hsteps
    have hcopying : { b with ledger := b.ledger.take (· = Resource.backup), steps }.Owns
        true lent := by
      refine h.toOwns.take h.backup h.created h.site rfl fun k => ?_
      cases k <;> simp [Backup.holds]
    refine (hcopying.finishBackup h.reservation).made hsteps ?_
    exact hwithin.imp_left fun hneg => (Backup.finishBackup_neg hneg).symm ▸ hneg

/-- The destination is opened, or leaves a handle behind. -/
theorem Backup.Fresh.opened (h : b.Fresh lent) (hhandle : b.handle = false)
    (hnew : b.ledger.taken .destination = false) (handle : Bool) :
    { b with
      handle
      ledger := b.ledger.take fun k => handle && k = Resource.destination }.Fresh lent := by
  cases handle with
  | true =>
    refine ⟨?_, h.reservation, h.steps, ?_⟩
    · refine h.toOwns.take hnew h.created h.site rfl fun k => ?_
      cases k <;> simp [Backup.holds]
    · simp [Ledger.take, h.backup]
  | false =>
    refine ⟨⟨h.created, h.site, ?_⟩, h.reservation, h.steps, ?_⟩
    · refine Ledger.Settled.congr (l := b.ledger) h.settled fun k => ?_
      cases k <;> simp [Backup.holds, hhandle]
    · simp [Ledger.take, h.backup]

theorem Backup.Fresh.fill {pageSize ceiling : ℕ} (h : b.Fresh lent) (hhandle : b.handle = false)
    (hnew : b.ledger.taken .destination = false) :
    Made env lent pageSize ceiling (b.fill env pageSize ceiling) := by
  unfold Backup.fill
  cases env.chmod with
  | some e => exact h.failed (statusFromErrno_neg e)
  | none =>
    cases env.opening with
    | failed e handle => exact (h.opened hhandle hnew handle).failed (statusFromCode_neg e)
    | opened =>
      have hopened := h.opened hhandle hnew true
      simp only [Bool.true_and] at hopened
      exact hopened.copy

end Frame

/-! ## The whole call -/

/-- Nothing of a backup was acquired; a restore lends its verified handle. -/
structure Untouched (lent : Bool) (l : Ledger Resource) : Prop where
  settled : l.Settled fun k => k = .verified ∧ lent = true
  unmade : ∀ k, k ≠ .verified → l.taken k = false

/-- What a backup from this site leaves. -/
structure Outcome (env : BackupEnv) (before : Site) (ceiling : ℕ) (lent : Bool)
    (r : Backup × Status) : Prop where
  status : r.2 = .ok ∨ r.2 < 0
  settled : r.1.ledger.Settled fun k => k = .name ∧ r.2 = .ok ∨ k = .verified ∧ lent = true
  made : r.1.ledger.taken .name = true → before = .empty
  untouched : r.1.ledger.taken .name = false → r.2 < 0 ∧ r.1.site = before
  removed : r.1.ledger.taken .name = true → r.2 < 0 → env.unlink = none → r.1.site = .empty
  kept : r.2 = .ok → r.1.ledger.taken .name = true ∧ r.1.site = .own ∧
    ∃ bytes pageSize, measure env.pageCount env.pageSize = .ok (bytes, pageSize) ∧
      bytes ≤ ceiling ∧ Within env pageSize ceiling r.1.steps
  steps : r.1.steps ≤ backupMaxSteps

section Whole

variable {env : BackupEnv} {before : Site} {lent : Bool} {l : Ledger Resource} {st : Status}
  {ceiling : ℕ}

/-- A failure before the file is made. -/
theorem Untouched.outcome (h : Untouched lent l) (hneg : st < 0) :
    Outcome env before ceiling lent (.start before l, st) := by
  have hok : st ≠ .ok := ne_of_lt hneg
  have hname : l.taken .name = false := h.unmade .name (by decide)
  refine ⟨Or.inr hneg, ?_, fun hmade => ?_, fun _ => ⟨hneg, rfl⟩, fun hmade => ?_,
    fun h => absurd h hok, Nat.zero_le _⟩
  · exact h.settled.congr fun k => by simp [hok]
  · exact absurd (hname.symm.trans hmade) (by decide)
  · exact absurd (hname.symm.trans hmade) (by decide)

theorem Made.outcome {bytes pageSize : ℕ} {r : Backup × Status}
    (h : Made env lent pageSize ceiling r) (hempty : before = .empty)
    (hmeasure : measure env.pageCount env.pageSize = .ok (bytes, pageSize))
    (hbytes : bytes ≤ ceiling) : Outcome env before ceiling lent r := by
  obtain ⟨hremoved | ⟨hkept, hwithin⟩, hsteps⟩ := h
  · have hok : r.2 ≠ .ok := ne_of_lt hremoved.neg
    refine ⟨Or.inr hremoved.neg, ?_, fun _ => hempty, fun hnot => ?_,
      fun _ _ hunlink => hremoved.site hunlink, fun h => absurd h hok, hsteps⟩
    · exact hremoved.settled.congr fun k => by simp [hok]
    · exact absurd (hnot.symm.trans hremoved.taken) (by decide)
  · have hneg : ¬ r.2 < 0 := by
      rw [hkept.ok]
      decide
    refine ⟨Or.inl hkept.ok, ?_, fun _ => hempty, fun hnot => ?_, fun _ h => absurd h hneg,
      fun _ => ⟨hkept.taken, hkept.site, bytes, pageSize, hmeasure, hbytes, hwithin⟩, hsteps⟩
    · exact hkept.settled.congr fun k => by simp [hkept.ok]
    · exact absurd (hnot.symm.trans hkept.taken) (by decide)

theorem queryI64_neg {a : RowAnswer ℤ} (h : queryI64 a = .error st) : st < 0 := by
  cases a with
  | unprepared e => exact Except.error.inj h ▸ statusFromCode_neg e
  | unstepped e => exact Except.error.inj h ▸ statusFromCode_neg e
  | noRow => exact Except.error.inj h ▸ (by decide : Status.eof < 0)
  | row v =>
    unfold queryI64 RowAnswer.read at h
    dsimp only at h
    split_ifs at h
    exact Except.error.inj h ▸ (by decide : Status.dbSchema < 0)

theorem measure_neg {count size : RowAnswer ℤ} (h : measure count size = .error st) : st < 0 := by
  have hschema : Status.dbSchema < 0 := by decide
  unfold measure at h
  cases hcount : queryI64 count with
  | error e =>
    rw [hcount] at h
    exact Except.error.inj h ▸ queryI64_neg hcount
  | ok pages =>
    rw [hcount] at h
    dsimp only at h
    cases hsize : queryI64 size with
    | error e =>
      rw [hsize] at h
      exact Except.error.inj h ▸ queryI64_neg hsize
    | ok pageSize =>
      rw [hsize] at h
      dsimp only at h
      split_ifs at h
      · exact Except.error.inj h ▸ hschema
      · exact Except.error.inj h ▸ hschema
      · exact Except.error.inj h ▸ hschema
      · split at h
        · exact Except.error.inj h ▸ (by decide : Status.overflow < 0)
        · cases h

theorem createAnswer_none {site : Site} (h : Backup.createAnswer env site = none) :
    site = .empty := by
  unfold Backup.createAnswer at h
  split_ifs at h with hempty
  exact hempty

theorem toPath_outcome (h : Untouched lent l) (path : Option Bytes) :
    Outcome env before ceiling lent ((Backup.start before l).toPath env path ceiling) := by
  unfold Backup.toPath
  rcases env.source with _ | _ | _
  · exact h.outcome (by decide)
  · exact h.outcome (by decide)
  · dsimp only
    split_ifs with hpath hzero hhard
    · exact h.outcome hpath
    · exact h.outcome (by decide)
    · exact h.outcome (by decide)
    · cases hmeasure : measure env.pageCount env.pageSize with
      | error e => exact h.outcome (measure_neg hmeasure)
      | ok sizes =>
        obtain ⟨bytes, pageSize⟩ := sizes
        dsimp only
        split_ifs with hlarge
        · exact h.outcome (by decide)
        · cases hcreate : Backup.createAnswer env (Backup.start before l).site with
          | some e => exact h.outcome (statusFromErrno_neg e)
          | none =>
            dsimp only
            refine (Backup.Fresh.fill ⟨⟨rfl, rfl, ?_⟩, rfl, rfl, ?_⟩ rfl ?_).outcome
              (createAnswer_none hcreate) hmeasure (not_lt.mp hlarge)
            · apply h.settled.take
              · intro k hk
                rcases of_decide_eq_true hk with rfl | rfl
                · exact h.unmade .name (by decide)
                · exact h.unmade .reservation (by decide)
              · intro k
                cases k <;> simp [Backup.holds, Backup.start]
            · simpa [Ledger.take, Backup.start] using h.unmade .backup (by decide)
            · simpa [Ledger.take, Backup.start] using h.unmade .destination (by decide)

/-- Nothing was acquired at all. -/
theorem untouched_empty : Untouched false Ledger.empty :=
  ⟨Ledger.settled_empty fun k => by simp, fun _ _ => rfl⟩

theorem untouched_verified : Untouched true (Ledger.empty.take (· = Resource.verified)) := by
  refine ⟨?_, fun k hk => by simp [Ledger.take, Ledger.empty, hk]⟩
  have hempty : (Ledger.empty : Ledger Resource).Settled fun _ => False :=
    Ledger.settled_empty fun _ => id
  apply hempty.take
  · exact fun k hk => rfl
  · intro k
    simp

theorem Untouched.close (h : Untouched true l) : Untouched false (closeVerified true l) := by
  refine ⟨?_, h.unmade⟩
  apply h.settled.free
  · intro k hk
    exact ⟨of_decide_eq_true hk, rfl⟩
  · intro k
    simp

/-- A verified backup is open, or nothing is. -/
theorem openVerified_spec (env : VerifyEnv) (path : Option Bytes) (ceiling : ℕ) :
    let r := openVerified env path ceiling Ledger.empty
    r.2 < 0 ∧ Untouched false r.1 ∨ r.2 = .ok ∧ Untouched true r.1 := by
  have hlimit : Status.limit < 0 := by decide
  unfold openVerified
  by_cases hpath : validatePath path < 0
  · rw [if_pos hpath]
    exact Or.inl ⟨hpath, untouched_empty⟩
  by_cases hzero : ceiling = 0
  · rw [if_neg hpath, if_pos hzero]
    exact Or.inl ⟨by decide, untouched_empty⟩
  by_cases hhard : backupHardMax < ceiling
  · rw [if_neg hpath, if_neg hzero, if_pos hhard]
    exact Or.inl ⟨hlimit, untouched_empty⟩
  rw [if_neg hpath, if_neg hzero, if_neg hhard]
  cases env.opening with
  | failed e handle =>
    refine Or.inl ⟨statusFromCode_neg e, ?_⟩
    cases handle with
    | true =>
      simp only [Bool.true_and]
      exact untouched_verified.close
    | false => exact untouched_empty
  | opened =>
    dsimp only
    cases hmeasure : measure env.pageCount env.pageSize with
    | error e => exact Or.inl ⟨measure_neg hmeasure, untouched_verified.close⟩
    | ok sizes =>
      dsimp only
      split_ifs with hlarge hintegrity
      · exact Or.inl ⟨hlimit, untouched_verified.close⟩
      · exact Or.inl ⟨hintegrity, untouched_verified.close⟩
      · exact Or.inr ⟨rfl, untouched_verified⟩

/-- The verified handle is given back behind a backup that was lent it. -/
theorem Outcome.close {r : Backup × Status} (h : Outcome env before ceiling true r) :
    Outcome env before ceiling false
      ({ r.1 with ledger := closeVerified true r.1.ledger }, r.2) := by
  refine ⟨h.status, ?_, h.made, h.untouched, h.removed, h.kept, h.steps⟩
  apply h.settled.free
  · intro k hk
    exact Or.inr ⟨of_decide_eq_true hk, rfl⟩
  · intro k
    cases k <;> simp

/-- Every backup, and every restore, has one of these outcomes. -/
theorem backup_restore_outcome (verify : VerifyEnv) (env : BackupEnv) (source path : Option Bytes)
    (ceiling : ℕ) (site : Site) :
    Outcome env site ceiling false
        ((Backup.start site Ledger.empty).toPath env path ceiling) ∧
      Outcome { env with source := some true } site ceiling false
        (restoreToPath verify env source path ceiling site Ledger.empty) := by
  refine ⟨toPath_outcome untouched_empty path, ?_⟩
  unfold restoreToPath
  split_ifs with hnull hpath
  · exact untouched_empty.outcome (by decide)
  · exact untouched_empty.outcome hpath
  · have hopen := openVerified_spec verify source ceiling
    rcases hverify : openVerified verify source ceiling Ledger.empty with ⟨l, st⟩
    rw [hverify] at hopen
    dsimp only at hopen ⊢
    rcases hopen with ⟨hneg, hl⟩ | ⟨rfl, hl⟩
    · rw [if_pos hneg]
      exact hl.outcome hneg
    · rw [if_neg (by decide)]
      exact (toPath_outcome hl path).close

end Whole

end AsmFlow.Repo
