import AsmFlow.Config.Read
import AsmFlow.Library.Ledger
import AsmFlow.Mcp.Environment
import AsmFlow.Repo.Handle

/-!
# Backup and restore

`backup.asm`. What the kernel and SQLite answer to each call is an input. A failure of SQLite
is one of its error codes, of which `af_db_backup_sqlite_status` keeps the primary one; a
failure of the kernel is an error number.
-/

namespace AsmFlow.Repo

open Library

/-- `AF_BACKUP_PATH_MAX`. -/
def backupPathMax : ℕ := 4096

/-- `AF_BACKUP_HARD_MAX_BYTES`. -/
def backupHardMax : ℕ := 64 * 1024 * 1024 * 1024

/-- `AF_BACKUP_MAX_STEPS`. -/
def backupMaxSteps : ℕ := 525312

/-- What stands at a path: nothing, what was there before, or what a backup has made. -/
inductive Site
  | empty
  | foreign
  | own
  deriving DecidableEq

/-- What a backup or a restore acquires and gives back. -/
inductive Resource
  | name
  | reservation
  | destination
  | backup
  | verified
  deriving DecidableEq

/-- The answers to a pragma that is prepared, stepped once and read. -/
inductive RowAnswer (α : Type)
  | unprepared (e : ResultCode)
  | unstepped (e : ResultCode)
  | noRow
  | row (v : α)

/-- The answer to `sqlite3_open_v2`: a failure may leave a handle too. -/
inductive OpenAnswer
  | opened
  | failed (e : ResultCode) (handle : Bool)

inductive StepCode
  | more
  | done
  | failed (e : ResultCode)
  deriving DecidableEq

/-- The answers to `sqlite3_backup_step` and `sqlite3_backup_pagecount`. -/
structure StepAnswer where
  code : StepCode
  pageCount : ℤ

/-- `af_db_backup_validate_path`; a path is what stands in front of the first NUL. -/
def validatePath : Option Bytes → Status
  | none => .invalid
  | some path =>
    if backupPathMax ≤ path.length then .limit else if path = [] then .invalid else .ok

/-- The statuses of `af_db_prepare` and `af_db_step`, before the row is read. -/
def RowAnswer.read {α β : Type} (a : RowAnswer α) (f : α → Except Status β) : Except Status β :=
  match a with
  | .unprepared e => .error (statusFromCode e)
  | .unstepped e => .error (statusFromCode e)
  | .noRow => .error .eof
  | .row v => f v

/-- `af_db_backup_query_i64`. -/
def queryI64 (a : RowAnswer ℤ) : Except Status ℕ :=
  a.read fun v => if v < 0 then .error .dbSchema else .ok v.toNat

/-- `af_db_integrity_check`, which reads a text or NULL. -/
def integrityCheck (a : RowAnswer (Option Bytes)) : Status :=
  match a.read fun text => if text = some [0x6F, 0x6B] then .ok () else .error Status.dbSchema with
  | .ok () => .ok
  | .error st => st

/-- `af_db_backup_measure` of an open handle: the bytes and the page size. -/
def measure (count size : RowAnswer ℤ) : Except Status (ℕ × ℕ) :=
  match queryI64 count with
  | .error st => .error st
  | .ok pages =>
    match queryI64 size with
    | .error st => .error st
    | .ok pageSize =>
      if pageSize < 512 then .error .dbSchema
      else if 65536 < pageSize then .error .dbSchema
      else if pageSize &&& (pageSize - 1) ≠ 0 then .error .dbSchema
      else
        match Mcp.mulSize pages pageSize with
        | none => .error .overflow
        | some bytes => .ok (bytes, pageSize)

/-- The answers to one backup. The source is null, closed or open. -/
structure BackupEnv where
  source : Option Bool
  pageCount : RowAnswer ℤ
  pageSize : RowAnswer ℤ
  create : Option ℕ+
  chmod : Option ℕ+
  opening : OpenAnswer
  init : Option ResultCode
  step : ℕ → StepAnswer
  finish : Option ResultCode
  integrity : RowAnswer (Option Bytes)
  chmodAgain : Option ℕ+
  sync : Option ℕ+
  close : Option ℕ+
  unlink : Option ℕ+

/-- The frame of `af_db_backup_to_path` and what it works on. -/
structure Backup where
  site : Site
  ledger : Ledger Resource
  handle : Bool
  reservation : Bool
  created : Bool
  steps : ℕ

namespace Backup

/-- The frame before anything was acquired. -/
def start (site : Site) (ledger : Ledger Resource) : Backup :=
  { site, ledger, handle := false, reservation := false, created := false, steps := 0 }

/-- `af_db_close` of the destination. -/
def closeDb (b : Backup) : Backup :=
  if b.handle then { b with handle := false, ledger := b.ledger.free (· = Resource.destination) } else b

/-- `af_sys_close` of the reservation. -/
def closeReservation (b : Backup) : Backup :=
  { b with reservation := false, ledger := b.ledger.free (· = Resource.reservation) }

variable (env : BackupEnv)

/-- `.save_and_cleanup` and `.cleanup`. -/
def cleanup (b : Backup) (st : Status) : Backup × Status :=
  let b := b.closeDb
  let b := if b.reservation then b.closeReservation else b
  if b.created then
    ({ b with
        site := if env.unlink.isNone then .empty else b.site
        ledger := b.ledger.free (· = Resource.name) }, st)
  else (b, st)

/-- `.step` up to `.finish_backup`, with so many steps left: the status, and the steps taken. -/
def stepLoop (pageSize ceiling : ℕ) : ℕ → ℕ → Status × ℕ
  | 0, n => (.limit, n)
  | left + 1, n =>
    match (env.step n).code with
    | .failed e => (statusFromCode e, n + 1)
    | code =>
      if (env.step n).pageCount < 0 then (.db, n + 1)
      else
        match Mcp.mulSize (env.step n).pageCount.toNat pageSize with
        | none => (.overflow, n + 1)
        | some bytes =>
          if ceiling < bytes then (.limit, n + 1)
          else if code = .done then (.ok, n + 1)
          else stepLoop pageSize ceiling left (n + 1)

/-- From the integrity check to the end of a backup that succeeds. -/
def complete (b : Backup) : Backup × Status :=
  if integrityCheck env.integrity < 0 then b.cleanup env (integrityCheck env.integrity)
  else
    let b := b.closeDb
    match env.chmodAgain with
    | some e => b.cleanup env (statusFromErrno e)
    | none =>
      match env.sync with
      | some e => b.cleanup env (statusFromErrno e)
      | none =>
        let b := b.closeReservation
        match env.close with
        | some e => b.cleanup env (statusFromErrno e)
        | none => ({ b with created := false }, .ok)

/-- `.finish_backup`, with the saved status. -/
def finishBackup (b : Backup) (st : Status) : Backup × Status :=
  let b := { b with ledger := b.ledger.free (· = Resource.backup) }
  if st < 0 then b.cleanup env st
  else
    match env.finish with
    | some e => b.cleanup env (statusFromCode e)
    | none => b.complete env

/-- From the open destination to the end of the steps. -/
def copy (b : Backup) (pageSize ceiling : ℕ) : Backup × Status :=
  match env.init with
  | some e => b.cleanup env (statusFromCode e)
  | none =>
    let b := { b with ledger := b.ledger.take (· = Resource.backup) }
    match stepLoop env pageSize ceiling backupMaxSteps 0 with
    | (st, steps) => { b with steps }.finishBackup env st

/-- From the reservation to the open destination. -/
def fill (b : Backup) (pageSize ceiling : ℕ) : Backup × Status :=
  match env.chmod with
  | some e => b.cleanup env (statusFromErrno e)
  | none =>
    match env.opening with
    | .failed e handle =>
      { b with
        handle
        ledger := b.ledger.take fun k => handle && k = Resource.destination }.cleanup env (statusFromCode e)
    | .opened =>
      { b with
        handle := true
        ledger := b.ledger.take (· = Resource.destination) }.copy env pageSize ceiling

/-- `O_CREAT | O_EXCL`: the answer where nothing stands at the path, else an error. -/
def createAnswer (site : Site) : Option ℕ+ :=
  if site = .empty then env.create else some (env.create.getD (Nat.succPNat 16))

/-- `af_db_backup_to_path`. -/
def toPath (b : Backup) (path : Option Bytes) (ceiling : ℕ) : Backup × Status :=
  match env.source with
  | none => (b, .invalid)
  | some false => (b, .closed)
  | some true =>
    if validatePath path < 0 then (b, validatePath path)
    else if ceiling = 0 then (b, .invalid)
    else if backupHardMax < ceiling then (b, .limit)
    else
      match measure env.pageCount env.pageSize with
      | .error st => (b, st)
      | .ok (bytes, pageSize) =>
        if ceiling < bytes then (b, .limit)
        else
          match createAnswer env b.site with
          | some e => (b, statusFromErrno e)
          | none =>
            { b with
              site := .own
              reservation := true
              created := true
              ledger := b.ledger.take fun k =>
                k = Resource.name ∨ k = Resource.reservation }.fill env pageSize ceiling

end Backup

/-- The answers to the opening of a backup that is verified. -/
structure VerifyEnv where
  opening : OpenAnswer
  pageCount : RowAnswer ℤ
  pageSize : RowAnswer ℤ
  integrity : RowAnswer (Option Bytes)

/-- `.fail` of `af_db_backup_open_verified`. -/
def closeVerified (handle : Bool) (l : Ledger Resource) : Ledger Resource :=
  if handle then l.free (· = Resource.verified) else l

/-- `af_db_backup_open_verified`: on success the handle is the caller's. -/
def openVerified (env : VerifyEnv) (path : Option Bytes) (ceiling : ℕ) (l : Ledger Resource) :
    Ledger Resource × Status :=
  if validatePath path < 0 then (l, validatePath path)
  else if ceiling = 0 then (l, .invalid)
  else if backupHardMax < ceiling then (l, .limit)
  else
    match env.opening with
    | .failed e handle =>
      (closeVerified handle (l.take fun k => handle && k = Resource.verified), statusFromCode e)
    | .opened =>
      let l := l.take (· = Resource.verified)
      match measure env.pageCount env.pageSize with
      | .error st => (closeVerified true l, st)
      | .ok (bytes, _) =>
        if ceiling < bytes then (closeVerified true l, .limit)
        else if integrityCheck env.integrity < 0 then
          (closeVerified true l, integrityCheck env.integrity)
        else (l, .ok)

/-- `af_db_backup_verify_path`. -/
def verifyPath (env : VerifyEnv) (path : Option Bytes) (ceiling : ℕ) (l : Ledger Resource) :
    Ledger Resource × Status :=
  match openVerified env path ceiling l with
  | (l, st) => if st < 0 then (l, st) else (closeVerified true l, .ok)

/-- `af_db_restore_to_path`. -/
def restoreToPath (verify : VerifyEnv) (env : BackupEnv) (path new : Option Bytes) (ceiling : ℕ)
    (site : Site) (l : Ledger Resource) : Backup × Status :=
  if path.isNone then (.start site l, .invalid)
  else if validatePath new < 0 then (.start site l, validatePath new)
  else
    match openVerified verify path ceiling l with
    | (l, st) =>
      if st < 0 then (.start site l, st)
      else
        match (Backup.start site l).toPath { env with source := some true } new ceiling with
        | (b, st) => ({ b with ledger := closeVerified true b.ledger }, st)

end AsmFlow.Repo
