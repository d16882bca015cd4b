import Mathlib.Data.List.Sort
import ScottyCore.Backup.Sinks
import ScottyCore.Backup.TenantIdentity
import ScottyCore.Lib.Coroutine

namespace ScottyCore
open Python Async
set_option autoImplicit true

variable {b : Backend}

/-! ## `models.py` -/

inductive RunStatus where
  | pending | running | success | failed
  deriving DecidableEq

/-- A status that no dispatch in progress changes any more. -/
def RunStatus.terminal (status : RunStatus) : Prop := status = success ∨ status = failed

structure BackupSchedule where
  id : String
  name : String
  scope : String
  tenant_id : Option String
  tenant_slug : Option String
  sink_type : String
  sink_config : JsonDict
  cron_expr : Option String
  next_run_at : Option DateTime
  kind : String
  retention_days : Option Int
  keep_last : Option Int
  is_active : Bool
  managed_by : String
  created_by : Option String
  created_at : DateTime

structure BackupRun where
  id : String
  schedule_id : Option String
  app_slug : String
  scope : String
  tenant_slug : Option String
  kind : String
  status : RunStatus
  sink_type : String
  sink_locator : Option String
  bytes_written : Option Nat
  sha256 : Option String
  encrypted : Bool
  key_fingerprint : Option String
  started_at : Option DateTime
  finished_at : Option DateTime
  error : Option String
  managed_by : String
  created_at : DateTime
  deriving DecidableEq

/-- The database and the sinks of one installation, as the scheduler sees them. -/
structure BackupState (b : Backend) (Data : Type) where
  db : Database b
  schedules : KeyedTable BackupSchedule BackupSchedule.id
  runs : KeyedTable BackupRun BackupRun.id
  stored : Stored Data

namespace BackupState

def updateRun (run_id : String) (f : BackupRun → BackupRun) (s : BackupState b Data) :
    BackupState b Data :=
  match s.runs.find run_id with
  | some run => { s with runs := s.runs.upsert (f run) }
  | none => s

section

variable (s : BackupState b Data) (run_id : String) (f : BackupRun → BackupRun)

@[simp] theorem updateRun_db : (s.updateRun run_id f).db = s.db := by
  rw [updateRun]
  split <;> rfl

@[simp] theorem updateRun_schedules : (s.updateRun run_id f).schedules = s.schedules := by
  rw [updateRun]
  split <;> rfl

@[simp] theorem updateRun_stored : (s.updateRun run_id f).stored = s.stored := by
  rw [updateRun]
  split <;> rfl

theorem find_updateRun_self (hf : ∀ run, (f run).id = run.id) :
    (s.updateRun run_id f).runs.find run_id = (s.runs.find run_id).map f := by
  rw [updateRun]
  split
  · rename_i run hrun
    have hid : run_id = (f run).id := by rw [hf, KeyedTable.key_of_find hrun]
    rw [hrun, hid, KeyedTable.find_upsert_self, Option.map_some]
  · rename_i hnone
    rw [hnone, Option.map_none]

/-- The run is the row that was written last under its id. -/
theorem updateRun_of_upsert {s : BackupState b Data} {t : KeyedTable BackupRun BackupRun.id}
    (h : s.runs = t.upsert run) (hid : (f run).id = run.id) :
    (s.updateRun run.id f).runs = t.upsert (f run) := by
  rw [updateRun, h, KeyedTable.find_upsert_self]
  exact KeyedTable.upsert_upsert t hid.symm

end

def updateSchedule (schedule_id : String) (f : BackupSchedule → BackupSchedule)
    (s : BackupState b Data) : BackupState b Data :=
  match s.schedules.find schedule_id with
  | some schedule => { s with schedules := s.schedules.upsert (f schedule) }
  | none => s

section

variable (s : BackupState b Data) (schedule_id : String) (f : BackupSchedule → BackupSchedule)

@[simp] theorem updateSchedule_runs : (s.updateSchedule schedule_id f).runs = s.runs := by
  rw [updateSchedule]
  split <;> rfl

@[simp] theorem updateSchedule_stored : (s.updateSchedule schedule_id f).stored = s.stored := by
  rw [updateSchedule]
  split <;> rfl

theorem updateSchedule_of_find (h : s.schedules.find schedule_id = some schedule) :
    (s.updateSchedule schedule_id f).schedules = s.schedules.upsert (f schedule) := by
  rw [updateSchedule, h]

end

end BackupState

/-! ## What is not the scheduler's to decide -/

/-- The awaited calls of one dispatch. -/
inductive Await where
  | markPending | refresh | markRunning | export | passphrase | encrypt | put
  | markSuccess | advance | selectRuns
  | deleteBlob (run_id : String) | deleteRow (run_id : String)
  | markFailed
  deriving DecidableEq

/-- How a database orders runs, the latest first. Runs of one time come in any order. -/
structure LatestFirst where
  apply : List BackupRun → List BackupRun
  perm : ∀ runs, (apply runs).Perm runs
  sorted : ∀ runs, (apply runs).Pairwise fun r r' => r'.created_at.instant ≤ r.created_at.instant

/-- The circumstances of one dispatch: how its awaited calls end, the readings of the clock, the
new run's id and the database's time for it, what the passphrase provider resolves to, what
`mkdir` raises and the order in which a query returns the runs. -/
structure Circumstances where
  fate : Await → Fate Exc
  started_at : DateTime
  exported_at : DateTime
  finished_at : DateTime
  failed_at : DateTime
  pruned_at : DateTime
  run_id : String
  created_at : DateTime
  passphrase : Option String
  sinkError : Option Exc
  order : LatestFirst

/-! ## `service.py` -/

def BackupService.exportTenantDelta (svc : BackupService b) (tenant_id tenant_slug : String)
    (since : Option DateTime) (exclude_origins : List String) (user_id ip : String)
    (now : DateTime) (db : Database b) : Except Exc (Bytes × Database b) := do
  let bundle ← svc.runDeltaExport .tenant (some tenant_id) (some tenant_slug) since
    exclude_origins now db
  match Uuid.parse tenant_id with
  | none => throw (.python (.valueError "badly formed hexadecimal UUID string"))
  | some u =>
    return (bundle, auditLog user_id "backup.tenant.export_delta" "tenant" tenant_id ip
      (some u.str) .none db)

/-! ## `scheduler.py` -/

def schedulerUserId : String := "00000000-0000-0000-0000-00000000bcac"

structure BackupScheduler (b : Backend) (Data : Type) where
  svc : BackupService b
  libs : BackupLibraries Data

/-- `if not s` for an optional text -/
def nonempty (s : Option String) : Option String := s.filter (· ≠ "")

/-- `if n` for an optional integer -/
def nonzero (n : Option Int) : Option Int := n.filter (· ≠ 0)

namespace BackupScheduler

variable (sched : BackupScheduler b Data)

/-- `_run_export`: the bundle, and the tenant slug of a tenant's. `since` is always `None`. -/
def runExport (schedule : BackupSchedule) (now : DateTime) (db : Database b) :
    Except Exc ((Bytes × Option String) × Database b) :=
  if schedule.scope = "platform" then
    (if schedule.kind = "delta" then
      sched.svc.exportPlatformDelta none [] schedulerUserId "scheduler" now db
    else sched.svc.exportPlatform schedulerUserId "scheduler" now db).map
      fun r => ((r.1, none), r.2)
  else if schedule.scope = "tenant" then
    match nonempty schedule.tenant_id, nonempty schedule.tenant_slug with
    | some tenant_id, some tenant_slug =>
      (if schedule.kind = "delta" then
        sched.svc.exportTenantDelta tenant_id tenant_slug none [] schedulerUserId "scheduler" now db
      else sched.svc.exportTenant tenant_id tenant_slug schedulerUserId "scheduler" now db).map
        fun r => ((r.1, some tenant_slug), r.2)
    | _, _ => .error (.python (.valueError "tenant schedule missing tenant_id/slug"))
  else .error (.python (.valueError ("unknown scope: " ++ schedule.scope)))

/-- The blob of a bundle that is encrypted already, if it is to be. -/
def blobOf (schedule : BackupSchedule) (env : Circumstances) (data : Data)
    (tenant_slug : Option String) : BackupBlob Data where
  data := data
  sha256 := sched.libs.sha256 data
  size := sched.libs.size data
  app_slug := sched.svc.app_name
  scope := schedule.scope
  kind := schedule.kind
  created_at := env.started_at
  encrypted := (nonempty env.passphrase).isSome
  key_fingerprint := (nonempty env.passphrase).map (fingerprint sched.libs)
  tenant_slug := tenant_slug

def buildSink (schedule : BackupSchedule) (env : Circumstances) : Except Exc StorageSink :=
  match buildSinkFromConfig schedule.sink_type schedule.sink_config, env.sinkError with
  | .ok _, some e => .error e
  | built, _ => built

/-! ### Run state helpers -/

def newRun (schedule : BackupSchedule) (env : Circumstances) : BackupRun where
  id := env.run_id
  schedule_id := some schedule.id
  app_slug := sched.svc.app_name
  scope := schedule.scope
  tenant_slug := schedule.tenant_slug
  kind := schedule.kind
  status := .pending
  sink_type := schedule.sink_type
  sink_locator := none
  bytes_written := none
  sha256 := none
  encrypted := false
  key_fingerprint := none
  started_at := some env.started_at
  finished_at := none
  error := none
  managed_by := schedule.managed_by
  created_at := env.created_at

def insertPending (schedule : BackupSchedule) (env : Circumstances) (s : BackupState b Data) :
    Except Exc (Unit × BackupState b Data) :=
  match s.runs.find env.run_id with
  | some _ => .error (.integrityError "UNIQUE constraint failed: backup_runs.id")
  | none => .ok ((), { s with runs := s.runs.upsert (sched.newRun schedule env) })

/-- `_mark_run_pending`: the refresh after the commit can still raise. -/
def markRunPending (schedule : BackupSchedule) (env : Circumstances) :
    Coroutine (BackupState b Data) Exc Unit := do
  .await (env.fate .markPending) (sched.insertPending schedule env)
  .await (env.fate .refresh) fun s => .ok ((), s)

def succeeded (blob : BackupBlob Data) (sink_locator : String) (finished_at : DateTime)
    (run : BackupRun) : BackupRun :=
  { run with
    status := .success
    sink_locator := some sink_locator
    bytes_written := some blob.size
    sha256 := some blob.sha256
    encrypted := blob.encrypted
    key_fingerprint := blob.key_fingerprint
    finished_at := some finished_at }

def failedWith (err : String) (finished_at : DateTime) (run : BackupRun) : BackupRun :=
  { run with status := .failed, error := some err, finished_at := some finished_at }

/-- `_advance_next_run_at`: the schedule's row afterwards. -/
def advanced (schedule : BackupSchedule) (base : DateTime) :
    Except Exc (BackupSchedule → BackupSchedule) :=
  match nonempty schedule.cron_expr with
  | none => .ok fun row => { row with next_run_at := none, is_active := false }
  | some cron_expr => do
    let nxt ← sched.libs.croniter cron_expr base
    .ok fun row => { row with next_run_at := some nxt }

/-! ### Retention -/

/-- `datetime.now(timezone.utc) - timedelta(days=retention_days)` -/
def keepCutoff (retention_days : Option Int) (now : DateTime) : Except Exc (Option DateTime) :=
  match nonzero retention_days with
  | none => .ok none
  | some days =>
    if days.natAbs ≤ 999999999 then
      (Exc.ofPython (now.add (-(days * 86400000000)))).map some
    else .error (.python (.overflowError
      ("days=" ++ toString days ++ "; must have magnitude <= 999999999")))

/-- `runs[:k]` -/
def firstRuns (runs : List BackupRun) (k : Int) : List BackupRun :=
  if 0 ≤ k then runs.take k.toNat else runs.take (runs.length + k).toNat

/-- The runs of a schedule that `_prune` looks at, before the database orders them. -/
def successRuns (schedule_id : String) (runs : List BackupRun) : List BackupRun :=
  runs.filter fun r => r.schedule_id = some schedule_id ∧ r.status = .success

/-- Whether a run is in the set that `_prune` keeps. -/
def kept (keep_last : Option Int) (keep_cutoff : Option DateTime) (runs : List BackupRun)
    (r : BackupRun) : Bool :=
  (match nonzero keep_last with
    | some k => decide (r ∈ firstRuns runs k)
    | none => false) ||
  match keep_cutoff with
  | some cutoff => decide (cutoff.instant ≤ r.created_at.instant)
  | none => false

/-- The runs that `_prune` deletes. -/
def condemned (schedule : BackupSchedule) (keep_cutoff : Option DateTime)
    (runs : List BackupRun) : List BackupRun :=
  if keep_cutoff = none ∧ schedule.keep_last = none then []
  else runs.filter fun r => !kept schedule.keep_last keep_cutoff runs r

/-- What the sink raises is logged only. -/
def deleteBlob (sink : StorageSink) (env : Circumstances) (r : BackupRun) :
    Coroutine (BackupState b Data) Exc Unit :=
  match nonempty r.sink_locator with
  | some locator =>
    .handle
      (.await (env.fate (.deleteBlob r.id)) fun s =>
        (sink.delete sched.libs locator s.stored).map fun stored => ((), { s with stored := stored }))
      fun _ => pure ()
  | none => pure ()

def deleteRun (sink : StorageSink) (env : Circumstances) (r : BackupRun) :
    Coroutine (BackupState b Data) Exc Unit := do
  sched.deleteBlob sink env r
  .await (env.fate (.deleteRow r.id)) fun s => .ok ((), { s with runs := s.runs.erase r.id })

def deleteRuns (sink : StorageSink) (env : Circumstances) :
    List BackupRun → Coroutine (BackupState b Data) Exc Unit
  | [] => pure ()
  | r :: runs => do
    sched.deleteRun sink env r
    deleteRuns sink env runs

/-- `_prune` -/
def prune (schedule : BackupSchedule) (sink : StorageSink) (env : Circumstances) :
    Coroutine (BackupState b Data) Exc Unit := do
  let keep_cutoff ← .reading fun _ => keepCutoff schedule.retention_days env.pruned_at
  let runs ← .await (env.fate .selectRuns) fun s =>
    .ok (env.order.apply (successRuns schedule.id s.runs.rows), s)
  sched.deleteRuns sink env (condemned schedule keep_cutoff runs)

/-! ### Dispatch -/

/-- The bytes of a bundle, encrypted when there is a passphrase. -/
def sealBundle (env : Circumstances) (bundle : Bytes) :
    Coroutine (BackupState b Data) Exc Data :=
  match nonempty env.passphrase with
  | some passphrase => .await (env.fate .encrypt) fun s =>
      (encryptBundle sched.libs (sched.libs.encode bundle) passphrase).map fun data => (data, s)
  | none => pure (sched.libs.encode bundle)

/-- The part of `_dispatch` up to the sink's `put`: the blob, the sink and the locator. -/
def takeBackup (schedule : BackupSchedule) (env : Circumstances) :
    Coroutine (BackupState b Data) Exc (BackupBlob Data × StorageSink × String) := do
  .await (env.fate .markRunning) fun s =>
    .ok ((), s.updateRun env.run_id fun run => { run with status := .running })
  let bundle ← .await (env.fate .export) fun s =>
    (sched.runExport schedule env.exported_at s.db).map fun r => (r.1, { s with db := r.2 })
  .await (env.fate .passphrase) fun s => .ok ((), s)
  let data ← sched.sealBundle env bundle.1
  let blob := sched.blobOf schedule env data bundle.2
  let sink ← .reading fun _ => buildSink schedule env
  let locator ← .await (env.fate .put) fun s =>
    (sink.put sched.libs blob s.stored).map fun r => (r.1, { s with stored := r.2 })
  pure (blob, sink, locator)

/-- The part of `_dispatch` after the sink's `put`. -/
def recordBackup (schedule : BackupSchedule) (env : Circumstances)
    (taken : BackupBlob Data × StorageSink × String) :
    Coroutine (BackupState b Data) Exc Unit := do
  .await (env.fate .markSuccess) fun s =>
    .ok ((), s.updateRun env.run_id (succeeded taken.1 taken.2.2 env.finished_at))
  let step ← .reading fun _ => sched.advanced schedule env.started_at
  .await (env.fate .advance) fun s => .ok ((), s.updateSchedule schedule.id step)
  if nonzero schedule.retention_days = none ∧ nonzero schedule.keep_last = none then pure ()
  else sched.prune schedule taken.2.1 env

/-- The `try` block of `_dispatch`. -/
def runBackup (schedule : BackupSchedule) (env : Circumstances) :
    Coroutine (BackupState b Data) Exc Unit := do
  let taken ← sched.takeBackup schedule env
  sched.recordBackup schedule env taken

/-- `_mark_run_failed` -/
def markRunFailed (env : Circumstances) (exc : Exc) : Coroutine (BackupState b Data) Exc Unit :=
  .await (env.fate .markFailed) fun s =>
    .ok ((), s.updateRun env.run_id (failedWith exc.text env.failed_at))

def dispatch (schedule : BackupSchedule) (env : Circumstances) :
    Coroutine (BackupState b Data) Exc String := do
  sched.markRunPending schedule env
  .handle (sched.runBackup schedule env) (markRunFailed env)
  pure env.run_id

/-- `_due_schedules` -/
def dueSchedules (now : DateTime) (schedules : List BackupSchedule) : List BackupSchedule :=
  schedules.filter fun schedule => schedule.is_active &&
    match schedule.next_run_at with
    | none => true
    | some nra => nra.instant ≤ now.instant

def dispatchAll (env : BackupSchedule → Circumstances) :
    List BackupSchedule → Coroutine (BackupState b Data) Exc (List String)
  | [] => pure []
  | schedule :: schedules => do
    let run_id ← sched.dispatch schedule (env schedule)
    let run_ids ← dispatchAll env schedules
    pure (run_id :: run_ids)

/-- `tick_once` -/
def tickOnce (now : DateTime) (env : BackupSchedule → Circumstances) :
    Coroutine (BackupState b Data) Exc (List String) := do
  let due ← .reading fun s => .ok (dueSchedules now s.schedules.rows)
  sched.dispatchAll env due

end BackupScheduler

/-! ## Plain libraries -/

/-- The next full hour is the only schedule known, and a bundle is told by its timestamp. -/
def BackupLibraries.plain : BackupLibraries Bytes where
  encode bundle := bundle
  size
    | .tarGz members => members.length
    | _ => 0
  sha256
    | .tarGz (⟨_, some (.manifest manifest)⟩ :: _) => manifest.timestamp.isoformat
    | _ => ""
  gpg bundle _ := .ok bundle
  shortDigest text := String.ofList (text.toList.take 8)
  croniter cron_expr base :=
    if cron_expr = "0 * * * *" then
      Exc.ofPython (base.add (3600000000 - (base.minute * 60 + base.second) * 1000000 -
        base.microsecond))
    else .error (.python (.valueError ("[" ++ cron_expr ++ "] is not acceptable")))
  resolveUnder root locator := resolveParts (splitPath root ++ splitPath locator)
  format template _ := .ok template

def LatestFirst.byInsertion : LatestFirst where
  apply runs := runs.insertionSort fun r r' => r'.created_at.instant ≤ r.created_at.instant
  perm runs := List.perm_insertionSort _ runs
  sorted runs := by
    have : Std.Total fun r r' : BackupRun => r'.created_at.instant ≤ r.created_at.instant :=
      ⟨fun r r' => Int.le_total _ _⟩
    have : IsTrans BackupRun fun r r' => r'.created_at.instant ≤ r.created_at.instant :=
      ⟨fun r r' r'' h h' => h'.trans h⟩
    exact List.pairwise_insertionSort _ runs

/-- Nothing interrupts a dispatch that takes no time. -/
def Circumstances.plain (run_id : String) (at_ : DateTime) : Circumstances where
  fate _ := .done
  started_at := at_
  exported_at := at_
  finished_at := at_
  failed_at := at_
  pruned_at := at_
  run_id := run_id
  created_at := at_
  passphrase := none
  sinkError := none
  order := .byInsertion

def tenUtc : DateTime := ⟨2024, 6, 1, 10, 0, 0, 0, some 0, by decide⟩

def BackupSchedule.platform (id : String) (cron_expr : Option String) : BackupSchedule where
  id := id
  name := id
  scope := "platform"
  tenant_id := none
  tenant_slug := none
  sink_type := "local_disk"
  sink_config := [("root_dir", .str "/store")]
  cron_expr := cron_expr
  next_run_at := none
  kind := "full"
  retention_days := none
  keep_last := none
  is_active := true
  managed_by := "local"
  created_by := none
  created_at := tenUtc

def BackupScheduler.plain : BackupScheduler .sqlite Bytes where
  svc := buildBackupService "app" "1.0" none
  libs := .plain

def hourly : BackupSchedule := .platform "hourly" (some "0 * * * *")

/-- An installation with one schedule and no data. -/
def BackupState.withSchedule (schedule : BackupSchedule) : BackupState .sqlite Bytes where
  db := noData
  schedules := (∅ : KeyedTable BackupSchedule BackupSchedule.id).upsert schedule
  runs := ∅
  stored := ∅

end ScottyCore
