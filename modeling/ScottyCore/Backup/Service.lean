import ScottyCore.Backup.Contributors

namespace ScottyCore
open Python
set_option autoImplicit true

variable {b : Backend}

/-- `AuditService.log`: the entry is written, or the failure is swallowed. -/
def auditLog (user_id action target_type target_id ip_address : String) (tenant_id : Option String)
    (detail : Val) (db : Database b) : Database b :=
  match insertRow .auditLog [("tenant_id", tenantVal tenant_id), ("user_id", .str user_id),
      ("action", .str action), ("target_type", .str target_type), ("target_id", .str target_id),
      ("detail", detail), ("ip_address", .str ip_address)] db with
  | .ok db => db
  | .error _ => db

structure BackupService (b : Backend) where
  contributors : KeyedTable (Contributor b) Contributor.contributor_id
  app_name : String
  app_version : String

namespace BackupService

/-- Later registrations overwrite earlier ones. -/
def register (svc : BackupService b) (c : Contributor b) : BackupService b :=
  { svc with contributors := svc.contributors.upsert c }

/-- The contributors that an export of a scope calls, in registration order. -/
def inScope (svc : BackupService b) (scope : BackupScope) : List (Contributor b) :=
  svc.contributors.rows.filter fun c => scope ∈ c.scopes

def manifest (svc : BackupService b) (scope : BackupScope) (tenant_slug : Option String)
    (now : DateTime) (payloads : List (String × ContributorExport)) : BackupManifest where
  scope := scope
  tenant_slug := tenant_slug
  timestamp := now
  app_name := svc.app_name
  app_version := svc.app_version
  contributors := payloads.map fun p => ⟨p.1, p.2.rows.length, p.2.files.length⟩

def exportPayload (scope : BackupScope) (tenant_id : Option String) (db : Database b)
    (c : Contributor b) : Except Exc (String × ContributorExport) := do
  let e ← c.exportAll scope tenant_id db
  .ok (c.contributor_id, e)

def deltaPayload (scope : BackupScope) (tenant_id : Option String) (since : Option DateTime)
    (exclude_origins : List String) (db : Database b) (c : Contributor b) :
    Except Exc (String × ContributorExport) := do
  let e ← match c.exportDelta with
    | some export_delta => export_delta scope tenant_id since exclude_origins db
    | none => c.exportAll scope tenant_id db
  .ok (c.contributor_id, e)

def runExport (svc : BackupService b) (scope : BackupScope)
    (tenant_id tenant_slug : Option String) (now : DateTime) (db : Database b) :
    Except Exc Bytes := do
  let payloads ← (svc.inScope scope).mapM (exportPayload scope tenant_id db)
  .ok (buildTarball (svc.manifest scope tenant_slug now payloads) payloads)

def runDeltaExport (svc : BackupService b) (scope : BackupScope)
    (tenant_id tenant_slug : Option String) (since : Option DateTime)
    (exclude_origins : List String) (now : DateTime) (db : Database b) : Except Exc Bytes := do
  let payloads ← (svc.inScope scope).mapM (deltaPayload scope tenant_id since exclude_origins db)
  .ok (buildTarball (svc.manifest scope tenant_slug now payloads) payloads)

def exportPlatform (svc : BackupService b) (user_id ip : String) (now : DateTime)
    (db : Database b) : Except Exc (Bytes × Database b) := do
  let bundle ← svc.runExport .platform none none now db
  .ok (bundle, auditLog user_id "backup.platform.export" "system" "" ip none .none db)

def exportPlatformDelta (svc : BackupService b) (since : Option DateTime)
    (exclude_origins : List String) (user_id ip : String) (now : DateTime) (db : Database b) :
    Except Exc (Bytes × Database b) := do
  let bundle ← svc.runDeltaExport .platform none none since exclude_origins now db
  .ok (bundle, auditLog user_id "backup.platform.export_delta" "system" "" ip none .none db)

end BackupService

/-- The default of `FilesContributor`: 256 MiB. -/
def maxBytesPerFile : Nat := 256 * 1024 * 1024

def buildBackupService (app_name app_version : String) (uploads_base_dir : Option String) :
    BackupService b :=
  let svc : BackupService b := ⟨∅, app_name, app_version⟩
  let svc := svc.register tenantsContributor
  let svc := svc.register usersContributor
  let svc := svc.register settingsContributor
  let svc := svc.register secretsContributor
  let svc := svc.register itemsContributor
  let svc := svc.register auditLogContributor
  match uploads_base_dir.filter (· ≠ "") with
  | none => svc
  | some dir => svc.register (filesContributor (resolveParts (splitPath dir)) maxBytesPerFile)

end ScottyCore
