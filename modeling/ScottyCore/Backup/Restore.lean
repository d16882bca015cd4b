import ScottyCore.Backup.Service
import ScottyCore.Lib.Text

namespace ScottyCore
open Python
set_option autoImplicit true

variable {b : Backend}

/-! ## The bytes of a bundle -/

/-- What reading a member of a tarball gives: its bytes, and what `model_validate_json` and
`json.loads` make of them. -/
structure Reading where
  raw : Except Exc (List UInt8)
  manifest : Except Exc BackupManifest
  json : Except Exc JsonDoc

/-- A member of a tarball. `extractfile` gives nothing for a directory. -/
structure TarMember where
  name : String
  reading : Option Reading

/-- What `tarfile.open` makes of the bytes of a bundle. -/
abbrev Tarball := Except Exc (List TarMember)

def Content.reading : Content → Reading
  | .manifest m => ⟨.ok [], .ok m, .error (.python (.valueError "Extra data"))⟩
  | .rows dicts =>
    ⟨.ok [], .error (.python (.valueError "Invalid JSON for BackupManifest")), .ok (.ofRows dicts)⟩
  | .raw bytes => ⟨.ok bytes, .error (.python (.valueError "Invalid JSON for BackupManifest")),
      .error (.python (.valueError "Expecting value: line 1 column 1 (char 0)"))⟩

/-- A bundle of `_build_tarball` opened again. -/
def Bytes.tarball : Bytes → Tarball
  | .empty => .error (.readError "empty file")
  | .unreadable => .error (.readError "not a gzip file")
  | .tarGz members => .ok (members.map fun mem => ⟨mem.name, mem.content.map Content.reading⟩)

/-- The rows and files of one contributor in a bundle. -/
structure Payload where
  rows : JsonDoc := .array []
  files : List (String × List UInt8) := []

abbrev ContributorData := KeyedTable (String × Payload) Prod.fst

def ContributorData.payload (data : ContributorData) (cid : String) : Payload :=
  ((data.find cid).map Prod.snd).getD {}

/-- The contributor id and the path of a `files/<contributor_id>/<rel_path>` member. -/
def fileOf (name : String) : Option (String × String) :=
  match List.isPrefixOf? "files/".toList name.toList with
  | none => none
  | some rest =>
    match rest.dropWhile (· ≠ '/') with
    | [] => none
    | _ :: rel => some (String.ofList (rest.takeWhile (· ≠ '/')), String.ofList rel)

/-- The body of the loop over the members. -/
def readTarMember (data : ContributorData) (mem : TarMember) : Except Exc ContributorData :=
  match mem.reading with
  | none => .ok data
  | some reading =>
    match contributorOf mem.name with
    | some cid => do
      let rows ← reading.json
      .ok (data.upsert (cid, { data.payload cid with rows := rows }))
    | none =>
      match fileOf mem.name with
      | some (cid, rel_path) => do
        let raw ← reading.raw
        let payload := data.payload cid
        .ok (data.upsert (cid, { payload with files := payload.files ++ [(rel_path, raw)] }))
      | none => .ok data

/-- The manifest: the last member of its name. -/
def tarManifest (members : List TarMember) : Except Exc BackupManifest :=
  match members.reverse.find? fun mem => mem.name = manifestName with
  | none => .error (.python (.keyError "filename 'manifest.json' not found"))
  | some ⟨_, none⟩ => .error (.python (.valueError "Invalid backup: missing manifest.json"))
  | some ⟨_, some reading⟩ => reading.manifest

/-- `BackupService._extract_bundle` -/
def unpack (bundle : Tarball) : Except Exc (BackupManifest × ContributorData) := do
  let members ← bundle
  let manifest ← tarManifest members
  let data ← members.foldlM readTarMember ∅
  .ok (manifest, data)

/-! ## The tenant of a bundle -/

/-- The first row with a slug: its id as text. -/
def idOfSlug (slug : String) : List JsonRow → Except Exc (Option String)
  | [] => .ok none
  | r :: rows => do
    let row ← r.asDict
    if row.get "slug" = .str slug then .ok (some (row.get "id").toStr) else idOfSlug slug rows

/-- `_resolve_tenant_id_from_bundle` -/
def resolveTenantId (slug : String) (data : ContributorData) : Except Exc (Option String) := do
  let tenants_rows ← (data.payload "tenants").rows.iter
  idOfSlug slug tenants_rows

/-- The tenant id that `restore_bundle` works with. -/
def bundleTenantId (manifest : BackupManifest) (data : ContributorData) :
    Except Exc (Option String) :=
  match manifest.scope, manifest.tenant_slug with
  | .tenant, some "" => .ok none
  | .tenant, some slug => resolveTenantId slug data
  | _, _ => .ok none

/-- `UUID(tenant_id) if tenant_id else None` -/
def auditTenantId : Option String → Except Exc (Option Uuid)
  | none | some "" => .ok none
  | some tenant_id =>
    match Uuid.parse tenant_id with
    | some u => .ok (some u)
    | none => .error (.python (.valueError "badly formed hexadecimal UUID string"))

/-! ## `restore_bundle` -/

def supportedSchemaVersion : Int := 1

def frameworkName : String := "scottycore"

def unsupportedBundle (manifest : BackupManifest) : Exc :=
  .python (.valueError ("bundle schema_version=" ++ toString manifest.schema_version ++
    " exceeds supported=" ++ toString supportedSchemaVersion ++ "; upgrade " ++ frameworkName ++
    " to restore"))

/-- `str(exc)` -/
def Exc.text : Exc → String
  | .python (.typeError msg) | .python (.valueError msg) | .python (.attributeError msg)
  | .python (.keyError msg) | .python (.overflowError msg) => msg
  | .integrityError msg | .statementError msg | .readError msg | .osError msg
  | .runtimeError msg => msg

structure RestoreSummary where
  scope : BackupScope
  tenant_slug : Option String
  contributors_restored : List String := []
  total_rows_upserted : Nat := 0
  warnings : List String := []
  deriving DecidableEq

def RestoreSummary.detail (s : RestoreSummary) : Val :=
  .json ("\x7b\"contributors\": " ++ quoteList s.contributors_restored ++ ", \"total_rows\": " ++
    toString s.total_rows_upserted ++ ", \"warnings\": " ++ quoteList s.warnings ++ "\x7d")

/-- A bundle before anything of it is restored. -/
structure OpenBundle where
  manifest : BackupManifest
  data : ContributorData
  tenant_id : Option String

/-- The part of `restore_bundle` before its loop. -/
def openBundle (bundle : Tarball) : Except Exc OpenBundle := do
  let (manifest, data) ← unpack bundle
  if supportedSchemaVersion < manifest.schema_version then throw (unsupportedBundle manifest)
  let tenant_id ← bundleTenantId manifest data
  .ok ⟨manifest, data, tenant_id⟩

/-- One call of a contributor's `restore`, but for the scope and the database. -/
structure RestoreCall (b : Backend) where
  contributor : Contributor b
  tenant_id : Option String
  payload : Payload

namespace BackupService

variable (svc : BackupService b)

/-- The calls that the loop makes: the contributors of the scope that have a payload. -/
def restoreCalls (o : OpenBundle) : List (RestoreCall b) :=
  (svc.inScope o.manifest.scope).filterMap fun c =>
    (o.data.find c.contributor_id).map fun p => ⟨c, o.tenant_id, p.2⟩

end BackupService

def RestoreCall.run (scope : BackupScope) (call : RestoreCall b) (db : Database b) :
    Except Exc Nat × Database b :=
  call.contributor.restore scope (tenantVal call.tenant_id) call.payload.rows call.payload.files db

/-- The body of the loop: what a contributor raises becomes a warning. -/
def restoreCall (scope : BackupScope) (acc : RestoreSummary × Database b) (call : RestoreCall b) :
    RestoreSummary × Database b :=
  let (summary, db) := acc
  match call.run scope db with
  | (.ok upserted, db) =>
    ({ summary with
      total_rows_upserted := summary.total_rows_upserted + upserted
      contributors_restored :=
        summary.contributors_restored ++ [call.contributor.contributor_id] }, db)
  | (.error exc, db) =>
    ({ summary with
      warnings := summary.warnings ++ [call.contributor.contributor_id ++ ": " ++ exc.text] }, db)

namespace BackupService

variable (svc : BackupService b)

def restoreAll (o : OpenBundle) (db : Database b) : RestoreSummary × Database b :=
  (svc.restoreCalls o).foldl (restoreCall o.manifest.scope)
    ({ scope := o.manifest.scope, tenant_slug := o.manifest.tenant_slug }, db)

def logRestore (user_id ip : String) (o : OpenBundle) (audit_tenant_id : Option Uuid)
    (summary : RestoreSummary) (db : Database b) : Database b :=
  let tenant := audit_tenant_id.map Uuid.str
  match o.manifest.scope with
  | .platform =>
    auditLog user_id "backup.platform.restore" "system" "" ip tenant summary.detail db
  | .tenant =>
    auditLog user_id "backup.tenant.restore" "tenant" (o.tenant_id.getD "") ip tenant
      summary.detail db

/-- `restore_bundle`: the summary, or what it raises, and the database afterwards. -/
def restoreBundle (bundle : Tarball) (user_id ip : String) (db : Database b) :
    Except Exc RestoreSummary × Database b :=
  match openBundle bundle with
  | .error e => (.error e, db)
  | .ok o =>
    let (summary, db) := svc.restoreAll o db
    match auditTenantId o.tenant_id with
    | .error e => (.error e, db)
    | .ok audit_tenant_id =>
      (.ok summary, logRestore user_id ip o audit_tenant_id summary db)

end BackupService

/-! ## A restore that fails -/

/-- The rows and files of the contributors. -/
structure SameData (db db' : Database b) : Prop where
  tables : db'.table = db.table
  files : db'.uploads = db.uploads

/-- When a restore raises, it leaves all rows and files as they were. -/
def FailsIntact (svc : BackupService b) (bundle : Tarball) (user_id ip : String)
    (db : Database b) : Prop :=
  ∀ e, (svc.restoreBundle bundle user_id ip db).1 = .error e →
    SameData db (svc.restoreBundle bundle user_id ip db).2

/-- The tenant id of a bundle, if it has one, is empty or reads as a UUID. -/
def ReadableTenant (o : OpenBundle) : Prop :=
  ∀ tenant_id, o.tenant_id = some tenant_id → tenant_id = "" ∨ (Uuid.parse tenant_id).isSome = true

theorem auditTenantId_ok_iff : (∃ u, auditTenantId t = .ok u) ↔
    ∀ tenant_id, t = some tenant_id → tenant_id = "" ∨ (Uuid.parse tenant_id).isSome = true := by
  unfold auditTenantId
  split
  · exact ⟨fun _ => nofun, fun _ => ⟨none, rfl⟩⟩
  · exact ⟨fun _ _ h => .inl (Option.some.inj h).symm, fun _ => ⟨none, rfl⟩⟩
  · rename_i tenant_id hne
    cases hp : Uuid.parse tenant_id with
    | some u => exact ⟨fun _ _ h => .inr (Option.some.inj h ▸ hp ▸ rfl), fun _ => ⟨some u, rfl⟩⟩
    | none =>
      refine ⟨nofun, fun h => ?_⟩
      rcases h tenant_id rfl with rfl | hsome
      · exact (hne rfl).elim
      · rw [hp] at hsome
        cases hsome

/-- The restores of the contributors, one after the other. -/
def runAll (scope : BackupScope) (calls : List (RestoreCall b)) (db : Database b) : Database b :=
  calls.foldl (fun db call => (call.run scope db).2) db

theorem restoreCall_db (scope : BackupScope) (acc : RestoreSummary × Database b)
    (call : RestoreCall b) : (restoreCall scope acc call).2 = (call.run scope acc.2).2 := by
  rw [restoreCall]
  split
  · rename_i h
    rw [h]
  · rename_i h
    rw [h]

theorem restoreAll_db (svc : BackupService b) (o : OpenBundle) (db : Database b) :
    (svc.restoreAll o db).2 = runAll o.manifest.scope (svc.restoreCalls o) db := by
  rw [BackupService.restoreAll, runAll]
  generalize ({ scope := o.manifest.scope, tenant_slug := o.manifest.tenant_slug } :
    RestoreSummary) = summary
  induction svc.restoreCalls o generalizing summary db with
  | nil => rfl
  | cons call calls ih =>
    rw [List.foldl_cons, List.foldl_cons, ← restoreCall_db o.manifest.scope (summary, db) call]
    exact ih _ _

/-- Whatever bundle a restore fails on, it leaves everything intact. -/
def RestoresIntact (svc : BackupService b) : Prop :=
  ∀ bundle user_id ip db, FailsIntact svc bundle user_id ip db

section

def dawn : { d : DateTime // Backend.sqlite.native d = true } :=
  ⟨⟨2024, 6, 1, 6, 0, 0, 0, none, by decide⟩, by decide⟩

def newYear : DateTime := ⟨2024, 1, 1, 0, 0, 0, 0, none, by decide⟩

def acmeBundle (payloads : List (String × List Dict)) : Tarball :=
  (buildTarball ⟨1, .tenant, some "acme", newYear, "app", "1.0", []⟩
    (payloads.map fun p => (p.1, { rows := p.2 }))).tarball

def acmeRow (id : Val) : Dict := [("_table", .str "tenants"), ("slug", .str "acme"), ("id", id)]

def themeRow : Dict :=
  [("id", .str "theme"), ("scope", .str "global"), ("key", .str "branding_app_name"),
    ("value_json", .str "1")]

def noData : Database .sqlite := Database.empty dawn fun n => toString n

end

end ScottyCore
