import ScottyCore.Files.Service
import ScottyCore.Lib.Calls
import ScottyCore.Lib.Run
import ScottyCore.Users.Models

namespace ScottyCore
open Python DirTree DirTree.Tree
set_option autoImplicit true

abbrev TenantTable := KeyedTable Tenant Tenant.id

structure TenantCreate where
  name : String

/-- A field that a request leaves out is `none`: `model_dump(exclude_unset=True)` drops it. -/
structure TenantUpdate where
  name : Option (Option String) := none
  is_active : Option (Option Bool) := none

structure TenantRead where
  id : Uuid
  name : String
  slug : String
  is_active : Bool
  deriving DecidableEq

def TenantRead.modelValidate (tenant : Tenant) : TenantRead where
  id := tenant.id
  name := tenant.name
  slug := tenant.slug
  is_active := tenant.is_active

namespace TenantRepository

def getBySlug (slug : String) (t : TenantTable) : Option Tenant :=
  t.rows.find? fun tenant => tenant.slug = slug

/-- A row is written unless another one has its name or its slug. -/
def flush (tenant : Tenant) (t : TenantTable) : Except AppError (Tenant × TenantTable) :=
  if ∃ other ∈ t.rows, other.id ≠ tenant.id ∧ other.name = tenant.name then
    .error (.integrity "UNIQUE constraint failed: tenants.name")
  else if ∃ other ∈ t.rows, other.id ≠ tenant.id ∧ other.slug = tenant.slug then
    .error (.integrity "UNIQUE constraint failed: tenants.slug")
  else .ok (tenant, t.upsert tenant)

def create (new_uuid : Uuid) (name slug : String) (t : TenantTable) :
    Except AppError (Tenant × TenantTable) :=
  if (t.find new_uuid).isSome then .error (.integrity "UNIQUE constraint failed: tenants.id")
  else flush { id := new_uuid, name, slug } t

/-- The values that are not `None` are set. -/
def update (tenant : Tenant) (name slug : Option String) (is_active : Option Bool)
    (t : TenantTable) : Except AppError (Tenant × TenantTable) :=
  flush { tenant with
    name := name.getD tenant.name
    slug := slug.getD tenant.slug
    is_active := is_active.getD tenant.is_active } t

end TenantRepository

namespace TenantsService

variable (u : Unicode)

def create (data : TenantCreate) (new_uuid : Uuid) (t : TenantTable) :
    Except AppError (Tenant × TenantTable) :=
  let slug := slugify u data.name
  if (TenantRepository.getBySlug slug t).isSome then
    .error (.conflict ("Tenant with slug '" ++ slug ++ "' already exists"))
  else TenantRepository.create new_uuid data.name slug t

/-- The slug that an update sets, where it sets one. -/
def slugUpdate (data : TenantUpdate) : Option String :=
  (data.name.join.filter (· ≠ "")).map (slugify u)

def update (slug : String) (data : TenantUpdate) (t : TenantTable) :
    Except AppError (Tenant × TenantTable) :=
  match TenantRepository.getBySlug slug t with
  | none => .error (.notFound "Tenant" slug)
  | some tenant =>
    TenantRepository.update tenant data.name.join (slugUpdate u data) data.is_active.join t

end TenantsService

/-! ## Both services together -/

/-- The database and the uploads directory. -/
structure TenantStore where
  tenants : TenantTable
  uploads : UploadTree

inductive TenantCall where
  | create (data : TenantCreate) (new_uuid : Uuid)
  | update (slug : String) (data : TenantUpdate)
  | files (slug : String) (e : FilesEvent)

/-- What a call returns; a file operation is made for the tenant that has the slug. -/
inductive TenantResult where
  | tenant (r : Except AppError TenantRead)
  | files (tenant_id : Uuid) (r : Except FilesError FilesResult)
  deriving DecidableEq

/-- What fails is rolled back. -/
def TenantStore.commit (s : TenantStore) :
    Except AppError (Tenant × TenantTable) → TenantResult × TenantStore
  | .error e => (.tenant (.error e), s)
  | .ok (tenant, tenants) => (.tenant (.ok (.modelValidate tenant)), { s with tenants })

/-- One call of `api/v1/tenants.py` or `api/v1/files.py`. -/
def TenantStore.perform (u : Unicode) (base : List String) (call : TenantCall) (s : TenantStore) :
    TenantResult × TenantStore :=
  match call with
  | .create data new_uuid => s.commit (TenantsService.create u data new_uuid s.tenants)
  | .update slug data => s.commit (TenantsService.update u slug data s.tenants)
  | .files slug e =>
    match TenantRepository.getBySlug slug s.tenants with
    | none => (.tenant (.error (.notFound "Tenant" slug)), s)
    | some tenant =>
      let (result, uploads) := FilesService.perform u base slug e s.uploads
      (.files tenant.id result, { s with uploads })

/-! ## What a tenant's own operations leave -/

/-- A path below the directory of a tenant, as the service resolves it. -/
def relParts (u : Unicode) (base : List String) (slug path : String) : List String :=
  ((FilesService.safeResolve u base slug path).getD []).drop (base ++ [slug]).length

/-- The entries after an operation: one is created, renamed with what is below it, or removed. -/
def ownedAfter (u : Unicode) (base : List String) (slug : String) (owned : List (List String)) :
    FilesCall → Except FilesError FilesResult → List (List String)
  | .mkdir path _, .ok (.entry e) => owned ++ [relParts u base slug path ++ [e.name]]
  | .rename path _, .ok (.entry e) =>
    let old := relParts u base slug path
    owned.map fun p => if old <+: p then old.dropLast ++ [e.name] ++ p.drop old.length else p
  | .delete path, .ok .deleted => owned.filter (· ≠ relParts u base slug path)
  | _, _ => owned

/-- One step for the entries of a tenant. -/
def recordOwn (u : Unicode) (base : List String) (id : Uuid) (owned : List (List String)) :
    TenantCall × TenantResult → List (List String)
  | (.files slug e, .files tenant_id r) =>
    if tenant_id = id then ownedAfter u base slug owned e.call r else owned
  | _ => owned

/-- The entries that a tenant's own operations created and did not remove. -/
def ownEntries (u : Unicode) (base : List String) (id : Uuid)
    (history : List (TenantCall × TenantResult)) : List (List String) :=
  history.foldl (recordOwn u base id) []

/-- A call with what it returns. -/
def TenantStore.Step (u : Unicode) (base : List String) (s : TenantStore)
    (a : TenantCall × TenantResult) (t : TenantStore) : Prop :=
  s.perform u base a.1 = (a.2, t)

/-! ## The condition -/

/-- No entry stands in the directory of a slug. -/
def NoEntries (base : List String) (slug : String) (t : UploadTree) : Prop :=
  ∀ name, t.find (base ++ [slug, name]) = none

/-- No other tenant has the name or the slug. -/
def Untaken (id : Uuid) (name slug : String) (t : TenantTable) : Prop :=
  ∀ other ∈ t.rows, other.id ≠ id → other.name ≠ name ∧ other.slug ≠ slug

/-- Where a call gives a tenant a slug, the slug is not empty and no entries stand in its directory,
nor in the directory of the slug that it replaces. -/
structure SlugsFresh (u : Unicode) (base : List String) (s : TenantStore)
    (a : TenantCall × TenantResult) : Prop where
  create : ∀ data new_uuid, a.1 = .create data new_uuid → s.tenants.find new_uuid = none →
    Untaken new_uuid data.name (slugify u data.name) s.tenants →
    slugify u data.name ≠ "" ∧ NoEntries base (slugify u data.name) s.uploads
  update : ∀ slug data tenant name, a.1 = .update slug data →
    TenantRepository.getBySlug slug s.tenants = some tenant →
    data.name.join.filter (· ≠ "") = some name → slugify u name ≠ slug →
    Untaken tenant.id name (slugify u name) s.tenants →
    slugify u name ≠ "" ∧ NoEntries base slug s.uploads ∧ NoEntries base (slugify u name) s.uploads

namespace TenantRepository

theorem getBySlug_eq_some {t : TenantTable} (h : getBySlug slug t = some tenant) :
    tenant ∈ t.rows ∧ tenant.slug = slug :=
  ⟨List.mem_of_find?_eq_some h, of_decide_eq_true
    (List.find?_some (p := fun tenant : Tenant => decide (tenant.slug = slug)) h)⟩

theorem flush_ok {t : TenantTable} (h : flush tenant t = .ok (tenant', t')) :
    tenant' = tenant ∧ t' = t.upsert tenant ∧ Untaken tenant.id tenant.name tenant.slug t := by
  rw [flush] at h
  split at h
  · cases h
  rename_i hname
  split at h
  · cases h
  rename_i hslug
  obtain ⟨rfl, rfl⟩ := Prod.mk.inj (Except.ok.inj h)
  refine ⟨rfl, rfl, ?_⟩
  intro other hother hid
  exact ⟨fun he => hname ⟨other, hother, hid, he⟩, fun he => hslug ⟨other, hother, hid, he⟩⟩

end TenantRepository

end ScottyCore
