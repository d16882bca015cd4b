import ScottyCore.Core.Schema
import ScottyCore.Lib.Calls
import ScottyCore.Users.Models

namespace ScottyCore
open Python
set_option autoImplicit true

/-! ## `services/items/models.py` -/

structure Item where
  id : Uuid
  tenant_id : Uuid
  name : String
  description : Option String
  is_active : Bool
  created_by : Option Uuid
  search_vector : Option String
  created_at : DateTime
  updated_at : DateTime
  deriving DecidableEq

abbrev ItemTable := KeyedTable Item Item.id

/-! ## `services/items/schemas.py` -/

structure ItemCreate where
  name : String
  description : Option String

/-- A field that a request leaves out is `none`: `model_dump(exclude_unset=True)` drops it. -/
structure ItemUpdate where
  name : Option (Option String) := none
  description : Option (Option String) := none
  is_active : Option (Option Bool) := none

structure ItemRead where
  id : Uuid
  tenant_id : Uuid
  name : String
  description : Option String
  is_active : Bool
  created_by : Option Uuid
  created_at : DateTime
  updated_at : DateTime
  deriving DecidableEq

def ItemRead.modelValidate (item : Item) : ItemRead where
  id := item.id
  tenant_id := item.tenant_id
  name := item.name
  description := item.description
  is_active := item.is_active
  created_by := item.created_by
  created_at := item.created_at
  updated_at := item.updated_at

structure ItemSearchResult where
  item : ItemRead
  highlight : Option String

structure ItemFilter where
  page : Nat
  per_page : Nat
  is_active : Option Bool
  search : Option String
  page_pos : 1 ≤ page
  per_page_pos : 1 ≤ per_page
  per_page_le : per_page ≤ 100

def ItemFilter.offset (f : ItemFilter) : Nat := (f.page - 1) * f.per_page

structure PaginatedItems where
  items : List ItemRead
  total : Nat
  page : Nat
  per_page : Nat

structure ItemRetentionReport where
  tenant_id : Uuid
  retention_days : Int
  cutoff_date : DateTime
  affected_count : Nat
  affected_items : List ItemRead

/-! ## `services/items/repository.py` -/

/-- What the database computes with texts. -/
structure ItemSql where
  backend : Backend
  /-- `value ILIKE pattern` -/
  ilike : String → String → Bool
  /-- The collation of `ORDER BY name`. -/
  nameLe : String → String → Bool
  /-- `to_tsvector('english', v) @@ websearch_to_tsquery('english', query)` -/
  tsMatches : String → String → Bool
  /-- `ts_rank` of the first vector is not below that of the second. -/
  tsRankGe : String → String → String → Bool
  tsHeadline : String → String → String

namespace ItemRepository

/-- `update_search_vector` -/
def searchVector (name : String) (description : Option String) : String :=
  match description.filter (· ≠ "") with
  | some description => " ".intercalate [name, description]
  | none => " ".intercalate [name]

/-- `select(Item).where(Item.tenant_id == tenant_id)` -/
def ofTenant (tenant_id : Uuid) (t : ItemTable) : List Item :=
  t.rows.filter fun i => i.tenant_id = tenant_id

def getById (item_id : Uuid) (t : ItemTable) : Option Item := t.find item_id

variable (sql : ItemSql)

/-- `Item.name.ilike(like) | Item.description.ilike(like)` -/
def isLike (like : String) (i : Item) : Bool :=
  sql.ilike i.name like || i.description.any fun d => sql.ilike d like

/-- `LIMIT`: negative, it is none in SQLite and an error in PostgreSQL. -/
def applyLimit (limit : Int) (rows : List α) : Except AppError (List α) :=
  if 0 ≤ limit then .ok (rows.take limit.toNat)
  else
    match sql.backend with
    | .sqlite => .ok rows
    | .postgresql => .error (.unexpected (.valueError "LIMIT must not be negative"))

def searchFtsPg (tenant_id : Uuid) (query : String) (limit : Int) (t : ItemTable) :
    Except AppError (List (Item × String)) := do
  let found := (ofTenant tenant_id t).filter fun i => sql.tsMatches (i.search_vector.getD "") query
  let rows ← applyLimit sql limit (found.mergeSort fun i j =>
    sql.tsRankGe query (i.search_vector.getD "") (j.search_vector.getD ""))
  return rows.map fun i => (i, sql.tsHeadline (i.search_vector.getD "") query)

/-- `query.split()` -/
def queryWords (query : String) : List String :=
  ((query.toList.splitOnP isSpace).map String.ofList).filter (· ≠ "")

def searchFtsSqlite (tenant_id : Uuid) (query : String) (limit : Int) (t : ItemTable) :
    Except AppError (List (Item × String)) :=
  let words := queryWords query
  if words = [] then .ok []
  else do
    let items ← applyLimit sql limit ((ofTenant tenant_id t).filter fun i =>
      words.all fun word => isLike sql ("%" ++ word ++ "%") i)
    return items.map fun i => (i, i.name)

def searchFts (tenant_id : Uuid) (query : String) (limit : Int) (t : ItemTable) :
    Except AppError (List (Item × String)) :=
  match sql.backend with
  | .postgresql => searchFtsPg sql tenant_id query limit t
  | .sqlite => searchFtsSqlite sql tenant_id query limit t

def list (tenant_id : Uuid) (filters : ItemFilter) (t : ItemTable) : List Item × Nat :=
  let active := (ofTenant tenant_id t).filter fun i => filters.is_active.all fun b => i.is_active = b
  let found := active.filter fun i =>
    (filters.search.filter (· ≠ "")).all fun s => isLike sql ("%" ++ s ++ "%") i
  let sorted := found.mergeSort fun i j => sql.nameLe i.name j.name
  ((sorted.drop filters.offset).take filters.per_page, found.length)

def listOlderThan (tenant_id : Uuid) (cutoff : DateTime) (t : ItemTable) : List Item :=
  ((ofTenant tenant_id t).filter fun i => i.created_at.instant < cutoff.instant).mergeSort
    fun i j => i.created_at.instant ≤ j.created_at.instant

def create (new_uuid tenant_id : Uuid) (name : String) (description : Option String)
    (created_by : Option Uuid) (now : DateTime) (t : ItemTable) :
    Except AppError (Item × ItemTable) :=
  let item : Item := ⟨new_uuid, tenant_id, name, description, true, created_by,
    some (searchVector name description), now, now⟩
  if (t.find new_uuid).isSome then .error (.integrity "UNIQUE constraint failed: items.id")
  else .ok (item, t.upsert item)

/-- The attributes that are set; a flush refuses a null in `name` or `is_active`. -/
def update (item : Item) (data : ItemUpdate) (now : DateTime) (t : ItemTable) :
    Except AppError (Item × ItemTable) :=
  let name := data.name.getD (some item.name)
  let description := data.description.getD item.description
  let is_active := data.is_active.getD (some item.is_active)
  match name, is_active with
  | none, _ => .error (.integrity "NOT NULL constraint failed: items.name")
  | _, none => .error (.integrity "NOT NULL constraint failed: items.is_active")
  | some name, some is_active =>
    let changed := { item with
      name, description, is_active, search_vector := some (searchVector name description) }
    -- Nothing is sent for an item that is as it was.
    if changed = item then .ok (item, t)
    else
      let changed := { changed with updated_at := now }
      .ok (changed, t.upsert changed)

def delete (item : Item) (t : ItemTable) : ItemTable := t.erase item.id

end ItemRepository

/-! ## `services/items/service.py` -/

inductive ItemCall where
  | create (data : ItemCreate) (user_id : Uuid)
  | get (item_id : Uuid)
  | list (filters : ItemFilter)
  | update (item_id : Uuid) (data : ItemUpdate)
  | delete (item_id : Uuid)
  | searchFts (query : String) (limit : Int)
  | checkRetention (retention_days : Int)

/-- A call, with the time at which it is made and the identifier that `uuid4` draws for it. -/
structure ItemEvent where
  call : ItemCall
  now : DateTime
  new_uuid : Uuid

inductive ItemResult where
  | item (item : ItemRead)
  | page (page : PaginatedItems)
  | deleted
  | hits (hits : List ItemSearchResult)
  | report (report : ItemRetentionReport)

def ItemResult.items : ItemResult → List ItemRead
  | item i => [i]
  | page p => p.items
  | deleted => []
  | hits hs => hs.map ItemSearchResult.item
  | report r => r.affected_items

namespace ItemsService

open ItemRepository

/-- An item that is not there, or is another tenant's, is refused. -/
def getOwned (item_id tenant_id : Uuid) (t : ItemTable) : Except AppError Item :=
  match getById item_id t with
  | none => .error (.notFound "Item" item_id.str)
  | some item =>
    if item.tenant_id ≠ tenant_id then .error (.forbidden "Item not accessible") else .ok item

/-- `datetime.now(timezone.utc) - timedelta(days=retention_days)` -/
def retentionCutoff (now : DateTime) (retention_days : Int) : Except AppError DateTime :=
  if 999999999 < retention_days.natAbs then
    .error (.unexpected (.overflowError
      ("days=" ++ toString retention_days ++ "; must have magnitude <= 999999999")))
  else (now.add (-(retention_days * 86400 * 1000000))).mapError .unexpected

variable (sql : ItemSql) (tenant_id : Uuid)

/-- What a call returns and the table that it would commit, `none` where it commits nothing. -/
def attempt (e : ItemEvent) (t : ItemTable) : Except AppError (ItemResult × Option ItemTable) :=
  match e.call with
  | .create data user_id => do
    let (item, t) ← ItemRepository.create e.new_uuid tenant_id data.name data.description
      (some user_id) e.now t
    return (.item (.modelValidate item), some t)
  | .get item_id => do
    let item ← getOwned item_id tenant_id t
    return (.item (.modelValidate item), none)
  | .list filters =>
    let (records, total) := ItemRepository.list sql tenant_id filters t
    return (.page ⟨records.map .modelValidate, total, filters.page, filters.per_page⟩, none)
  | .update item_id data => do
    let item ← getOwned item_id tenant_id t
    let (item, t) ← ItemRepository.update item data e.now t
    return (.item (.modelValidate item), some t)
  | .delete item_id => do
    let item ← getOwned item_id tenant_id t
    return (.deleted, some (ItemRepository.delete item t))
  | .searchFts query limit => do
    let rows ← ItemRepository.searchFts sql tenant_id query limit t
    return (.hits (rows.map fun r =>
      ⟨.modelValidate r.1, if r.2 = "" then none else some r.2⟩), none)
  | .checkRetention retention_days => do
    let cutoff ← retentionCutoff e.now retention_days
    let items := listOlderThan tenant_id cutoff t
    return (.report ⟨tenant_id, retention_days, cutoff, items.length, items.map .modelValidate⟩, none)

/-- One call: what fails rolls back. -/
def perform (e : ItemEvent) (t : ItemTable) : Except AppError ItemResult × ItemTable :=
  match attempt sql tenant_id e t with
  | .ok (result, committed) => (.ok result, committed.getD t)
  | .error err => (.error err, t)

end ItemsService

end ScottyCore
