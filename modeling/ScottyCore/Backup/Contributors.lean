import Mathlib.Data.List.Infix
import Mathlib.Data.List.Lex
import Mathlib.Data.String.Basic
import ScottyCore.Backup.Bundle
import ScottyCore.Core.Merge
import ScottyCore.Lib.Path

namespace ScottyCore
open Python
set_option autoImplicit true

variable {b : Backend}

/-! ## What a payload holds -/

inductive JsonRow where
  | object (row : Dict)
  | array (items : List Val)
  | scalar (v : Val)

/-- A JSON document that stands where a list of rows is expected. -/
inductive JsonDoc where
  | object (members : Dict)
  | array (rows : List JsonRow)
  | scalar (v : Val)

def JsonDoc.ofRows (rows : List Dict) : JsonDoc := .array (rows.map .object)

/-- `for row in doc` -/
def JsonDoc.iter : JsonDoc → Except Exc (List JsonRow)
  | .object members => .ok (members.map fun p => .scalar (.str p.1))
  | .array rows => .ok rows
  | .scalar (.str s) => .ok (s.toList.map fun c => .scalar (.str (String.singleton c)))
  | .scalar v =>
    .error (.python (.typeError ("'" ++ v.typeName ++ "' object is not iterable")))

/-- The row as something that has `get`. -/
def JsonRow.asDict : JsonRow → Except Exc Dict
  | .object row => .ok row
  | .array _ => .error (.python (.attributeError "'list' object has no attribute 'get'"))
  | .scalar v =>
    .error (.python (.attributeError ("'" ++ v.typeName ++ "' object has no attribute 'get'")))

/-- What `_hydrate_row` finds in a row. A list or a text has no column that is not `in` it. -/
def JsonRow.columnsOf (m : Model) : JsonRow → Except Exc Dict
  | .object row => .ok row
  | .array items =>
    if m.columnNames.any fun name => .str name ∈ items then
      .error (.python (.typeError "list indices must be integers or slices, not str"))
    else .ok []
  | .scalar (.str s) =>
    if m.columnNames.any fun name => name.toList <:+: s.toList then
      .error (.python (.typeError "string indices must be integers, not 'str'"))
    else .ok []
  | .scalar v =>
    .error (.python (.typeError ("argument of type '" ++ v.typeName ++ "' is not iterable")))

/-- `[r for r in rows if ...]` with `r.get` in the condition. -/
def JsonDoc.dicts (doc : JsonDoc) : Except Exc (List Dict) := do
  let rows ← doc.iter
  rows.mapM JsonRow.asDict

/-- `_upsert_rows` on a payload. -/
def upsertDoc (m : Model) (doc : JsonDoc) (db : Database b) : Except Exc (Nat × Database b) := do
  let rows ← doc.iter
  rows.foldlM (fun (count, db) row => do
    let row ← row.columnsOf m
    let db ← mergeRow m row db
    .ok (count + 1, db)) (0, db)

/-- What one session commits. What raises in it is rolled back. -/
def transaction (db : Database b) : Except Exc (Nat × Database b) → Except Exc Nat × Database b
  | .ok (count, db) => (.ok count, db)
  | .error e => (.error e, db)

/-- `BackupContributor`. The two optional methods are those callers test with `hasattr`;
`exportAll` is `export`; `restore` leaves a database also where it raises. -/
structure Contributor (b : Backend) where
  contributor_id : String
  scopes : List BackupScope
  exportAll : BackupScope → Option String → Database b → Except Exc ContributorExport
  exportDelta : Option (BackupScope → Option String → Option DateTime → List String →
    Database b → Except Exc ContributorExport)
  getRow : Option (String → String → Database b → Option Dict)
  restore : BackupScope → Val → JsonDoc → List (String × List UInt8) → Database b →
    Except Exc Nat × Database b

def withTag (table : String) (row : Dict) : Dict := ("_table", .str table) :: row

def stripTag (row : Dict) : Dict := row.filter fun p => p.1 ≠ "_table"

def Database.select (db : Database b) (m : Model) : List (Row b m) := (db.table m).rows

/-- The stripped rows of a payload that are tagged with a table. -/
def taggedRows (table : String) (rows : List Dict) : List Dict :=
  (rows.filter fun r => r.get "_table" = .str table).map stripTag

/-- `WHERE column >= since`, when there is a `since`. -/
def whereSince (m : Model) (column : String) (since : Option DateTime) (rows : List (Row b m)) :
    Except Exc (List (Row b m)) :=
  match since with
  | none => .ok rows
  | some t => do
    let c ← m.attr column
    let t ← b.bindDateTime t
    .ok <| rows.filter fun r =>
      match r.get c.name with
      | .datetime d => t.instant ≤ d.instant
      | _ => false

def tenantVal : Option String → Val
  | some t => .str t
  | none => .none

/-! ## `contributors.py` -/

def usersContributor : Contributor b where
  contributor_id := "users"
  scopes := [.platform]
  exportAll _ _ db := .ok
    { rows := (db.select .user).map (fun r => withTag "users" (rowToDict r)) ++
        (db.select .userTenantRole).map fun r => withTag "user_tenant_roles" (rowToDict r) }
  exportDelta := none
  getRow := some fun _ row_id db =>
    (db.find .user (.str row_id)).map fun r => withTag "users" (rowToDict r)
  restore _ _ rows _ db := transaction db do
    let rows ← rows.dicts
    let (total, db) ← upsertRows .user (taggedRows "users" rows) db
    let (more, db) ← upsertRows .userTenantRole (taggedRows "user_tenant_roles" rows) db
    .ok (total + more, db)

def tenantsContributor : Contributor b where
  contributor_id := "tenants"
  scopes := [.platform]
  exportAll _ _ db := .ok
    { rows := (db.select .tenant).map (fun r => withTag "tenants" (rowToDict r)) ++
        (db.select .role).map fun r => withTag "roles" (rowToDict r) }
  exportDelta := none
  getRow := some fun _ row_id db =>
    (db.find .tenant (.str row_id)).map fun r => withTag "tenants" (rowToDict r)
  restore _ _ rows _ db := transaction db do
    let rows ← rows.dicts
    let (total, db) ← upsertRows .role (taggedRows "roles" rows) db
    let (more, db) ← upsertRows .tenant (taggedRows "tenants" rows) db
    .ok (total + more, db)

def selectSettings (scope : BackupScope) (tenant_id : Option String) (db : Database b) :
    List (Row b .setting) :=
  match scope with
  | .platform => (db.select .setting).filter fun r => r.get "scope" = .str "global"
  | .tenant => (db.select .setting).filter fun r =>
      r.get "scope" = .str "tenant" ∧ r.get "scope_id" = tenantVal tenant_id

def settingsContributor : Contributor b where
  contributor_id := "settings"
  scopes := [.platform, .tenant]
  exportAll scope tenant_id db := .ok { rows := (selectSettings scope tenant_id db).map rowToDict }
  exportDelta := none
  getRow := some fun _ row_id db => (db.find .setting (.str row_id)).map rowToDict
  restore _ _ rows _ db := transaction db (upsertDoc .setting rows db)

def selectItems (tenant_id : Option String) (db : Database b) : List (Row b .item) :=
  (db.select .item).filter fun r => r.get "tenant_id" = tenantVal tenant_id

def itemsContributor : Contributor b where
  contributor_id := "items"
  scopes := [.tenant]
  exportAll _ tenant_id db := .ok { rows := (selectItems tenant_id db).map rowToDict }
  exportDelta := some fun _ tenant_id since _ db => do
    let items ← whereSince .item "updated_at" since (selectItems tenant_id db)
    .ok { rows := items.map rowToDict }
  getRow := some fun _ row_id db => (db.find .item (.str row_id)).map rowToDict
  restore _ _ rows _ db := transaction db (upsertDoc .item rows db)

def selectAuditLog (scope : BackupScope) (tenant_id : Option String) (db : Database b) :
    List (Row b .auditLog) :=
  match scope with
  | .platform => db.select .auditLog
  | .tenant => (db.select .auditLog).filter fun r => r.get "tenant_id" = tenantVal tenant_id

def auditLogContributor : Contributor b where
  contributor_id := "audit_log"
  scopes := [.platform, .tenant]
  exportAll scope tenant_id db := .ok { rows := (selectAuditLog scope tenant_id db).map rowToDict }
  exportDelta := some fun scope tenant_id since _ db => do
    let rows ← whereSince .auditLog "created_at" since (selectAuditLog scope tenant_id db)
    .ok { rows := rows.map rowToDict }
  getRow := none
  restore _ _ rows _ db := transaction db (upsertDoc .auditLog rows db)

/-! ## `secrets_contributor.py` -/

/-- The endings of `DEFAULT_SECRET_PATTERNS`, each of which is `.*` before its ending. -/
def defaultSecretPatterns : List String :=
  ["_secret", "_password", "_pwd", "_token", "_api_key", "_apikey", "_private_key",
    "_passphrase", "_webhook"]

/-- The letter that a character matches under `re.IGNORECASE`. -/
def ignoreCase (c : Char) : Char :=
  if 'A' ≤ c ∧ c ≤ 'Z' then Char.ofNat (c.toNat + 32)
  else if c = '\u017f' then 's'
  else if c = '\u0131' ∨ c = '\u0130' then 'i'
  else if c = '\u212a' then 'k'
  else c

/-- `re.fullmatch(".*" + ending + "$", key)`, where a dot matches no newline. -/
def matchesEnding (key ending : List Char) : Bool :=
  let n := key.length - ending.length
  ending.length ≤ key.length && (key.drop n).map ignoreCase == ending &&
    (key.take n).all fun c => c ≠ '\n'

def isSecret : Val → Except Exc Bool
  | .str key => .ok <| defaultSecretPatterns.any fun p => matchesEnding key.toList p.toList
  | _ => .error (.python (.typeError "expected string or bytes-like object"))

/-- `[r for r in rows if self.is_secret(key(r))]` -/
def keepSecrets (key : α → Val) : List α → Except Exc (List α)
  | [] => .ok []
  | r :: rows => do
    let secret ← isSecret (key r)
    let kept ← keepSecrets key rows
    .ok (if secret then r :: kept else kept)

def keepSecretRows : List JsonRow → Except Exc (List Dict)
  | [] => .ok []
  | r :: rows => do
    let row ← r.asDict
    let secret ← isSecret (row.getD "key" (.str ""))
    let kept ← keepSecretRows rows
    .ok (if secret then row :: kept else kept)

def secretsContributor : Contributor b where
  contributor_id := "secrets"
  scopes := [.platform, .tenant]
  exportAll scope tenant_id db := do
    let rows ← keepSecrets (fun r => r.get "key") (selectSettings scope tenant_id db)
    .ok { rows := rows.map rowToDict }
  exportDelta := none
  getRow := none
  restore _ _ rows _ db := transaction db do
    let rows ← rows.iter
    let safe_rows ← keepSecretRows rows
    upsertRows .setting safe_rows db

/-! ## `files_contributor.py` -/

/-- `target.with_suffix(target.suffix + ".part").resolve()` -/
def partParts (parts : List String) : List String :=
  resolveParts parts.dropLast ++ parts.getLast?.toList.map (· ++ ".part")

def isDirectory (path : List String) (db : Database b) : Bool :=
  db.uploads.rows.any fun f => path.isPrefixOf f.1 && decide (path ≠ f.1)

/-- A file stands where `mkdir` needs a directory. -/
def isBlocked (base parts : List String) (db : Database b) : Bool :=
  parts.dropLast.inits.any fun dir =>
    match List.isPrefixOf? base (resolveParts dir) with
    | some path => (db.uploads.find path).isSome
    | none => false

/-- The body of the loop of `FilesContributor.restore`: what it raises, and the uploads that it
sets or, where nothing is given, removes. Every directory holds a file. -/
def fileWrites (base : List String) (file : String × List UInt8) (db : Database b) :
    Option Exc × List (List String × Option (List UInt8)) :=
  let parts := targetParts base file.1
  match List.isPrefixOf? base (resolveParts parts) with
  | none => (none, [])
  | some path =>
    let tmp := List.isPrefixOf? base (partParts parts)
    if isBlocked base parts db then (some (.osError "Not a directory"), [])
    else if tmp.any fun tmp => isDirectory tmp db then (some (.osError "Is a directory"), [])
    else if path = [] ∨ parts.getLast? = some ".." ∨ isDirectory path db then
      -- `replace` fails and leaves the `.part` file
      (some (.osError "Is a directory"), tmp.toList.map fun tmp => (tmp, some file.2))
    else (none, tmp.toList.map (fun tmp => (tmp, none)) ++ [(path, some file.2)])

def setUpload (db : Database b) (write : List String × Option (List UInt8)) : Database b :=
  match write.2 with
  | some raw => { db with uploads := db.uploads.upsert (write.1, raw) }
  | none => { db with uploads := db.uploads.erase write.1 }

def writeFile (base : List String) (file : String × List UInt8) (db : Database b) :
    Option Exc × Database b :=
  ((fileWrites base file db).1, (fileWrites base file db).2.foldl setUpload db)

def writeFiles (base : List String) :
    List (String × List UInt8) → Database b → Except Exc Nat × Database b
  | [], db => (.ok 0, db)
  | file :: files, db =>
    match writeFile base file db with
    | (some e, db) => (.error e, db)
    | (none, db) => writeFiles base files db

def walkRoot (scope : BackupScope) (tenant_id : Option String) (db : Database b) :
    Option (List String) :=
  match scope, tenant_id with
  | .platform, _ => some []
  | .tenant, none => none
  | .tenant, some t =>
    match db.find .tenant (.str t) with
    | some r =>
      match r.get "slug" with
      | .str "" => none
      | .str slug => some (splitPath slug)
      | _ => none
    | none => none

def filesContributor (base : List String) (max_bytes_per_file : Nat) : Contributor b where
  contributor_id := "files"
  scopes := [.platform, .tenant]
  exportAll scope tenant_id db := .ok <|
    match walkRoot scope tenant_id db with
    | none => {}
    | some root =>
      { files := ((db.uploads.rows.filter fun f =>
            root.isPrefixOf f.1 && decide (f.2.length ≤ max_bytes_per_file)).mergeSort
              fun f g => decide (f.1 ≤ g.1)).map fun f => (String.intercalate "/" f.1, f.2) }
  exportDelta := none
  getRow := none
  restore _ _ _ files db := writeFiles base files db

end ScottyCore
