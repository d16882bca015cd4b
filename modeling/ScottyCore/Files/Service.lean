import ScottyCore.Files.Names
import ScottyCore.Lib.DirTree

namespace ScottyCore
open Python DirTree DirTree.Tree
set_option autoImplicit true

/-- What the files service raises, its own errors and those of the system. -/
inductive FilesError where
  | forbidden (message : String)
  | notFound (resource identifier : String)
  | validation (message : String)
  | os (fault : Fault)
  deriving DecidableEq

inductive EntryType where
  | file
  | folder
  deriving DecidableEq

/-- The time of an entry is what `os.stat` gives. -/
structure FileEntry where
  name : String
  path : String
  type : EntryType
  size : Nat
  mtime : Int
  ext : String
  deriving DecidableEq

structure FileListResponse where
  ok : Bool
  entries : List FileEntry
  path : String
  tenant_slug : String
  deriving DecidableEq

/-- Files hold bytes. -/
abbrev UploadTree := DirTree.Tree (List UInt8)

inductive FilesCall where
  | list (rel_path : String)
  | mkdir (path name : String)
  | rename (path new_name : String)
  | delete (path : String)

inductive FilesResult where
  | listing (response : FileListResponse)
  | entry (entry : FileEntry)
  | deleted
  deriving DecidableEq

/-- A call, and the time that it leaves on the directories it changes. -/
structure FilesEvent where
  call : FilesCall
  now : Int

namespace FilesService

variable (u : Unicode) (base : List String) (tenant_slug : String)

/-- The directory of a tenant, as it resolves. -/
def tenantRoot : List String := goTo base (secureFilename u tenant_slug)

/-- `_safe_resolve` -/
def safeResolve (rel_path : String) : Option (List String) :=
  if secureFilename u tenant_slug = "" then none else
  let tenant_root := tenantRoot u base tenant_slug
  let parts := (splitPath rel_path).filter fun p => p ≠ "" ∧ p ≠ "."
  let safe_components := (parts.map (secureFilename u)).filter (· ≠ "")
  let target := resolveFrom tenant_root safe_components
  if tenant_root <+: target then some target else none

/-- `_ensure_tenant_dir` -/
def ensureTenantDir (now : Int) (t : UploadTree) : Except FilesError (List String) × UploadTree :=
  if secureFilename u tenant_slug = "" then (.error (.forbidden "Invalid tenant slug"), t) else
  let tenant_root := tenantRoot u base tenant_slug
  match makeDirs now (base.inits.tail ++ [tenant_root]) t with
  | (some fault, t) => (.error (.os fault), t)
  | (none, t) => (.ok tenant_root, t)

/-- `_entry_from_path`, of what stands at the path. -/
def entryFromPath (path tenant_root : List String) : UploadTree → FileEntry
  | .file data mtime =>
    let name := path.getLast?.getD ""
    ⟨name, joinPath (path.drop tenant_root.length), .file, data.length, mtime,
      u.lower (String.ofList ((suffix name).toList.dropWhile (· = '.')))⟩
  | .dir _ mtime =>
    ⟨path.getLast?.getD "", joinPath (path.drop tenant_root.length), .folder, 0, mtime, ""⟩

def entryAt (path tenant_root : List String) (t : UploadTree) : Except FilesError FilesResult :=
  match t.find path with
  | some found => .ok (.entry (entryFromPath u path tenant_root found))
  | none => .error (.os .fileNotFound)

/-- `sorted(..., key=lambda p: p.name.lower())` -/
def sortByName (children : List (String × UploadTree)) : List (String × UploadTree) :=
  children.mergeSort fun a b => decide (u.lower a.1 ≤ u.lower b.1)

/-- The parts that `/ name` adds to a path. -/
def nameParts (name : String) : List String := if name = "." then [] else [name]

/-- Folders before files, both sorted by name. -/
def entriesOf (target tenant_root : List String) (children : List (String × UploadTree)) :
    List FileEntry :=
  let folders := sortByName u (children.filter fun c => c.2.isDir)
  let files := sortByName u (children.filter fun c => !c.2.isDir)
  (folders ++ files).map fun c => entryFromPath u (target ++ [c.1]) tenant_root c.2

def listFiles (rel_path : String) (now : Int) (t : UploadTree) :
    Except FilesError FilesResult × UploadTree :=
  match ensureTenantDir u base tenant_slug now t with
  | (.error e, t) => (.error e, t)
  | (.ok tenant_root, t) =>
    match safeResolve u base tenant_slug rel_path with
    | none => (.error (.forbidden "Path traversal detected"), t)
    | some target =>
      match t.find target with
      | none => (.error (.notFound "Directory" (if rel_path = "" then "/" else rel_path)), t)
      | some (.file ..) =>
        (.error (.validation ("Path '" ++ rel_path ++ "' is not a directory")), t)
      | some (.dir children _) =>
        let entries := entriesOf u target tenant_root children
        let path := if rel_path = "" then "" else pathStr rel_path
        (.ok (.listing ⟨true, entries, path, tenant_slug⟩), t)

def mkdir (path name : String) (now : Int) (t : UploadTree) :
    Except FilesError FilesResult × UploadTree :=
  let safe_name := secureFilename u name
  if safe_name = "" then (.error (.validation "Invalid directory name"), t) else
  match safeResolve u base tenant_slug path with
  | none => (.error (.forbidden "Path traversal detected"), t)
  | some parent =>
    match t.find parent with
    | none => (.error (.notFound "Parent directory" (if path = "" then "/" else path)), t)
    | some found =>
      if (t.stat parent (nameParts safe_name)).isSome then
        (.error (.validation ("'" ++ safe_name ++ "' already exists")), t)
      else if !found.isDir then (.error (.os .notADirectory), t)
      else
        let new_dir := parent ++ [safe_name]
        let t := t.put now new_dir (some (.dir [] now))
        match ensureTenantDir u base tenant_slug now t with
        | (.error e, t) => (.error e, t)
        | (.ok tenant_root, t) => (entryAt u new_dir tenant_root t, t)

def rename (path new_name : String) (now : Int) (t : UploadTree) :
    Except FilesError FilesResult × UploadTree :=
  let safe_new_name := secureFilename u new_name
  if safe_new_name = "" then (.error (.validation "Invalid new name"), t) else
  match safeResolve u base tenant_slug path with
  | none => (.error (.forbidden "Path traversal detected"), t)
  | some target =>
    match t.find target with
    | none => (.error (.notFound "File or directory" path), t)
    | some found =>
      match ensureTenantDir u base tenant_slug now t with
      | (.error e, t) => (.error e, t)
      | (.ok tenant_root, t) =>
        if target = tenant_root then
          (.error (.forbidden "Cannot rename the tenant root directory"), t)
        else
          let parent := target.dropLast
          if ¬ tenant_root <+: resolveFrom parent (nameParts safe_new_name) then
            (.error (.forbidden "Path traversal detected in destination"), t)
          else if (t.stat parent (nameParts safe_new_name)).isSome then
            (.error (.validation ("'" ++ safe_new_name ++ "' already exists")), t)
          else
            let dest := parent ++ [safe_new_name]
            let t := (t.put now target none).put now dest (some found)
            (entryAt u dest tenant_root t, t)

def delete (path : String) (now : Int) (t : UploadTree) :
    Except FilesError FilesResult × UploadTree :=
  match safeResolve u base tenant_slug path with
  | none => (.error (.forbidden "Path traversal detected"), t)
  | some target =>
    match ensureTenantDir u base tenant_slug now t with
    | (.error e, t) => (.error e, t)
    | (.ok tenant_root, t) =>
      if target = tenant_root then
        (.error (.forbidden "Cannot delete the tenant root directory"), t)
      else
        match t.find target with
        | none => (.error (.notFound "File or directory" path), t)
        | some found =>
          if found.isDir ∧ found.children ≠ [] then
            (.error (.validation "Directory is not empty; remove contents first"), t)
          else (.ok .deleted, t.put now target none)

/-- One call, with the slug of a tenant. -/
def perform (e : FilesEvent) (t : UploadTree) : Except FilesError FilesResult × UploadTree :=
  match e.call with
  | .list rel_path => listFiles u base tenant_slug rel_path e.now t
  | .mkdir path name => mkdir u base tenant_slug path name e.now t
  | .rename path new_name => rename u base tenant_slug path new_name e.now t
  | .delete path => delete u base tenant_slug path e.now t

end FilesService

end ScottyCore
