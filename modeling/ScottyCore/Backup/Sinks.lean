import ScottyCore.Backup.Contributors
import ScottyCore.Lib.Json

namespace ScottyCore
open Python
set_option autoImplicit true

/-- What the backup services import: tar and gzip, SHA-256, gpg, croniter, `pathlib` on this
machine and `str.format`. -/
structure BackupLibraries (Data : Type) where
  encode : Bytes → Data
  size : Data → Nat
  sha256 : Data → String
  gpg : Data → String → Except Exc Data
  shortDigest : String → String
  croniter : String → DateTime → Except Exc DateTime
  resolveUnder : String → String → List String
  format : String → List (String × String) → Except Exc String

/-! ## `sinks/base.py` -/

structure BackupBlob (Data : Type) where
  data : Data
  sha256 : String
  size : Nat
  app_slug : String
  scope : String
  kind : String
  created_at : DateTime
  encrypted : Bool
  key_fingerprint : Option String
  tenant_slug : Option String
  metadata : List (String × String) := []

/-- `d.astimezone(timezone.utc)` -/
def astimezoneUtc (d : DateTime) : DateTime :=
  (DateTime.ofWallMicros d.instant (some 0)).getD d

/-- `strftime("%Y%m%dT%H%M%S")` -/
def stampSeconds (d : DateTime) : String :=
  String.ofList (digits 4 d.year ++ digits 2 d.month ++ digits 2 d.day ++ 'T' ::
    (digits 2 d.hour ++ digits 2 d.minute ++ digits 2 d.second))

def BackupBlob.ext (blob : BackupBlob Data) : String :=
  if blob.encrypted then ".tar.gz.gpg" else ".tar.gz"

def defaultFilename (blob : BackupBlob Data) : String :=
  let name := stampSeconds (astimezoneUtc blob.created_at) ++ "Z-" ++ blob.kind ++ blob.ext
  match (if blob.scope = "tenant" then blob.tenant_slug.filter (· ≠ "") else none) with
  | some tenant_slug => blob.app_slug ++ "/" ++ blob.scope ++ "/" ++ tenant_slug ++ "/" ++ name
  | none => blob.app_slug ++ "/" ++ blob.scope ++ "/" ++ name

/-! ## `sinks/git_repo.py` -/

/-- `_render_path` -/
def renderPath (libs : BackupLibraries Data) (path_template : String) (blob : BackupBlob Data) :
    Except Exc String := do
  let utc := astimezoneUtc blob.created_at
  let ts := stampSeconds utc ++ "." ++ String.ofList (digits 6 utc.microsecond) ++ "Z"
  let prefix_ ← libs.format path_template [
    ("app_slug", if blob.app_slug = "" then "unknown" else blob.app_slug),
    ("scope", if blob.scope = "" then "platform" else blob.scope),
    ("tenant_slug", blob.tenant_slug.getD ""), ("kind", blob.kind), ("timestamp", ts)]
  .ok (String.intercalate "/" ((splitPath prefix_).filter (· ≠ "")) ++ "/" ++ ts ++ "-" ++
    blob.kind ++ blob.ext)

/-! ## The sinks of the scheduler -/

inductive StorageSink where
  | localDisk (root_dir : String)
  | scottyDev (base_url : String)
  | gitRepo (local_clone_dir : String) (path_template : Json)

/-- `Path(config.get(key) or default)` -/
def pathOr (default : String) : Json → Except Exc String
  | .str s => .ok (if s = "" then default else s)
  | j =>
    if j.truthy then
      .error (.python (.typeError
        ("argument should be a str or an os.PathLike object where __fspath__ returns a str, not '" ++
          j.typeName ++ "'")))
    else .ok default

/-- `s.rstrip("/")` -/
def rstripSlash (s : String) : String :=
  String.ofList (s.toList.reverse.dropWhile (· = '/')).reverse

def defaultPathTemplate : String := "snapshots/\x7bapp_slug\x7d/\x7bscope\x7d/\x7btenant_slug\x7d"

/-- `_build_sink_from_config` -/
def buildSinkFromConfig (sink_type : String) (config : JsonDict) : Except Exc StorageSink :=
  if sink_type = "local_disk" then
    (pathOr "/app/data/backups" (config.get "root_dir")).map .localDisk
  else if sink_type = "scottydev" then
    match config.get "base_url" with
    | .str base =>
      if base = "" then .error (.python (.valueError "orchestrator sink requires base_url"))
      else .ok (.scottyDev (rstripSlash base))
    | base =>
      if base.truthy then
        .error (.python (.attributeError
          ("'" ++ base.typeName ++ "' object has no attribute 'rstrip'")))
      else .error (.python (.valueError "orchestrator sink requires base_url"))
  else if sink_type = "git_repo" then
    if (config.get "repo_url").truthy then do
      let template := config.get "path_template"
      let template := if template.truthy then template else .str defaultPathTemplate
      match template with
      | .bool _ | .int _ | .number _ =>
        throw (.python (.typeError
          ("argument of type '" ++ template.typeName ++ "' is not iterable")))
      | _ =>
        let clone_dir ← pathOr "/app/data/backups-git" (config.get "clone_dir")
        .ok (.gitRepo clone_dir template)
    else .error (.python (.valueError "git_repo sink requires repo_url"))
  else .error (.python (.valueError ("unsupported sink_type for scheduler: " ++ sink_type)))

/-- Where a sink keeps a blob: a file of this machine, or what a URL names. -/
inductive Place where
  | file (parts : List String)
  | url (address : String)
  deriving DecidableEq

/-- What the sinks hold. -/
abbrev Stored (Data : Type) := KeyedTable (Place × Data) Prod.fst

namespace StorageSink

variable (libs : BackupLibraries Data)

def place : StorageSink → String → Place
  | localDisk root_dir, locator => .file (libs.resolveUnder root_dir locator)
  | scottyDev base_url, locator => .url (base_url ++ "/api/v1/backups/store/" ++ locator)
  | gitRepo clone_dir _, locator => .file (libs.resolveUnder clone_dir locator)

/-- `_resolve`: a locator must not lead out of the root of its sink. -/
def holdsLocator : StorageSink → String → Bool
  | localDisk root_dir, locator =>
    (libs.resolveUnder root_dir "").isPrefixOf (libs.resolveUnder root_dir locator)
  | scottyDev _, _ => true
  | gitRepo clone_dir _, locator =>
    (libs.resolveUnder clone_dir "").isPrefixOf (libs.resolveUnder clone_dir locator)

/-- The locator under which a sink stores a blob. -/
def locatorOf : StorageSink → BackupBlob Data → Except Exc String
  | localDisk _, blob => .ok (defaultFilename blob)
  | scottyDev _, blob => .ok (blob.app_slug ++ "/" ++ defaultFilename blob)
  | gitRepo _ (.str path_template), blob => renderPath libs path_template blob
  | gitRepo _ template, _ =>
    .error (.python (.attributeError
      ("'" ++ template.typeName ++ "' object has no attribute 'format'")))

/-- `put`: the locator, with the blob in its place over whatever was there. -/
def put (sink : StorageSink) (blob : BackupBlob Data) (stored : Stored Data) :
    Except Exc (String × Stored Data) := do
  let locator ← sink.locatorOf libs blob
  .ok (locator, stored.upsert (sink.place libs locator, blob.data))

def get (sink : StorageSink) (locator : String) (stored : Stored Data) : Except Exc Data :=
  if sink.holdsLocator libs locator then
    match stored.find (sink.place libs locator) with
    | some entry => .ok entry.2
    | none => .error (.runtimeError ("no snapshot at " ++ locator))
  else .error (.runtimeError ("locator escapes root: " ++ locator))

def delete (sink : StorageSink) (locator : String) (stored : Stored Data) :
    Except Exc (Stored Data) :=
  if sink.holdsLocator libs locator then
    if (stored.find (sink.place libs locator)).isSome then
      .ok (stored.erase (sink.place libs locator))
    else .error (.runtimeError ("no snapshot at " ++ locator))
  else .error (.runtimeError ("locator escapes root: " ++ locator))

end StorageSink

/-! ## `crypto.py` -/

/-- `passphrase.rstrip("\n\r")` -/
def normalisePassphrase (passphrase : String) : String :=
  String.ofList (passphrase.toList.reverse.dropWhile fun c => c = '\n' ∨ c = '\r').reverse

def fingerprint (libs : BackupLibraries Data) (passphrase : String) : String :=
  libs.shortDigest (normalisePassphrase passphrase)

def encryptBundle (libs : BackupLibraries Data) (data : Data) (passphrase : String) :
    Except Exc Data :=
  if normalisePassphrase passphrase = "" then
    .error (.runtimeError "empty passphrase is not allowed")
  else libs.gpg data (normalisePassphrase passphrase)

end ScottyCore
