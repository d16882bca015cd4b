import ScottyCore.Backup.Sinks
import ScottyCore.Lib.Bytes
import ScottyCore.Lib.FileOps
import ScottyCore.Lib.IsoFormat

namespace ScottyCore
open Python FileSystem
set_option autoImplicit true

/-- What the sinks on files import: `json`, `int` and `hashlib`, the clock, and the size that the
system gives for a directory. -/
structure SinkLibraries where
  dumps : (indent : Option Nat) → JsonDict → String
  loads : String → Option Json
  int : Json → Except Exc Int
  sha256 : List UInt8 → String
  now : DateTime
  directorySize : Int

def faultExc : Fault → Exc
  | .notFound => .osError "No such file or directory"
  | .notADirectory => .osError "Not a directory"
  | .isADirectory => .osError "Is a directory"
  | .nullByte => .python (.valueError "embedded null byte")
  | .emptyName => .python (.valueError "empty name")

/-! ## `sinks/base.py` -/

/-- `default_filename`, which raises where UTC has no such day. -/
def fileNameOf (blob : BackupBlob Data) : Except Exc String :=
  if (DateTime.ofWallMicros blob.created_at.instant (some 0)).isSome then .ok (defaultFilename blob)
  else .error (.python (.overflowError "date value out of range"))

structure SinkWriteResult where
  locator : String
  sink_type : String
  bytes_written : Nat
  created_at : DateTime
  deriving DecidableEq

/-- `SnapshotEntry`, with what stands in the sidecar under a name. -/
structure SnapshotEntry where
  locator : String
  app_slug : Json
  scope : Json
  kind : Json
  size : Int
  created_at : DateTime
  encrypted : Bool
  sha256 : Json
  key_fingerprint : Json
  tenant_slug : Json

/-- `SinkNotFoundError` -/
def noSnapshot (locator : String) : Exc := .runtimeError ("no snapshot at " ++ locator)

/-! ## Sidecars -/

def optional : Option String → Json
  | some s => .str s
  | none => .null

/-- The dictionary that a sink writes beside a bundle. -/
def sidecarMeta (blob : BackupBlob Data) : JsonDict :=
  [("sha256", .str blob.sha256), ("size", .int blob.size), ("app_slug", .str blob.app_slug),
    ("scope", .str blob.scope), ("kind", .str blob.kind), ("encrypted", .bool blob.encrypted),
    ("key_fingerprint", optional blob.key_fingerprint), ("tenant_slug", optional blob.tenant_slug),
    ("created_at", .str blob.created_at.isoformat),
    ("metadata", .obj (blob.metadata.map fun p => (p.1, .str p.2)))]

/-- The bytes of a sidecar. -/
def sidecarBytes (libs : SinkLibraries) (blob : BackupBlob Data) : List UInt8 :=
  encodeUtf8 (libs.dumps (some 2) (sidecarMeta blob))

/-- `path.read_text(encoding="utf-8")` of the bytes of a file -/
def readText (data : List UInt8) : Except Exc String :=
  match decodeUtf8 data with
  | some text => .ok (String.ofList (universalNewlines text.toList))
  | none => .error (.python (.valueError "'utf-8' codec can't decode byte"))

/-- `meta.get(key, default)` -/
def metaGet (key : String) (default : Json) : Json → Except Exc Json
  | .obj members => .ok ((members.lookup key).getD default)
  | j => .error (.python (.attributeError ("'" ++ j.typeName ++ "' object has no attribute 'get'")))

/-- `if filter and meta.get(key) != filter: continue` -/
def passesFilter (filter : Option String) (key : String) (sidecar : Json) : Except Exc Bool :=
  match filter.filter (· ≠ "") with
  | none => .ok true
  | some s => do
    match ← metaGet key .null sidecar with
    | .str found => .ok (found = s)
    | _ => .ok false

theorem utc_offset_bounded : ∀ x ∈ some (0 : Int), x.natAbs < 86400 := by
  intro x hx
  cases hx
  decide

/-- `_parse_ts` -/
def SinkLibraries.parseTs (libs : SinkLibraries) : Json → DateTime
  | .str raw =>
    match fromisoformat raw with
    | .ok dt => if dt.isNaive then dt.withOffset (some 0) utc_offset_bounded else dt
    | .error _ => libs.now
  | _ => libs.now

def snapshotEntry (libs : SinkLibraries) (locator : String) (size : Int) (sidecar : Json) :
    Except Exc SnapshotEntry := do
  let app_slug ← metaGet "app_slug" (.str "") sidecar
  let scope ← metaGet "scope" (.str "") sidecar
  let kind ← metaGet "kind" (.str "full") sidecar
  let size ← libs.int (← metaGet "size" (.int size) sidecar)
  let created_at ← metaGet "created_at" .null sidecar
  let encrypted ← metaGet "encrypted" (.bool false) sidecar
  let sha256 ← metaGet "sha256" .null sidecar
  let key_fingerprint ← metaGet "key_fingerprint" .null sidecar
  let tenant_slug ← metaGet "tenant_slug" .null sidecar
  .ok { locator, app_slug, scope, kind, size, created_at := libs.parseTs created_at,
        encrypted := encrypted.truthy, sha256, key_fingerprint, tenant_slug }

/-! ## `sinks/local_disk.py` -/

/-- `LocalDiskSink`: the root has been resolved. -/
structure LocalDiskSink where
  root : List String
  names : ∀ name ∈ root, IsName name

/-- What `os.getpid()` and `f"{id(blob):016x}"` print. -/
structure WriterTag where
  pid : String
  address : String
  digits : ∀ c ∈ pid.toList ++ address.toList, c.isAlphanum = true
  deriving DecidableEq

/-- The ending of a temporary file. -/
def WriterTag.ending (tag : WriterTag) : String :=
  "." ++ tag.pid ++ "." ++ tag.address ++ ".part"

namespace LocalDiskSink

variable (libs : SinkLibraries) (sink : LocalDiskSink)

/-- A path beside `target`, with an ending after its name. -/
def sibling (target : List String) (ending : String) : List String :=
  target.dropLast ++ target.getLast?.toList.map (· ++ ending)

/-- What `put` does on the disk. -/
def putOps (tag : WriterTag) (blob : BackupBlob (List UInt8)) (rel : String) :
    List (Op (List UInt8)) :=
  let target := targetParts sink.root rel
  let tmp := sibling target tag.ending
  [.makeDirs target.dropLast, .write tmp blob.data, .rename tmp target,
    .write (sibling target ".meta.json") (sidecarBytes libs blob)]

def put (tag : WriterTag) (blob : BackupBlob (List UInt8)) (t : Disk) :
    Except Exc SinkWriteResult × Disk :=
  match fileNameOf blob with
  | .error e => (.error e, t)
  | .ok rel =>
    match runOps (sink.putOps libs tag blob rel) t with
    | (some f, t) => (.error (faultExc f), t)
    | (none, t) => (.ok ⟨rel, "local_disk", blob.size, blob.created_at⟩, t)

/-- `_resolve` -/
def resolve (locator : String) (t : Disk) : Except Exc (List String) :=
  let target := targetParts sink.root locator
  if ∀ p ∈ target, IsPart p then
    if sink.root <+: resolveParts target then
      if t.isFile (resolveParts target) then .ok (resolveParts target)
      else .error (noSnapshot locator)
    else .error (.runtimeError ("locator escapes root: " ++ locator))
  else .error (faultExc .nullByte)

def get (locator : String) (t : Disk) : Except Exc (List UInt8) := do
  let path ← sink.resolve locator t
  match t.find path with
  | some (.file data) => .ok data
  | _ => .error (faultExc .notFound)

def unlinkOps (path : List String) : List (Op (List UInt8)) :=
  [.unlink path, .unlinkExisting (sibling path ".meta.json")]

def delete (locator : String) (t : Disk) : Except Exc Unit × Disk :=
  match sink.resolve locator t with
  | .error e => (.error e, t)
  | .ok path =>
    match runOps (unlinkOps path) t with
    | (some f, t) => (.error (faultExc f), t)
    | (none, t) => (.ok (), t)

/-- `name[:-len(".meta.json")]`, of a name that has the ending -/
def bundleName (sidecar : String) : Option String :=
  (List.isSuffixOf? ".meta.json".toList sidecar.toList).map String.ofList

/-- `root.rglob("*.meta.json")`: the directory and the name of each sidecar, with the name of its
bundle. -/
def sidecars (root : List String) (t : Disk) : List (List String × String) :=
  t.entries.rows.filterMap fun e =>
    if root <+: e.1.dropLast then
      (e.1.getLast?.bind bundleName).map fun bundle => (e.1.dropLast, bundle)
    else none

/-- The turn of the loop of `_scan` for one sidecar: nothing where it goes on to the next. -/
def scan (app_slug tenant_slug : Option String) (t : Disk) (sidecar : List String × String) :
    Except Exc (Option SnapshotEntry) :=
  match t.find (sidecar.1 ++ [sidecar.2 ++ ".meta.json"]) with
  | some (.file data) => do
    match libs.loads (← readText data) with
    | none => .ok none
    | some sidecarMeta =>
      if ← passesFilter app_slug "app_slug" sidecarMeta then
        if ← passesFilter tenant_slug "tenant_slug" sidecarMeta then
          if sidecar.2 = "" ∨ sidecar.2 = "." then
            .error (.python (.valueError ("Invalid name '" ++ sidecar.2 ++ "'")))
          else
            let bundle := sidecar.1 ++ [sidecar.2]
            let locator := joinPath (bundle.drop sink.root.length)
            match t.stat bundle with
            | none => .ok none
            | some .dir => (snapshotEntry libs locator libs.directorySize sidecarMeta).map some
            | some (.file data) => (snapshotEntry libs locator data.length sidecarMeta).map some
        else .ok none
      else .ok none
  | _ => .ok none

/-- `out.sort(key=lambda e: e.created_at, reverse=True)` -/
def newestFirst (entries : List SnapshotEntry) : List SnapshotEntry :=
  entries.mergeSort fun e e' => decide (e'.created_at.instant ≤ e.created_at.instant)

def listSnapshots (app_slug tenant_slug : Option String) (t : Disk) :
    Except Exc (List SnapshotEntry) := do
  let found ← (sidecars sink.root t).mapM (sink.scan libs app_slug tenant_slug t)
  .ok (newestFirst (found.filterMap id))

/-- The place on the disk that a locator names. -/
def placeOf (locator : String) : List String := resolveParts (targetParts sink.root locator)

end LocalDiskSink

/-- The calls that a sink takes. -/
inductive SinkCall where
  | put (tag : WriterTag) (blob : BackupBlob (List UInt8))
  | get (locator : String)
  | list (app_slug tenant_slug : Option String)
  | delete (locator : String)

/-- The disk after a call. -/
def LocalDiskSink.after (libs : SinkLibraries) (sink : LocalDiskSink) : SinkCall → Disk → Disk
  | .put tag blob, t => (sink.put libs tag blob t).2
  | .delete locator, t => (sink.delete locator t).2
  | .get _, t | .list _ _, t => t

/-- A call writes or deletes the bundle at a place. -/
def LocalDiskSink.Changes (sink : LocalDiskSink) (path : List String) : SinkCall → Prop
  | .put _ blob => ∃ rel, fileNameOf blob = .ok rel ∧ sink.placeOf rel = path
  | .delete locator => sink.placeOf locator = path
  | .get _ | .list _ _ => False

end ScottyCore
