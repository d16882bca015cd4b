import ScottyCore.Backup.LocalDisk
import ScottyCore.Lib.Host
import ScottyCore.Lib.Utf8

namespace ScottyCore
open Python FileSystem LocalDiskSink
set_option autoImplicit true

/-- `RemoteNodeSink`: its directory without slashes at the end, the directory in which a session on
the host begins, `f"\x7bargv\x7d"` of a command, and what the host prints when a command fails. Each
command runs on the host, and `scp` takes a path as it stands. -/
structure RemoteNodeSink where
  remote_dir : String
  home : List String
  argvText : List String → String
  stderr : List String → String

namespace RemoteNodeSink

def ofDir (remote_dir : String) (home : List String) (argvText stderr : List String → String) :
    RemoteNodeSink :=
  ⟨rstripSlash remote_dir, home, argvText, stderr⟩

variable (libs : SinkLibraries) (sink : RemoteNodeSink)

def sshFailed (argv : List String) : Exc :=
  .runtimeError ("ssh " ++ sink.argvText argv ++ " failed (1): " ++ sink.stderr argv)

def scpFailed (argv : List String) : Exc := .runtimeError ("scp put failed: " ++ sink.stderr argv)

/-- What `create_subprocess_exec` raises about a null byte in an argument. -/
def spawn (argv : List String) : Except Exc Unit :=
  if ∃ arg ∈ argv, '\x00' ∈ arg.toList then .error (faultExc .nullByte) else .ok ()

/-- `_ssh`, of a command that changes files. -/
def ssh (argv : List String) (command : Disk → Option Fault × Disk) (t : Disk) :
    Except Exc Unit × Disk :=
  match spawn argv with
  | .error e => (.error e, t)
  | .ok _ =>
    match command t with
    | (some _, t) => (.error (sink.sshFailed argv), t)
    | (none, t) => (.ok (), t)

/-- `_scp_put`, of a temporary file with a name. -/
def scpPut (tmp : String) (data : List UInt8) (remote_rel : String) (t : Disk) :
    Except Exc Unit × Disk :=
  match spawn [remote_rel] with
  | .error e => (.error e, t)
  | .ok _ =>
    match t.copyTo sink.home tmp data remote_rel with
    | (some _, t) => (.error (sink.scpFailed [tmp, remote_rel]), t)
    | (none, t) => (.ok (), t)

/-- `f"\x7bself._remote_dir\x7d/\x7blocator\x7d"` -/
def remotePath (locator : String) : String := sink.remote_dir ++ "/" ++ locator

/-- `put`, with the name of the temporary file. -/
def put (tmp : String) (blob : BackupBlob (List UInt8)) (t : Disk) :
    Except Exc SinkWriteResult × Disk :=
  match fileNameOf blob with
  | .error e => (.error e, t)
  | .ok rel =>
    let remote_path := sink.remotePath rel
    let remote_dir := joinPath (splitPath remote_path).dropLast
    match sink.ssh ["mkdir", "-p", remote_dir] (·.mkdir sink.home remote_dir) t with
    | (.error e, t) => (.error e, t)
    | (.ok _, t) =>
      match sink.scpPut tmp blob.data remote_path t with
      | (.error e, t) => (.error e, t)
      | (.ok _, t) =>
        match sink.scpPut (tmp ++ ".meta.json") (sidecarBytes libs blob)
            (remote_path ++ ".meta.json") t with
        | (.error e, t) => (.error e, t)
        | (.ok _, t) => (.ok ⟨rel, "remote_node", blob.size, blob.created_at⟩, t)

/-- `test -f` about a locator: `SinkNotFoundError` unless it names a file. -/
def exists_ (locator : String) (t : Disk) : Except Exc Unit := do
  spawn ["test", "-f", sink.remotePath locator]
  if t.testFile sink.home (sink.remotePath locator) then .ok () else .error (noSnapshot locator)

def get (locator : String) (t : Disk) : Except Exc (List UInt8) := do
  sink.exists_ locator t
  match t.lookup sink.home (sink.remotePath locator) with
  | some (.file data) => .ok data
  | _ => .error (noSnapshot locator)

def delete (locator : String) (t : Disk) : Except Exc Unit × Disk :=
  match sink.exists_ locator t with
  | .error e => (.error e, t)
  | .ok _ =>
    let remote_path := sink.remotePath locator
    let sidecar := remote_path ++ ".meta.json"
    sink.ssh ["rm", "-f", remote_path, sidecar] (·.removeBoth sink.home remote_path sidecar) t

/-- The turn of the loop of `list_snapshots` for one line: nothing where it goes on to the next. -/
def entryOfLine (app_slug tenant_slug : Option String) (t : Disk) (sc : String) :
    Except Exc (Option SnapshotEntry) :=
  match t.lookup sink.home sc with
  | some (.file data) =>
    match libs.loads (decodeReplace data) with
    | none => .ok none
    | some sidecarMeta => do
      if ← passesFilter app_slug "app_slug" sidecarMeta then
        if ← passesFilter tenant_slug "tenant_slug" sidecarMeta then
          let bundle_remote := sc.toList.take (sc.length - ".meta.json".length)
          let rel := String.ofList (bundle_remote.drop (sink.remote_dir.length + 1))
          (snapshotEntry libs rel 0 sidecarMeta).map some
        else .ok none
      else .ok none
  | _ => .ok none

/-- The lines that `find` prints. -/
def linesOf (paths : List String) : List String :=
  ((splitLines (paths.flatMap fun path => path.toList ++ ['\n'])).map String.ofList).filter
    (strip · ≠ "")

def listSnapshots (app_slug tenant_slug : Option String) (t : Disk) :
    Except Exc (List SnapshotEntry) := do
  spawn ["find", sink.remote_dir, "-name", "*.meta.json", "-type", "f"]
  match t.findFiles sink.home sink.remote_dir ".meta.json" with
  | none => .ok []
  | some paths =>
    let entries ← (linesOf paths).mapM (sink.entryOfLine libs app_slug tenant_slug t)
    .ok (newestFirst (entries.filterMap id))

end RemoteNodeSink

end ScottyCore
