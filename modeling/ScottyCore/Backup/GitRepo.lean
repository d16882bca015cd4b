import ScottyCore.Backup.LocalDisk
import ScottyCore.Lib.Routine
import ScottyCore.Lib.Commits

namespace ScottyCore
open Python Commits
set_option autoImplicit true

abbrev GitHistory := List (Commit (List String) (List UInt8))
abbrev GitChanges := List (List String × Option (List UInt8))

/-! ## The clone and the remote -/

/-- The clone of a sink. The index and the working tree are given by what they change of the
commit that is checked out. -/
structure GitClone where
  cloned : Bool
  initialized : Bool
  branch : GitHistory
  head : GitHistory
  index : GitChanges
  tree : GitChanges
  rebasing : Bool
  unmerged : List (List String)

def GitClone.missing : GitClone := ⟨false, false, [], [], [], [], false, []⟩

/-- A clone with the branch that the remote has. -/
structure GitWorld where
  clone : GitClone
  remote : GitHistory

abbrev GitRoutine := Routine GitWorld Exc

/-- What comes of a command that talks to the remote. The answer to a push may be lost after the
remote has taken it. -/
inductive NetAnswer where
  | served | lost | unreachable
  deriving DecidableEq

/-- The outcome of such a command, with what other writers have pushed before it and what git
prints if it fails. -/
structure NetReply where
  landed : GitHistory
  answer : NetAnswer
  stderr : String

/-- What is checked out where a rebase stops at a conflict. -/
structure GitStop where
  head : GitHistory
  index : GitChanges
  tree : GitChanges
  unmerged : List (List String)

/-- `git rebase`, of the commits that a branch has beyond a base onto those that the remote has. -/
structure GitProgram where
  rebase : (base pending since : GitHistory) → Except GitStop GitHistory

/-- What the manual of git says of it. -/
structure GitProgram.Documented (git : GitProgram) : Prop where
  replays : git.rebase base pending since = .ok result → Rebased base pending since result
  stops : git.rebase base pending since = .error stop → ∃ k, Clash pending since k

def gitError (args stderr : String) : Exc := .runtimeError ("git " ++ args ++ " failed: " ++ stderr)

namespace GitWorld

def land (w : GitWorld) (commits : GitHistory) : GitWorld :=
  { w with remote := w.remote ++ commits }

/-- A new commit to stand on, which clean files of the working tree follow. Only a rebase that has
stopped stands beside the branch. -/
def checkout (h : GitHistory) (w : GitWorld) : GitWorld :=
  { w with clone := { w.clone with
      branch := if w.clone.rebasing then w.clone.branch else h, head := h,
      index := settle h w.clone.index, tree := settle h w.clone.tree } }

/-- A commit of what is in the index. -/
def committed (id : Nat) (w : GitWorld) : GitWorld :=
  { w.checkout (w.clone.head ++ [⟨id, w.clone.index⟩]) with clone.index := [] }

/-- The commits change a file with changes of its own. -/
def blocked (w : GitWorld) (commits : GitHistory) : Bool :=
  (w.clone.index ++ w.clone.tree).any fun c => (allChanges commits).any fun c' => c'.1 = c.1

/-- There are changes in the index, or of files that are tracked. -/
def dirty (w : GitWorld) : Bool :=
  !w.clone.index.isEmpty || w.clone.tree.any fun c => (contentAt w.clone.head c.1).isSome

def fileAt (w : GitWorld) (path : List String) : Option (List UInt8) :=
  contentOver w.clone.head w.clone.tree path

end GitWorld

/-! ## Commands of git -/

section
variable (git : GitProgram) (branch : String)

def gitPush (reply : NetReply) : GitRoutine Unit := fun w =>
  let w := w.land reply.landed
  let failed := gitError ("push origin " ++ branch) reply.stderr
  if reply.answer ≠ .unreachable ∧ w.clone.cloned ∧ w.remote <+: w.clone.branch then
    (if reply.answer = .served then .ok () else .error failed, { w with remote := w.clone.branch })
  else (.error failed, w)

/-- `git pull --ff-only` -/
def gitPullFf (reply : NetReply) : GitRoutine Unit := fun w =>
  let w := w.land reply.landed
  let failed := gitError ("pull --ff-only origin " ++ branch) reply.stderr
  if reply.answer = .served ∧ w.clone.cloned ∧ w.clone.unmerged = [] then
    if w.remote <+: w.clone.head then (.ok (), w)
    else if w.clone.head <+: w.remote ∧ ¬ w.blocked (w.remote.drop w.clone.head.length) then
      (.ok (), w.checkout w.remote)
    else (.error failed, w)
  else (.error failed, w)

/-- `git pull --rebase`, which refuses to start where a rebase has stopped, or with changes of
tracked files -/
def gitPullRebase (reply : NetReply) : GitRoutine Unit := fun w =>
  let w := w.land reply.landed
  let failed := gitError ("pull --rebase origin " ++ branch) reply.stderr
  let base := mergeBase w.clone.branch w.remote
  let since := w.remote.drop base.length
  if reply.answer = .served ∧ w.clone.cloned ∧ ¬ w.clone.rebasing ∧ ¬ w.dirty ∧
      ¬ w.blocked since then
    match git.rebase base (w.clone.branch.drop base.length) since with
    | .ok result => (.ok (), w.checkout result)
    | .error stop =>
      (.error failed, { w with clone := { w.clone with
        head := stop.head, index := stop.index, tree := stop.tree, rebasing := true,
        unmerged := stop.unmerged } })
  else (.error failed, w)

/-- What comes of `git commit`: the hash of the commit, or what stops it. -/
structure CommitReply where
  id : Nat
  failure : Option Exc

/-- `git commit`, which refuses to commit nothing, or while files are unmerged -/
def gitCommit (reply : CommitReply) : GitRoutine Unit := fun w =>
  match reply.failure with
  | some e => (.error e, w)
  | none =>
    if ¬ w.clone.cloned ∨ w.clone.unmerged ≠ [] ∨ w.clone.index = [] then
      (.error (gitError "commit" "nothing to commit, or unmerged files"), w)
    else
      (.ok (), w.committed reply.id)

/-- Writes or removes a file of the working tree. -/
def writeTree (path : List String) (content : Option (List UInt8)) : GitRoutine Unit :=
  Routine.change fun w =>
    { w with clone.tree := overlay w.clone.head path content w.clone.tree }

/-- `git add` of one file -/
def gitAdd (path : List String) : GitRoutine Unit :=
  Routine.change fun w =>
    { w with clone := { w.clone with
        index := overlay w.clone.head path (w.fileAt path) w.clone.index,
        unmerged := w.clone.unmerged.filter (· ≠ path) } }

/-- `git rm` takes files that are unmerged, or tracked and without changes. -/
def Removable (w : GitWorld) (path : List String) : Bool :=
  w.clone.unmerged.contains path || (contentAt w.clone.head path).isSome &&
    (w.clone.index ++ w.clone.tree).all fun c => c.1 ≠ path

def removeTracked (path : List String) (w : GitWorld) : GitWorld :=
  { w with clone := { w.clone with
      index := overlay w.clone.head path none w.clone.index,
      tree := overlay w.clone.head path none w.clone.tree,
      unmerged := w.clone.unmerged.filter (· ≠ path) } }

def gitRm (paths : List (List String)) : GitRoutine Unit := fun w =>
  if paths.all (Removable w) then (.ok (), paths.foldl (fun w path => removeTracked path w) w)
  else (.error (gitError "rm" "did not match any files, or local modifications"), w)

end

/-! ## `sinks/git_repo.py` -/

structure GitRepoSink where
  clone_dir : List String
  names : ∀ name ∈ clone_dir, IsName name
  branch : String
  path_template : String
  lfs_enabled : Bool

/-- What the sink imports. -/
structure GitLibraries where
  git : GitProgram
  format : BackupLibraries (List UInt8)
  sink : SinkLibraries

/-- How the outside behaves during one call: what comes of the commands of git, what a failing
write to the disk leaves, what else `git status` prints, and a `.gitattributes` to be written. -/
structure GitCircumstances where
  clone : NetReply
  mainline : GitHistory
  config : Option Exc
  lfs : Option Exc
  attributes : Option (List UInt8)
  attributesAdd : Option Exc
  attributesCommit : CommitReply
  attributesPush : NetReply
  pull : NetReply
  disk : Option (Bool × Exc)
  add : Option Exc
  leftovers : Bool
  commit : CommitReply
  push : NetReply
  rebase : NetReply
  retry : NetReply

/-- `s in text`, of texts in lower case -/
def mentions (s text : String) : Bool := s.toList <:+: text.toLower.toList

/-- What git prints when the remote has no commits, as the sink knows it. -/
def emptyRemoteText (stderr : String) : Bool :=
  ["remote branch", "not found", "does not appear", "warning: you appear",
    "empty repository"].any fun s => mentions s stderr

/-- What git prints when a push was refused. -/
def refusedText (stderr : String) : Bool :=
  mentions "non-fast-forward" stderr || mentions "rejected" stderr

def liftExcept : Except Exc α → GitRoutine α
  | .ok a => pure a
  | .error e => Routine.raise e

namespace GitRepoSink

variable (libs : GitLibraries) (sink : GitRepoSink) (env : GitCircumstances)

/-- `_try_push` -/
def tryPush : GitRoutine Unit := do
  match ← Routine.attempt (gitPush sink.branch env.push) with
  | .ok () => pure ()
  | .error (.runtimeError text) =>
    if refusedText text then do
      let _ ← Routine.attempt (do
        gitPullRebase libs.git sink.branch env.rebase
        gitPush sink.branch env.retry)
      pure ()
    else pure ()
  | .error _ => pure ()

/-- `_pull` -/
def pull : GitRoutine Unit := do
  let _ ← Routine.attempt (gitPullFf sink.branch env.pull)
  pure ()

/-- The clone, of an existing branch or of another one to start from. -/
def makeClone : GitRoutine Unit := fun w =>
  let w := w.land env.clone.landed
  let made (h : GitHistory) : GitWorld :=
    { w with clone := { GitClone.missing with cloned := true, branch := h, head := h } }
  if env.clone.answer = .served then
    (.ok (), made (if w.remote = [] then env.mainline else w.remote))
  else if emptyRemoteText env.clone.stderr then (.ok (), made [])
  else (.error (.runtimeError ("GitRepoSink: clone failed: " ++ env.clone.stderr)), w)

def writeAttributes (content : List UInt8) : GitRoutine Unit := do
  writeTree [".gitattributes"] (some content)
  let _ ← Routine.attempt (do
    Routine.check env.attributesAdd
    gitAdd [".gitattributes"]
    gitCommit env.attributesCommit
    let _ ← Routine.attempt (gitPush sink.branch env.attributesPush)
    pure ())
  pure ()

def cloneOrAdopt : GitRoutine Unit := do
  if (← Routine.look fun w => w.clone.cloned) then pure () else makeClone env

def configureLfs : GitRoutine Unit :=
  if sink.lfs_enabled then do
    Routine.check env.lfs
    match env.attributes with
    | some content => sink.writeAttributes env content
    | none => pure ()
  else pure ()

/-- `_sync_init` -/
def syncInit : GitRoutine Unit := do
  cloneOrAdopt env
  Routine.check env.config
  sink.configureLfs env

/-- `_ensure_ready` -/
def ensureReady : GitRoutine Unit := do
  if (← Routine.look fun w => w.clone.initialized) then pure ()
  else do
    sink.syncInit env
    Routine.change fun w => { w with clone.initialized := true }

/-- `_render_path`, which raises where UTC has no such day. -/
def pathOf (blob : BackupBlob (List UInt8)) : Except Exc String :=
  if (DateTime.ofWallMicros blob.created_at.instant (some 0)).isSome then
    renderPath libs.format sink.path_template blob
  else .error (.python (.overflowError "date value out of range"))

/-- The path in the clone of what a locator names. -/
def keyOf (locator : String) : Except Exc (List String) :=
  let target := targetParts sink.clone_dir locator
  if ∀ p ∈ target, IsPart p then
    if sink.clone_dir <+: resolveParts target then
      .ok ((resolveParts target).drop sink.clone_dir.length)
    else .error (.runtimeError ("locator escapes clone root: " ++ locator))
  else .error (faultExc .nullByte)

/-- The file beside a bundle. -/
def sidecarOf (path : List String) : List String := LocalDiskSink.sibling path ".meta.json"

/-- Where a bundle goes. -/
def bundlePath (blob : BackupBlob (List UInt8)) : Except Exc (List String) := do
  sink.keyOf (← sink.pathOf libs blob)

/-- `_resolve` -/
def resolve (locator : String) : GitRoutine (List String) := do
  let path ← liftExcept (sink.keyOf locator)
  if (← Routine.look fun w => (w.fileAt path).isSome) then pure path
  else Routine.raise (noSnapshot locator)

/-- `_write`: the bundle is replaced at once, and the sidecar written after it. -/
def writeFiles (path : List String) (data sidecar : List UInt8) : GitRoutine Unit :=
  if path = [] then Routine.raise (faultExc .isADirectory)
  else
    match env.disk with
    | none => do
      writeTree path (some data)
      writeTree (sidecarOf path) (some sidecar)
    | some (true, e) => do
      writeTree path (some data)
      Routine.raise e
    | some (false, e) => Routine.raise e

/-- `git add` of a bundle and its sidecar -/
def addFiles (path : List String) : GitRoutine Unit := do
  Routine.check env.add
  gitAdd path
  gitAdd (sidecarOf path)

/-- `git rm` of a bundle, and of its sidecar where there is one -/
def removeFiles (path : List String) : GitRoutine Unit := do
  let paths ← Routine.look fun w =>
    path :: if (w.fileAt (sidecarOf path)).isSome then [sidecarOf path] else []
  gitRm paths

/-- `git status --porcelain` prints nothing. -/
def statusEmpty (w : GitWorld) : Bool :=
  w.clone.cloned && w.clone.unmerged.isEmpty && w.clone.index.isEmpty && !env.leftovers

/-- `_commit_and_push` after `git add`, and what `delete` does after `git rm`. -/
def commitAndPush : GitRoutine Unit := do
  if (← Routine.look fun w => statusEmpty env w) then pure ()
  else do
    gitCommit env.commit
    sink.tryPush libs env

def put (blob : BackupBlob (List UInt8)) : GitRoutine SinkWriteResult := do
  sink.ensureReady env
  let rel ← liftExcept (sink.pathOf libs blob)
  let path ← liftExcept (sink.keyOf rel)
  writeFiles env path blob.data (sidecarBytes libs.sink blob)
  addFiles env path
  sink.commitAndPush libs env
  pure ⟨rel, "git_repo", blob.size, blob.created_at⟩

def get (locator : String) : GitRoutine (List UInt8) := do
  sink.ensureReady env
  sink.pull env
  let path ← sink.resolve locator
  match ← Routine.look fun w => w.fileAt path with
  | some data => pure data
  | none => Routine.raise (noSnapshot locator)

def delete (locator : String) : GitRoutine Unit := do
  sink.ensureReady env
  sink.pull env
  let path ← sink.resolve locator
  removeFiles path
  sink.commitAndPush libs env

/-- What `list_snapshots` does to the clone. -/
def refresh : GitRoutine Unit := do
  sink.ensureReady env
  sink.pull env

end GitRepoSink

end ScottyCore
