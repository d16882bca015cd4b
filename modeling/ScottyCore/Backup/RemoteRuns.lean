import ScottyCore.Backup.RemoteMirror
import ScottyCore.Backup.SinkListing

namespace ScottyCore
open Python FileSystem LocalDiskSink
set_option autoImplicit true

/-! ## The same calls on a disk and on a node -/

/-- What a call returns. -/
inductive SinkAnswer where
  | put (result : Except Exc SinkWriteResult)
  | get (result : Except Exc (List UInt8))
  | list (result : Except Exc (List SnapshotEntry))
  | delete (result : Except Exc Unit)

def LocalDiskSink.answer (libs : SinkLibraries) (sink : LocalDiskSink) :
    SinkCall → Disk → SinkAnswer
  | .put tag blob, t => .put (sink.put libs tag blob t).1
  | .get locator, t => .get (sink.get locator t)
  | .list app_slug tenant_slug, t => .list (sink.listSnapshots libs app_slug tenant_slug t)
  | .delete locator, t => .delete (sink.delete locator t).1

namespace RemoteNodeSink

variable (libs : SinkLibraries) (sink : RemoteNodeSink)

/-- What a call returns, with the name of its temporary file. -/
def answer : SinkCall × String → Disk → SinkAnswer
  | (.put _ blob, tmp), t => .put (sink.put libs tmp blob t).1
  | (.get locator, _), t => .get (sink.get locator t)
  | (.list app_slug tenant_slug, _), t => .list (sink.listSnapshots libs app_slug tenant_slug t)
  | (.delete locator, _), t => .delete (sink.delete locator t).1

/-- The files of the host after a call. -/
def after : SinkCall × String → Disk → Disk
  | (.put _ blob, tmp), t => (sink.put libs tmp blob t).2
  | (.delete locator, _), t => (sink.delete locator t).2
  | (.get _, _), t | (.list _ _, _), t => t

end RemoteNodeSink

/-- A node returns what the disk returns: its own name in the result of a `put`, and the entries of
a listing in the order in which it finds them. -/
def AnswersAlike : SinkAnswer → SinkAnswer → Prop
  | .put (.ok result), .put (.ok result') => result' = { result with sink_type := "remote_node" }
  | .put (.error e), .put (.error e') => e = e'
  | .get result, .get result' => result = result'
  | .list (.ok entries), .list (.ok entries') => entries.Perm entries'
  | .list (.error e), .list (.error e') => e = e'
  | .delete result, .delete result' => result = result'
  | _, _ => False

/-- A call about the blob of an app, or about a locator that names no sidecar. -/
def ProperCall (libs : SinkLibraries) : SinkCall → Prop
  | .put _ blob => ReadableBlob libs blob
  | .get locator | .delete locator => IsLocator locator
  | .list _ _ => True

/-- A disk and a node have the files of the same map. -/
def Mirrored (libs : SinkLibraries) (root root' : List String) (t u : Disk) : Prop :=
  ∃ m, Mirrors (diskLayout libs) root m t ∧ Mirrors (diskLayout libs) root' m u ∧
    ∀ names blob, m names = some blob → ReadableBlob libs blob

section
variable {libs : SinkLibraries} {sink : LocalDiskSink} {node : RemoteNodeSink}
variable {root : List String} {m : BlobMap} {t u : Disk}

theorem nodup_selectedBlobs (h : Mirrors L root m t) (app_slug tenant_slug : Option String) :
    (selectedBlobs root m app_slug tenant_slug t).Nodup :=
  (List.Nodup.of_map _ h.nodup_storedBlobs).filter _

/-- Two stores of one map show the same entries. -/
theorem perm_shownEntries (h : Mirrors (diskLayout libs) sink.root m t)
    (h' : Mirrors (diskLayout libs) root m u) (app_slug tenant_slug : Option String) :
    (shownEntries libs sink.root m app_slug tenant_slug t).Perm
      (shownEntries libs root m app_slug tenant_slug u) := by
  have hblobs : (selectedBlobs sink.root m app_slug tenant_slug t).Perm
      (selectedBlobs root m app_slug tenant_slug u) := by
    rw [List.perm_ext_iff_of_nodup (nodup_selectedBlobs h _ _) (nodup_selectedBlobs h' _ _)]
    intro blob
    rw [h.mem_selectedBlobs, h'.mem_selectedBlobs]
  rw [shownEntries, shownEntries, newestFirst, newestFirst]
  exact (List.mergeSort_perm _ _).trans ((hblobs.map _).trans (List.mergeSort_perm _ _).symm)

theorem Mirrored.step (h : Mirrored libs sink.root root t u) (hnode : ServesDir node root)
    (hint : ∀ i, libs.int (.int i) = .ok i) {call : SinkCall} (hproper : ProperCall libs call)
    (tmp : String) :
    AnswersAlike (sink.answer libs call t) (node.answer libs (call, tmp) u) ∧
      Mirrored libs sink.root root (sink.after libs call t) (node.after libs (call, tmp) u) := by
  obtain ⟨m, hm, hm', hread⟩ := h
  cases call with
  | put tag blob =>
    have hr : ReadableBlob libs blob := hproper
    rw [LocalDiskSink.answer, RemoteNodeSink.answer, LocalDiskSink.after, RemoteNodeSink.after]
    cases hname : fileNameOf blob with
    | error e =>
      rw [LocalDiskSink.put, RemoteNodeSink.put, hname]
      exact ⟨rfl, m, hm, hm', hread⟩
    | ok rel =>
      obtain ⟨t₁, hput, hm₁⟩ := hm.disk_put hr.worded hname tag
      obtain ⟨u₁, hput', hm₁'⟩ := hm'.node_put hnode hr.worded hname tmp
      rw [hput, hput']
      exact ⟨rfl, _, hm₁, hm₁', forall_blobs_put hread hr _⟩
  | get locator =>
    obtain ⟨place, hne, hnames, hplace, rfl, -⟩ := IsLocator.place hproper
    refine ⟨?_, m, hm, hm', hread⟩
    rw [LocalDiskSink.answer, RemoteNodeSink.answer, hm.disk_get hne hnames hplace,
      hm'.node_get hnode hne hnames hplace]
    rfl
  | list app_slug tenant_slug =>
    refine ⟨?_, m, hm, hm', hread⟩
    rw [LocalDiskSink.answer, RemoteNodeSink.answer, hm.disk_listSnapshots hread hint,
      hm'.node_listSnapshots hnode hread hint]
    exact perm_shownEntries hm hm' app_slug tenant_slug
  | delete locator =>
    obtain ⟨place, hne, hnames, hplace, rfl, -⟩ := IsLocator.place hproper
    rw [LocalDiskSink.answer, RemoteNodeSink.answer, LocalDiskSink.after, RemoteNodeSink.after]
    cases hblob : m place with
    | none =>
      rw [hm.disk_delete_of_none hne hnames hplace hblob,
        hm'.node_delete_of_none hnode hne hnames hplace hblob]
      exact ⟨rfl, m, hm, hm', hread⟩
    | some blob =>
      obtain ⟨t₁, hdelete, hm₁⟩ := hm.disk_delete_of_some hblob
      obtain ⟨u₁, hdelete', hm₁'⟩ := hm'.node_delete_of_some hnode hblob
      rw [hdelete, hdelete']
      exact ⟨rfl, _, hm₁, hm₁', forall_blobs_delete hread _⟩

/-- The disk after calls. -/
def LocalDiskSink.afterAll (libs : SinkLibraries) (sink : LocalDiskSink)
    (calls : List (SinkCall × String)) (t : Disk) : Disk :=
  calls.foldl (fun t call => sink.after libs call.1 t) t

/-- The files of the host after calls. -/
def RemoteNodeSink.afterAll (libs : SinkLibraries) (node : RemoteNodeSink)
    (calls : List (SinkCall × String)) (u : Disk) : Disk :=
  calls.foldl (fun u call => node.after libs call u) u

theorem Mirrored.run (h : Mirrored libs sink.root root t u) (hnode : ServesDir node root)
    (hint : ∀ i, libs.int (.int i) = .ok i) {calls : List (SinkCall × String)}
    (hproper : ∀ call ∈ calls, ProperCall libs call.1) :
    Mirrored libs sink.root root (sink.afterAll libs calls t) (node.afterAll libs calls u) := by
  induction calls generalizing t u with
  | nil => exact h
  | cons call calls ih =>
    rw [List.forall_mem_cons] at hproper
    exact ih (h.step hnode hint hproper.1 call.2).2 hproper.2

end

/-! ## One backup on both -/

theorem readable_byteBlob (hslug : IsWord app_slug ∧ app_slug ≠ "") :
    ReadableBlob (byteLibs app_slug) (byteBlob app_slug) where
  worded := ⟨hslug, (by decide : IsWord "platform" ∧ "platform" ≠ ""),
    (by decide : IsWord "full"), nofun⟩
  plain := by
    apply cr_not_mem_flatText
    simp only [sidecarMeta, byteBlob, optional, List.forall_mem_cons, scalarText,
      cr_not_mem_quote, not_false_eq_true, true_and]
    decide
  reads := ⟨_, byteLibs_loads rfl, fun _ _ => rfl⟩

/-- A host with a directory for backups. -/
def hostNode : RemoteNodeSink := .ofDir "/vault/" ["home"] (fun _ => "[]") fun _ => ""

def hostDisk : Disk := (∅ : Disk).set ["vault"] (some .dir)

theorem hostNode_serves : ServesDir hostNode ["vault"] where
  dir := by decide
  ne_nil := List.cons_ne_nil _ _
  unbroken := List.forall_mem_singleton.2 (unbroken_of_all (by decide))

theorem hostDisk_bare : ∀ path n, hostDisk.find path = some n → ["vault"] <+: path →
    path = ["vault"] := by
  intro path n hfind hpre
  by_contra hne
  have hpath : path ≠ [] := by
    rintro rfl
    exact absurd hpre (by decide)
  rw [hostDisk, FileTree.find_set_of_ne _ _ hne, FileTree.find_eq_some_iff hpath] at hfind
  cases hfind

def hostCalls : List (SinkCall × String) := [(.put workerTag (byteBlob "demo"), "tmp.tar.gz")]

end ScottyCore
