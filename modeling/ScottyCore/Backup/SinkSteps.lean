import ScottyCore.Backup.LocalPut
import ScottyCore.Lib.Raise
import ScottyCore.Lib.Run

namespace ScottyCore
open Python FileSystem LocalDiskSink
set_option autoImplicit true

/-! ## Calls that run at the same time -/

/-- What a running `put` does next. -/
inductive Stage where
  | makeDirs
  | write
  | replace
  | sidecar

/-- A running call: `put` with its unresolved target, `delete` with its resolved path. -/
inductive Task where
  | put (tag : WriterTag) (blob : BackupBlob (List UInt8)) (target : List String) (stage : Stage)
  | delete (path : List String) (unlinked : Bool)

namespace Task

def next (libs : SinkLibraries) : Task → Op (List UInt8)
  | put _ _ target .makeDirs => .makeDirs target.dropLast
  | put tag blob target .write => .write (sibling target tag.ending) blob.data
  | put tag _ target .replace => .rename (sibling target tag.ending) target
  | put _ blob target .sidecar => .write (sibling target ".meta.json") (sidecarBytes libs blob)
  | delete path false => .unlink path
  | delete path true => .unlinkExisting (sibling path ".meta.json")

/-- What is left of a call after a step that returns. -/
def rest : Task → List Task
  | put tag blob target .makeDirs => [put tag blob target .write]
  | put tag blob target .write => [put tag blob target .replace]
  | put tag blob target .replace => [put tag blob target .sidecar]
  | put _ _ _ .sidecar => []
  | delete path false => [delete path true]
  | delete _ true => []

end Task

theorem putOps_stages (libs : SinkLibraries) (sink : LocalDiskSink) (tag : WriterTag)
    (blob : BackupBlob (List UInt8)) (rel : String) :
    sink.putOps libs tag blob rel = [Stage.makeDirs, .write, .replace, .sidecar].map fun stage =>
      (Task.put tag blob (targetParts sink.root rel) stage).next libs := rfl

theorem unlinkOps_stages (libs : SinkLibraries) (path : List String) :
    unlinkOps path = [false, true].map fun unlinked => (Task.delete path unlinked).next libs := rfl

structure SinkState where
  disk : Disk
  running : List Task

/-- A call starts, one of the running calls takes a step, or its process dies. -/
inductive SinkEvent where
  | startPut (tag : WriterTag) (blob : BackupBlob (List UInt8))
  | startDelete (locator : String)
  | advance (before : List Task) (task : Task) (after : List Task)
  | crash (before : List Task) (task : Task) (after : List Task)

/-- The calls on one sink, interleaved. A step that raises ends its call. -/
inductive SinkStep (libs : SinkLibraries) (sink : LocalDiskSink) :
    SinkState → SinkEvent → SinkState → Prop where
  | startPut : fileNameOf blob = .ok rel →
      SinkStep libs sink s (.startPut tag blob)
        ⟨s.disk, s.running ++ [.put tag blob (targetParts sink.root rel) .makeDirs]⟩
  | startDelete : sink.resolve locator s.disk = .ok path →
      SinkStep libs sink s (.startDelete locator) ⟨s.disk, s.running ++ [.delete path false]⟩
  | advance {before after : List Task} : s.running = before ++ task :: after →
      (task.next libs).run s.disk = (none, disk) →
      SinkStep libs sink s (.advance before task after) ⟨disk, before ++ task.rest ++ after⟩
  | fail {before after : List Task} : s.running = before ++ task :: after →
      (task.next libs).run s.disk = (some f, disk) →
      SinkStep libs sink s (.advance before task after) ⟨disk, before ++ after⟩
  | crash {before after : List Task} : s.running = before ++ task :: after →
      SinkStep libs sink s (.crash before task after) ⟨s.disk, before ++ after⟩

/-! ## Bundles and their sidecars -/

def IsBundleName (name : String) : Prop :=
  ∃ stem, name = stem ++ ".tar.gz" ∨ name = stem ++ ".tar.gz.gpg"

/-- The place of a bundle below the root. -/
def IsBundle (sink : LocalDiskSink) (path : List String) : Prop :=
  ∃ dirs name, path = dirs ++ [name] ∧ sink.root <+: dirs ∧ IsBundleName name

/-- `json.loads` gives back what the code reads of a sidecar. -/
def ReadsSidecar (libs : SinkLibraries) (blob : BackupBlob (List UInt8)) : Prop :=
  ∃ members, libs.loads (String.ofList (universalNewlines
      (libs.dumps (some 2) (sidecarMeta blob)).toList)) = some (.obj members) ∧
    ∀ key, key ≠ "metadata" → members.lookup key = (sidecarMeta blob).lookup key

/-- A blob with the digest and the size of its bytes, whose sidecar can be read. -/
structure WellFormed (libs : SinkLibraries) (blob : BackupBlob (List UInt8)) : Prop where
  sha256 : blob.sha256 = libs.sha256 blob.data
  size : blob.size = blob.data.length
  reads : ReadsSidecar libs blob

/-- The sidecar of a bundle is that of a blob with the same bytes. -/
def Described (libs : SinkLibraries) (t : Disk) (path : List String) (data : List UInt8) : Prop :=
  ∃ blob, WellFormed libs blob ∧ blob.data = data ∧
    t.find (sibling path ".meta.json") = some (.file (sidecarBytes libs blob))

/-- A running `put` of these bytes has its sidecar still to write. -/
def Pending (running : List Task) (path : List String) (data : List UInt8) : Prop :=
  ∃ tag blob target, .put tag blob target .sidecar ∈ running ∧ resolveParts target = path ∧
    blob.data = data

/-! ## The runs that keep bundle and sidecar together -/

/-- Other calls will write the sidecar of what stands at a place. -/
def LeftToOthers (sink : LocalDiskSink) (t : Disk) (others : List Task) (path : List String) :
    Prop :=
  IsBundle sink path → ∀ data, t.find path = some (.file data) → Pending others path data

/-- A step of a call does not part a bundle from its sidecar. -/
def StepsTogether (sink : LocalDiskSink) (s : SinkState) (others : List Task) : Task → Prop
  | .put _ _ target .makeDirs =>
    -- no directory is made where a sidecar stands or is to be written
    ∀ q ∈ s.disk.cleared [] target.dropLast, s.disk.find q = none →
      s.disk.isFile (sibling q ".meta.json") = false ∧ ∀ data, ¬ Pending s.running q data
  | .put _ _ _ .write => True
  | .put tag _ target .replace =>
    s.disk.isDir (resolveParts (sibling target tag.ending)) = false
  | .put _ blob target .sidecar =>
    IsBundle sink (resolveParts target) → ∀ data,
      s.disk.find (resolveParts target) = some (.file data) →
        blob.data = data ∧ s.disk.isDir (sibling (resolveParts target) ".meta.json") = false ∨
          Pending others (resolveParts target) data
  | .delete path false =>
    ∀ bundle, sibling bundle ".meta.json" = path → LeftToOthers sink s.disk others bundle
  | .delete path true => LeftToOthers sink s.disk others path

/-- The condition on an event: blobs are well formed, calls that share a temporary name write the
same blob, and neither a step nor the death of a call parts a bundle from its sidecar. -/
def KeepsTogether (libs : SinkLibraries) (sink : LocalDiskSink) (s : SinkState) : SinkEvent → Prop
  | .startPut tag blob => WellFormed libs blob ∧
      ∀ blob' target stage, .put tag blob' target stage ∈ s.running → blob' = blob
  | .startDelete _ => True
  | .advance before task after => StepsTogether sink s (before ++ after) task
  | .crash before (.put _ _ target .sidecar) after =>
      IsBundle sink (resolveParts target) → ∀ data,
        s.disk.find (resolveParts target) = some (.file data) →
          Described libs s.disk (resolveParts target) data ∨
            Pending (before ++ after) (resolveParts target) data
  | .crash _ _ _ => True

/-! ## The invariant -/

/-- What holds of the disk and the running calls, bundles without sidecars aside. -/
structure SinkInv (libs : SinkLibraries) (sink : LocalDiskSink) (t : Disk) (running : List Task) :
    Prop where
  shape : ∀ {tag blob target stage}, .put tag blob target stage ∈ running →
    WellFormed libs blob ∧ ∃ dirs stem, target = dirs ++ [stem ++ blob.ext]
  shared : ∀ {tag blob target stage blob' target' stage'}, .put tag blob target stage ∈ running →
    .put tag blob' target' stage' ∈ running → blob = blob'
  ready : ∀ {tag blob target stage}, .put tag blob target stage ∈ running → stage ≠ .makeDirs →
    ∀ q ∈ way [] target.dropLast, t.find q = some .dir
  clean : ∀ {tag blob target}, .put tag blob target .sidecar ∈ running → ∀ p ∈ target, IsPart p
  filled : ∀ {tag blob target data}, .put tag blob target .replace ∈ running →
    t.find (resolveParts (sibling target tag.ending)) = some (.file data) → data = blob.data
  deletes : ∀ {path unlinked}, .delete path unlinked ∈ running →
    path ≠ [] ∧ ∀ name ∈ path, IsName name
  texts : ∀ {dirs name data}, sink.root <+: dirs →
    t.find (dirs ++ [name ++ ".meta.json"]) = some (.file data) →
      IsBundleName name ∧ ∃ blob, WellFormed libs blob ∧ data = sidecarBytes libs blob
  free : ∀ {path}, IsBundle sink path →
    t.isFile (sibling path ".meta.json") = true ∨ (∃ data, Pending running path data) →
      t.find path ≠ some .dir

/-- Each bundle has its sidecar, or a call that will write it. -/
def Covered (libs : SinkLibraries) (sink : LocalDiskSink) (t : Disk) (running : List Task) : Prop :=
  ∀ path data, IsBundle sink path → t.find path = some (.file data) →
    Described libs t path data ∨ Pending running path data

section
variable {libs : SinkLibraries} {sink : LocalDiskSink} {t t' : Disk} {running running' : List Task}
  {path : List String} {data : List UInt8}

theorem Pending.mono (h : Pending running path data) (hsub : ∀ task ∈ running, task ∈ running') :
    Pending running' path data := by
  obtain ⟨tag, blob, target, hmem, hpath, hdata⟩ := h
  exact ⟨tag, blob, target, hsub _ hmem, hpath, hdata⟩

theorem Pending.erase {before after : List Task} {task : Task}
    (h : Pending (before ++ task :: after) path data)
    (hne : ∀ tag blob target, task = .put tag blob target .sidecar → resolveParts target ≠ path) :
    Pending (before ++ after) path data := by
  obtain ⟨tag, blob, target, hmem, hpath, hdata⟩ := h
  refine ⟨tag, blob, target, ?_, hpath, hdata⟩
  rcases List.mem_append.1 hmem with hmem | hmem
  · exact List.mem_append_left _ hmem
  · rcases List.mem_cons.1 hmem with he | hmem
    · exact (hne tag blob target he.symm hpath).elim
    · exact List.mem_append_right _ hmem

theorem SinkInv.mono (h : SinkInv libs sink t running) (hsub : ∀ task ∈ running', task ∈ running) :
    SinkInv libs sink t running' where
  shape hmem := h.shape (hsub _ hmem)
  shared hmem hmem' := h.shared (hsub _ hmem) (hsub _ hmem')
  ready hmem := h.ready (hsub _ hmem)
  clean hmem := h.clean (hsub _ hmem)
  filled hmem := h.filled (hsub _ hmem)
  deletes hmem := h.deletes (hsub _ hmem)
  texts := h.texts
  free hbundle hthere := h.free hbundle (hthere.imp_right fun ⟨data, hp⟩ => ⟨data, hp.mono hsub⟩)

theorem mem_of_erase {before after : List Task} {task task' : Task} (h : task' ∈ before ++ after) :
    task' ∈ before ++ task :: after :=
  (List.mem_append.1 h).elim (List.mem_append_left _)
    fun h => List.mem_append_right _ (List.mem_cons_of_mem _ h)

theorem mem_middle {before after : List Task} (task : Task) : task ∈ before ++ task :: after :=
  List.mem_append_right _ List.mem_cons_self

/-! ### Places -/

theorem IsBundle.lastChar (h : IsBundle sink path) : BundleChar (lastChar path) := by
  obtain ⟨dirs, name, rfl, -, stem, rfl | rfl⟩ := h
  · rw [lastChar_concat _ _ (by decide)]
    exact .inl (by decide)
  · rw [lastChar_concat _ _ (by decide)]
    exact .inr (by decide)

theorem resolveParts_target (dirs : List String) (stem : String) (blob : BackupBlob Data) :
    resolveParts (dirs ++ [stem ++ blob.ext]) = resolveParts dirs ++ [stem ++ blob.ext] :=
  resolveParts_bundle dirs stem blob

theorem resolveParts_sibling (dirs : List String) (name : String) (h : 2 < ending.length) :
    resolveParts (sibling (dirs ++ [name]) ending) = resolveParts dirs ++ [name ++ ending] := by
  rw [sibling_concat]
  exact resolveParts_beside dirs name h

theorem lastChar_meta (dirs : List String) (name : String) :
    lastChar (dirs ++ [name ++ ".meta.json"]) = some 'n' := by
  rw [lastChar_concat _ _ (by decide)]
  decide

theorem lastChar_sibling_sidecar (h : path ≠ []) :
    lastChar (sibling path ".meta.json") = some 'n' := by
  rcases List.eq_nil_or_concat path with rfl | ⟨dirs, name, rfl⟩
  · exact (h rfl).elim
  · rw [List.concat_eq_append, sibling_concat]
    exact lastChar_meta dirs _

theorem IsBundle.ne_nil (h : IsBundle sink path) : path ≠ [] := by
  obtain ⟨dirs, name, rfl, -⟩ := h
  exact List.append_ne_nil_of_right_ne_nil _ (List.cons_ne_nil _ _)

theorem IsBundle.ne_sidecar (h : IsBundle sink path) (hq : q ≠ []) :
    path ≠ sibling q ".meta.json" :=
  h.lastChar.ne (lastChar_sibling_sidecar hq) (by decide)

theorem sibling_injective (hp : path ≠ []) (hq : q ≠ [])
    (h : sibling path ending = sibling q ending) : path = q := by
  rcases List.eq_nil_or_concat path with rfl | ⟨dirs, name, rfl⟩
  · exact (hp rfl).elim
  · rcases List.eq_nil_or_concat q with rfl | ⟨dirs', name', rfl⟩
    · exact (hq rfl).elim
    · rw [List.concat_eq_append, List.concat_eq_append, sibling_concat, sibling_concat] at h
      obtain ⟨rfl, hname⟩ := List.append_inj' h rfl
      have hchars := congrArg String.toList (List.singleton_inj.1 hname)
      rw [String.toList_append, String.toList_append] at hchars
      rw [String.toList_inj.1 (List.append_cancel_right hchars)]

/-! ### Changes of the disk -/

theorem isFile_congr
    (h : ∀ data, t'.find path = some (.file data) ↔ t.find path = some (.file data)) :
    t'.isFile path = t.isFile path := by
  rw [Bool.eq_iff_iff, FileTree.isFile_iff, FileTree.isFile_iff]
  exact exists_congr h

theorem Described.congr (h : Described libs t path data)
    (hside : t'.find (sibling path ".meta.json") = t.find (sibling path ".meta.json")) :
    Described libs t' path data := by
  obtain ⟨blob, hblob, hdata, hfind⟩ := h
  exact ⟨blob, hblob, hdata, hside.trans hfind⟩

theorem SinkInv.makeDirs (h : SinkInv libs sink t running) (hdirs : ∀ p ∈ dirs, IsPart p)
    (hnew : ∀ q ∈ t.cleared [] dirs, t.find q = none →
      t.isFile (sibling q ".meta.json") = false ∧ ∀ data, ¬ Pending running q data) :
    SinkInv libs sink (t.makeDirs [] dirs).2 running where
  shape := h.shape
  shared := h.shared
  ready hmem hstage q hq :=
    FileTree.find_makeDirs_of_some t.find_nil hdirs (h.ready hmem hstage q hq)
  clean := h.clean
  filled hmem hfind := h.filled hmem ((FileTree.find_makeDirs_file_iff t.find_nil hdirs).1 hfind)
  deletes := h.deletes
  texts hroot hfind := h.texts hroot ((FileTree.find_makeDirs_file_iff t.find_nil hdirs).1 hfind)
  free := by
    intro path hbundle hthere hdir
    have hsame : (t.makeDirs [] dirs).2.isFile (sibling path ".meta.json") =
        t.isFile (sibling path ".meta.json") :=
      isFile_congr fun _ => FileTree.find_makeDirs_file_iff t.find_nil hdirs
    rw [hsame] at hthere
    by_cases hold : t.find path = some .dir
    · exact h.free hbundle hthere hold
    · obtain ⟨hnone, hq, -⟩ := FileTree.find_makeDirs_of_ne t.find_nil hdirs
        fun he => hold (he.symm.trans hdir)
      obtain ⟨hfile, hpending⟩ := hnew path hq hnone
      rcases hthere with hthere | ⟨data, hthere⟩
      · rw [hfile] at hthere
        cases hthere
      · exact hpending data hthere

theorem Covered.makeDirs (h : Covered libs sink t running) (hdirs : ∀ p ∈ dirs, IsPart p) :
    Covered libs sink (t.makeDirs [] dirs).2 running := by
  intro path data hbundle hfind
  rcases h path data hbundle ((FileTree.find_makeDirs_file_iff t.find_nil hdirs).1 hfind) with
    ⟨blob, hblob, hdata, hside⟩ | hpending
  · exact .inl ⟨blob, hblob, hdata, (FileTree.find_makeDirs_file_iff t.find_nil hdirs).2 hside⟩
  · exact .inr hpending

/-- A file that is put somewhere, or taken away. -/
theorem SinkInv.set (h : SinkInv libs sink t running) {n : Option (Node (List UInt8))}
    (hdir : n ≠ some .dir)
    (hfilled : ∀ tag blob target data, n = some (.file data) →
      .put tag blob target .replace ∈ running →
        resolveParts (sibling target tag.ending) = q → data = blob.data)
    (htexts : ∀ dirs name data, n = some (.file data) → sink.root <+: dirs →
      dirs ++ [name ++ ".meta.json"] = q →
        IsBundleName name ∧ ∃ blob, WellFormed libs blob ∧ data = sidecarBytes libs blob)
    (hfree : ∀ path data, n = some (.file data) → IsBundle sink path →
      sibling path ".meta.json" = q → t.find path ≠ some .dir) :
    SinkInv libs sink (t.set q n) running where
  shape := h.shape
  shared := h.shared
  ready hmem hstage p hp := FileTree.find_set_of_dir (h.ready hmem hstage p hp) n
  clean := h.clean
  filled := by
    intro tag blob target data hmem hfind
    rw [FileTree.find_set] at hfind
    split at hfind
    · rename_i hq
      exact hfilled tag blob target data hfind hmem hq.2
    · exact h.filled hmem hfind
  deletes := h.deletes
  texts := by
    intro dirs name data hroot hfind
    rw [FileTree.find_set] at hfind
    split at hfind
    · rename_i hq
      exact htexts dirs name data hfind hroot hq.2
    · exact h.texts hroot hfind
  free := by
    intro path hbundle hthere hpath
    have hold : t.find path = some .dir := by
      rw [FileTree.find_set] at hpath
      split at hpath
      · exact (hdir hpath).elim
      · exact hpath
    rcases hthere with hthere | hthere
    · obtain ⟨data, hfind⟩ := FileTree.isFile_iff.1 hthere
      rw [FileTree.find_set] at hfind
      split at hfind
      · rename_i hq
        exact hfree path data hfind hbundle hq.2 hold
      · exact h.free hbundle (.inl (FileTree.isFile_iff.2 ⟨data, hfind⟩)) hold
    · exact h.free hbundle (.inr hthere) hold

theorem SinkInv.erase (h : SinkInv libs sink t running) (q : List String) :
    SinkInv libs sink (t.set q none) running :=
  h.set (by intro he; cases he) (by intro _ _ _ _ he; cases he) (by intro _ _ _ he; cases he)
    (by intro _ _ he; cases he)

/-- What stands at no place of a bundle or a sidecar does not matter. -/
theorem Covered.set_of_other (h : Covered libs sink t running) (n : Option (Node (List UInt8)))
    (hq : ∀ path, IsBundle sink path → path ≠ q ∧ sibling path ".meta.json" ≠ q) :
    Covered libs sink (t.set q n) running := by
  intro path data hbundle hfind
  obtain ⟨hpath, hside⟩ := hq path hbundle
  rw [FileTree.find_set_of_ne _ _ hpath] at hfind
  exact (h path data hbundle hfind).imp_left fun hd =>
    hd.congr (FileTree.find_set_of_ne _ _ hside)

/-! ### Calls that come and go on -/

/-- What a call must bring to run beside others. -/
def Fits (libs : SinkLibraries) (t : Disk) (others : List Task) : Task → Prop
  | .put tag blob target stage =>
    (WellFormed libs blob ∧ ∃ dirs stem, target = dirs ++ [stem ++ blob.ext]) ∧
    (∀ blob' target' stage', .put tag blob' target' stage' ∈ others → blob' = blob) ∧
    (stage ≠ .makeDirs → ∀ q ∈ way [] target.dropLast, t.find q = some .dir) ∧
    (stage = .sidecar → (∀ p ∈ target, IsPart p) ∧ t.find (resolveParts target) ≠ some .dir) ∧
    (stage = .replace → ∀ data,
      t.find (resolveParts (sibling target tag.ending)) = some (.file data) → data = blob.data)
  | .delete path _ => path ≠ [] ∧ ∀ name ∈ path, IsName name

theorem mem_insert {before after : List Task} {task task' : Task}
    (h : task' ∈ before ++ task :: after) : task' = task ∨ task' ∈ before ++ after := by
  rcases List.mem_append.1 h with h | h
  · exact .inr (List.mem_append_left _ h)
  · exact (List.mem_cons.1 h).imp_right (List.mem_append_right _)

theorem SinkInv.add {before after : List Task} {task : Task}
    (h : SinkInv libs sink t (before ++ after)) (hfits : Fits libs t (before ++ after) task) :
    SinkInv libs sink t (before ++ task :: after) where
  shape := by
    intro tag blob target stage hmem
    rcases mem_insert hmem with rfl | hmem
    · exact hfits.1
    · exact h.shape hmem
  shared := by
    intro tag blob target stage blob' target' stage' hmem hmem'
    rcases mem_insert hmem with rfl | hold
    · rcases mem_insert hmem' with he | hold'
      · cases he
        rfl
      · exact (hfits.2.1 _ _ _ hold').symm
    · rcases mem_insert hmem' with rfl | hold'
      · exact hfits.2.1 _ _ _ hold
      · exact h.shared hold hold'
  ready := by
    intro tag blob target stage hmem
    rcases mem_insert hmem with rfl | hmem
    · exact hfits.2.2.1
    · exact h.ready hmem
  clean := by
    intro tag blob target hmem
    rcases mem_insert hmem with rfl | hmem
    · exact (hfits.2.2.2.1 rfl).1
    · exact h.clean hmem
  filled := by
    intro tag blob target data hmem hfind
    rcases mem_insert hmem with rfl | hmem
    · exact hfits.2.2.2.2 rfl data hfind
    · exact h.filled hmem hfind
  deletes := by
    intro path unlinked hmem
    rcases mem_insert hmem with rfl | hmem
    · exact hfits
    · exact h.deletes hmem
  texts := h.texts
  free := by
    intro path hbundle hthere
    rcases hthere with hthere | ⟨data, tag, blob, target, hmem, hpath, hdata⟩
    · exact h.free hbundle (.inl hthere)
    · rcases mem_insert hmem with rfl | hmem
      · exact hpath ▸ (hfits.2.2.2.1 rfl).2
      · exact h.free hbundle (.inr ⟨data, tag, blob, target, hmem, hpath, hdata⟩)

theorem SinkInv.erase_task {before after : List Task} {task : Task}
    (h : SinkInv libs sink t (before ++ task :: after)) : SinkInv libs sink t (before ++ after) :=
  h.mono fun _ => mem_of_erase

/-- A `put` goes on to its next stage. -/
theorem SinkInv.go_on {before after : List Task} {tag : WriterTag} {blob : BackupBlob (List UInt8)}
    {target : List String} {stage : Stage}
    (h : SinkInv libs sink t (before ++ .put tag blob target stage :: after)) (stage' : Stage)
    (hready : stage' ≠ .makeDirs → ∀ q ∈ way [] target.dropLast, t.find q = some .dir)
    (hclean : stage' = .sidecar → (∀ p ∈ target, IsPart p) ∧
      t.find (resolveParts target) ≠ some .dir)
    (hfilled : stage' = .replace → ∀ data,
      t.find (resolveParts (sibling target tag.ending)) = some (.file data) → data = blob.data) :
    SinkInv libs sink t (before ++ .put tag blob target stage' :: after) := by
  apply h.erase_task.add
  refine ⟨h.shape (mem_middle _), ?_, hready, hclean, hfilled⟩
  intro blob' target' stage'' hmem
  exact h.shared (mem_of_erase hmem) (mem_middle _)

theorem Covered.mono (h : Covered libs sink t running)
    (hpending : ∀ path data, IsBundle sink path → t.find path = some (.file data) →
      Pending running path data → Described libs t path data ∨ Pending running' path data) :
    Covered libs sink t running' := by
  intro path data hbundle hfind
  rcases h path data hbundle hfind with hd | hp
  · exact .inl hd
  · exact hpending path data hbundle hfind hp

/-- A call that has no sidecar to write may end or go on. -/
theorem Covered.advance {before after : List Task} {task : Task}
    (h : Covered libs sink t (before ++ task :: after))
    (hstage : ∀ tag blob target, task ≠ .put tag blob target .sidecar)
    (hsub : ∀ task' ∈ before ++ after, task' ∈ running') : Covered libs sink t running' := by
  apply h.mono
  intro path data _ _ hp
  exact .inr ((hp.erase fun tag blob target he => (hstage tag blob target he).elim).mono hsub)

/-! ## One step -/

/-- The temporary file of a `put` stands at no place of a bundle or a sidecar. -/
theorem tmp_apart (dirs : List String) (name : String) (tag : WriterTag)
    (hbundle : IsBundle sink path) :
    path ≠ resolveParts (sibling (dirs ++ [name]) tag.ending) ∧
      sibling path ".meta.json" ≠ resolveParts (sibling (dirs ++ [name]) tag.ending) := by
  rw [resolveParts_sibling dirs name tag.ending_length]
  refine ⟨hbundle.lastChar.ne (lastChar_tmp dirs name tag) (by decide), ?_⟩
  intro he
  have hlast := lastChar_sibling_sidecar hbundle.ne_nil
  rw [he, ← placeIn, lastChar_tmp] at hlast
  cases hlast

theorem texts_apart_of_tmp {dirs dirs' : List String} {name name' : String} {tag : WriterTag}
    (h : dirs' ++ [name' ++ ".meta.json"] = resolveParts (sibling (dirs ++ [name]) tag.ending)) :
    False := by
  rw [resolveParts_sibling dirs name tag.ending_length] at h
  have hlast := congrArg lastChar h
  rw [lastChar_concat _ _ (by decide), ← placeIn, lastChar_tmp] at hlast
  cases hlast

section
variable {before after : List Task} {tag : WriterTag} {blob : BackupBlob (List UInt8)}
  {target : List String}

theorem together_makeDirs
    (hinv : SinkInv libs sink t (before ++ .put tag blob target .makeDirs :: after))
    (hcov : Covered libs sink t (before ++ .put tag blob target .makeDirs :: after))
    (hsafe : ∀ q ∈ t.cleared [] target.dropLast, t.find q = none →
      t.isFile (sibling q ".meta.json") = false ∧
        ∀ data, ¬ Pending (before ++ .put tag blob target .makeDirs :: after) q data)
    (hrun : (Op.makeDirs target.dropLast).run t = (fault, t')) :
    SinkInv libs sink t' (before ++ .put tag blob target .makeDirs :: after) ∧
      Covered libs sink t' (before ++ .put tag blob target .makeDirs :: after) := by
  by_cases hdirs : ∀ p ∈ target.dropLast, IsPart p
  · rw [run_makeDirs hdirs] at hrun
    have hinv' := hinv.makeDirs hdirs hsafe
    have hcov' := hcov.makeDirs hdirs
    rw [hrun] at hinv' hcov'
    exact ⟨hinv', hcov'⟩
  · have hclean : ¬ (Op.makeDirs (α := List UInt8) target.dropLast).clean = true :=
      fun h => hdirs (parts_of_clean h)
    rw [Op.run.eq_def, if_neg hclean] at hrun
    cases hrun
    exact ⟨hinv, hcov⟩

theorem together_made
    (hinv : SinkInv libs sink t (before ++ .put tag blob target .makeDirs :: after))
    (hcov : Covered libs sink t (before ++ .put tag blob target .makeDirs :: after))
    (hsafe : ∀ q ∈ t.cleared [] target.dropLast, t.find q = none →
      t.isFile (sibling q ".meta.json") = false ∧
        ∀ data, ¬ Pending (before ++ .put tag blob target .makeDirs :: after) q data)
    (hrun : (Op.makeDirs target.dropLast).run t = (none, t')) :
    SinkInv libs sink t' (before ++ .put tag blob target .write :: after) ∧
      Covered libs sink t' (before ++ .put tag blob target .write :: after) := by
  obtain ⟨hinv', hcov'⟩ := together_makeDirs hinv hcov hsafe hrun
  obtain ⟨hdirs, hmade⟩ := makeDirs_of_ok hrun
  constructor
  · apply hinv'.go_on
    · intro _ q hq
      have hfind := FileTree.find_makeDirs_way t.find_nil hdirs (congrArg Prod.fst hmade) hq
      rwa [hmade] at hfind
    · intro h
      cases h
    · intro h
      cases h
  · apply hcov'.advance _ fun _ => mem_of_erase
    intro _ _ _ h
    cases h

theorem together_write
    (hinv : SinkInv libs sink t (before ++ .put tag blob target .write :: after))
    (hcov : Covered libs sink t (before ++ .put tag blob target .write :: after))
    (hrun : (Op.write (sibling target tag.ending) blob.data).run t = (none, t')) :
    SinkInv libs sink t' (before ++ .put tag blob target .replace :: after) ∧
      Covered libs sink t' (before ++ .put tag blob target .replace :: after) := by
  obtain ⟨-, dirs, stem, rfl⟩ := hinv.shape (mem_middle _)
  obtain ⟨-, hset, rfl⟩ := write_of_ok hrun
  have hinv' : SinkInv libs sink (t.set (resolveParts (sibling (dirs ++ [stem ++ blob.ext])
      tag.ending)) (some (.file blob.data)))
      (before ++ .put tag blob (dirs ++ [stem ++ blob.ext]) .write :: after) := by
    apply hinv.set
    · intro h
      cases h
    · intro tag' blob' target' data hdata hmem hplace
      cases hdata
      obtain ⟨-, dirs', stem', rfl⟩ := hinv.shape hmem
      rw [resolveParts_sibling _ _ tag'.ending_length, resolveParts_sibling _ _ tag.ending_length]
        at hplace
      obtain ⟨-, htag⟩ := WriterTag.eq_of_ending
        (List.singleton_inj.1 (List.append_inj' hplace rfl).2)
      subst htag
      rw [hinv.shared hmem (mem_middle _)]
    · intro dirs' name' data _ _ hplace
      exact (texts_apart_of_tmp hplace).elim
    · intro path data _ hbundle hplace
      exact ((tmp_apart dirs (stem ++ blob.ext) tag hbundle).2 hplace).elim
  constructor
  · apply hinv'.go_on
    · intro _ q hq
      exact hinv'.ready (mem_middle _) (by intro h; cases h) q hq
    · intro h
      cases h
    · intro _ data hfind
      rw [FileTree.find_set_self hset] at hfind
      cases hfind
      rfl
  · have hcov' := hcov.set_of_other (some (.file blob.data))
      fun path hbundle => tmp_apart dirs (stem ++ blob.ext) tag hbundle
    apply hcov'.advance _ fun _ => mem_of_erase
    intro _ _ _ h
    cases h

theorem together_replace
    (hinv : SinkInv libs sink t (before ++ .put tag blob target .replace :: after))
    (hcov : Covered libs sink t (before ++ .put tag blob target .replace :: after))
    (hrun : (Op.rename (sibling target tag.ending) target).run t = (none, t')) :
    SinkInv libs sink t' (before ++ .put tag blob target .sidecar :: after) ∧
      Covered libs sink t' (before ++ .put tag blob target .sidecar :: after) := by
  obtain ⟨-, dirs, stem, htarget⟩ := hinv.shape (mem_middle _)
  have hparts : ∀ p ∈ target, IsPart p :=
    fun p hp => parts_of_clean (Op.clean_of_ok hrun) p (List.mem_append_right _ hp)
  have hplace : resolveParts target = placeIn dirs (stem ++ blob.ext) := by
    rw [htarget, resolveParts_bundle]
  have htmp : resolveParts (sibling target tag.ending) =
      placeIn dirs (stem ++ blob.ext ++ tag.ending) := by
    rw [htarget, resolveParts_sibling _ _ tag.ending_length, placeIn]
  have hne : resolveParts (sibling target tag.ending) ≠ resolveParts target := by
    rw [hplace, htmp]
    exact tmp_ne_bundle dirs stem blob tag
  obtain ⟨data, hfile, hset, rfl⟩ := rename_of_ok hrun hne
  obtain rfl := hinv.filled (mem_middle _) hfile
  have hfind : ((t.set (resolveParts target) (some (.file blob.data))).set
      (resolveParts (sibling target tag.ending)) none).find (resolveParts target) =
        some (.file blob.data) := by
    rw [FileTree.find_set_of_ne _ _ hne.symm, FileTree.find_set_self hset]
  have hlast : BundleChar (lastChar (resolveParts target)) := by
    rw [hplace]
    exact lastChar_bundle dirs stem blob
  have hinv' : SinkInv libs sink ((t.set (resolveParts target) (some (.file blob.data))).set
      (resolveParts (sibling target tag.ending)) none)
      (before ++ .put tag blob target .replace :: after) := by
    apply SinkInv.erase
    apply hinv.set
    · intro h
      cases h
    · intro tag' blob' target' data hdata hmem he
      obtain ⟨-, dirs', stem', rfl⟩ := hinv.shape hmem
      rw [resolveParts_sibling _ _ tag'.ending_length] at he
      exact (hlast.ne (lastChar_tmp dirs' _ tag') (by decide) he.symm).elim
    · intro dirs' name' data _ _ he
      exact (hlast.ne (lastChar_meta dirs' name') (by decide) he.symm).elim
    · intro path data _ hbundle he
      exact (hlast.ne (lastChar_sibling_sidecar hbundle.ne_nil) (by decide) he.symm).elim
  constructor
  · apply hinv'.go_on
    · intro _ q hq
      exact hinv'.ready (mem_middle _) (by intro h; cases h) q hq
    · intro _
      refine ⟨hparts, ?_⟩
      rw [hfind]
      intro h
      cases h
    · intro h
      cases h
  · intro path data hbundle hpath
    by_cases he : path = resolveParts target
    · subst he
      rw [hfind] at hpath
      cases hpath
      exact .inr ⟨tag, blob, target, mem_middle _, rfl, rfl⟩
    · have hapart := tmp_apart dirs (stem ++ blob.ext) tag hbundle
      rw [← htarget] at hapart
      rw [FileTree.find_set_of_ne _ _ hapart.1, FileTree.find_set_of_ne _ _ he] at hpath
      rcases hcov path data hbundle hpath with hd | hp
      · left
        apply hd.congr
        rw [FileTree.find_set_of_ne _ _ hapart.2, FileTree.find_set_of_ne]
        exact (hlast.ne (lastChar_sibling_sidecar hbundle.ne_nil) (by decide)).symm
      · right
        apply (hp.erase _).mono fun _ => mem_of_erase
        intro _ _ _ h
        cases h

theorem isBundleName_ext (stem : String) (blob : BackupBlob Data) :
    IsBundleName (stem ++ blob.ext) := by
  rw [BackupBlob.ext]
  split
  · exact ⟨stem, .inr rfl⟩
  · exact ⟨stem, .inl rfl⟩

/-- The sidecar's place, from the place of the bundle. -/
theorem resolveParts_sidecar (dirs : List String) (stem : String) (blob : BackupBlob Data) :
    resolveParts (sibling (dirs ++ [stem ++ blob.ext]) ".meta.json") =
      sibling (resolveParts (dirs ++ [stem ++ blob.ext])) ".meta.json" := by
  rw [resolveParts_target, resolveParts_sibling _ _ (by decide), sibling_concat]

theorem together_sidecar
    (hinv : SinkInv libs sink t (before ++ .put tag blob target .sidecar :: after))
    (hcov : Covered libs sink t (before ++ .put tag blob target .sidecar :: after))
    (hsafe : IsBundle sink (resolveParts target) → ∀ data,
      t.find (resolveParts target) = some (.file data) →
        blob.data = data ∧ t.isDir (sibling (resolveParts target) ".meta.json") = false ∨
          Pending (before ++ after) (resolveParts target) data)
    (hrun : (Op.write (sibling target ".meta.json") (sidecarBytes libs blob)).run t = (none, t')) :
    SinkInv libs sink t' (before ++ after) ∧ Covered libs sink t' (before ++ after) := by
  obtain ⟨hwf, dirs, stem, htarget⟩ := hinv.shape (mem_middle _)
  obtain ⟨-, hset, rfl⟩ := write_of_ok hrun
  have hplace : resolveParts target = resolveParts dirs ++ [stem ++ blob.ext] := by
    rw [htarget, resolveParts_target]
  have hside : resolveParts (sibling target ".meta.json") =
      sibling (resolveParts target) ".meta.json" := by
    rw [htarget, resolveParts_sidecar]
  have hnil : resolveParts target ≠ [] := by
    rw [hplace]
    exact List.append_ne_nil_of_right_ne_nil _ (List.cons_ne_nil _ _)
  rw [hside] at hset ⊢
  constructor
  · apply SinkInv.erase_task
    apply hinv.set
    · intro h
      cases h
    · intro tag' blob' target' data _ hmem he
      obtain ⟨-, dirs', stem', rfl⟩ := hinv.shape hmem
      have hlast := lastChar_sibling_sidecar hnil
      rw [← he, resolveParts_sibling _ _ tag'.ending_length, ← placeIn, lastChar_tmp] at hlast
      cases hlast
    · intro dirs' name' data hdata _ he
      cases hdata
      rw [hplace, sibling_concat] at he
      obtain ⟨-, hname⟩ := List.append_inj' he rfl
      have hchars := congrArg String.toList (List.singleton_inj.1 hname)
      rw [String.toList_append, String.toList_append] at hchars
      rw [String.toList_inj.1 (List.append_cancel_right hchars)]
      exact ⟨isBundleName_ext stem blob, blob, hwf, rfl⟩
    · intro path data _ hbundle he
      rw [sibling_injective hbundle.ne_nil hnil he]
      rw [sibling_injective hbundle.ne_nil hnil he] at hbundle
      exact hinv.free hbundle (.inr ⟨_, tag, blob, target, mem_middle _, rfl, rfl⟩)
  · intro path data hbundle hfind
    rw [FileTree.find_set_of_ne _ _ (hbundle.ne_sidecar hnil)] at hfind
    by_cases he : path = resolveParts target
    · subst he
      rcases hsafe hbundle data hfind with ⟨hdata, -⟩ | hpending
      · exact .inl ⟨blob, hwf, hdata, FileTree.find_set_self hset _⟩
      · exact .inr hpending
    · rcases hcov path data hbundle hfind with hd | hp
      · exact .inl (hd.congr (FileTree.find_set_of_ne _ _ fun hs =>
          he (sibling_injective hbundle.ne_nil hnil hs)))
      · right
        apply hp.erase
        intro tag' blob' target' htask
        cases htask
        exact Ne.symm he

theorem together_unlink {path : List String}
    (hinv : SinkInv libs sink t (before ++ .delete path false :: after))
    (hcov : Covered libs sink t (before ++ .delete path false :: after))
    (hsafe : ∀ bundle, sibling bundle ".meta.json" = path →
      LeftToOthers sink t (before ++ after) bundle)
    (hrun : (Op.unlink path).run t = (none, t')) :
    SinkInv libs sink t' (before ++ .delete path true :: after) ∧
      Covered libs sink t' (before ++ .delete path true :: after) := by
  obtain ⟨hnil, hnames⟩ := hinv.deletes (mem_middle _)
  obtain rfl := unlink_of_ok hrun
  have hpath : resolveParts path = path := resolveFrom_of_names [] hnames
  rw [hpath]
  constructor
  · exact (hinv.erase path).erase_task.add ⟨hnil, hnames⟩
  · intro bundle data hbundle hfind
    have hold : t.find bundle = some (.file data) := by
      rw [FileTree.find_set] at hfind
      split at hfind
      · cases hfind
      · exact hfind
    by_cases he : sibling bundle ".meta.json" = path
    · exact .inr ((hsafe bundle he hbundle data hold).mono fun _ => mem_of_erase)
    · rcases hcov bundle data hbundle hold with hd | hp
      · exact .inl (hd.congr (FileTree.find_set_of_ne _ _ he))
      · right
        apply (hp.erase _).mono fun _ => mem_of_erase
        intro _ _ _ h
        cases h

theorem resolveParts_sibling_of_names {path : List String} (hnil : path ≠ [])
    (hnames : ∀ name ∈ path, IsName name) :
    resolveParts (sibling path ".meta.json") = sibling path ".meta.json" := by
  rcases List.eq_nil_or_concat path with rfl | ⟨dirs, name, rfl⟩
  · exact (hnil rfl).elim
  · rw [List.concat_eq_append] at hnames ⊢
    rw [resolveParts_sibling _ _ (by decide), sibling_concat, resolveParts_eq,
      resolveFrom_of_names [] fun p hp => hnames p (List.mem_append_left _ hp)]
    rfl

theorem together_unlinkSidecar {path : List String}
    (hinv : SinkInv libs sink t (before ++ .delete path true :: after))
    (hcov : Covered libs sink t (before ++ .delete path true :: after))
    (hsafe : LeftToOthers sink t (before ++ after) path)
    (hrun : (Op.unlinkExisting (sibling path ".meta.json")).run t = (none, t')) :
    SinkInv libs sink t' (before ++ after) ∧ Covered libs sink t' (before ++ after) := by
  obtain ⟨hnil, hnames⟩ := hinv.deletes (mem_middle _)
  have hleft : Covered libs sink t (before ++ after) := by
    apply hcov.advance _ fun _ h => h
    intro _ _ _ h
    cases h
  rcases unlinkExisting_of_ok hrun with rfl | rfl
  · exact ⟨hinv.erase_task, hleft⟩
  · rw [resolveParts_sibling_of_names hnil hnames]
    refine ⟨(hinv.erase _).erase_task, ?_⟩
    intro bundle data hbundle hfind
    rw [FileTree.find_set_of_ne _ _ (hbundle.ne_sidecar hnil)] at hfind
    by_cases he : bundle = path
    · subst he
      exact .inr (hsafe hbundle data hfind)
    · exact (hleft bundle data hbundle hfind).imp_left fun hd =>
        hd.congr (FileTree.find_set_of_ne _ _ fun hs =>
          he (sibling_injective hbundle.ne_nil hnil hs))

/-- A sidecar can be written unless a directory stands in its place. -/
theorem sidecar_fault
    (hinv : SinkInv libs sink t (before ++ .put tag blob target .sidecar :: after))
    (hrun : (Op.write (sibling target ".meta.json") (sidecarBytes libs blob)).run t =
      (some f, t')) : t.isDir (sibling (resolveParts target) ".meta.json") = true := by
  obtain ⟨-, dirs, stem, rfl⟩ := hinv.shape (mem_middle _)
  have hparts := hinv.clean (mem_middle _)
  have hway := hinv.ready (mem_middle _) (by intro h; cases h)
  rw [List.dropLast_concat] at hway
  have hside : ∀ p ∈ dirs ++ [stem ++ blob.ext ++ ".meta.json"], IsPart p :=
    parts_beside hparts (by decide)
  rw [sibling_concat, run_write hway hside] at hrun
  rw [← resolveParts_sidecar, sibling_concat]
  split at hrun
  · rename_i hdir
    exact hdir
  · cases hrun

end

theorem together_fail {before after : List Task} {task : Task}
    (hinv : SinkInv libs sink t (before ++ task :: after))
    (hcov : Covered libs sink t (before ++ task :: after))
    (hsafe : StepsTogether sink ⟨t, before ++ task :: after⟩ (before ++ after) task)
    (hrun : (task.next libs).run t = (some f, t')) :
    SinkInv libs sink t' (before ++ after) ∧ Covered libs sink t' (before ++ after) := by
  cases task with
  | put tag blob target stage =>
    cases stage with
    | makeDirs =>
      obtain ⟨hinv', hcov'⟩ := together_makeDirs hinv hcov hsafe hrun
      refine ⟨hinv'.erase_task, hcov'.advance ?_ fun _ h => h⟩
      intro _ _ _ h
      cases h
    | write =>
      obtain rfl := Op.eq_of_fault (by intro _ h; cases h) hrun
      refine ⟨hinv.erase_task, hcov.advance ?_ fun _ h => h⟩
      intro _ _ _ h
      cases h
    | replace =>
      obtain rfl := Op.eq_of_fault (by intro _ h; cases h) hrun
      refine ⟨hinv.erase_task, hcov.advance ?_ fun _ h => h⟩
      intro _ _ _ h
      cases h
    | sidecar =>
      have hdir := sidecar_fault hinv hrun
      obtain rfl := Op.eq_of_fault (by intro _ h; cases h) hrun
      refine ⟨hinv.erase_task, hcov.mono ?_⟩
      intro path data hbundle hfind hp
      by_cases he : path = resolveParts target
      · subst he
        rcases hsafe hbundle data hfind with ⟨-, hfree⟩ | hpending
        · exact (Bool.false_ne_true (hfree.symm.trans hdir)).elim
        · exact .inr hpending
      · right
        apply hp.erase
        intro tag' blob' target' htask
        cases htask
        exact Ne.symm he
  | delete path unlinked =>
    have hsame : t' = t := by
      cases unlinked with
      | false => exact Op.eq_of_fault (by intro _ h; cases h) hrun
      | true => exact Op.eq_of_fault (by intro _ h; cases h) hrun
    rw [hsame]
    refine ⟨hinv.erase_task, hcov.advance ?_ fun _ h => h⟩
    intro _ _ _ h
    cases h

theorem together_advance {before after : List Task} {task : Task}
    (hinv : SinkInv libs sink t (before ++ task :: after))
    (hcov : Covered libs sink t (before ++ task :: after))
    (hsafe : StepsTogether sink ⟨t, before ++ task :: after⟩ (before ++ after) task)
    (hrun : (task.next libs).run t = (none, t')) :
    SinkInv libs sink t' (before ++ task.rest ++ after) ∧
      Covered libs sink t' (before ++ task.rest ++ after) := by
  cases task with
  | put tag blob target stage =>
    cases stage with
    | makeDirs =>
      rw [Task.rest, ← List.append_cons]
      exact together_made hinv hcov hsafe hrun
    | write =>
      rw [Task.rest, ← List.append_cons]
      exact together_write hinv hcov hrun
    | replace =>
      rw [Task.rest, ← List.append_cons]
      exact together_replace hinv hcov hrun
    | sidecar =>
      rw [Task.rest, List.append_nil]
      exact together_sidecar hinv hcov hsafe hrun
  | delete path unlinked =>
    cases unlinked with
    | false =>
      rw [Task.rest, ← List.append_cons]
      exact together_unlink hinv hcov hsafe hrun
    | true =>
      rw [Task.rest, List.append_nil]
      exact together_unlinkSidecar hinv hcov hsafe hrun

/-- The death of a call, at a moment when it has a sidecar to write or not. -/
theorem together_crash {before after : List Task} {task : Task}
    (hinv : SinkInv libs sink t (before ++ task :: after))
    (hcov : Covered libs sink t (before ++ task :: after))
    (hsafe : KeepsTogether libs sink ⟨t, before ++ task :: after⟩ (.crash before task after)) :
    SinkInv libs sink t (before ++ after) ∧ Covered libs sink t (before ++ after) := by
  refine ⟨hinv.erase_task, ?_⟩
  by_cases hstage : ∃ tag blob target, task = .put tag blob target .sidecar
  · obtain ⟨tag, blob, target, rfl⟩ := hstage
    apply hcov.mono
    intro path data hbundle hfind hp
    by_cases he : path = resolveParts target
    · subst he
      exact hsafe hbundle data hfind
    · right
      apply hp.erase
      intro tag' blob' target' htask
      cases htask
      exact Ne.symm he
  · apply hcov.advance _ fun _ h => h
    intro tag blob target he
    exact hstage ⟨tag, blob, target, he⟩

theorem together_start {task : Task} (hinv : SinkInv libs sink t running)
    (hcov : Covered libs sink t running) (hfits : Fits libs t running task) :
    SinkInv libs sink t (running ++ [task]) ∧ Covered libs sink t (running ++ [task]) := by
  have hnil : running ++ [] = running := List.append_nil running
  constructor
  · apply SinkInv.add
    · rwa [hnil]
    · rwa [hnil]
  · intro path data hbundle hfind
    exact (hcov path data hbundle hfind).imp_right
      fun hp => hp.mono fun _ => List.mem_append_left _

/-- What one event preserves. -/
theorem SinkStep.together {s s' : SinkState} {e : SinkEvent} (hstep : SinkStep libs sink s e s')
    (hsafe : KeepsTogether libs sink s e) (hinv : SinkInv libs sink s.disk s.running)
    (hcov : Covered libs sink s.disk s.running) :
    SinkInv libs sink s'.disk s'.running ∧ Covered libs sink s'.disk s'.running := by
  cases hstep with
  | startPut hname =>
    apply together_start hinv hcov
    refine ⟨⟨hsafe.1, target_of_blob sink.root hname⟩, fun _ _ _ => hsafe.2 _ _ _, ?_, ?_, ?_⟩
    · intro h
      exact (h rfl).elim
    · intro h
      cases h
    · intro h
      cases h
  | startDelete hresolve =>
    obtain ⟨-, -, hfile⟩ := resolve_ok hresolve
    obtain ⟨data, hfind⟩ := FileTree.isFile_iff.1 hfile
    apply together_start hinv hcov
    obtain ⟨dirs, name, rfl, -⟩ := exists_concat_of_file hfind
    exact ⟨List.append_ne_nil_of_right_ne_nil _ (List.cons_ne_nil _ _),
      FileTree.names_of_find hfind⟩
  | advance hrunning hrun =>
    obtain ⟨t, running⟩ := s
    cases hrunning
    exact together_advance hinv hcov hsafe hrun
  | fail hrunning hrun =>
    obtain ⟨t, running⟩ := s
    cases hrunning
    exact together_fail hinv hcov hsafe hrun
  | crash hrunning =>
    obtain ⟨t, running⟩ := s
    cases hrunning
    exact together_crash hinv hcov hsafe

end

end ScottyCore
