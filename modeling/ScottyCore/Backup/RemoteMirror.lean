import ScottyCore.Backup.BlobListing
import ScottyCore.Backup.RemoteNode

namespace ScottyCore
open Python FileSystem LocalDiskSink TransitionSystem
set_option autoImplicit true

/-! ## A store on the local disk -/

/-- A blob of an app, whose sidecar of several lines can be read back. -/
structure ReadableBlob (libs : SinkLibraries) (blob : BackupBlob Data) : Prop where
  worded : Worded blob
  plain : '\r' ∉ (libs.dumps (some 2) (sidecarMeta blob)).toList
  reads : ∃ members, ReadsAs libs (libs.dumps (some 2) (sidecarMeta blob)) blob members

/-- The layout of `LocalDiskSink` and of `RemoteNodeSink`. -/
def diskLayout (libs : SinkLibraries) : Layout := ⟨bundleDirs, sidecarBytes libs, Worded.dirs⟩

theorem joinPath_disk (libs : SinkLibraries) (blob : BackupBlob (List UInt8)) :
    joinPath ((diskLayout libs).place blob) = defaultFilename blob := joinPath_bundle blob

section
variable {libs : SinkLibraries} {sink : LocalDiskSink} {root : List String} {m : BlobMap}
variable {t : Disk} {blob : BackupBlob (List UInt8)} {place : List String} {tag : WriterTag}

/-- No blob is at the place of a temporary file, and no sidecar. -/
theorem Mirrors.files_tmp (h : Mirrors (diskLayout libs) root m t) (tag : WriterTag)
    (blob : BackupBlob (List UInt8)) :
    (diskLayout libs).files m (bundleDirs blob ++ [bundleFile blob ++ tag.ending]) = none := by
  have hlast : lastChar (bundleDirs blob ++ [bundleFile blob ++ tag.ending]) = some 't' := by
    rw [lastChar_concat _ _ tag.ending_ne_nil, tag.getLast?_ending]
  have hnone : m (bundleDirs blob ++ [bundleFile blob ++ tag.ending]) = none := by
    rw [Option.eq_none_iff_forall_ne_some]
    intro other hother
    have hbundle : BundleChar (lastChar ((diskLayout libs).place other)) := by
      rw [Layout.place, bundleFile, lastChar_concat _ _ (ext_ne_nil other)]
      exact bundleChar_ext other
    exact hbundle.ne hlast (by decide) (h.placed hother).2.symm
  rw [Layout.files_of_none hnone]
  cases hside : bundleOf (bundleDirs blob ++ [bundleFile blob ++ tag.ending]) with
  | none => rfl
  | some bundle =>
    obtain ⟨hne, he⟩ := bundleOf_eq_some_iff.1 hside
    rw [he, lastChar_sibling_sidecar hne] at hlast
    cases hlast

/-- What `put` does, by the names below the root. -/
theorem putOps_blob (libs : SinkLibraries) (sink : LocalDiskSink) (tag : WriterTag)
    (hw : Worded blob) (hname : fileNameOf blob = .ok rel) :
    sink.putOps libs tag blob rel = .makeDirs (sink.root ++ bundleDirs blob) ::
      ([.write (sink.root ++ (bundleDirs blob ++ [bundleFile blob ++ tag.ending])) blob.data,
        .rename (sink.root ++ (bundleDirs blob ++ [bundleFile blob ++ tag.ending]))
          (sink.root ++ (bundleDirs blob ++ [bundleFile blob]))] ++
      [.write (sink.root ++ (bundleDirs blob ++ [bundleFile blob ++ ".meta.json"]))
        (sidecarBytes libs blob)]) := by
  have hne : bundleDirs blob ++ [bundleFile blob] ≠ [] :=
    List.append_ne_nil_of_right_ne_nil _ (List.cons_ne_nil _ _)
  have hrel : rel = joinPath (bundleDirs blob ++ [bundleFile blob]) := by
    rw [joinPath_bundle, defaultFilename_of_ok hname]
  have htarget : targetParts sink.root rel =
      sink.root ++ (bundleDirs blob ++ [bundleFile blob]) := by
    rw [hrel, targetParts_joinPath sink.root hne (Layout.isName_place (diskLayout libs) hw)]
  rw [putOps, htarget, sibling_append _ hne, sibling_append _ hne, sibling_concat, sibling_concat,
    List.dropLast_append_of_ne_nil hne, List.dropLast_concat]
  rfl

theorem Mirrors.disk_put (h : Mirrors (diskLayout libs) sink.root m t) (hw : Worded blob)
    (hname : fileNameOf blob = .ok rel) (tag : WriterTag) :
    ∃ t', sink.put libs tag blob t = (.ok ⟨rel, "local_disk", blob.size, blob.created_at⟩, t') ∧
      Mirrors (diskLayout libs) sink.root
        (Function.update m ((diskLayout libs).place blob) (some blob)) t' := by
  have hkeyTmp := Layout.isKey_sibling (diskLayout libs) hw tag.ending
  have htmp := Layout.isName_sibling (diskLayout libs) hw tag.ending_part tag.ending_length
  have hplace := Layout.isName_place (diskLayout libs) hw
  have hdirs : (diskLayout libs).dirs blob = bundleDirs blob := rfl
  have hsidecar : (diskLayout libs).sidecar blob = sidecarBytes libs blob := rfl
  rw [Layout.place, sibling_concat, hdirs] at hkeyTmp htmp
  obtain ⟨t₁, hmake, hfiles, hdir⟩ := h.run_makeDirs hw
  rw [hdirs] at hmake hdir
  have hkey : IsKey IsWord (bundleDirs blob ++ [bundleFile blob]) :=
    Layout.isKey (diskLayout libs) hw
  have hlast : bundleFile blob ++ tag.ending ≠ bundleFile blob := by
    intro he
    have hlen := congrArg String.length he
    rw [String.length_append] at hlen
    have := tag.ending_length
    omega
  obtain ⟨t₂, hreplace, hfiles₂⟩ := hfiles.run_replace hkey
    (hplace _ (List.mem_append_right _ List.mem_cons_self)) hkeyTmp htmp (h.files_tmp tag blob)
    hlast hdir blob.data
  have hdir₂ := find_runOps_of_dir
    [.write (sink.root ++ (bundleDirs blob ++ [bundleFile blob ++ tag.ending])) blob.data,
      .rename (sink.root ++ (bundleDirs blob ++ [bundleFile blob ++ tag.ending]))
        (sink.root ++ (bundleDirs blob ++ [bundleFile blob]))] hdir
  rw [hreplace] at hdir₂
  obtain ⟨t₃, hwrite, hm₃⟩ := h.run_write_sidecar hw hfiles₂ hdir₂
  rw [Layout.place, sibling_concat, hdirs, hsidecar] at hwrite
  refine ⟨t₃, ?_, hm₃⟩
  rw [LocalDiskSink.put, hname]
  dsimp only
  rw [putOps_blob libs sink tag hw hname, runOps_cons_of_ok hmake,
    runOps_append_of_ok hreplace, runOps_cons_of_ok hwrite]
  rfl

theorem resolve_joinPath (hne : place ≠ []) (hnames : ∀ name ∈ place, IsName name) :
    sink.resolve (joinPath place) t =
      if t.isFile (sink.root ++ place) then .ok (sink.root ++ place)
      else .error (noSnapshot (joinPath place)) := by
  have hall : ∀ name ∈ sink.root ++ place, IsName name := by
    intro name hname
    rcases List.mem_append.1 hname with hname | hname
    · exact sink.names name hname
    · exact hnames name hname
  rw [resolve, targetParts_joinPath sink.root hne hnames, resolveParts_of_names hall,
    if_pos fun p hp => (hall p hp).1, if_pos (List.prefix_append _ _)]

theorem Mirrors.disk_get (h : Mirrors (diskLayout libs) sink.root m t) (hne : place ≠ [])
    (hnames : ∀ name ∈ place, IsName name) (hplace : bundleOf place = none) :
    sink.get (joinPath place) t =
      (m place).elim (.error (noSnapshot (joinPath place))) fun blob => .ok blob.data := by
  rw [LocalDiskSink.get, resolve_joinPath hne hnames, h.isFile_eq hplace]
  cases hm : m place with
  | none => rfl
  | some blob =>
    refine bind_eq_ok.2 ⟨_, rfl, ?_⟩
    rw [h.find_of_some hm]

theorem Mirrors.disk_delete_of_none (h : Mirrors (diskLayout libs) sink.root m t) (hne : place ≠ [])
    (hnames : ∀ name ∈ place, IsName name) (hplace : bundleOf place = none)
    (hm : m place = none) :
    sink.delete (joinPath place) t = (.error (noSnapshot (joinPath place)), t) := by
  rw [LocalDiskSink.delete, resolve_joinPath hne hnames, h.isFile_eq hplace, hm]
  rfl

theorem Mirrors.disk_delete_of_some (h : Mirrors (diskLayout libs) sink.root m t)
    (hm : m place = some blob) :
    ∃ t', sink.delete (joinPath place) t = (.ok (), t') ∧
      Mirrors (diskLayout libs) sink.root (Function.update m place none) t' := by
  obtain ⟨hw, rfl⟩ := h.placed hm
  have hne := Layout.place_ne_nil (diskLayout libs) blob
  obtain ⟨hfiles, hside⟩ := h.removed hm
  have hunlink := h.files.run_unlink (Layout.files_of_some hm)
  have hunlinkSide := hfiles.run_unlinkExisting hside
  refine ⟨_, ?_, (h.delete hm).1⟩
  rw [LocalDiskSink.delete, resolve_joinPath hne (Layout.isName_place _ hw),
    if_pos (FileTree.isFile_iff.2 ⟨_, h.find_of_some hm⟩)]
  dsimp only
  rw [unlinkOps, runOps_cons_of_ok hunlink, sibling_append sink.root hne,
    runOps_cons_of_ok hunlinkSide]
  rfl

/-- The turn of the loop of a listing for the sidecar of a blob. -/
theorem Mirrors.scan (h : Mirrors (diskLayout libs) sink.root m t)
    (hint : ∀ i, libs.int (.int i) = .ok i) (app_slug tenant_slug : Option String)
    {dirs : List String} {name : String}
    (hplace : dirs ++ [name] = sink.root ++ (diskLayout libs).place blob)
    (hm : m ((diskLayout libs).place blob) = some blob) (hread : ReadableBlob libs blob) :
    sink.scan libs app_slug tenant_slug t (dirs, name) =
      .ok (if PassesFilters app_slug tenant_slug blob then
        some (shownAs (joinPath ((diskLayout libs).place blob)) blob) else none) := by
  have hbundle := h.find_of_some hm
  have hsidecar := h.find_sidecar hm
  rw [← hplace] at hbundle hsidecar
  rw [sibling_concat] at hsidecar
  have hnames := FileTree.names_of_find hbundle
  have hname := hnames name (List.mem_append_right _ List.mem_cons_self)
  obtain ⟨members, hmembers⟩ := hread.reads
  have htext : readText ((diskLayout libs).sidecar blob) =
      .ok (libs.dumps (some 2) (sidecarMeta blob)) := by
    rw [diskLayout, readText_sidecarBytes, universalNewlines_of_plain hread.plain,
      String.ofList_toList]
  rw [LocalDiskSink.scan, hsidecar]
  refine bind_eq_ok.2 ⟨_, htext, ?_⟩
  rw [hmembers.1]
  refine (hmembers.passes app_slug tenant_slug _).trans ?_
  split
  · rw [if_neg (not_or.2 ⟨hname.2.1, hname.2.2.1⟩)]
    dsimp only
    rw [t.stat_of_names hnames, hbundle, hplace, List.drop_left]
    dsimp only
    rw [hmembers.snapshotEntry hint]
    rfl
  · rfl

/-- What a listing of a store shows. -/
def shownEntries (libs : SinkLibraries) (root : List String) (m : BlobMap)
    (app_slug tenant_slug : Option String) (t : Disk) : List SnapshotEntry :=
  newestFirst ((selectedBlobs root m app_slug tenant_slug t).map fun blob =>
    shownAs (joinPath ((diskLayout libs).place blob)) blob)

theorem Mirrors.disk_listSnapshots (h : Mirrors (diskLayout libs) sink.root m t)
    (hread : ∀ names blob, m names = some blob → ReadableBlob libs blob)
    (hint : ∀ i, libs.int (.int i) = .ok i) (app_slug tenant_slug : Option String) :
    sink.listSnapshots libs app_slug tenant_slug t =
      .ok (shownEntries libs sink.root m app_slug tenant_slug t) := by
  have hscan : (sidecars sink.root t).mapM (sink.scan libs app_slug tenant_slug t) =
      .ok ((sidecars sink.root t).map fun x => (m ((x.1 ++ [x.2]).drop sink.root.length)).bind
        fun blob => if PassesFilters app_slug tenant_slug blob then
          some (shownAs (joinPath ((diskLayout libs).place blob)) blob) else none) := by
    apply mapM_ok_of_forall
    intro x hx
    obtain ⟨blob, hblob, he, hm⟩ := h.blob_of_sidecar hx
    rw [hblob]
    exact h.scan hint app_slug tenant_slug he hm (hread _ _ hm)
  refine bind_eq_ok.2 ⟨_, hscan, ?_⟩
  rw [filterMap_sidecars]
  rfl

end

/-! ## A store on another host -/

/-- The directory of a sink on its host: an absolute path in normal form, on one line. -/
structure ServesDir (node : RemoteNodeSink) (root : List String) : Prop where
  dir : node.remote_dir = pathText root
  ne_nil : root ≠ []
  unbroken : ∀ name ∈ root, ∀ c ∈ name.toList, isLineBreak c = false

theorem IsWord.unbroken (h : IsWord s) : ∀ c ∈ s.toList, isLineBreak c = false := by
  intro c hc
  apply Bool.eq_false_of_not_eq_true
  intro hbreak
  rcases h c hc with halnum | rfl
  · have hspace := isSpace_of_alphanum (c := c) (by rw [halnum, Bool.true_or])
    rw [isSpace_of_isLineBreak hbreak] at hspace
    cases hspace
  · cases hbreak

theorem unbroken_of_all {s : String} (h : (s.toList.all fun c => !isLineBreak c) = true) :
    ∀ c ∈ s.toList, isLineBreak c = false :=
  fun c hc => Bool.not_eq_true' _ |>.mp (List.all_eq_true.1 h c hc)

theorem unbroken_append {s s' : String} (h : ∀ c ∈ s.toList, isLineBreak c = false)
    (h' : ∀ c ∈ s'.toList, isLineBreak c = false) :
    ∀ c ∈ (s ++ s').toList, isLineBreak c = false := by
  rw [String.toList_append]
  exact List.forall_mem_append.2 ⟨h, h'⟩

theorem unbroken_bundleFile {blob : BackupBlob Data} (h : Worded blob) :
    ∀ c ∈ (bundleFile blob).toList, isLineBreak c = false := by
  have hstamp : ∀ c ∈ (stampSeconds (astimezoneUtc blob.created_at)).toList,
      isLineBreak c = false := by
    intro c hc
    have hrange := toNat_of_mem_stampSeconds hc
    rw [isLineBreak, decide_eq_false_iff_not]
    omega
  have hext : ∀ c ∈ blob.ext.toList, isLineBreak c = false := by
    rw [BackupBlob.ext]
    split
    · exact unbroken_of_all (by decide)
    · exact unbroken_of_all (by decide)
  exact unbroken_append (unbroken_append (unbroken_append hstamp (unbroken_of_all (by decide)))
    h.kind.unbroken) hext

theorem unbroken_pathText {path : List String} (hne : path ≠ [])
    (h : ∀ name ∈ path, ∀ c ∈ name.toList, isLineBreak c = false) :
    ∀ c ∈ (pathText path).toList, isLineBreak c = false := by
  rw [toList_pathText hne]
  intro c hc
  obtain ⟨name, hname, hc⟩ := List.mem_flatMap.1 hc
  rcases List.mem_cons.1 hc with rfl | hc
  · decide
  · exact h name hname c hc

theorem strip_pathText (path : List String) : strip (pathText path) ≠ "" := by
  intro he
  have htext : (pathText path).toList = '/' :: (joinPath path).toList := String.toList_append
  have hnil := congrArg String.toList he
  rw [strip, htext, List.dropWhile_cons, if_neg (by decide), String.toList_ofList] at hnil
  have hall := List.dropWhile_eq_nil_iff.1 (List.reverse_eq_nil_iff.1 hnil) '/'
    (List.mem_reverse.2 List.mem_cons_self)
  cases hall

/-- Each path that `find` prints is read as a line. -/
theorem linesOf_paths {paths : List String}
    (h : ∀ path ∈ paths, (∀ c ∈ path.toList, isLineBreak c = false) ∧ strip path ≠ "") :
    RemoteNodeSink.linesOf paths = paths := by
  have hlines : splitLines (paths.flatMap fun path => path.toList ++ ['\n']) =
      paths.map String.toList := by
    have hsplit : splitLines ((paths.map String.toList).flatMap (· ++ ['\n'])) =
        paths.map String.toList := by
      apply splitLines_lines
      intro line hline
      obtain ⟨path, hpath, rfl⟩ := List.mem_map.1 hline
      exact (h path hpath).1
    rwa [List.flatMap_map] at hsplit
  have hid : String.ofList ∘ String.toList = id := funext fun _ => String.ofList_toList
  rw [RemoteNodeSink.linesOf, hlines, List.map_map, hid, List.map_id]
  apply List.filter_eq_self.2
  intro path hpath
  exact decide_eq_true (h path hpath).2

section
variable {libs : SinkLibraries} {node : RemoteNodeSink} {root home : List String} {m : BlobMap}
variable {t t' : Disk} {blob : BackupBlob (List UInt8)} {place : List String} {L : Layout}

theorem ServesDir.remotePath (h : ServesDir node root) (hne : place ≠ []) :
    node.remotePath (joinPath place) = pathText (root ++ place) := by
  rw [RemoteNodeSink.remotePath, h.dir, pathText_append h.ne_nil hne]

theorem ServesDir.append_ne_nil (h : ServesDir node root) (place : List String) :
    root ++ place ≠ [] :=
  List.append_ne_nil_of_left_ne_nil h.ne_nil place

/-- A path of names is an argument of a command. -/
theorem clean_pathText {path : List String} (hnames : ∀ name ∈ path, IsName name) :
    '\x00' ∉ (pathText path).toList := by
  by_cases hne : path = []
  · rw [hne]
    decide
  · rw [toList_pathText hne]
    intro hc
    obtain ⟨name, hname, hc⟩ := List.mem_flatMap.1 hc
    rcases List.mem_cons.1 hc with hc | hc
    · cases hc
    · exact (hnames name hname).1.2 hc

theorem spawn_of_clean {argv : List String} (h : ∀ arg ∈ argv, '\x00' ∉ arg.toList) :
    RemoteNodeSink.spawn argv = .ok () := by
  rw [RemoteNodeSink.spawn, if_neg]
  rintro ⟨arg, harg, hnull⟩
  exact h arg harg hnull

/-- A file beside another, as a path. -/
theorem pathText_sibling {names : List String} (hne : names ≠ []) :
    pathText (sibling names ".meta.json") = pathText names ++ ".meta.json" := by
  rw [pathText, sidecar_joinPath hne, ← String.append_assoc]
  rfl

theorem ServesDir.pathText_sidecar (h : ServesDir node root) (hne : place ≠ []) :
    pathText (root ++ sibling place ".meta.json") = pathText (root ++ place) ++ ".meta.json" := by
  rw [← sibling_append root hne, pathText_sibling (h.append_ne_nil place)]

theorem ssh_of_ok {argv : List String} {command : Disk → Option Fault × Disk}
    (h : ∀ arg ∈ argv, '\x00' ∉ arg.toList) (hrun : command t = (none, t')) :
    node.ssh argv command t = (.ok (), t') := by
  rw [RemoteNodeSink.ssh, spawn_of_clean h]
  dsimp only
  rw [hrun]

theorem RemoteNodeSink.ssh_mkdir (node : RemoteNodeSink) {path : List String} (hne : path ≠ [])
    (hnames : ∀ name ∈ path, IsName name) (hmake : (Op.makeDirs path).run t = (none, t')) :
    node.ssh ["mkdir", "-p", pathText path] (·.mkdir node.home (pathText path)) t =
      (.ok (), t') := by
  apply ssh_of_ok
  · rw [List.forall_mem_cons, List.forall_mem_cons, List.forall_mem_singleton]
    exact ⟨by decide, by decide, clean_pathText hnames⟩
  · rw [FileTree.mkdir_pathText hne hnames, hmake]

theorem scpPut_pathText {path : List String} {data : List UInt8} (hne : path ≠ [])
    (hnames : ∀ name ∈ path, IsName name) (hfree : t.isDir path = false)
    (hwrite : (Op.write path data).run t = (none, t')) (tmp : String) :
    node.scpPut tmp data (pathText path) t = (.ok (), t') := by
  rw [RemoteNodeSink.scpPut, spawn_of_clean (List.forall_mem_singleton.2 (clean_pathText hnames))]
  dsimp only
  rw [FileTree.copyTo_pathText hne hnames hfree, hwrite]

/-- The directory of a bundle, as the text before the last slash. -/
theorem ServesDir.parent (h : ServesDir node root) (hnames : ∀ name ∈ root ++ place, IsName name)
    (hne : place ≠ []) : joinPath (splitPath (pathText (root ++ place))).dropLast =
      pathText (root ++ place.dropLast) := by
  rw [splitPath_pathText (h.append_ne_nil place) hnames, ← List.singleton_append,
    List.dropLast_append_of_ne_nil (h.append_ne_nil place), List.dropLast_append_of_ne_nil hne]
  exact joinPath_cons_empty (h.append_ne_nil _)

theorem Mirrors.node_put (h : Mirrors (diskLayout libs) root m t) (hnode : ServesDir node root)
    (hw : Worded blob) (hname : fileNameOf blob = .ok rel) (tmp : String) :
    ∃ t', node.put libs tmp blob t = (.ok ⟨rel, "remote_node", blob.size, blob.created_at⟩, t') ∧
      Mirrors (diskLayout libs) root
        (Function.update m ((diskLayout libs).place blob) (some blob)) t' := by
  have hne := Layout.place_ne_nil (diskLayout libs) blob
  have hplace := Layout.isName_place (diskLayout libs) hw
  have hkey := Layout.isKey (diskLayout libs) hw
  have hkeySide := Layout.isKey_sibling (diskLayout libs) hw ".meta.json"
  have hdrop : ((diskLayout libs).place blob).dropLast = (diskLayout libs).dirs blob :=
    List.dropLast_concat
  have hremote : node.remotePath rel = pathText (root ++ (diskLayout libs).place blob) := by
    rw [defaultFilename_of_ok hname, ← joinPath_disk libs, hnode.remotePath hne]
  have hall := h.files.names_append hplace
  obtain ⟨t₁, hmake, hfiles₁, hdir₁⟩ := h.run_makeDirs hw
  have hparent : t₁.find (root ++ ((diskLayout libs).place blob).dropLast) = some .dir := by
    rwa [hdrop]
  obtain ⟨hwrite₁, hfiles₂⟩ := hfiles₁.run_write hkey hplace hparent blob.data
  have hdir₂ : (t₁.set (root ++ (diskLayout libs).place blob) (some (.file blob.data))).find
      (root ++ (diskLayout libs).dirs blob) = some .dir := FileTree.find_set_of_dir hdir₁ _
  obtain ⟨t₃, hwrite₂, hm₃⟩ := h.run_write_sidecar hw hfiles₂ hdir₂
  have hsidecar : (diskLayout libs).sidecar blob = sidecarBytes libs blob := rfl
  rw [hsidecar] at hwrite₂
  have hallSide := FileTree.names_of_find (hm₃.find_sidecar (Function.update_self _ _ _))
  rw [sibling_append root hne] at hallSide
  have hssh := node.ssh_mkdir (hnode.append_ne_nil _) (FileTree.names_of_find hdir₁) hmake
  refine ⟨t₃, ?_, hm₃⟩
  rw [RemoteNodeSink.put, hname]
  dsimp only
  rw [hremote, hnode.parent hall hne, hdrop, ← hnode.pathText_sidecar hne, hssh]
  dsimp only
  rw [scpPut_pathText (hnode.append_ne_nil _) hall (hfiles₁.isDir_of_key hkey) hwrite₁]
  dsimp only
  rw [scpPut_pathText (hnode.append_ne_nil _) hallSide (hfiles₂.isDir_of_key hkeySide) hwrite₂]

/-- `test -f` finds the blobs. -/
theorem Mirrors.node_exists (h : Mirrors (diskLayout libs) root m t) (hnode : ServesDir node root)
    (hne : place ≠ []) (hnames : ∀ name ∈ place, IsName name) (hplace : bundleOf place = none) :
    node.exists_ (joinPath place) t =
      if (m place).isSome then .ok () else .error (noSnapshot (joinPath place)) := by
  have hall := h.files.names_append hnames
  have hclean : ∀ arg ∈ ["test", "-f", pathText (root ++ place)], '\x00' ∉ arg.toList := by
    rw [List.forall_mem_cons, List.forall_mem_cons, List.forall_mem_singleton]
    exact ⟨by decide, by decide, clean_pathText hall⟩
  rw [RemoteNodeSink.exists_, hnode.remotePath hne]
  refine (congrArg (· >>= _) (spawn_of_clean hclean)).trans ?_
  rw [FileTree.testFile_pathText (hnode.append_ne_nil _) hall, h.isFile_eq hplace]
  rfl

theorem Mirrors.node_get (h : Mirrors (diskLayout libs) root m t) (hnode : ServesDir node root)
    (hne : place ≠ []) (hnames : ∀ name ∈ place, IsName name) (hplace : bundleOf place = none) :
    node.get (joinPath place) t =
      (m place).elim (.error (noSnapshot (joinPath place))) fun blob => .ok blob.data := by
  rw [RemoteNodeSink.get, h.node_exists hnode hne hnames hplace, hnode.remotePath hne,
    FileTree.lookup_pathText (hnode.append_ne_nil _) (h.files.names_append hnames)]
  cases hm : m place with
  | none => rfl
  | some blob =>
    rw [h.find_of_some hm]
    rfl

theorem Mirrors.node_delete_of_none (h : Mirrors (diskLayout libs) root m t)
    (hnode : ServesDir node root) (hne : place ≠ []) (hnames : ∀ name ∈ place, IsName name)
    (hplace : bundleOf place = none) (hm : m place = none) :
    node.delete (joinPath place) t = (.error (noSnapshot (joinPath place)), t) := by
  rw [RemoteNodeSink.delete, h.node_exists hnode hne hnames hplace, hm]
  rfl

theorem Mirrors.node_delete_of_some (h : Mirrors (diskLayout libs) root m t)
    (hnode : ServesDir node root) (hm : m place = some blob) :
    ∃ t', node.delete (joinPath place) t = (.ok (), t') ∧
      Mirrors (diskLayout libs) root (Function.update m place none) t' := by
  obtain ⟨hw, rfl⟩ := h.placed hm
  have hne := Layout.place_ne_nil (diskLayout libs) blob
  have hplace := Layout.isName_place (diskLayout libs) hw
  obtain ⟨hfiles, hside⟩ := h.removed hm
  have hfind := h.find_of_some hm
  have hfindSide := hfiles.files.2 hside
  have hclean : ∀ arg ∈ ["rm", "-f", pathText (root ++ (diskLayout libs).place blob),
      pathText (root ++ sibling ((diskLayout libs).place blob) ".meta.json")],
        '\x00' ∉ arg.toList := by
    rw [List.forall_mem_cons, List.forall_mem_cons, List.forall_mem_cons,
      List.forall_mem_singleton]
    exact ⟨by decide, by decide, clean_pathText (FileTree.names_of_find hfind),
      clean_pathText (FileTree.names_of_find hfindSide)⟩
  refine ⟨_, ?_, (h.delete hm).1⟩
  rw [RemoteNodeSink.delete, h.node_exists hnode hne hplace (bundleOf_place _ blob), hm,
    hnode.remotePath hne]
  dsimp only [Option.isSome_some, if_true]
  rw [← hnode.pathText_sidecar hne]
  apply ssh_of_ok hclean
  rw [FileTree.removeBoth, FileTree.remove_pathText (hnode.append_ne_nil _) hfind]
  dsimp only
  rw [FileTree.remove_pathText (hnode.append_ne_nil _) hfindSide]
  rfl

theorem take_length_append (s ending : String) :
    (s ++ ending).toList.take ((s ++ ending).length - ending.length) = s.toList := by
  rw [String.length_append, Nat.add_sub_cancel, String.toList_append, ← String.length_toList,
    List.take_left]

/-- The path of a sidecar, as `find` prints it. -/
def sidecarText (x : List String × String) : String := pathText (x.1 ++ [x.2 ++ ".meta.json"])

theorem suffix_iff_bundleName (s : String) :
    ".meta.json".toList <:+ s.toList ↔ (bundleName s).isSome = true := by
  rw [Option.isSome_iff_exists]
  constructor
  · rintro ⟨stem, hstem⟩
    refine ⟨String.ofList stem, bundleName_eq_some_iff.2 (String.toList_injective ?_)⟩
    rw [String.toList_append, String.toList_ofList, hstem]
  · rintro ⟨bundle, hbundle⟩
    rw [bundleName_eq_some_iff.1 hbundle, String.toList_append]
    exact List.suffix_append _ _

/-- `find` prints the sidecars of a store. -/
theorem Mirrors.findFiles (h : Mirrors L root m t) (hne : root ≠ []) :
    t.findFiles home (pathText root) ".meta.json" = some ((sidecars root t).map sidecarText) := by
  rw [FileTree.findFiles_pathText hne h.files.top, sidecars, List.map_filterMap]
  apply congrArg some
  apply List.filterMap_congr
  rintro ⟨path, n⟩ he
  have hpath := (t.named _ he).1
  have hfind := (FileTree.find_eq_some_iff hpath).2 he
  obtain ⟨dirs, last, rfl⟩ := List.eq_nil_or_concat path |>.resolve_left hpath
  rw [List.concat_eq_append] at hfind ⊢
  have hcond : (root <+: (dirs ++ [last]).dropLast ∧
      ∃ name ∈ (dirs ++ [last]).getLast?, ".meta.json".toList <:+ name.toList) ↔
        root <+: dirs ∧ (bundleName last).isSome = true := by
    rw [List.dropLast_concat, List.getLast?_concat, ← suffix_iff_bundleName]
    simp only [Option.mem_some_iff, exists_eq_left']
  cases n with
  | dir =>
    have hnone : root <+: dirs → bundleName last = none := by
      rintro ⟨below, rfl⟩
      rw [Option.eq_none_iff_forall_ne_some]
      intro bundle hbundle
      rw [List.append_assoc] at hfind
      have hword := h.files.dirs hfind _ (List.mem_append_right _ List.mem_cons_self)
      apply hword.undotted
      rw [bundleName_eq_some_iff.1 hbundle, String.toList_append]
      exact List.mem_append_right _ (by decide)
    dsimp only
    rw [List.dropLast_concat, List.getLast?_concat, Option.bind_some]
    split
    · rename_i hbelow
      rw [hnone hbelow]
      rfl
    · rfl
  | file data =>
    dsimp only
    rw [if_congr hcond rfl rfl, List.dropLast_concat, List.getLast?_concat, Option.bind_some]
    by_cases hbelow : root <+: dirs
    · rw [if_pos hbelow]
      cases hbundle : bundleName last with
      | none =>
        rw [if_neg fun hboth => Bool.false_ne_true hboth.2]
        rfl
      | some bundle =>
        rw [if_pos ⟨hbelow, rfl⟩, bundleName_eq_some_iff.1 hbundle]
        rfl
    · rw [if_neg hbelow, if_neg fun hboth => hbelow hboth.1]
      rfl

/-- The turn of the loop of a listing for the line of a sidecar. -/
theorem Mirrors.entryOfLine (h : Mirrors (diskLayout libs) root m t) (hnode : ServesDir node root)
    (hint : ∀ i, libs.int (.int i) = .ok i) (app_slug tenant_slug : Option String)
    {x : List String × String} (hplace : x.1 ++ [x.2] = root ++ (diskLayout libs).place blob)
    (hm : m ((diskLayout libs).place blob) = some blob) (hread : ReadableBlob libs blob) :
    node.entryOfLine libs app_slug tenant_slug t (sidecarText x) =
      .ok (if PassesFilters app_slug tenant_slug blob then
        some (shownAs (joinPath ((diskLayout libs).place blob)) blob) else none) := by
  have hne := Layout.place_ne_nil (diskLayout libs) blob
  have hsidecar := h.find_sidecar hm
  rw [sibling_append root hne] at hsidecar
  have htext : sidecarText x =
      pathText (root ++ (diskLayout libs).place blob) ++ ".meta.json" := by
    rw [sidecarText, ← sibling_concat, hplace, pathText_sibling (hnode.append_ne_nil _)]
  have hlookup : t.lookup node.home (sidecarText x) = some (.file (sidecarBytes libs blob)) := by
    rw [htext, ← hnode.pathText_sidecar hne, FileTree.lookup_pathText (hnode.append_ne_nil _)
      (FileTree.names_of_find hsidecar), hsidecar]
    rfl
  have hrel : String.ofList (((sidecarText x).toList.take ((sidecarText x).length -
      ".meta.json".length)).drop (node.remote_dir.length + 1)) =
        joinPath ((diskLayout libs).place blob) := by
    have hslash : node.remote_dir.length + 1 = (pathText root ++ "/").toList.length := by
      rw [hnode.dir, String.length_toList, String.length_append]
      rfl
    rw [htext, take_length_append, ← pathText_append hnode.ne_nil hne, hslash,
      String.toList_append (s := pathText root ++ "/"), List.drop_left, String.ofList_toList]
  obtain ⟨members, hmembers⟩ := hread.reads
  rw [RemoteNodeSink.entryOfLine, hlookup]
  dsimp only
  rw [sidecarBytes, decodeReplace_encodeUtf8, hmembers.1]
  refine (hmembers.passes app_slug tenant_slug _).trans ?_
  rw [hrel, hmembers.snapshotEntry hint]
  split
  · rfl
  · rfl

theorem Mirrors.node_listSnapshots (h : Mirrors (diskLayout libs) root m t)
    (hnode : ServesDir node root)
    (hread : ∀ names blob, m names = some blob → ReadableBlob libs blob)
    (hint : ∀ i, libs.int (.int i) = .ok i) (app_slug tenant_slug : Option String) :
    node.listSnapshots libs app_slug tenant_slug t =
      .ok (shownEntries libs root m app_slug tenant_slug t) := by
  have hclean : ∀ arg ∈ ["find", pathText root, "-name", "*.meta.json", "-type", "f"],
      '\x00' ∉ arg.toList := by
    rw [List.forall_mem_cons, List.forall_mem_cons]
    exact ⟨by decide, clean_pathText (FileTree.names_of_find h.files.top), by decide⟩
  have hlines : RemoteNodeSink.linesOf ((sidecars root t).map sidecarText) =
      (sidecars root t).map sidecarText := by
    apply linesOf_paths
    intro path hpath
    obtain ⟨x, hx, rfl⟩ := List.mem_map.1 hpath
    obtain ⟨blob, -, he, hm⟩ := h.blob_of_sidecar hx
    refine ⟨?_, strip_pathText _⟩
    have hw := (h.placed hm).1
    rw [sidecarText, ← sibling_concat, he, pathText_sibling (hnode.append_ne_nil _)]
    apply unbroken_append _ (unbroken_of_all (by decide))
    apply unbroken_pathText (hnode.append_ne_nil _)
    rw [List.forall_mem_append, Layout.place, List.forall_mem_append, List.forall_mem_singleton]
    exact ⟨hnode.unbroken, fun dir hdir => (hw.dirs dir hdir).1.unbroken, unbroken_bundleFile hw⟩
  have hentries : ((sidecars root t).map sidecarText).mapM
      (node.entryOfLine libs app_slug tenant_slug t) =
        .ok ((sidecars root t).map fun x => (m ((x.1 ++ [x.2]).drop root.length)).bind
          fun blob => if PassesFilters app_slug tenant_slug blob then
            some (shownAs (joinPath ((diskLayout libs).place blob)) blob) else none) := by
    rw [List.mapM_map]
    apply mapM_ok_of_forall
    intro x hx
    obtain ⟨blob, hblob, he, hm⟩ := h.blob_of_sidecar hx
    rw [hblob]
    exact h.entryOfLine hnode hint app_slug tenant_slug he hm (hread _ _ hm)
  rw [RemoteNodeSink.listSnapshots, hnode.dir]
  refine (congrArg (· >>= _) (spawn_of_clean hclean)).trans ?_
  rw [h.findFiles hnode.ne_nil]
  change (RemoteNodeSink.linesOf ((sidecars root t).map sidecarText)).mapM
    (node.entryOfLine libs app_slug tenant_slug t) >>= _ = _
  rw [hlines]
  refine bind_eq_ok.2 ⟨_, hentries, ?_⟩
  rw [filterMap_sidecars]
  rfl

end

end ScottyCore
