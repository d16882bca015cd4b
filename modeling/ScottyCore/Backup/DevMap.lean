import ScottyCore.Backup.BlobListing

namespace ScottyCore
open Python FileSystem LocalDiskSink TransitionSystem
set_option autoImplicit true

/-! ## Requests to a store that mirrors a map -/

/-- The locators of `ScottyDevSink` begin with the slug of the app twice. -/
def devLayout (libs : SinkLibraries) : Layout where
  dirs blob := blob.app_slug :: bundleDirs blob
  sidecar := devSidecar libs
  words h := List.forall_mem_cons.2 ⟨h.app_slug, h.dirs⟩

theorem joinPath_dev (libs : SinkLibraries) (blob : BackupBlob (List UInt8)) :
    joinPath ((devLayout libs).place blob) = blob.app_slug ++ "/" ++ defaultFilename blob := by
  rw [← joinPath_bundle]
  apply String.toList_injective
  simp only [Layout.place, devLayout, toList_joinPath, String.toList_append, bundleDirs,
    List.cons_append, List.map_cons]
  rw [List.intercalate_cons_cons]
  rfl

theorem Storable.worded {blob : BackupBlob Data} (h : Storable libs blob) : Worded blob :=
  ⟨h.app_slug, h.scope, h.kind, h.tenant_slug⟩

section
variable {libs : SinkLibraries} {sink : ScottyDevSink} {root : List String} {m : BlobMap}
variable {t t' : Disk} {blob : BackupBlob (List UInt8)} {place : List String}

theorem sinkStoreRoot_of_dir (h : t.find root = some .dir) :
    (Op.makeDirs root).run t = (none, t) := by
  have hnames := FileTree.names_of_find h
  apply sinkStoreRoot_of_dirs
  exact ⟨fun p hp => ⟨(hnames p hp).1, (hnames p hp).2.1⟩, way_of_dir hnames h⟩

/-- A path of names leads to its place below the root. -/
theorem handle_joinPath (hroot : t.find root = some .dir) (hne : place ≠ [])
    (hnames : ∀ name ∈ place, IsName name) (r : StoreRequest) (hrest : r.rest = joinPath place) :
    r.handle root t = r.run (root ++ place) t := by
  have hall : ∀ name ∈ root ++ place, IsName name := by
    intro name hname
    rcases List.mem_append.1 hname with hname | hname
    · exact FileTree.names_of_find hroot name hname
    · exact hnames name hname
  have htarget : storeTarget root r.rest = .ok (root ++ place) := by
    rw [hrest, storeTarget_eq_ok, targetParts_joinPath root hne hnames, resolveParts_of_names hall]
    exact ⟨fun p hp => (hall p hp).1, rfl, pathText_prefix_append root hne⟩
  rw [StoreRequest.handle, sinkStoreRoot_of_dir hroot]
  dsimp only
  rw [htarget]

theorem put_joinPath {F : List String → Option (List UInt8)} (h : FileMap IsWord root F t)
    (hkey : IsKey IsWord place) (hnames : ∀ name ∈ place, IsName name) (body : List UInt8) :
    ∃ t', (StoreRequest.put (joinPath place) body).handle root t =
        ⟨.ok (.stored (joinPath place) body.length), t', [root ++ place]⟩ ∧
      FileMap IsWord root (Function.update F place (some body)) t' := by
  obtain ⟨t', hput, hfiles⟩ := h.run_make_write hkey hnames body
  refine ⟨t', ?_, hfiles⟩
  rw [handle_joinPath h.top hkey.ne_nil hnames _ rfl]
  change sinkStorePut _ _ _ _ = _
  rw [sinkStorePut, hput]

/-- A put of a blob whose time has a file name returns, and stores the blob. -/
theorem Mirrors.dev_put (h : Mirrors (devLayout libs) sink.root m t) (hw : Worded blob)
    (hname : fileNameOf blob = .ok rel) :
    ∃ t', sink.put libs blob t = (.ok ⟨joinPath ((devLayout libs).place blob), "scottydev",
        blob.size, blob.created_at⟩, t') ∧
      Mirrors (devLayout libs) sink.root
        (Function.update m ((devLayout libs).place blob) (some blob)) t' := by
  have hlocator : blob.app_slug ++ "/" ++ rel = joinPath ((devLayout libs).place blob) := by
    rw [joinPath_dev, defaultFilename_of_ok hname]
  obtain ⟨t₁, hbundle, hfiles⟩ :=
    put_joinPath h.files (Layout.isKey _ hw) (Layout.isName_place _ hw) blob.data
  obtain ⟨t₂, hsidecar, hfiles⟩ := put_joinPath hfiles (Layout.isKey_sibling _ hw ".meta.json")
    (Layout.isName_sibling _ hw (by decide) (by decide)) (devSidecar libs blob)
  rw [sidecar_joinPath (Layout.place_ne_nil _ blob)] at hsidecar
  refine ⟨t₂, ?_, h.put hw hfiles⟩
  rw [ScottyDevSink.put, hname]
  dsimp only
  rw [hlocator, hbundle]
  dsimp only
  rw [hsidecar]

theorem Mirrors.dev_get (h : Mirrors (devLayout libs) sink.root m t) (hne : place ≠ [])
    (hnames : ∀ name ∈ place, IsName name) (hplace : bundleOf place = none) :
    sink.get (joinPath place) t = (match m place with
      | some blob => .ok blob.data
      | none => .error (noSnapshot (joinPath place)), t) := by
  have hfile := h.isFile_eq hplace
  rw [ScottyDevSink.get, handle_joinPath h.files.top hne hnames _ rfl, StoreRequest.run]
  cases hm : m place with
  | some blob => rw [sinkStoreGet, h.find_of_some hm]
  | none =>
    have hmissing : sinkStoreGet (sink.root ++ place) t =
        .refused (.http ⟨404, "not found"⟩) t := by
      rw [sinkStoreGet]
      split
      · rename_i data hfind
        rw [FileTree.isFile, hfind, hm] at hfile
        cases hfile
      · rfl
    rw [hmissing]
    rfl

theorem Mirrors.dev_delete_of_none (h : Mirrors (devLayout libs) sink.root m t) (hne : place ≠ [])
    (hnames : ∀ name ∈ place, IsName name) (hplace : bundleOf place = none)
    (hm : m place = none) :
    sink.delete (joinPath place) t = (.error (noSnapshot (joinPath place)), t) := by
  have hfile := h.isFile_eq hplace
  rw [hm] at hfile
  rw [ScottyDevSink.delete, handle_joinPath h.files.top hne hnames _ rfl, StoreRequest.run,
    sinkStoreDelete, hfile]
  rfl

/-- A delete takes a blob away, with its sidecar, and nothing else. -/
theorem Mirrors.dev_delete_of_some (h : Mirrors (devLayout libs) sink.root m t)
    (hm : m place = some blob) :
    ∃ t', sink.delete (joinPath place) t = (.ok (), t') ∧
      Mirrors (devLayout libs) sink.root (Function.update m place none) t' ∧
      ∀ path, t'.find path = if path = sink.root ++ place ∨
        path = sibling (sink.root ++ place) ".meta.json" then none else t.find path := by
  obtain ⟨hw, rfl⟩ := h.placed hm
  have hne := Layout.place_ne_nil (devLayout libs) blob
  obtain ⟨hfiles, hside⟩ := h.removed hm
  refine ⟨_, ?_, h.delete hm⟩
  rw [ScottyDevSink.delete, handle_joinPath h.files.top hne (Layout.isName_place _ hw) _ rfl,
    StoreRequest.run, sinkStoreDelete, if_pos (FileTree.isFile_iff.2 ⟨_, h.find_of_some hm⟩)]
  dsimp only
  rw [sibling_append sink.root hne, if_pos (FileTree.isFile_iff.2 ⟨_, hfiles.files.2 hside⟩)]

end

/-! ## The index -/

/-- The row of the index for a blob. -/
def devRow (libs : SinkLibraries) (blob : BackupBlob (List UInt8)) (members : JsonDict) :
    JsonDict :=
  JsonDict.merge [("locator", .str (joinPath ((devLayout libs).place blob)))] members

/-- The latest text of a time first. -/
def latestText (blobs : List (BackupBlob Data)) : List (BackupBlob Data) :=
  blobs.mergeSort fun a b => decide (b.created_at.isoformat ≤ a.created_at.isoformat)

section
variable {libs : SinkLibraries} {sink : ScottyDevSink} {root : List String} {m : BlobMap}
variable {t t' : Disk} {blob : BackupBlob (List UInt8)} {members : JsonDict} {text : String}
variable {app_slug tenant_slug : Option String}

theorem lookup_devRow (hn : (members.map Prod.fst).Nodup) (key : String) :
    (devRow libs blob members).lookup key = (members.lookup key).or
      (if key = "locator" then some (.str (joinPath ((devLayout libs).place blob)))
        else none) := by
  rw [devRow, JsonDict.lookup_merge hn, JsonDict.lookup_cons]
  rfl

theorem lookup_devRow_of_ne (hn : (members.map Prod.fst).Nodup) {key : String}
    (hkey : key ≠ "locator") : (devRow libs blob members).lookup key = members.lookup key := by
  rw [lookup_devRow hn, if_neg hkey, Option.or_none]

theorem ReadsAs.lookup_locator (h : ReadsAs libs text blob members)
    (hn : (members.map Prod.fst).Nodup) :
    (devRow libs blob members).lookup "locator" =
      some (.str (joinPath ((devLayout libs).place blob))) := by
  have hnone : members.lookup "locator" = none := h.2 "locator" (by decide)
  rw [lookup_devRow hn, hnone, if_pos rfl, Option.none_or]

theorem ReadsAs.createdAtKey (h : ReadsAs libs text blob members)
    (hn : (members.map Prod.fst).Nodup) :
    createdAtKey (devRow libs blob members) =
      .ok (blob.created_at.isoformat, devRow libs blob members) := by
  have hlookup : (devRow libs blob members).lookup "created_at" =
      some (.str blob.created_at.isoformat) := by
    rw [lookup_devRow_of_ne hn (by decide), h.2 _ (by decide)]
    rfl
  rw [ScottyCore.createdAtKey, hlookup]
  rfl

/-- A client reads its blob from the row. -/
theorem ReadsAs.entryOfRow (h : ReadsAs libs text blob members)
    (hn : (members.map Prod.fst).Nodup) (hint : ∀ i, libs.int (.int i) = .ok i) :
    ScottyDevSink.entryOfRow libs (devRow libs blob members) =
      .ok (shownAs (joinPath ((devLayout libs).place blob)) blob) := by
  have hget : ∀ key default, key ≠ "locator" →
      metaGet key default (.obj (devRow libs blob members)) =
        metaGet key default (.obj members) := by
    intro key default hkey
    rw [metaGet, metaGet, lookup_devRow_of_ne hn hkey]
  have hentry : ∀ locator,
      ScottyCore.snapshotEntry libs locator 0 (.obj (devRow libs blob members)) =
        ScottyCore.snapshotEntry libs locator 0 (.obj members) := by
    intro locator
    rw [ScottyCore.snapshotEntry, ScottyCore.snapshotEntry, hget "app_slug" _ (by decide),
      hget "scope" _ (by decide), hget "kind" _ (by decide), hget "size" _ (by decide),
      hget "created_at" _ (by decide), hget "encrypted" _ (by decide),
      hget "sha256" _ (by decide), hget "key_fingerprint" _ (by decide),
      hget "tenant_slug" _ (by decide)]
  rw [ScottyDevSink.entryOfRow, h.lookup_locator hn]
  dsimp only
  rw [hentry, h.snapshotEntry hint]

theorem sortRows_devRow {f : BackupBlob (List UInt8) → JsonDict}
    {blobs : List (BackupBlob (List UInt8))}
    (h : ∀ blob ∈ blobs, (∃ text, ReadsAs libs text blob (f blob)) ∧
      ((f blob).map Prod.fst).Nodup) :
    sortRows (blobs.map fun blob => devRow libs blob (f blob)) =
      .ok ((latestText blobs).map fun blob => devRow libs blob (f blob)) := by
  rw [sortRows]
  split
  · rename_i hshort
    rw [List.length_map] at hshort
    rcases blobs with _ | ⟨blob, _ | ⟨_, _⟩⟩
    · rw [latestText, List.mergeSort_nil]
    · rw [latestText, List.mergeSort_singleton]
    · simp at hshort
  · have hkeys : (blobs.map fun blob => devRow libs blob (f blob)).mapM createdAtKey =
        .ok (blobs.map fun blob => (blob.created_at.isoformat, devRow libs blob (f blob))) := by
      rw [List.mapM_map]
      apply mapM_ok_of_forall
      intro blob hblob
      obtain ⟨⟨text, hreads⟩, hn⟩ := h blob hblob
      exact hreads.createdAtKey hn
    refine bind_eq_ok.2 ⟨_, hkeys, ?_⟩
    have hsort : (latestText blobs).map (fun blob =>
          (blob.created_at.isoformat, devRow libs blob (f blob))) =
        (blobs.map fun blob => (blob.created_at.isoformat, devRow libs blob (f blob))).mergeSort
          fun a b => decide (b.1 ≤ a.1) := List.map_mergeSort fun _ _ _ _ => rfl
    rw [← hsort, List.map_map]
    rfl

theorem readText_devSidecar (libs : SinkLibraries) (blob : BackupBlob Data) :
    readText (devSidecar libs blob) =
      .ok (String.ofList (universalNewlines (libs.dumps none (sidecarMeta blob)).toList)) := by
  rw [readText, devSidecar, decodeUtf8_encodeUtf8]

/-- The turn of the loop of the index for the sidecar of a blob. -/
theorem Mirrors.indexRow (h : Mirrors (devLayout libs) root m t) {dirs : List String}
    {name : String} (hplace : dirs ++ [name] = root ++ (devLayout libs).place blob)
    (hm : m ((devLayout libs).place blob) = some blob)
    (hread : ReadsAs libs (String.ofList (universalNewlines
      (libs.dumps none (sidecarMeta blob)).toList)) blob members) :
    indexRow libs root app_slug tenant_slug t (dirs, name) =
      .ok (if PassesFilters app_slug tenant_slug blob then some (devRow libs blob members)
        else none) := by
  have hbundle := h.find_of_some hm
  have hsidecar := h.find_sidecar hm
  rw [← hplace] at hbundle hsidecar
  rw [sibling_concat] at hsidecar
  have hnames := FileTree.names_of_find hbundle
  have hname := hnames name (List.mem_append_right _ List.mem_cons_self)
  rw [ScottyCore.indexRow, hsidecar]
  refine bind_eq_ok.2 ⟨_, readText_devSidecar libs blob, ?_⟩
  rw [hread.1]
  refine (hread.passes app_slug tenant_slug _).trans ?_
  split
  · rw [if_neg (not_or.2 ⟨hname.2.1, hname.2.2.1⟩)]
    dsimp only
    rw [t.stat_of_names hnames, hbundle, hplace, List.drop_left]
    rfl
  · rfl

/-- The index has a row for each stored blob that passes the filters, the latest first. -/
theorem Mirrors.sinkStoreIndex (h : Mirrors (devLayout libs) root m t)
    {members : BackupBlob (List UInt8) → JsonDict}
    (hread : ∀ names blob, m names = some blob → ReadsAs libs (String.ofList (universalNewlines
      (libs.dumps none (sidecarMeta blob)).toList)) blob (members blob) ∧
        ((members blob).map Prod.fst).Nodup) :
    sinkStoreIndex libs root app_slug tenant_slug t =
      (.ok ((latestText (selectedBlobs root m app_slug tenant_slug t)).map fun blob =>
        devRow libs blob (members blob)), t) := by
  have hindex : (sidecars root t).mapM (ScottyCore.indexRow libs root app_slug tenant_slug t) =
      .ok ((sidecars root t).map fun x => (m ((x.1 ++ [x.2]).drop root.length)).bind fun blob =>
        if PassesFilters app_slug tenant_slug blob then some (devRow libs blob (members blob))
        else none) := by
    apply mapM_ok_of_forall
    intro x hx
    obtain ⟨blob, hblob, he, hm⟩ := h.blob_of_sidecar hx
    rw [hblob]
    exact h.indexRow he hm (hread _ _ hm).1
  have hsort : sortRows ((selectedBlobs root m app_slug tenant_slug t).map fun blob =>
        devRow libs blob (members blob)) =
      .ok ((latestText (selectedBlobs root m app_slug tenant_slug t)).map fun blob =>
        devRow libs blob (members blob)) := by
    apply sortRows_devRow
    intro blob hblob
    obtain ⟨hreads, hn⟩ := hread _ _ (h.mem_selectedBlobs.1 hblob).1
    exact ⟨⟨_, hreads⟩, hn⟩
  rw [ScottyCore.sinkStoreIndex, sinkStoreRoot_of_dir h.files.top]
  dsimp only
  rw [bind_eq_ok.2 ⟨_, hindex, filterMap_sidecars (fun blob => devRow libs blob (members blob)) ▸
    hsort⟩]

/-- A listing shows them. -/
theorem Mirrors.dev_listSnapshots (h : Mirrors (devLayout libs) sink.root m t)
    (hstorable : ∀ names blob, m names = some blob → Storable libs blob)
    (hint : ∀ i, libs.int (.int i) = .ok i) (app_slug tenant_slug : Option String) :
    sink.listSnapshots libs app_slug tenant_slug t =
      (.ok ((latestText (selectedBlobs sink.root m app_slug tenant_slug t)).map fun blob =>
        shownAs (joinPath ((devLayout libs).place blob)) blob), t) := by
  choose! members hmembers using fun blob (hs : Storable libs blob) => hs.reads
  have hread : ∀ names blob, m names = some blob → ReadsAs libs (String.ofList (universalNewlines
      (libs.dumps none (sidecarMeta blob)).toList)) blob (members blob) ∧
        ((members blob).map Prod.fst).Nodup := by
    intro names blob hblob
    obtain ⟨hloads, hn, hlookup⟩ := hmembers blob (hstorable names blob hblob)
    exact ⟨⟨hloads, hlookup⟩, hn⟩
  rw [ScottyDevSink.listSnapshots, h.sinkStoreIndex hread]
  dsimp only
  rw [List.mapM_map]
  apply congrArg fun entries => (entries, t)
  apply mapM_ok_of_forall
  intro blob hblob
  have hselected := (List.mergeSort_perm _ _).mem_iff.1 hblob
  obtain ⟨hreads, hn⟩ := hread _ _ (h.mem_selectedBlobs.1 hselected).1
  exact hreads.entryOfRow hn hint

/-! ## Runs -/

/-- The store mirrors what its clients have put and not deleted. -/
def StoreTracks (libs : SinkLibraries) (root : List String) (es : List DevEvent) (t : Disk) :
    Prop :=
  ∃ m, Mirrors (devLayout libs) root m t ∧
    (∀ names blob, m names = some blob → Storable libs blob) ∧
    ∀ locator, storedUnder es locator = m (splitPath locator)

theorem storedUnder_of_none {es : List DevEvent} {e : DevEvent} (h : e.recorded = none)
    (locator : String) : storedUnder (es ++ [e]) locator = storedUnder es locator := by
  rw [storedUnder, lastFor_concat_of_none h, ← storedUnder]

theorem storedUnder_of_some {es : List DevEvent} {e : DevEvent} (h : e.recorded = some (key, new))
    (locator : String) :
    storedUnder (es ++ [e]) locator = if locator = key then new else storedUnder es locator := by
  rw [storedUnder, lastFor_concat_of_some h]
  split
  · rfl
  · rfl

theorem storeTracks_step {es : List DevEvent} {e : DevEvent} (hint : ∀ i, libs.int (.int i) = .ok i)
    (hstep : DevStep libs sink t e t') (hproper : Proper libs e)
    (h : StoreTracks libs sink.root es t) : StoreTracks libs sink.root (es ++ [e]) t' := by
  obtain ⟨m, hm, hstorable, hagree⟩ := h
  cases hstep with
  | @put blob _ result _ hput =>
    cases hname : fileNameOf blob with
    | error e =>
      rw [ScottyDevSink.put, hname] at hput
      cases hput
      exact ⟨m, hm, hstorable,
        fun locator => (storedUnder_of_none rfl locator).trans (hagree locator)⟩
    | ok rel =>
      have hs : Storable libs blob := hproper
      obtain ⟨t₁, hput₁, hm₁⟩ := hm.dev_put hs.worded hname
      cases hput₁.symm.trans hput
      refine ⟨_, hm₁, forall_blobs_put hstorable hs _, fun locator => ?_⟩
      rw [storedUnder_of_some rfl, Layout.update_splitPath _ hs.worded, hagree]
  | get hget =>
    obtain ⟨place, hne, hnames, hplace, rfl, -⟩ := hproper.place
    cases (hm.dev_get hne hnames hplace).symm.trans hget
    exact ⟨m, hm, hstorable,
      fun locator => (storedUnder_of_none rfl locator).trans (hagree locator)⟩
  | list hlist =>
    cases (hm.dev_listSnapshots hstorable hint _ _).symm.trans hlist
    exact ⟨m, hm, hstorable,
      fun locator => (storedUnder_of_none rfl locator).trans (hagree locator)⟩
  | delete hdelete =>
    obtain ⟨place, hne, hnames, hplace, rfl, -⟩ := hproper.place
    cases hblob : m place with
    | none =>
      cases (hm.dev_delete_of_none hne hnames hplace hblob).symm.trans hdelete
      exact ⟨m, hm, hstorable,
        fun locator => (storedUnder_of_none rfl locator).trans (hagree locator)⟩
    | some blob =>
      obtain ⟨t₁, hdelete₁, hm₁, -⟩ := hm.dev_delete_of_some hblob
      cases hdelete₁.symm.trans hdelete
      obtain ⟨hw, rfl⟩ := hm.placed hblob
      refine ⟨_, hm₁, forall_blobs_delete hstorable _, fun locator => ?_⟩
      rw [storedUnder_of_some rfl, Layout.update_splitPath _ hw, hagree]

theorem storeTracks_run (hint : ∀ i, libs.int (.int i) = .ok i) {es : List DevEvent}
    (hrun : Run (DevStep libs sink) t es t') (hproper : ∀ e ∈ es, Proper libs e)
    (hroot : t.find sink.root = some .dir)
    (hbare : ∀ path n, t.find path = some n → sink.root <+: path → path = sink.root) :
    StoreTracks libs sink.root es t' := by
  induction hrun with
  | nil => exact ⟨fun _ => none, .of_bare hroot hbare, nofun, fun _ => rfl⟩
  | snoc _ hstep ih =>
    have hlast := hproper _ (List.mem_append_right _ List.mem_cons_self)
    exact storeTracks_step hint hstep hlast (ih fun e he => hproper e (List.mem_append_left _ he))

theorem StoreTracks.behavesAsMap {es : List DevEvent} (hint : ∀ i, libs.int (.int i) = .ok i)
    (h : StoreTracks libs sink.root es t) : BehavesAsMap libs sink IsLocator es t := by
  obtain ⟨m, hm, hstorable, hagree⟩ := h
  refine ⟨?_, ?_, ?_⟩
  · intro locator hlocator
    obtain ⟨place, hne, hnames, hplace, rfl, hsplit⟩ := hlocator.place
    rw [hagree, hsplit]
    refine (congrArg Prod.fst (hm.dev_get hne hnames hplace)).trans ?_
    cases m place with
    | none => rfl
    | some blob => rfl
  · intro app_slug tenant_slug
    have hselected : ∀ blob, blob ∈ latestText (selectedBlobs sink.root m app_slug tenant_slug t) ↔
        m ((devLayout libs).place blob) = some blob ∧ PassesFilters app_slug tenant_slug blob := by
      intro blob
      rw [latestText, (List.mergeSort_perm _ _).mem_iff, hm.mem_selectedBlobs]
    refine ⟨_, congrArg Prod.fst (hm.dev_listSnapshots hstorable hint app_slug tenant_slug), ?_, ?_⟩
    · rw [List.map_map]
      have hnodup : ((latestText (selectedBlobs sink.root m app_slug tenant_slug t)).map
          (devLayout libs).place).Nodup := by
        rw [latestText, ((List.mergeSort_perm _ _).map _).nodup_iff]
        exact List.Nodup.sublist (List.filter_sublist.map _) hm.nodup_storedBlobs
      exact (devLayout libs).nodup_locators
        (fun blob hblob => (hm.placed ((hselected blob).1 hblob).1).1) hnodup
    · intro e
      rw [List.mem_map]
      constructor
      · rintro ⟨blob, hblob, rfl⟩
        obtain ⟨hstored, hpasses⟩ := (hselected blob).1 hblob
        refine ⟨blob, ?_, hpasses, rfl⟩
        change storedUnder es (joinPath ((devLayout libs).place blob)) = some blob
        rw [hagree, Layout.splitPath_place _ (hm.placed hstored).1, hstored]
      · rintro ⟨blob, hstored, hpasses, he⟩
        rw [hagree] at hstored
        have hlocator := hm.locator_eq hstored
        rw [(hm.placed hstored).2] at hstored
        exact ⟨blob, (hselected blob).2 ⟨hstored, hpasses⟩, hlocator ▸ he.symm⟩
  · intro locator hlocator
    obtain ⟨place, hne, hnames, hplace, rfl, hsplit⟩ := hlocator.place
    rw [hagree, hsplit]
    cases hblob : m place with
    | none => exact hm.dev_delete_of_none hne hnames hplace hblob
    | some blob =>
      obtain ⟨t₁, hdelete, -, hfind⟩ := hm.dev_delete_of_some hblob
      have hall : ∀ name ∈ sink.root ++ place, IsName name :=
        FileTree.names_of_find (hm.find_of_some hblob)
      rw [hdelete, targetParts_joinPath sink.root hne hnames, resolveParts_of_names hall]
      exact ⟨rfl, hfind⟩

end

/-! ## A store with one blob -/

def backupsStore : ScottyDevSink := ⟨["backups"]⟩

theorem byteLibs_loads_line (h : text = flatText none (sidecarMeta (byteBlob app_slug))) :
    (byteLibs app_slug).loads text = some (.obj (sidecarMeta (byteBlob app_slug))) :=
  if_pos (.inr h)

theorem storable_byteBlob (hslug : IsWord app_slug ∧ app_slug ≠ "")
    (hplain : '\r' ∉ (flatText none (sidecarMeta (byteBlob app_slug))).toList) :
    Storable (byteLibs app_slug) (byteBlob app_slug) where
  app_slug := hslug
  scope := (by decide : IsWord "platform" ∧ "platform" ≠ "")
  kind := (by decide : IsWord "full")
  tenant_slug := nofun
  reads := by
    have htext : String.ofList (universalNewlines
        (flatText none (sidecarMeta (byteBlob app_slug))).toList) =
          flatText none (sidecarMeta (byteBlob app_slug)) := by
      rw [universalNewlines_of_plain hplain, String.ofList_toList]
    have hnodup : ((sidecarMeta (byteBlob app_slug)).map Prod.fst).Nodup := by
      simp only [sidecarMeta, List.map_cons, List.map_nil]
      decide
    exact ⟨_, byteLibs_loads_line htext, hnodup, fun _ _ => rfl⟩

def byteLocator : String := "demo/demo/platform/20240101T000000Z-full.tar.gz"

def byteDisk : Disk := (backupsStore.put (byteLibs "demo") (byteBlob "demo") backupsDisk).2

end ScottyCore
