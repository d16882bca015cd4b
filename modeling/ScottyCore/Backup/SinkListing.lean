import ScottyCore.Backup.SinkSteps

namespace ScottyCore
open Python FileSystem LocalDiskSink TransitionSystem
set_option autoImplicit true

/-! ## What stands below the root -/

/-- A store whose sidecars and bundles belong together. -/
structure Paired (libs : SinkLibraries) (sink : LocalDiskSink) (t : Disk) : Prop where
  texts : ∀ {dirs name data}, sink.root <+: dirs →
    t.find (dirs ++ [name ++ ".meta.json"]) = some (.file data) →
      IsBundleName name ∧ ∃ blob, WellFormed libs blob ∧ data = sidecarBytes libs blob
  free : ∀ {path}, IsBundle sink path → t.isFile (sibling path ".meta.json") = true →
    t.find path ≠ some .dir
  described : ∀ {path data}, IsBundle sink path → t.find path = some (.file data) →
    Described libs t path data

theorem bundleName_eq_some_iff :
    bundleName sidecar = some name ↔ sidecar = name ++ ".meta.json" := by
  rw [bundleName, Option.map_eq_some_iff]
  constructor
  · rintro ⟨cs, hcs, rfl⟩
    rw [isSuffixOf?_eq_some_iff] at hcs
    rw [← String.toList_inj, String.toList_append, String.toList_ofList, hcs]
  · rintro rfl
    exact ⟨name.toList, isSuffixOf?_eq_some_iff.2 String.toList_append, String.ofList_toList⟩

theorem mem_sidecars_iff {root dirs : List String} {t : Disk} :
    (dirs, name) ∈ sidecars root t ↔
      root <+: dirs ∧ (t.find (dirs ++ [name ++ ".meta.json"])).isSome = true := by
  have hne : dirs ++ [name ++ ".meta.json"] ≠ [] :=
    List.append_ne_nil_of_right_ne_nil _ (List.cons_ne_nil _ _)
  rw [sidecars, List.mem_filterMap, Option.isSome_iff_exists]
  constructor
  · rintro ⟨⟨path, n⟩, hmem, hside⟩
    split at hside
    · rename_i hroot
      obtain ⟨bundle, hbundle, hpair⟩ := Option.map_eq_some_iff.1 hside
      obtain ⟨last, hlast, hname⟩ := Option.bind_eq_some_iff.1 hbundle
      cases hpair
      refine ⟨hroot, n, (FileTree.find_eq_some_iff hne).2 ?_⟩
      rw [← bundleName_eq_some_iff.1 hname]
      rwa [List.dropLast_append_getLast? _ hlast]
    · cases hside
  · rintro ⟨hroot, n, hfind⟩
    refine ⟨_, (FileTree.find_eq_some_iff hne).1 hfind, ?_⟩
    dsimp only
    rw [List.dropLast_concat, if_pos hroot, List.getLast?_concat, Option.bind_some,
      bundleName_eq_some_iff.2 rfl]
    rfl

/-! ## Reading a sidecar -/

/-- The entry for a blob. -/
def entryOf (libs : SinkLibraries) (locator : String) (blob : BackupBlob Data) : SnapshotEntry where
  locator := locator
  app_slug := .str blob.app_slug
  scope := .str blob.scope
  kind := .str blob.kind
  size := blob.size
  created_at := libs.parseTs (.str blob.created_at.isoformat)
  encrypted := blob.encrypted
  sha256 := .str blob.sha256
  key_fingerprint := optional blob.key_fingerprint
  tenant_slug := optional blob.tenant_slug

section
variable {libs : SinkLibraries} {sink : LocalDiskSink} {t : Disk} {blob : BackupBlob (List UInt8)}
  {members : JsonDict}

theorem metaGet_of_reads (default : Json) (hread : members.lookup key = some j) :
    metaGet key default (.obj members) = .ok j := by
  rw [metaGet, hread]
  rfl

theorem snapshotEntry_of_reads (hint : ∀ i, libs.int (.int i) = .ok i)
    (hreads : ∀ key, key ≠ "metadata" → members.lookup key = (sidecarMeta blob).lookup key)
    (locator : String) (size : Int) :
    snapshotEntry libs locator size (.obj members) = .ok (entryOf libs locator blob) := by
  have hget : ∀ key default j, key ≠ "metadata" → (sidecarMeta blob).lookup key = some j →
      metaGet key default (.obj members) = .ok j :=
    fun key default _ hkey hj => metaGet_of_reads default ((hreads key hkey).trans hj)
  rw [snapshotEntry, hget "app_slug" _ _ (by decide) rfl, hget "scope" _ _ (by decide) rfl,
    hget "kind" _ _ (by decide) rfl, hget "size" _ _ (by decide) rfl,
    hget "created_at" _ _ (by decide) rfl, hget "encrypted" _ _ (by decide) rfl,
    hget "sha256" _ _ (by decide) rfl, hget "key_fingerprint" _ _ (by decide) rfl,
    hget "tenant_slug" _ _ (by decide) rfl]
  change (libs.int (.int blob.size) >>= _) = _
  rw [hint]
  rfl

theorem exists_passesFilter (filter : Option String) (key : String) (members : JsonDict) :
    ∃ passes, passesFilter filter key (.obj members) = .ok passes := by
  rw [passesFilter]
  split
  · exact ⟨true, rfl⟩
  · rw [metaGet]
    generalize (members.lookup key).getD .null = found
    cases found with
    | str text => exact ⟨_, rfl⟩
    | _ => exact ⟨false, rfl⟩

theorem readText_sidecarBytes (libs : SinkLibraries) (blob : BackupBlob Data) :
    readText (sidecarBytes libs blob) =
      .ok (String.ofList (universalNewlines (libs.dumps (some 2) (sidecarMeta blob)).toList)) := by
  rw [readText, sidecarBytes, decodeUtf8_encodeUtf8]

theorem IsBundleName.length (h : IsBundleName name) : 2 < name.length := by
  obtain ⟨stem, rfl | rfl⟩ := h
  · exact length_append_of_ending stem (by decide)
  · exact length_append_of_ending stem (by decide)

/-- The place of a bundle that has a sidecar. -/
theorem IsBundleName.names (h : IsBundleName name)
    (hfind : t.find (dirs ++ [name ++ ".meta.json"]) = some n) :
    ∀ x ∈ dirs ++ [name], IsName x := by
  have hnames := FileTree.names_of_find hfind
  intro x hx
  rcases List.mem_append.1 hx with hx | hx
  · exact hnames x (List.mem_append_left _ hx)
  · rw [List.mem_singleton.1 hx]
    have hside := hnames (name ++ ".meta.json") (List.mem_append_right _ List.mem_cons_self)
    exact ⟨isPart_of_append hside.1, ne_dots_of_length h.length⟩

/-- The turn of the loop for the sidecar of a blob. -/
theorem scan_of_sidecar (hint : ∀ i, libs.int (.int i) = .ok i)
    (app_slug tenant_slug : Option String) (hname : IsBundleName name)
    (hblob : ReadsSidecar libs blob)
    (hfind : t.find (dirs ++ [name ++ ".meta.json"]) = some (.file (sidecarBytes libs blob)))
    (hdir : t.find (dirs ++ [name]) ≠ some .dir) :
    ∃ passes : Bool, sink.scan libs app_slug tenant_slug t (dirs, name) =
        .ok (if passes = true ∧ (t.find (dirs ++ [name])).isSome = true then
          some (entryOf libs (joinPath ((dirs ++ [name]).drop sink.root.length)) blob)
        else none) ∧ (app_slug = none → tenant_slug = none → passes = true) := by
  obtain ⟨members, hloads, hreads⟩ := hblob
  obtain ⟨passes, hpasses⟩ := exists_passesFilter app_slug "app_slug" members
  obtain ⟨passes', hpasses'⟩ := exists_passesFilter tenant_slug "tenant_slug" members
  have hlast : IsName name :=
    hname.names hfind name (List.mem_append_right _ List.mem_cons_self)
  refine ⟨passes && passes', ?_, ?_⟩
  · rw [scan, hfind]
    refine bind_eq_ok.2 ⟨_, readText_sidecarBytes libs blob, ?_⟩
    rw [hloads]
    dsimp only
    rw [hpasses]
    cases passes with
    | false => rfl
    | true =>
      change (passesFilter tenant_slug "tenant_slug" (.obj members) >>= _) = _
      rw [hpasses']
      cases passes' with
      | false => rfl
      | true =>
        change (if name = "" ∨ name = "." then _ else _) = _
        rw [if_neg (not_or.2 ⟨hlast.2.1, hlast.2.2.1⟩)]
        rw [t.stat_of_names (hname.names hfind)]
        cases hbundle : t.find (dirs ++ [name]) with
        | none => rfl
        | some n =>
          cases n with
          | dir => exact (hdir hbundle).elim
          | file data =>
            dsimp only
            rw [snapshotEntry_of_reads hint hreads]
            rfl
  · rintro rfl rfl
    cases hpasses
    cases hpasses'
    rfl

/-! ## The listing of a paired store -/

/-- What an entry says of the bundle at a place. -/
structure ShowsBundle (libs : SinkLibraries) (sink : LocalDiskSink) (t : Disk) (path : List String)
    (e : SnapshotEntry) : Prop where
  bundle : IsBundle sink path
  place : sink.placeOf e.locator = path
  agrees : ∃ data, sink.get e.locator t = .ok data ∧ e.size = data.length ∧
    e.sha256 = .str (libs.sha256 data)

/-- The locator of a bundle, read back. -/
theorem targetParts_locator {path : List String} (hroot : sink.root <+: path)
    (hne : sink.root ≠ path) (hnames : ∀ name ∈ path, IsName name) :
    targetParts sink.root (joinPath (path.drop sink.root.length)) = path := by
  obtain ⟨rest, rfl⟩ := hroot
  rw [List.drop_left, targetParts_joinPath]
  · rintro rfl
    exact hne (List.append_nil _).symm
  · exact fun name hname => hnames name (List.mem_append_right _ hname)

theorem IsBundle.below {path : List String} (h : IsBundle sink path) : sink.root <+: path := by
  obtain ⟨dirs, name, rfl, hroot, -⟩ := h
  exact hroot.trans (List.prefix_append _ _)

theorem IsBundle.ne_root {path : List String} (h : IsBundle sink path) : path ≠ sink.root := by
  obtain ⟨dirs, name, rfl, hroot, -⟩ := h
  intro he
  have hlen := hroot.length_le
  rw [← he, List.length_append, List.length_singleton] at hlen
  omega

theorem showsBundle_of_file {data : List UInt8} (hbundle : IsBundle sink path)
    (hfind : t.find path = some (.file data)) (hblob : WellFormed libs blob)
    (hdata : blob.data = data) :
    ShowsBundle libs sink t path (entryOf libs (joinPath (path.drop sink.root.length)) blob) := by
  have hnames := FileTree.names_of_find hfind
  have htarget := targetParts_locator hbundle.below (Ne.symm hbundle.ne_root) hnames
  have hplace : sink.placeOf (joinPath (path.drop sink.root.length)) = path := by
    rw [placeOf, htarget]
    exact resolveFrom_of_names [] hnames
  have hget : sink.get (joinPath (path.drop sink.root.length)) t = .ok data := by
    apply get_of_find
    · rw [htarget]
      exact fun name hname => (hnames name hname).1
    · rw [hplace]
      exact hbundle.below
    · rwa [hplace]
  refine ⟨hbundle, hplace, data, hget, ?_, ?_⟩
  · rw [entryOf, hblob.size, hdata]
  · rw [entryOf, hblob.sha256, hdata]

/-- What the loop makes of a sidecar in a paired store. -/
theorem Paired.scan (hp : Paired libs sink t) (hint : ∀ i, libs.int (.int i) = .ok i)
    (app_slug tenant_slug : Option String) (hx : x ∈ sidecars sink.root t) :
    ∃ found, sink.scan libs app_slug tenant_slug t x = .ok found ∧
      (∀ e, found = some e → ShowsBundle libs sink t (x.1 ++ [x.2]) e) ∧
      (app_slug = none → tenant_slug = none → IsBundle sink (x.1 ++ [x.2]) →
        t.isFile (x.1 ++ [x.2]) = true → found.isSome = true) := by
  obtain ⟨dirs, name⟩ := x
  obtain ⟨hroot, hside⟩ := mem_sidecars_iff.1 hx
  obtain ⟨n, hfind⟩ := Option.isSome_iff_exists.1 hside
  cases n with
  | dir =>
    refine ⟨none, ?_, ?_, ?_⟩
    · rw [LocalDiskSink.scan, hfind]
    · intro _ h
      cases h
    · intro _ _ hbundle hfile
      obtain ⟨data, hdata⟩ := FileTree.isFile_iff.1 hfile
      obtain ⟨blob, -, -, hsidecar⟩ := hp.described hbundle hdata
      rw [sibling_concat, hfind] at hsidecar
      cases hsidecar
  | file text =>
    obtain ⟨hname, blob, hblob, rfl⟩ := hp.texts hroot hfind
    have hbundle : IsBundle sink (dirs ++ [name]) := ⟨dirs, name, rfl, hroot, hname⟩
    have hdir : t.find (dirs ++ [name]) ≠ some .dir := by
      apply hp.free hbundle
      rw [sibling_concat]
      exact FileTree.isFile_iff.2 ⟨_, hfind⟩
    cases hthere : t.find (dirs ++ [name]) with
    | none =>
      obtain ⟨passes, hscan, -⟩ :=
        scan_of_sidecar hint app_slug tenant_slug hname hblob.reads hfind hdir
      refine ⟨none, ?_, ?_, ?_⟩
      · rw [hscan, hthere, if_neg fun h => Bool.false_ne_true h.2]
      · intro _ h
        cases h
      · intro _ _ _ hfile
        rw [FileTree.isFile, hthere] at hfile
        cases hfile
    | some n =>
      cases n with
      | dir => exact (hdir hthere).elim
      | file data =>
        obtain ⟨blob', hblob', hdata, hsidecar⟩ := hp.described hbundle hthere
        rw [sibling_concat] at hsidecar
        obtain ⟨passes, hscan, hall⟩ :=
          scan_of_sidecar hint app_slug tenant_slug hname hblob'.reads hsidecar hdir
        refine ⟨_, hscan, ?_, ?_⟩
        · intro e he
          split at he
          · cases he
            exact showsBundle_of_file hbundle hthere hblob' hdata
          · cases he
        · intro happ htenant _ _
          rw [hall happ htenant, hthere]
          rfl

theorem filterMap_map_sublist {f : α → Option β} {k : β → γ} {g : α → γ} {l : List α}
    (h : ∀ a ∈ l, ∀ b, f a = some b → k b = g a) : ((l.filterMap f).map k).Sublist (l.map g) := by
  induction l with
  | nil => exact List.Sublist.slnil
  | cons a l ih =>
    have hrest := ih fun a' ha' => h a' (List.mem_cons_of_mem _ ha')
    cases hf : f a with
    | none =>
      rw [List.filterMap_cons_none hf]
      exact hrest.trans (List.sublist_cons_self _ _)
    | some b =>
      rw [List.filterMap_cons_some hf, List.map_cons, List.map_cons, h a List.mem_cons_self b hf]
      exact hrest.cons_cons _

/-- No two sidecars belong to one place. -/
theorem nodup_sidecars (root : List String) (t : Disk) :
    ((sidecars root t).map fun x => x.1 ++ [x.2]).Nodup := by
  have hkeys : ((sidecars root t).map fun x => x.1 ++ [x.2 ++ ".meta.json"]).Nodup := by
    apply List.Nodup.sublist (filterMap_map_sublist _) t.entries.nodup
    rintro ⟨path, n⟩ - x hx
    split at hx
    · obtain ⟨bundle, hbundle, rfl⟩ := Option.map_eq_some_iff.1 hx
      obtain ⟨last, hlast, hname⟩ := Option.bind_eq_some_iff.1 hbundle
      dsimp only
      rw [← bundleName_eq_some_iff.1 hname]
      exact List.dropLast_append_getLast? _ hlast
    · cases hx
  apply List.Nodup.map
  · rintro ⟨dirs, name⟩ ⟨dirs', name'⟩ h
    obtain ⟨hdirs, hname⟩ := List.append_inj' h rfl
    exact Prod.ext hdirs (List.singleton_inj.1 hname)
  · exact hkeys.of_map

/-- What a listing promises: an entry has the size and the digest of what `get` gives for its
locator, and there is one for each bundle that `get` can fetch. -/
structure Consistent (libs : SinkLibraries) (sink : LocalDiskSink) (t : Disk) : Prop where
  agrees : ∀ app_slug tenant_slug, ∃ entries,
    sink.listSnapshots libs app_slug tenant_slug t = .ok entries ∧
      ∀ e ∈ entries, ∃ data, sink.get e.locator t = .ok data ∧ e.size = data.length ∧
        e.sha256 = .str (libs.sha256 data)
  lists : ∀ entries, sink.listSnapshots libs none none t = .ok entries →
    (entries.map fun e => sink.placeOf e.locator).Nodup ∧
    ∀ path, path ∈ entries.map (fun e => sink.placeOf e.locator) ↔
      IsBundle sink path ∧ ∃ locator data, sink.placeOf locator = path ∧
        sink.get locator t = .ok data

theorem find_of_get {locator : String} (h : sink.get locator t = .ok data) :
    t.find (sink.placeOf locator) = some (.file data) := by
  rw [LocalDiskSink.get] at h
  obtain ⟨path, hresolve, hread⟩ := bind_eq_ok.1 h
  obtain ⟨rfl, -, -⟩ := resolve_ok hresolve
  split at hread
  · rename_i hfind
    cases hread
    exact hfind
  · cases hread

/-- The listing of a paired store. -/
theorem Paired.listing (hp : Paired libs sink t) (hint : ∀ i, libs.int (.int i) = .ok i)
    (app_slug tenant_slug : Option String) :
    ∃ shown : List String × String → Option SnapshotEntry,
      sink.listSnapshots libs app_slug tenant_slug t =
        .ok (newestFirst ((sidecars sink.root t).filterMap shown)) ∧
      ∀ x ∈ sidecars sink.root t,
        (∀ e, shown x = some e → ShowsBundle libs sink t (x.1 ++ [x.2]) e) ∧
        (app_slug = none → tenant_slug = none → IsBundle sink (x.1 ++ [x.2]) →
          t.isFile (x.1 ++ [x.2]) = true → (shown x).isSome = true) := by
  choose! shown hshown using fun x hx => hp.scan hint app_slug tenant_slug (x := x) hx
  refine ⟨shown, ?_, fun x hx => (hshown x hx).2⟩
  rw [listSnapshots, mapM_ok_of_forall fun x hx => (hshown x hx).1]
  change Except.ok (newestFirst (((sidecars sink.root t).map shown).filterMap id)) = _
  rw [List.filterMap_map]
  rfl

theorem mem_newestFirst : e ∈ newestFirst entries ↔ e ∈ entries :=
  (List.mergeSort_perm entries _).mem_iff

theorem Paired.consistent (hp : Paired libs sink t) (hint : ∀ i, libs.int (.int i) = .ok i) :
    Consistent libs sink t where
  agrees := by
    intro app_slug tenant_slug
    obtain ⟨shown, hlist, hshown⟩ := hp.listing hint app_slug tenant_slug
    refine ⟨_, hlist, ?_⟩
    intro e he
    obtain ⟨x, hx, hxe⟩ := List.mem_filterMap.1 (mem_newestFirst.1 he)
    exact ((hshown x hx).1 e hxe).agrees
  lists := by
    intro entries hentries
    obtain ⟨shown, hlist, hshown⟩ := hp.listing hint none none
    obtain rfl := Except.ok.inj (hlist.symm.trans hentries)
    constructor
    · rw [newestFirst, ((List.mergeSort_perm _ _).map _).nodup_iff]
      apply List.Nodup.sublist (filterMap_map_sublist _) (nodup_sidecars sink.root t)
      intro x hx e hxe
      exact ((hshown x hx).1 e hxe).place
    · intro path
      rw [List.mem_map]
      constructor
      · rintro ⟨e, he, rfl⟩
        obtain ⟨x, hx, hxe⟩ := List.mem_filterMap.1 (mem_newestFirst.1 he)
        have hshows := (hshown x hx).1 e hxe
        obtain ⟨data, hget, -⟩ := hshows.agrees
        rw [hshows.place]
        exact ⟨hshows.bundle, e.locator, data, hshows.place, hget⟩
      · rintro ⟨hbundle, locator, data, rfl, hget⟩
        have hfind := find_of_get hget
        obtain ⟨blob, -, -, hside⟩ := hp.described hbundle hfind
        obtain ⟨dirs, name, hpath, hroot, hname⟩ := hbundle
        rw [hpath, sibling_concat] at hside
        have hx : (dirs, name) ∈ sidecars sink.root t :=
          mem_sidecars_iff.2 ⟨hroot, Option.isSome_iff_exists.2 ⟨_, hside⟩⟩
        have hsome := (hshown _ hx).2 rfl rfl ⟨dirs, name, rfl, hroot, hname⟩
          (FileTree.isFile_iff.2 ⟨data, hpath ▸ hfind⟩)
        obtain ⟨e, he⟩ := Option.isSome_iff_exists.1 hsome
        exact ⟨e, mem_newestFirst.2 (List.mem_filterMap.2 ⟨_, hx, he⟩),
          ((hshown _ hx).1 e he).place.trans hpath.symm⟩

/-! ## Runs -/

theorem Paired.sinkInv (hp : Paired libs sink t) : SinkInv libs sink t [] where
  shape h := absurd h List.not_mem_nil
  shared h := absurd h List.not_mem_nil
  ready h := absurd h List.not_mem_nil
  clean h := absurd h List.not_mem_nil
  filled h := absurd h List.not_mem_nil
  deletes h := absurd h List.not_mem_nil
  texts := hp.texts
  free := by
    intro path hbundle hthere
    rcases hthere with hthere | ⟨_, _, _, _, h, -⟩
    · exact hp.free hbundle hthere
    · exact absurd h List.not_mem_nil

theorem SinkInv.paired (h : SinkInv libs sink t []) (hcov : Covered libs sink t []) :
    Paired libs sink t where
  texts := h.texts
  free hbundle hthere := h.free hbundle (.inl hthere)
  described := by
    intro path data hbundle hfind
    rcases hcov path data hbundle hfind with hd | ⟨_, _, _, h, -⟩
    · exact hd
    · exact absurd h List.not_mem_nil

theorem run_consistent {s s' : SinkState} (hint : ∀ i, libs.int (.int i) = .ok i)
    (hstart : Paired libs sink s.disk) (hidle : s.running = [])
    (hrun : Run (Guarded (SinkStep libs sink) (KeepsTogether libs sink)) s es s')
    (hquiet : s'.running = []) : Consistent libs sink s'.disk := by
  have hinv : SinkInv libs sink s'.disk s'.running ∧ Covered libs sink s'.disk s'.running := by
    apply hrun.invariant
    · rw [hidle]
      exact ⟨hstart.sinkInv, fun _ _ hbundle hfind => .inl (hstart.described hbundle hfind)⟩
    · intro s e s' hs hstep
      exact hstep.1.together hstep.2 hs.1 hs.2
  rw [hquiet] at hinv
  exact (hinv.1.paired hinv.2).consistent hint

end

/-- A store with nothing below its root. -/
theorem paired_of_bare (libs : SinkLibraries) {sink : LocalDiskSink} {t : Disk}
    (h : ∀ path n, t.find path = some n → sink.root <+: path → path = sink.root) :
    Paired libs sink t where
  texts := by
    intro dirs name data hroot hfind
    have he := h _ _ hfind (hroot.trans (List.prefix_append _ _))
    have hlen := hroot.length_le
    rw [← he, List.length_append, List.length_singleton] at hlen
    omega
  free hbundle _ hdir := hbundle.ne_root (h _ _ hdir hbundle.below)
  described hbundle hfind := (hbundle.ne_root (h _ _ hfind hbundle.below)).elim

/-! ### One backup -/

theorem not_mem_intercalate {x : α} (hsep : x ∉ sep) (h : ∀ l ∈ ls, x ∉ l) :
    x ∉ List.intercalate sep ls := by
  induction ls with
  | nil => exact List.not_mem_nil
  | cons l ls ih =>
    have hl := h l List.mem_cons_self
    cases ls with
    | nil => rwa [List.intercalate_singleton]
    | cons l' ls =>
      rw [List.intercalate_cons_cons, List.mem_append, List.mem_append, not_or, not_or]
      exact ⟨⟨hl, hsep⟩, ih fun l'' hl'' => h l'' (List.mem_cons_of_mem _ hl'')⟩

theorem cr_not_mem_quote (s : String) : '\r' ∉ (quote s).toList := by
  intro h
  exact absurd (printable_quote s _ h).1 (by decide)

/-- A text in JSON has no carriage return of its own. -/
theorem cr_not_mem_flatText (n : Nat) {members : JsonDict}
    (h : ∀ p ∈ members, '\r' ∉ (scalarText p.2).toList) :
    '\r' ∉ (flatText (some n) members).toList := by
  have hpad : '\r' ∉ '\n' :: List.replicate n ' ' := by
    rw [List.mem_cons, not_or]
    exact ⟨by decide, fun hr => absurd (List.eq_of_mem_replicate hr) (by decide)⟩
  have hitems : ∀ item ∈ members.map (fun p => quote p.1 ++ ": " ++ scalarText p.2),
      '\r' ∉ item.toList := by
    intro item hitem
    obtain ⟨p, hp, rfl⟩ := List.mem_map.1 hitem
    rw [String.toList_append, String.toList_append, List.mem_append, List.mem_append, not_or,
      not_or]
    exact ⟨⟨cr_not_mem_quote _, by decide⟩, h p hp⟩
  dsimp only [flatText]
  simp only [String.toList_append, String.toList_intercalate, String.toList_ofList, List.mem_append,
    not_or]
  refine ⟨⟨⟨by decide, hpad⟩, ?_⟩, by decide⟩
  apply not_mem_intercalate
  · rw [List.mem_append, not_or]
    exact ⟨by decide, hpad⟩
  · intro l hl
    obtain ⟨item, hitem, rfl⟩ := List.mem_map.1 hl
    exact hitems item hitem

theorem byteLibs_loads (h : text = flatText (some 2) (sidecarMeta (byteBlob app_slug))) :
    (byteLibs app_slug).loads text = some (.obj (sidecarMeta (byteBlob app_slug))) :=
  if_pos (.inl h)

theorem wellFormed_byteBlob (app_slug : String) :
    WellFormed (byteLibs app_slug) (byteBlob app_slug) where
  sha256 := rfl
  size := rfl
  reads := by
    have hplain : '\r' ∉ (flatText (some 2) (sidecarMeta (byteBlob app_slug))).toList := by
      apply cr_not_mem_flatText
      simp only [sidecarMeta, byteBlob, optional, List.forall_mem_cons, scalarText,
        cr_not_mem_quote, not_false_eq_true, true_and]
      decide
    have htext : String.ofList (universalNewlines
        (flatText (some 2) (sidecarMeta (byteBlob app_slug))).toList) =
          flatText (some 2) (sidecarMeta (byteBlob app_slug)) := by
      rw [universalNewlines_of_plain hplain, String.ofList_toList]
    exact ⟨_, byteLibs_loads htext, fun _ _ => rfl⟩

def demoTarget : List String :=
  ["backups", "demo", "platform", "20240101T000000Z-full.tar.gz"]

def demoTask : Stage → Task := .put workerTag (byteBlob "demo") demoTarget

/-- The disk after a step of the one call. -/
def afterStage (stage : Stage) (t : Disk) : Disk :=
  (((demoTask stage).next (byteLibs "demo")).run t).2

theorem demo_target :
    targetParts backupsSink.root (defaultFilename (byteBlob "demo")) = demoTarget := by
  decide +kernel

theorem demo_starts : SinkStep (byteLibs "demo") backupsSink ⟨backupsDisk, []⟩
    (.startPut workerTag (byteBlob "demo")) ⟨backupsDisk, [demoTask .makeDirs]⟩ := by
  have hname : fileNameOf (byteBlob "demo") = .ok (defaultFilename (byteBlob "demo")) :=
    if_pos (by decide +kernel)
  rw [demoTask, ← demo_target]
  exact .startPut hname

theorem demo_advances {stage : Stage} {t : Disk}
    (h : (((demoTask stage).next (byteLibs "demo")).run t).1 = none) :
    SinkStep (byteLibs "demo") backupsSink ⟨t, [demoTask stage]⟩ (.advance [] (demoTask stage) [])
      ⟨afterStage stage t, (demoTask stage).rest ++ []⟩ := by
  have hrunning : (SinkState.mk t [demoTask stage]).running = [] ++ demoTask stage :: [] := rfl
  exact .advance hrunning (Prod.ext h rfl)

def demoMade : Disk := afterStage .makeDirs backupsDisk
def demoWritten : Disk := afterStage .write demoMade
def demoReplaced : Disk := afterStage .replace demoWritten

theorem demo_run : Run (SinkStep (byteLibs "demo") backupsSink) ⟨backupsDisk, []⟩
    [.startPut workerTag (byteBlob "demo"), .advance [] (demoTask .makeDirs) [],
      .advance [] (demoTask .write) [], .advance [] (demoTask .replace) []]
    ⟨demoReplaced, [demoTask .sidecar]⟩ :=
  (((Run.single demo_starts).snoc (demo_advances (by decide +kernel))).snoc
    (demo_advances (by decide +kernel))).snoc (demo_advances (by decide +kernel))

theorem backupsDisk_bare : ∀ path n, backupsDisk.find path = some n →
    backupsSink.root <+: path → path = backupsSink.root := by
  intro path n hfind hroot
  have hne : path ≠ [] := by
    rintro rfl
    exact absurd hroot (by decide)
  have hmem : (path, n) ∈ [(["backups"], Node.dir)] := (FileTree.find_eq_some_iff hne).1 hfind
  exact congrArg Prod.fst (List.mem_singleton.1 hmem)

theorem demo_keeps_makeDirs : KeepsTogether (byteLibs "demo") backupsSink
    ⟨backupsDisk, [demoTask .makeDirs]⟩ (.advance [] (demoTask .makeDirs) []) := by
  intro q hq _
  constructor
  · revert q
    decide +kernel
  · rintro data ⟨_, _, _, hmem, -⟩
    cases List.mem_singleton.1 hmem

theorem demo_keeps_sidecar : KeepsTogether (byteLibs "demo") backupsSink
    ⟨demoReplaced, [demoTask .sidecar]⟩ (.advance [] (demoTask .sidecar) []) := by
  intro _ data hfind
  have hthere : demoReplaced.find demoTarget = some (.file [104]) := by decide +kernel
  cases hthere.symm.trans hfind
  exact .inl ⟨rfl, by decide +kernel⟩

theorem demo_consistent :
    Consistent (byteLibs "demo") backupsSink (afterStage .sidecar demoReplaced) := by
  have hmade : KeepsTogether (byteLibs "demo") backupsSink ⟨demoWritten, [demoTask .replace]⟩
      (.advance [] (demoTask .replace) []) := by
    change demoWritten.isDir _ = false
    decide +kernel
  have hrun : Run (Guarded (SinkStep (byteLibs "demo") backupsSink)
      (KeepsTogether (byteLibs "demo") backupsSink)) ⟨backupsDisk, []⟩ _
      ⟨afterStage .sidecar demoReplaced, []⟩ :=
    ((((Run.single ⟨demo_starts, wellFormed_byteBlob _, by intro _ _ _ h; cases h⟩).snoc
      ⟨demo_advances (by decide +kernel), demo_keeps_makeDirs⟩).snoc
      ⟨demo_advances (by decide +kernel), trivial⟩).snoc
      ⟨demo_advances (by decide +kernel), hmade⟩).snoc
      ⟨demo_advances (by decide +kernel), demo_keeps_sidecar⟩
  exact run_consistent (fun _ => rfl) (paired_of_bare _ backupsDisk_bare) rfl hrun rfl

/-- A `put` that dies between the bundle and the sidecar. -/
theorem crash_leaves_unlisted : ¬ ∀ es s,
    Run (SinkStep (byteLibs "demo") backupsSink) ⟨backupsDisk, []⟩ es s → s.running = [] →
      Consistent (byteLibs "demo") backupsSink s.disk := by
  intro h
  have hcrash : SinkStep (byteLibs "demo") backupsSink ⟨demoReplaced, [demoTask .sidecar]⟩
      (.crash [] (demoTask .sidecar) []) ⟨demoReplaced, []⟩ := .crash rfl
  have hconsistent := h _ _ (demo_run.snoc hcrash) rfl
  obtain ⟨entries, hlist, -⟩ := hconsistent.agrees none none
  have hempty : (backupsSink.listSnapshots (byteLibs "demo") none none demoReplaced).toOption.map
      List.length = some 0 := by decide +kernel
  rw [hlist] at hempty
  obtain rfl := List.length_eq_zero_iff.1 (Option.some.inj hempty)
  have hplace : backupsSink.placeOf (defaultFilename (byteBlob "demo")) = demoTarget := by
    rw [placeOf, demo_target]
    decide
  have hget : backupsSink.get (defaultFilename (byteBlob "demo")) demoReplaced = .ok [104] := by
    apply get_of_find
    · rw [demo_target]
      decide
    · rw [hplace]
      decide
    · rw [hplace]
      decide +kernel
  have hbundle : IsBundle backupsSink demoTarget :=
    ⟨["backups", "demo", "platform"], "20240101T000000Z-full.tar.gz", rfl, by decide,
      "20240101T000000Z-full", .inl (by decide)⟩
  exact List.not_mem_nil
    (((hconsistent.lists _ hlist).2 demoTarget).2 ⟨hbundle, _, _, hplace, hget⟩)

end ScottyCore
