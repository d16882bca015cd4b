import ScottyCore.Backup.DevStore
import ScottyCore.Lib.FileMap
import ScottyCore.Lib.Raise

namespace ScottyCore
open Python FileSystem LocalDiskSink TransitionSystem
set_option autoImplicit true

/-! ## The place of a blob -/

/-- The slugs and the kind of a blob are words. -/
structure Worded (blob : BackupBlob Data) : Prop where
  app_slug : IsWord blob.app_slug ∧ blob.app_slug ≠ ""
  scope : IsWord blob.scope ∧ blob.scope ≠ ""
  kind : IsWord blob.kind
  tenant_slug : ∀ slug ∈ blob.tenant_slug, IsWord slug

/-- The directories and the name in `default_filename`. -/
def bundleDirs (blob : BackupBlob Data) : List String :=
  blob.app_slug :: blob.scope ::
    (if blob.scope = "tenant" then blob.tenant_slug.filter (· ≠ "") else none).toList

def bundleFile (blob : BackupBlob Data) : String :=
  stampSeconds (astimezoneUtc blob.created_at) ++ "Z-" ++ blob.kind ++ blob.ext

/-- The file name is the path of these names. -/
theorem joinPath_bundle (blob : BackupBlob Data) :
    joinPath (bundleDirs blob ++ [bundleFile blob]) = defaultFilename blob := by
  apply String.toList_injective
  rw [defaultFilename, bundleDirs, bundleFile, toList_joinPath]
  generalize (if blob.scope = "tenant" then blob.tenant_slug.filter (· ≠ "") else none) = slug
  cases slug with
  | none => simp [String.toList_append, List.intercalate_cons_cons]
  | some slug => simp [String.toList_append, List.intercalate_cons_cons]

theorem joinPath_splitPath (s : String) : joinPath (splitPath s) = s := by
  apply String.toList_injective
  rw [toList_joinPath, splitPath, List.map_map]
  have hid : String.toList ∘ String.ofList = id := funext fun _ => String.toList_ofList
  rw [hid, List.map_id, List.intercalate_splitOn]

theorem sidecar_joinPath {names : List String} (hne : names ≠ []) :
    joinPath (sibling names ".meta.json") = joinPath names ++ ".meta.json" := by
  obtain ⟨dirs, name, rfl⟩ := List.eq_nil_or_concat names |>.resolve_left hne
  rw [List.concat_eq_append, sibling_concat, joinPath_concat_append]

theorem sibling_append (root : List String) {names : List String} (hne : names ≠ [])
    (ending : String) : sibling (root ++ names) ending = root ++ sibling names ending := by
  obtain ⟨dirs, name, rfl⟩ := List.eq_nil_or_concat names |>.resolve_left hne
  rw [List.concat_eq_append, ← List.append_assoc, sibling_concat, sibling_concat,
    List.append_assoc]

theorem IsWord.isPart (h : IsWord s) : IsPart s :=
  ⟨fun hc => absurd (h _ hc) (by decide), fun hc => absurd (h _ hc) (by decide)⟩

theorem IsWord.undotted (h : IsWord s) : '.' ∉ s.toList :=
  fun hc => absurd (h _ hc) (by decide)

theorem not_isWord_of_dot (h : '.' ∈ s.toList) : ¬ IsWord s := fun hword => hword.undotted h

theorem IsWord.isName (h : IsWord s) (hne : s ≠ "") : IsName s := by
  refine ⟨h.isPart, hne, ?_, ?_⟩
  · rintro rfl
    exact h.undotted (by decide)
  · rintro rfl
    exact h.undotted (by decide)

theorem toNat_of_mem_stampSeconds (hc : c ∈ (stampSeconds d).toList) :
    48 ≤ c.toNat ∧ c.toNat ≤ 84 := by
  have hdigits : ∀ {k n}, c ∈ digits k n → 48 ≤ c.toNat ∧ c.toNat ≤ 84 :=
    fun h => (toNat_of_mem_digits h).imp_right fun hle => hle.trans (by decide)
  simp only [stampSeconds, String.toList_ofList, List.mem_append, List.mem_cons] at hc
  rcases hc with ((hc | hc) | hc) | rfl | (hc | hc) | hc
  · exact hdigits hc
  · exact hdigits hc
  · exact hdigits hc
  · decide
  · exact hdigits hc
  · exact hdigits hc
  · exact hdigits hc

theorem isPart_stampSeconds (d : DateTime) : IsPart (stampSeconds d) :=
  ⟨fun hc => absurd (toNat_of_mem_stampSeconds hc).1 (by decide),
    fun hc => absurd (toNat_of_mem_stampSeconds hc).1 (by decide)⟩

theorem dot_mem_bundleFile (blob : BackupBlob Data) : '.' ∈ (bundleFile blob).toList := by
  have hext : '.' ∈ blob.ext.toList := by
    rw [BackupBlob.ext]
    split
    · decide
    · decide
  rw [bundleFile, String.toList_append]
  exact List.mem_append_right _ hext

section
variable {blob : BackupBlob Data}

theorem Worded.dirs (h : Worded blob) : ∀ dir ∈ bundleDirs blob, IsWord dir ∧ dir ≠ "" := by
  simp only [bundleDirs, List.forall_mem_cons]
  refine ⟨h.app_slug, h.scope, ?_⟩
  intro slug hslug
  split at hslug
  · obtain ⟨htenant, hne⟩ := Option.filter_eq_some_iff.1 (Option.mem_toList.1 hslug)
    exact ⟨h.tenant_slug slug htenant, of_decide_eq_true hne⟩
  · cases hslug

theorem Worded.isPart (h : Worded blob) : IsPart (bundleFile blob) := by
  have hstem : IsPart (stampSeconds (astimezoneUtc blob.created_at) ++ "Z-" ++ blob.kind) :=
    isPart_append (isPart_append (isPart_stampSeconds _) (by decide)) h.kind.isPart
  exact isPart_append hstem (ext_part blob)

end

/-! ## Stores of blobs -/

/-- How a sink lays out a store: the directories of a blob and the text of its sidecar. -/
structure Layout where
  dirs : BackupBlob (List UInt8) → List String
  sidecar : BackupBlob (List UInt8) → List UInt8
  words : ∀ {blob}, Worded blob → ∀ dir ∈ dirs blob, IsWord dir ∧ dir ≠ ""

/-- The blobs of a store, by the names on the way to their bundles. -/
abbrev BlobMap := List String → Option (BackupBlob (List UInt8))

/-- The place of the bundle that a sidecar belongs to. -/
def bundleOf (names : List String) : Option (List String) :=
  names.getLast?.bind fun last => (bundleName last).map fun name => names.dropLast ++ [name]

namespace Layout

def place (L : Layout) (blob : BackupBlob (List UInt8)) : List String :=
  L.dirs blob ++ [bundleFile blob]

/-- A bundle at the place of each blob, and its sidecar beside it. -/
def files (L : Layout) (m : BlobMap) (names : List String) : Option (List UInt8) :=
  match m names with
  | some blob => some blob.data
  | none => ((bundleOf names).bind m).map L.sidecar

end Layout

/-- The store at a directory has the bundles and the sidecars of a map, and no other files. -/
structure Mirrors (L : Layout) (root : List String) (m : BlobMap) (t : Disk) : Prop where
  placed : ∀ {names blob}, m names = some blob → Worded blob ∧ names = L.place blob
  files : FileMap IsWord root (L.files m) t

section
variable {L : Layout} {root names bundle : List String} {m : BlobMap} {t : Disk}
variable {blob : BackupBlob (List UInt8)}

theorem Layout.place_ne_nil (L : Layout) (blob : BackupBlob (List UInt8)) : L.place blob ≠ [] :=
  List.append_ne_nil_of_right_ne_nil _ (List.cons_ne_nil _ _)

theorem Layout.isName_place (L : Layout) (h : Worded blob) :
    ∀ name ∈ L.place blob, IsName name := by
  intro name hname
  rcases List.mem_append.1 hname with hname | hname
  · obtain ⟨hword, hne⟩ := L.words h name hname
    exact hword.isName hne
  · rw [List.mem_singleton.1 hname]
    exact ⟨h.isPart, ne_dots_of_length (length_append_of_ending _ (ext_length blob))⟩

/-- A file beside a bundle, with an ending after its name. -/
theorem Layout.isKey_sibling (L : Layout) (h : Worded blob) (ending : String) :
    IsKey IsWord (sibling (L.place blob) ending) := by
  refine ⟨L.dirs blob, bundleFile blob ++ ending, sibling_concat _ _ _,
    fun dir hdir => (L.words h dir hdir).1, not_isWord_of_dot ?_⟩
  rw [String.toList_append]
  exact List.mem_append_left _ (dot_mem_bundleFile blob)

theorem Layout.isKey (L : Layout) (h : Worded blob) : IsKey IsWord (L.place blob) :=
  ⟨L.dirs blob, bundleFile blob, rfl, fun dir hdir => (L.words h dir hdir).1,
    not_isWord_of_dot (dot_mem_bundleFile blob)⟩

theorem Layout.isName_sibling (L : Layout) (h : Worded blob) (hpart : IsPart ending)
    (hlen : 2 < ending.length) : ∀ name ∈ sibling (L.place blob) ending, IsName name := by
  rw [place, sibling_concat]
  intro name hname
  rcases List.mem_append.1 hname with hname | hname
  · exact L.isName_place h name (List.mem_append_left _ hname)
  · rw [List.mem_singleton.1 hname]
    exact isName_append h.isPart hpart hlen

/-- No bundle has the name of a sidecar. -/
theorem Layout.place_ne_sidecar (L : Layout) (blob : BackupBlob (List UInt8)) (hne : bundle ≠ []) :
    L.place blob ≠ sibling bundle ".meta.json" := by
  have hlast : BundleChar (lastChar (L.place blob)) := by
    rw [place, bundleFile, lastChar_concat _ _ (ext_ne_nil blob)]
    exact bundleChar_ext blob
  exact hlast.ne (lastChar_sibling_sidecar hne) (by decide)

theorem bundleOf_eq_some_iff :
    bundleOf names = some bundle ↔ bundle ≠ [] ∧ names = sibling bundle ".meta.json" := by
  rw [bundleOf, Option.bind_eq_some_iff]
  constructor
  · rintro ⟨last, hlast, hbundle⟩
    obtain ⟨name, hname, rfl⟩ := Option.map_eq_some_iff.1 hbundle
    refine ⟨List.append_ne_nil_of_right_ne_nil _ (List.cons_ne_nil _ _), ?_⟩
    rw [sibling_concat, ← bundleName_eq_some_iff.1 hname]
    exact (List.dropLast_append_getLast? _ hlast).symm
  · rintro ⟨hne, rfl⟩
    obtain ⟨dirs, name, rfl⟩ := List.eq_nil_or_concat bundle |>.resolve_left hne
    refine ⟨name ++ ".meta.json", ?_, ?_⟩
    · rw [List.concat_eq_append, sibling_concat, List.getLast?_concat]
    · rw [bundleName_eq_some_iff.2 rfl, List.concat_eq_append, sibling_concat,
        List.dropLast_concat]
      rfl

theorem bundleOf_sidecar (hne : bundle ≠ []) :
    bundleOf (sibling bundle ".meta.json") = some bundle :=
  bundleOf_eq_some_iff.2 ⟨hne, rfl⟩

theorem bundleOf_place (L : Layout) (blob : BackupBlob (List UInt8)) :
    bundleOf (L.place blob) = none := by
  rw [Option.eq_none_iff_forall_ne_some]
  intro bundle hbundle
  obtain ⟨hne, he⟩ := bundleOf_eq_some_iff.1 hbundle
  exact L.place_ne_sidecar blob hne he

theorem Layout.files_of_some (h : m names = some blob) : L.files m names = some blob.data := by
  rw [files, h]

theorem Layout.files_of_none (h : m names = none) :
    L.files m names = ((bundleOf names).bind m).map L.sidecar := by
  rw [files, h]

namespace Mirrors

theorem none_of_sidecar (h : Mirrors L root m t) (hne : bundle ≠ []) :
    m (sibling bundle ".meta.json") = none := by
  rw [Option.eq_none_iff_forall_ne_some]
  intro blob hblob
  exact L.place_ne_sidecar blob hne (h.placed hblob).2.symm

theorem files_sidecar (h : Mirrors L root m t) (hne : bundle ≠ []) :
    L.files m (sibling bundle ".meta.json") = (m bundle).map L.sidecar := by
  rw [L.files_of_none (h.none_of_sidecar hne), bundleOf_sidecar hne, Option.bind_some]

/-- A change of one blob changes its bundle and its sidecar. -/
theorem files_update (h : Mirrors L root m t) (blob : BackupBlob (List UInt8))
    (new : Option (BackupBlob (List UInt8))) :
    L.files (Function.update m (L.place blob) new) =
      Function.update (Function.update (L.files m) (L.place blob) (new.map BackupBlob.data))
        (sibling (L.place blob) ".meta.json") (new.map L.sidecar) := by
  have hne := L.place_ne_nil blob
  have hapart : L.place blob ≠ sibling (L.place blob) ".meta.json" := L.place_ne_sidecar blob hne
  funext names
  by_cases hside : names = sibling (L.place blob) ".meta.json"
  · have hnone : Function.update m (L.place blob) new names = none := by
      rw [hside, Function.update_of_ne hapart.symm, h.none_of_sidecar hne]
    rw [L.files_of_none hnone, hside, Function.update_self, bundleOf_sidecar hne,
      Option.bind_some, Function.update_self]
  · rw [Function.update_of_ne hside]
    by_cases hself : names = L.place blob
    · rw [hself, Function.update_self]
      cases new with
      | some new => exact L.files_of_some (Function.update_self _ _ _)
      | none =>
        rw [L.files_of_none (Function.update_self _ _ _), bundleOf_place]
        rfl
    · rw [Function.update_of_ne hself, Layout.files, Layout.files, Function.update_of_ne hself]
      cases m names with
      | some other => rfl
      | none =>
        dsimp only
        cases hbundle : bundleOf names with
        | none => rfl
        | some bundle =>
          obtain ⟨-, he⟩ := bundleOf_eq_some_iff.1 hbundle
          have hbundle : bundle ≠ L.place blob := by
            rintro rfl
            exact hside he
          rw [Option.bind_some, Option.bind_some, Function.update_of_ne hbundle]

/-- A blob is put: its bundle and its sidecar are written. -/
theorem put (h : Mirrors L root m t) (hw : Worded blob)
    (hfiles : FileMap IsWord root (Function.update (Function.update (L.files m) (L.place blob)
      (some blob.data)) (sibling (L.place blob) ".meta.json") (some (L.sidecar blob))) t') :
    Mirrors L root (Function.update m (L.place blob) (some blob)) t' where
  placed := by
    intro names other hother
    rw [Function.update_apply] at hother
    split at hother
    · rename_i he
      cases hother
      exact ⟨hw, he⟩
    · exact h.placed hother
  files := by
    rw [h.files_update]
    exact hfiles

theorem run_makeDirs (h : Mirrors L root m t) (hw : Worded blob) :
    ∃ t', (Op.makeDirs (root ++ L.dirs blob)).run t = (none, t') ∧
      FileMap IsWord root (L.files m) t' ∧ t'.find (root ++ L.dirs blob) = some .dir :=
  h.files.run_makeDirs (fun dir hdir => (L.words hw dir hdir).1)
    fun dir hdir => L.isName_place hw dir (List.mem_append_left _ hdir)

/-- Where the bundle of a blob is written, its sidecar completes the put. -/
theorem run_write_sidecar (h : Mirrors L root m t) (hw : Worded blob)
    (hfiles : FileMap IsWord root
      (Function.update (L.files m) (L.place blob) (some blob.data)) t')
    (hdir : t'.find (root ++ L.dirs blob) = some .dir) :
    ∃ t'', (Op.write (root ++ sibling (L.place blob) ".meta.json") (L.sidecar blob)).run t' =
        (none, t'') ∧
      Mirrors L root (Function.update m (L.place blob) (some blob)) t'' := by
  have hkey := L.isKey_sibling hw ".meta.json"
  have hnames : ∀ name ∈ sibling (L.place blob) ".meta.json", IsName name :=
    L.isName_sibling hw (by decide) (by decide)
  have hparent : t'.find (root ++ (sibling (L.place blob) ".meta.json").dropLast) =
      some .dir := by
    rwa [Layout.place, sibling_concat, List.dropLast_concat]
  obtain ⟨hwrite, hstored⟩ := hfiles.run_write hkey hnames hparent (L.sidecar blob)
  exact ⟨_, hwrite, h.put hw hstored⟩

/-- The sidecar is still there when the bundle of a blob is gone. -/
theorem removed (h : Mirrors L root m t) (hm : m (L.place blob) = some blob) :
    FileMap IsWord root (Function.update (L.files m) (L.place blob) none)
        (t.set (root ++ L.place blob) none) ∧
      Function.update (L.files m) (L.place blob) none (sibling (L.place blob) ".meta.json") =
        some (L.sidecar blob) := by
  have hne := L.place_ne_nil blob
  refine ⟨(h.files.removed (L.files_of_some hm)).2, ?_⟩
  rw [Function.update_of_ne (L.place_ne_sidecar blob hne).symm, h.files_sidecar hne, hm]
  rfl

/-- A blob is deleted, with its sidecar and nothing else. -/
theorem delete (h : Mirrors L root m t) (hm : m (L.place blob) = some blob) :
    Mirrors L root (Function.update m (L.place blob) none)
        ((t.set (root ++ L.place blob) none).set
          (root ++ sibling (L.place blob) ".meta.json") none) ∧
      ∀ path, ((t.set (root ++ L.place blob) none).set
          (root ++ sibling (L.place blob) ".meta.json") none).find path =
        if path = root ++ L.place blob ∨ path = sibling (root ++ L.place blob) ".meta.json" then
          none else t.find path := by
  obtain ⟨hfiles₁, hside⟩ := h.removed hm
  obtain ⟨hfind₁, -⟩ := h.files.removed (L.files_of_some hm)
  obtain ⟨hfind₂, hfiles₂⟩ := hfiles₁.removed hside
  refine ⟨⟨?_, ?_⟩, ?_⟩
  · intro names other hother
    rw [Function.update_apply] at hother
    split at hother
    · cases hother
    · exact h.placed hother
  · rw [h.files_update]
    exact hfiles₂
  · intro path
    rw [hfind₂, hfind₁, sibling_append root (L.place_ne_nil blob)]
    by_cases hpath : path = root ++ sibling (L.place blob) ".meta.json"
    · rw [if_pos hpath, if_pos (.inr hpath)]
    · rw [if_neg hpath]
      exact if_congr (or_iff_left hpath).symm rfl rfl

theorem find_of_some (h : Mirrors L root m t) (hm : m names = some blob) :
    t.find (root ++ names) = some (.file blob.data) :=
  h.files.files.2 (L.files_of_some hm)

theorem isFile_eq (h : Mirrors L root m t) (hnames : bundleOf names = none) :
    t.isFile (root ++ names) = (m names).isSome := by
  cases hm : m names with
  | some blob => rw [FileTree.isFile, h.find_of_some hm, Option.isSome_some]
  | none =>
    apply Bool.eq_false_of_not_eq_true
    intro hfile
    obtain ⟨data, hfind⟩ := FileTree.isFile_iff.1 hfile
    have hnone := h.files.files.1 hfind
    rw [L.files_of_none hm, hnames] at hnone
    cases hnone

theorem find_sidecar (h : Mirrors L root m t) (hm : m (L.place blob) = some blob) :
    t.find (sibling (root ++ L.place blob) ".meta.json") = some (.file (L.sidecar blob)) := by
  rw [sibling_append root (L.place_ne_nil blob), h.files.files,
    h.files_sidecar (L.place_ne_nil blob), hm]
  rfl

theorem of_bare (hroot : t.find root = some .dir)
    (hbare : ∀ path n, t.find path = some n → root <+: path → path = root) :
    Mirrors L root (fun _ => none) t := by
  have hempty : L.files (fun _ => none) = fun _ => none := by
    funext names
    rw [L.files_of_none rfl, Option.bind_fun_none]
    rfl
  exact ⟨nofun, hempty ▸ .of_bare hroot hbare⟩

theorem locator_eq (h : Mirrors L root m t) (hm : m (splitPath locator) = some blob) :
    locator = joinPath (L.place blob) := by
  rw [← (h.placed hm).2, joinPath_splitPath]

end Mirrors

/-! ### Locators -/

theorem Layout.splitPath_place (L : Layout) (h : Worded blob) :
    splitPath (joinPath (L.place blob)) = L.place blob :=
  splitPath_joinPath (L.place_ne_nil blob) (L.isName_place h)

/-- Blobs at different places have different locators. -/
theorem Layout.nodup_locators (L : Layout) {blobs : List (BackupBlob (List UInt8))}
    (hw : ∀ blob ∈ blobs, Worded blob) (h : (blobs.map L.place).Nodup) :
    (blobs.map fun blob => joinPath (L.place blob)).Nodup := by
  have hsplit : (blobs.map fun blob => splitPath (joinPath (L.place blob))) =
      blobs.map L.place := List.map_congr_left fun blob hblob => L.splitPath_place (hw blob hblob)
  apply List.Nodup.of_map splitPath
  rw [List.map_map]
  exact hsplit ▸ h

/-- The locators of a map, after a change at the place of a blob. -/
theorem Layout.update_splitPath (L : Layout) (h : Worded blob)
    (new : Option (BackupBlob (List UInt8))) (locator : String) :
    Function.update m (L.place blob) new (splitPath locator) =
      if locator = joinPath (L.place blob) then new else m (splitPath locator) := by
  by_cases he : locator = joinPath (L.place blob)
  · rw [if_pos he, he, L.splitPath_place h, Function.update_self]
  · rw [if_neg he, Function.update_of_ne]
    intro hsplit
    rw [← hsplit, joinPath_splitPath] at he
    exact he rfl

theorem forall_blobs_put {P : BackupBlob (List UInt8) → Prop}
    (h : ∀ names blob, m names = some blob → P blob) (hnew : P blob) (place : List String) :
    ∀ names other, Function.update m place (some blob) names = some other → P other := by
  intro names other hother
  rw [Function.update_apply] at hother
  split at hother
  · exact Option.some.inj hother ▸ hnew
  · exact h names other hother

theorem forall_blobs_delete {P : BackupBlob (List UInt8) → Prop}
    (h : ∀ names blob, m names = some blob → P blob) (place : List String) :
    ∀ names other, Function.update m place none names = some other → P other := by
  intro names other hother
  rw [Function.update_apply] at hother
  split at hother
  · cases hother
  · exact h names other hother

theorem IsLocator.place {locator : String} (h : IsLocator locator) :
    ∃ place, place ≠ [] ∧ (∀ name ∈ place, IsName name) ∧ bundleOf place = none ∧
      locator = joinPath place ∧ splitPath locator = place := by
  obtain ⟨⟨place, hne, hnames, rfl⟩, hend⟩ := h
  refine ⟨place, hne, hnames, ?_, rfl, splitPath_joinPath hne hnames⟩
  rw [Option.eq_none_iff_forall_ne_some]
  intro bundle hbundle
  obtain ⟨hparts, rfl⟩ := bundleOf_eq_some_iff.1 hbundle
  apply hend
  rw [sidecar_joinPath hparts, String.toList_append]
  exact List.suffix_append _ _

end

end ScottyCore
