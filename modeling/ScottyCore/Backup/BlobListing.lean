import ScottyCore.Backup.BlobMap

namespace ScottyCore
open Python FileSystem LocalDiskSink TransitionSystem
set_option autoImplicit true

/-! ## Reading sidecars -/

/-- The text of a sidecar reads as the members that the code looks up in it. -/
def ReadsAs (libs : SinkLibraries) (text : String) (blob : BackupBlob Data) (members : JsonDict) :
    Prop :=
  libs.loads text = some (.obj members) ∧
    ∀ key, key ≠ "metadata" → members.lookup key = (sidecarMeta blob).lookup key

instance (app_slug tenant_slug : Option String) (blob : BackupBlob Data) :
    Decidable (PassesFilters app_slug tenant_slug blob) :=
  inferInstanceAs (Decidable (_ ∧ _))

section
variable {libs : SinkLibraries} {blob : BackupBlob (List UInt8)} {members : JsonDict}
variable {text : String}

theorem parseTs_eq_zoned (libs : SinkLibraries) (d : DateTime) :
    libs.parseTs (.str d.isoformat) = zoned d := by
  rw [SinkLibraries.parseTs, fromisoformat_isoformat]
  rfl

theorem ReadsAs.snapshotEntry (h : ReadsAs libs text blob members)
    (hint : ∀ i, libs.int (.int i) = .ok i) (locator : String) (size : Int) :
    snapshotEntry libs locator size (.obj members) = .ok (shownAs locator blob) := by
  rw [snapshotEntry_of_reads hint h.2, entryOf, parseTs_eq_zoned]
  rfl

theorem passesFilter_of_lookup {key : String} {found : Option String} (filter : Option String)
    (h : members.lookup key = some (optional found)) :
    passesFilter filter key (.obj members) =
      .ok (decide (∀ slug ∈ filter, slug ≠ "" → found = some slug)) := by
  have hget : metaGet key .null (.obj members) = .ok (optional found) := by
    rw [metaGet, h]
    rfl
  rw [passesFilter]
  cases filter with
  | none => rfl
  | some slug =>
    by_cases hslug : slug = ""
    · rw [Option.filter_some_neg (by simpa using hslug)]
      simp [hslug]
    · rw [Option.filter_some_pos (by simpa using hslug)]
      dsimp only
      rw [hget]
      cases found with
      | none => simp [optional, bind, Except.bind, hslug]
      | some found => simp [optional, bind, Except.bind, hslug]

/-- Both filters of a listing, one after the other. -/
theorem ReadsAs.passes (h : ReadsAs libs text blob members) (app_slug tenant_slug : Option String)
    (next : Except Exc (Option β)) :
    (do
      if ← passesFilter app_slug "app_slug" (.obj members) then
        if ← passesFilter tenant_slug "tenant_slug" (.obj members) then next
        else .ok none
      else .ok none) =
    if PassesFilters app_slug tenant_slug blob then next else .ok none := by
  have happ : members.lookup "app_slug" = some (optional (some blob.app_slug)) :=
    h.2 "app_slug" (by decide)
  have htenant : members.lookup "tenant_slug" = some (optional blob.tenant_slug) :=
    h.2 "tenant_slug" (by decide)
  have hpasses : PassesFilters app_slug tenant_slug blob ↔
      (∀ slug ∈ app_slug, slug ≠ "" → some blob.app_slug = some slug) ∧
        ∀ slug ∈ tenant_slug, slug ≠ "" → blob.tenant_slug = some slug := by
    simp only [PassesFilters, Option.some_inj]
  rw [passesFilter_of_lookup app_slug happ, passesFilter_of_lookup tenant_slug htenant]
  by_cases hfirst : ∀ slug ∈ app_slug, slug ≠ "" → some blob.app_slug = some slug
  · by_cases hsecond : ∀ slug ∈ tenant_slug, slug ≠ "" → blob.tenant_slug = some slug
    · rw [decide_eq_true hfirst, decide_eq_true hsecond, if_pos (hpasses.2 ⟨hfirst, hsecond⟩)]
      rfl
    · rw [decide_eq_true hfirst, decide_eq_false hsecond,
        if_neg fun hboth => hsecond (hpasses.1 hboth).2]
      rfl
  · rw [decide_eq_false hfirst, if_neg fun hboth => hfirst (hpasses.1 hboth).1]
    rfl

end

/-! ## The blobs that a listing finds -/

/-- The blobs of the sidecars in a store. -/
def storedBlobs (root : List String) (m : BlobMap) (t : Disk) : List (BackupBlob (List UInt8)) :=
  (sidecars root t).filterMap fun x => m ((x.1 ++ [x.2]).drop root.length)

/-- The stored blobs that pass the filters. -/
def selectedBlobs (root : List String) (m : BlobMap) (app_slug tenant_slug : Option String)
    (t : Disk) : List (BackupBlob (List UInt8)) :=
  (storedBlobs root m t).filter fun blob => PassesFilters app_slug tenant_slug blob

namespace Mirrors

variable {L : Layout} {root : List String} {m : BlobMap} {t : Disk}
variable {blob : BackupBlob (List UInt8)} {app_slug tenant_slug : Option String}

theorem mem_sidecars (h : Mirrors L root m t) {dirs : List String} {name : String} :
    (dirs, name) ∈ sidecars root t ↔
      ∃ blob, dirs ++ [name] = root ++ L.place blob ∧ m (L.place blob) = some blob := by
  rw [mem_sidecars_iff]
  constructor
  · rintro ⟨⟨below, rfl⟩, hside⟩
    obtain ⟨n, hfind⟩ := Option.isSome_iff_exists.1 hside
    have hne : below ++ [name] ≠ [] := List.append_ne_nil_of_right_ne_nil _ (List.cons_ne_nil _ _)
    rw [List.append_assoc] at hfind
    cases n with
    | dir =>
      have hword := h.files.dirs hfind _ (List.mem_append_right _ List.mem_cons_self)
      refine (hword.undotted ?_).elim
      rw [String.toList_append]
      exact List.mem_append_right _ (by decide)
    | file data =>
      have hfile := h.files.files.1 hfind
      rw [← sibling_concat, h.files_sidecar hne, Option.map_eq_some_iff] at hfile
      obtain ⟨blob, hblob, -⟩ := hfile
      obtain ⟨-, he⟩ := h.placed hblob
      exact ⟨blob, by rw [← he, List.append_assoc], he ▸ hblob⟩
  · rintro ⟨blob, he, hblob⟩
    have hfind := h.find_sidecar hblob
    rw [← he, sibling_concat] at hfind
    refine ⟨?_, hfind ▸ rfl⟩
    rw [Layout.place, ← List.append_assoc] at he
    obtain ⟨rfl, -⟩ := List.append_inj' he rfl
    exact List.prefix_append _ _

theorem blob_of_sidecar (h : Mirrors L root m t) {x : List String × String}
    (hx : x ∈ sidecars root t) :
    ∃ blob, m ((x.1 ++ [x.2]).drop root.length) = some blob ∧
      x.1 ++ [x.2] = root ++ L.place blob ∧ m (L.place blob) = some blob := by
  obtain ⟨blob, he, hm⟩ := h.mem_sidecars.1 hx
  refine ⟨blob, ?_, he, hm⟩
  rw [he, List.drop_left, hm]

theorem mem_storedBlobs (h : Mirrors L root m t) :
    blob ∈ storedBlobs root m t ↔ m (L.place blob) = some blob := by
  rw [storedBlobs, List.mem_filterMap]
  constructor
  · rintro ⟨x, hx, hblob⟩
    obtain ⟨other, hother, -, hm⟩ := h.blob_of_sidecar hx
    cases hother.symm.trans hblob
    exact hm
  · intro hblob
    have hplace : (root ++ L.dirs blob) ++ [bundleFile blob] = root ++ L.place blob :=
      List.append_assoc _ _ _
    refine ⟨(root ++ L.dirs blob, bundleFile blob), h.mem_sidecars.2 ⟨blob, hplace, hblob⟩, ?_⟩
    rw [hplace, List.drop_left, hblob]

theorem nodup_storedBlobs (h : Mirrors L root m t) :
    ((storedBlobs root m t).map L.place).Nodup := by
  have hplaces : ((storedBlobs root m t).map fun blob => root ++ L.place blob).Nodup := by
    apply List.Nodup.sublist (filterMap_map_sublist _) (nodup_sidecars root t)
    intro x hx blob hblob
    obtain ⟨other, hother, he, -⟩ := h.blob_of_sidecar hx
    cases hother.symm.trans hblob
    exact he.symm
  apply List.Nodup.of_map (root ++ ·)
  rwa [List.map_map]

theorem mem_selectedBlobs (h : Mirrors L root m t) :
    blob ∈ selectedBlobs root m app_slug tenant_slug t ↔
      m (L.place blob) = some blob ∧ PassesFilters app_slug tenant_slug blob := by
  rw [selectedBlobs, List.mem_filter, h.mem_storedBlobs, decide_eq_true_iff]

/-- A pass over the sidecars that makes something of each blob that passes the filters. -/
theorem filterMap_sidecars (g : BackupBlob (List UInt8) → β) :
    ((sidecars root t).map fun x => (m ((x.1 ++ [x.2]).drop root.length)).bind fun blob =>
        if PassesFilters app_slug tenant_slug blob then some (g blob) else none).filterMap id =
      (selectedBlobs root m app_slug tenant_slug t).map g := by
  rw [selectedBlobs, storedBlobs, List.filterMap_map, ← List.filterMap_eq_map,
    List.filterMap_filter, List.filterMap_filterMap]
  simp only [Function.comp_def, id, decide_eq_true_eq]

end Mirrors

end ScottyCore
