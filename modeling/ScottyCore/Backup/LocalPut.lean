import ScottyCore.Backup.LocalDisk
import ScottyCore.Lib.Raise

namespace ScottyCore
open Python FileSystem LocalDiskSink
set_option autoImplicit true

/-! ## The names that `put` uses -/

/-- The last letter of the last name of a path. It tells bundles from sidecars and temporary files. -/
def lastChar (path : List String) : Option Char :=
  path.getLast?.bind fun name => name.toList.getLast?

theorem lastChar_concat (dirs : List String) (s : String) (h : ending.toList ≠ []) :
    lastChar (dirs ++ [s ++ ending]) = ending.toList.getLast? := by
  rw [lastChar, List.getLast?_concat, Option.bind_some, String.toList_append,
    List.getLast?_append_of_ne_nil _ h]

def BundleChar (c : Option Char) : Prop := c = some 'z' ∨ c = some 'g'

theorem ext_length (blob : BackupBlob Data) : 2 < blob.ext.length := by
  rw [BackupBlob.ext]
  split
  · decide
  · decide

theorem ext_part (blob : BackupBlob Data) : IsPart blob.ext := by
  rw [BackupBlob.ext]
  split
  · decide
  · decide

theorem ext_ne_nil (blob : BackupBlob Data) : blob.ext.toList ≠ [] := by
  rw [BackupBlob.ext]
  split
  · decide
  · decide

theorem bundleChar_ext (blob : BackupBlob Data) : BundleChar blob.ext.toList.getLast? := by
  rw [BackupBlob.ext]
  split
  · exact .inr (by decide)
  · exact .inl (by decide)

theorem defaultFilename_ext (blob : BackupBlob Data) :
    ∃ s, defaultFilename blob = s ++ blob.ext := by
  rw [defaultFilename]
  split
  · exact ⟨_, by rw [← String.append_assoc, ← String.append_assoc, ← String.append_assoc]⟩
  · exact ⟨_, by rw [← String.append_assoc, ← String.append_assoc, ← String.append_assoc]⟩

theorem defaultFilename_of_ok {blob : BackupBlob Data} (h : fileNameOf blob = .ok rel) :
    rel = defaultFilename blob := by
  rw [fileNameOf] at h
  split at h
  · exact (Except.ok.inj h).symm
  · cases h

theorem target_of_blob (root : List String) {blob : BackupBlob Data} (h : fileNameOf blob = .ok rel) :
    ∃ dirs stem, targetParts root rel = dirs ++ [stem ++ blob.ext] := by
  obtain ⟨s, hs⟩ := defaultFilename_ext blob
  rw [defaultFilename_of_ok h, hs]
  have hlen := ext_length blob
  exact targetParts_append_part root s (ext_part blob).1 (by omega)

@[simp] theorem sibling_concat (dirs : List String) (name ending : String) :
    sibling (dirs ++ [name]) ending = dirs ++ [name ++ ending] := by
  rw [sibling, List.dropLast_concat, List.getLast?_concat]
  rfl

theorem WriterTag.isPart_digits (s : String) (h : ∀ c ∈ s.toList, c.isAlphanum = true) :
    IsPart s :=
  ⟨fun hc => Bool.false_ne_true (h _ hc), fun hc => Bool.false_ne_true (h _ hc)⟩

theorem WriterTag.pid_digits (tag : WriterTag) : ∀ c ∈ tag.pid.toList, c.isAlphanum = true :=
  fun c hc => tag.digits c (List.mem_append_left _ hc)

theorem WriterTag.address_digits (tag : WriterTag) :
    ∀ c ∈ tag.address.toList, c.isAlphanum = true :=
  fun c hc => tag.digits c (List.mem_append_right _ hc)

theorem WriterTag.ending_part (tag : WriterTag) : IsPart tag.ending :=
  isPart_append (isPart_append (isPart_append (isPart_append (by decide)
    (isPart_digits _ tag.pid_digits)) (by decide)) (isPart_digits _ tag.address_digits)) (by decide)

theorem WriterTag.ending_ne_nil (tag : WriterTag) : tag.ending.toList ≠ [] := by
  rw [ending, String.toList_append]
  exact List.append_ne_nil_of_right_ne_nil _ (by decide)

theorem WriterTag.getLast?_ending (tag : WriterTag) : tag.ending.toList.getLast? = some 't' := by
  rw [ending, String.toList_append, List.getLast?_append_of_ne_nil _ (by decide)]
  decide

theorem WriterTag.ending_length (tag : WriterTag) : 2 < tag.ending.length :=
  length_append_of_ending _ (by decide)

/-- A temporary name tells the file and the writer. -/
theorem WriterTag.eq_of_ending {tag tag' : WriterTag} {name name' : String}
    (h : name ++ tag.ending = name' ++ tag'.ending) : name = name' ∧ tag = tag' := by
  have hdot : ∀ {s : String}, (∀ c ∈ s.toList, c.isAlphanum = true) → '.' ∉ s.toList :=
    fun hs hc => Bool.false_ne_true (hs _ hc)
  have hlist : ∀ (name : String) (tag : WriterTag), (name ++ tag.ending).toList =
      (name.toList ++ '.' :: tag.pid.toList ++ '.' :: tag.address.toList) ++ ".part".toList := by
    intro name tag
    rw [ending]
    simp only [String.toList_append, List.append_assoc]
    rfl
  have hchars := congrArg String.toList h
  rw [hlist, hlist] at hchars
  obtain ⟨hfront, haddress⟩ := eq_of_append_sep (hdot tag.address_digits) (hdot tag'.address_digits)
    (List.append_cancel_right hchars)
  obtain ⟨hname, hpid⟩ := eq_of_append_sep (hdot tag.pid_digits) (hdot tag'.pid_digits) hfront
  refine ⟨String.toList_inj.1 hname, ?_⟩
  cases tag
  cases tag'
  congr
  · exact String.toList_inj.1 hpid
  · exact String.toList_inj.1 haddress

/-! ## What `put` leaves -/

section
variable {libs : SinkLibraries} {sink : LocalDiskSink} {tag : WriterTag}
  {blob : BackupBlob (List UInt8)} {t t₁ : Disk} {rel stem : String} {dirs : List String}

/-- The places of the bundle, the temporary file and the sidecar. -/
def placeIn (dirs : List String) (name : String) : List String := resolveParts dirs ++ [name]

theorem resolveParts_bundle (dirs : List String) (stem : String) (blob : BackupBlob Data) :
    resolveParts (dirs ++ [stem ++ blob.ext]) = placeIn dirs (stem ++ blob.ext) :=
  resolveParts_concat_of_length dirs (length_append_of_ending stem (ext_length blob))

theorem resolveParts_beside (dirs : List String) (name : String) (h : 2 < ending.length) :
    resolveParts (dirs ++ [name ++ ending]) = placeIn dirs (name ++ ending) :=
  resolveParts_concat_of_length dirs (length_append_of_ending name h)

theorem lastChar_bundle (dirs : List String) (stem : String) (blob : BackupBlob Data) :
    BundleChar (lastChar (placeIn dirs (stem ++ blob.ext))) := by
  rw [placeIn, lastChar_concat _ _ (ext_ne_nil blob)]
  exact bundleChar_ext blob

theorem lastChar_tmp (dirs : List String) (name : String) (tag : WriterTag) :
    lastChar (placeIn dirs (name ++ tag.ending)) = some 't' := by
  rw [placeIn, lastChar_concat _ _ tag.ending_ne_nil, tag.getLast?_ending]

theorem lastChar_sidecar (dirs : List String) (name : String) :
    lastChar (placeIn dirs (name ++ ".meta.json")) = some 'n' := by
  rw [placeIn, lastChar_concat _ _ (by decide)]
  decide

theorem BundleChar.ne {p q : List String} (h : BundleChar (lastChar p)) (hq : lastChar q = some c)
    (hc : c ≠ 'z' ∧ c ≠ 'g') : p ≠ q := by
  rintro rfl
  rcases h with h | h
  · exact hc.1 (Option.some.inj (hq.symm.trans h))
  · exact hc.2 (Option.some.inj (hq.symm.trans h))

theorem putOps_eq (htarget : targetParts sink.root rel = dirs ++ [stem ++ blob.ext]) :
    sink.putOps libs tag blob rel = .makeDirs dirs ::
      ([.write (dirs ++ [stem ++ blob.ext ++ tag.ending]) blob.data,
        .rename (dirs ++ [stem ++ blob.ext ++ tag.ending]) (dirs ++ [stem ++ blob.ext])] ++
      [.write (dirs ++ [stem ++ blob.ext ++ ".meta.json"])
        (sidecarBytes libs blob)]) := by
  rw [putOps, htarget, sibling_concat, sibling_concat, List.dropLast_concat]
  rfl

/-- The disk once the bundle is in its place. -/
def placed (tag : WriterTag) (blob : BackupBlob (List UInt8)) (dirs : List String) (name : String)
    (t : Disk) : Disk :=
  ((t.set (placeIn dirs (name ++ tag.ending)) (some (.file blob.data))).set (placeIn dirs name)
    (some (.file blob.data))).set (placeIn dirs (name ++ tag.ending)) none

/-- The disk once the sidecar is beside it. -/
def written (libs : SinkLibraries) (tag : WriterTag) (blob : BackupBlob (List UInt8))
    (dirs : List String) (name : String) (t : Disk) : Disk :=
  (placed tag blob dirs name t).set (placeIn dirs (name ++ ".meta.json"))
    (some (.file (sidecarBytes libs blob)))

theorem tmp_ne_bundle (dirs : List String) (stem : String) (blob : BackupBlob Data)
    (tag : WriterTag) :
    placeIn dirs (stem ++ blob.ext ++ tag.ending) ≠ placeIn dirs (stem ++ blob.ext) :=
  ((lastChar_bundle dirs stem blob).ne (lastChar_tmp dirs _ tag) (by decide)).symm

theorem sidecar_ne_bundle (dirs : List String) (stem : String) (blob : BackupBlob Data) :
    placeIn dirs (stem ++ blob.ext ++ ".meta.json") ≠ placeIn dirs (stem ++ blob.ext) :=
  ((lastChar_bundle dirs stem blob).ne (lastChar_sidecar dirs _) (by decide)).symm

theorem sidecar_ne_tmp (dirs dirs' : List String) (name name' : String) (tag : WriterTag) :
    placeIn dirs (name ++ ".meta.json") ≠ placeIn dirs' (name' ++ tag.ending) := by
  intro he
  have hlast := lastChar_sidecar dirs name
  rw [he, lastChar_tmp] at hlast
  cases hlast

theorem runOps_put_of_made (htarget : targetParts sink.root rel = dirs ++ [stem ++ blob.ext])
    (hparts : ∀ p ∈ dirs ++ [stem ++ blob.ext], IsPart p)
    (hmade : t.makeDirs [] dirs = (none, t₁)) :
    runOps (sink.putOps libs tag blob rel) t =
      runOps ([.write (dirs ++ [stem ++ blob.ext ++ tag.ending]) blob.data,
        .rename (dirs ++ [stem ++ blob.ext ++ tag.ending]) (dirs ++ [stem ++ blob.ext])] ++
      [.write (dirs ++ [stem ++ blob.ext ++ ".meta.json"])
        (sidecarBytes libs blob)]) t₁ := by
  rw [putOps_eq htarget]
  apply runOps_cons_of_ok
  rw [run_makeDirs fun p hp => hparts p (List.mem_append_left _ hp), hmade]

theorem runOps_replace_put (hparts : ∀ p ∈ dirs ++ [stem ++ blob.ext], IsPart p)
    (hmade : t.makeDirs [] dirs = (none, t₁)) :
    runOps [.write (dirs ++ [stem ++ blob.ext ++ tag.ending]) blob.data,
        .rename (dirs ++ [stem ++ blob.ext ++ tag.ending]) (dirs ++ [stem ++ blob.ext])] t₁ =
      if t₁.isDir (placeIn dirs (stem ++ blob.ext ++ tag.ending)) then (some .isADirectory, t₁)
      else if t₁.isDir (placeIn dirs (stem ++ blob.ext)) then
        (some .isADirectory, t₁.set (placeIn dirs (stem ++ blob.ext ++ tag.ending))
          (some (.file blob.data)))
      else
        (none, placed tag blob dirs (stem ++ blob.ext) t₁) := by
  have hbundle := resolveParts_bundle dirs stem blob
  have htmp := resolveParts_beside dirs (stem ++ blob.ext) tag.ending_length
  have hreplace := runOps_replace (way_of_made hparts hmade)
    (parts_beside hparts tag.ending_part) hparts
    (by rw [hbundle, htmp]; exact tmp_ne_bundle dirs stem blob tag) blob.data
  rwa [hbundle, htmp] at hreplace

theorem find_placed_of_ne (htmp : q ≠ placeIn dirs (name ++ tag.ending))
    (hbundle : q ≠ placeIn dirs name) : (placed tag blob dirs name t).find q = t.find q := by
  rw [placed, FileTree.find_set_of_ne _ _ htmp, FileTree.find_set_of_ne _ _ hbundle,
    FileTree.find_set_of_ne _ _ htmp]

theorem find_placed_of_dir (h : t.find q = some .dir) :
    (placed tag blob dirs name t).find q = some .dir :=
  FileTree.find_set_of_dir (FileTree.find_set_of_dir (FileTree.find_set_of_dir h _) _) _

theorem isDir_placed_sidecar (dirs : List String) (stem : String) (t : Disk) :
    (placed tag blob dirs (stem ++ blob.ext) t).isDir
        (placeIn dirs (stem ++ blob.ext ++ ".meta.json")) =
      t.isDir (placeIn dirs (stem ++ blob.ext ++ ".meta.json")) := by
  have htmp := sidecar_ne_tmp dirs dirs (stem ++ blob.ext) (stem ++ blob.ext) tag
  rw [FileTree.isDir, find_placed_of_ne htmp (sidecar_ne_bundle dirs stem blob), FileTree.isDir]

theorem runOps_put_of_free (htarget : targetParts sink.root rel = dirs ++ [stem ++ blob.ext])
    (hparts : ∀ p ∈ dirs ++ [stem ++ blob.ext], IsPart p) (hmade : t.makeDirs [] dirs = (none, t₁))
    (htmp : t₁.isDir (placeIn dirs (stem ++ blob.ext ++ tag.ending)) = false)
    (hbundle : t₁.isDir (placeIn dirs (stem ++ blob.ext)) = false) :
    runOps (sink.putOps libs tag blob rel) t =
      if t₁.isDir (placeIn dirs (stem ++ blob.ext ++ ".meta.json")) then
        (some .isADirectory, placed tag blob dirs (stem ++ blob.ext) t₁)
      else (none, written libs tag blob dirs (stem ++ blob.ext) t₁) := by
  have hreplace : runOps [.write (dirs ++ [stem ++ blob.ext ++ tag.ending]) blob.data,
      .rename (dirs ++ [stem ++ blob.ext ++ tag.ending]) (dirs ++ [stem ++ blob.ext])] t₁ = _ :=
    runOps_replace_put hparts hmade
  rw [htmp, hbundle, if_neg Bool.false_ne_true, if_neg Bool.false_ne_true] at hreplace
  rw [runOps_put_of_made htarget hparts hmade, runOps_append_of_ok hreplace]
  have hside : resolveParts (dirs ++ [stem ++ blob.ext ++ ".meta.json"]) =
      placeIn dirs (stem ++ blob.ext ++ ".meta.json") := resolveParts_beside dirs _ (by decide)
  have hsideparts : ∀ p ∈ dirs ++ [stem ++ blob.ext ++ ".meta.json"], IsPart p :=
    parts_beside hparts (by decide)
  have hway : ∀ q ∈ way [] dirs,
      (placed tag blob dirs (stem ++ blob.ext) t₁).find q = some .dir :=
    fun q hq => find_placed_of_dir (way_of_made hparts hmade q hq)
  have hwrite := run_write hway hsideparts (sidecarBytes libs blob)
  rw [hside, isDir_placed_sidecar] at hwrite
  split
  · rename_i hdir
    apply runOps_cons_of_fault
    rw [hwrite, if_pos hdir]
  · rename_i hdir
    rw [if_neg hdir] at hwrite
    exact runOps_cons_of_ok hwrite []

/-! ## When `put` raises -/

/-- A directory stands at a place, or is made there on the way. -/
def DirThere (t : Disk) (dirs path : List String) : Prop :=
  t.find (resolveParts path) = some .dir ∨ resolveParts path ∈ way [] dirs

/-- `put` of a blob at a target fails: a null byte, a file in the way, or a directory where a file
is to stand. -/
def TargetFails (tag : WriterTag) (target : List String) (t : Disk) : Prop :=
  (∃ p ∈ target, ¬ IsPart p) ∨ (∃ q ∈ way [] target.dropLast, t.isFile q = true) ∨
    ∃ path ∈ [sibling target tag.ending, target, sibling target ".meta.json"],
      DirThere t target.dropLast path

/-- `put` raises. -/
def PutFails (sink : LocalDiskSink) (tag : WriterTag) (blob : BackupBlob (List UInt8)) (t : Disk) :
    Prop :=
  match fileNameOf blob with
  | .error _ => True
  | .ok rel => TargetFails tag (targetParts sink.root rel) t

theorem dirThere_iff (hparts : ∀ p ∈ dirs ++ [name], IsPart p)
    (hmade : t.makeDirs [] dirs = (none, t₁)) (path : List String) :
    DirThere t dirs path ↔ t₁.isDir (resolveParts path) = true := by
  have hiff := FileTree.find_makeDirs_dir_iff (q := resolveParts path) t.find_nil
    (fun p hp => hparts p (List.mem_append_left _ hp)) (congrArg Prod.fst hmade)
  rw [hmade] at hiff
  rw [DirThere, ← hiff, FileTree.isDir_iff]

theorem fault_of_unclean (htarget : targetParts sink.root rel = dirs ++ [stem ++ blob.ext])
    (h : ¬ ∀ p ∈ dirs ++ [stem ++ blob.ext], IsPart p) :
    (runOps (sink.putOps libs tag blob rel) t).1 ≠ none := by
  rw [putOps_eq htarget]
  by_cases hdirs : ∀ p ∈ dirs, IsPart p
  · rw [runOps, run_makeDirs hdirs]
    split
    · have hwrite : ∀ t' : Disk, (Op.write (dirs ++ [stem ++ blob.ext ++ tag.ending]) blob.data).run
          t' = (some .nullByte, t') := by
        intro t'
        rw [Op.run.eq_def, if_neg]
        intro hclean
        apply h
        intro p hp
        rcases List.mem_append.1 hp with hp | hp
        · exact hdirs p hp
        · rw [List.mem_singleton.1 hp]
          have hname := of_decide_eq_true (List.all_eq_true.1 hclean _
            (List.mem_append_right _ List.mem_cons_self))
          rw [IsPart, String.toList_append, List.mem_append, List.mem_append, not_or, not_or] at hname
          exact ⟨hname.1.1, hname.2.1⟩
      rw [List.cons_append, runOps_cons_of_fault (hwrite _)]
      exact Option.some_ne_none _
    · exact Option.some_ne_none _
  · have hmake : (Op.makeDirs dirs).run t = (some .nullByte, t) := by
      rw [Op.run.eq_def, if_neg]
      intro hclean
      exact hdirs fun p hp => of_decide_eq_true (List.all_eq_true.1 hclean p hp)
    rw [runOps_cons_of_fault hmake]
    exact Option.some_ne_none _

theorem runOps_put_ok_iff (htarget : targetParts sink.root rel = dirs ++ [stem ++ blob.ext])
    (hparts : ∀ p ∈ dirs ++ [stem ++ blob.ext], IsPart p)
    (hmade : t.makeDirs [] dirs = (none, t₁)) :
    (runOps (sink.putOps libs tag blob rel) t).1 = none ↔
      t₁.isDir (placeIn dirs (stem ++ blob.ext ++ tag.ending)) = false ∧
      t₁.isDir (placeIn dirs (stem ++ blob.ext)) = false ∧
      t₁.isDir (placeIn dirs (stem ++ blob.ext ++ ".meta.json")) = false := by
  have hreplace : runOps [.write (dirs ++ [stem ++ blob.ext ++ tag.ending]) blob.data,
      .rename (dirs ++ [stem ++ blob.ext ++ tag.ending]) (dirs ++ [stem ++ blob.ext])] t₁ = _ :=
    runOps_replace_put hparts hmade
  cases htmp : t₁.isDir (placeIn dirs (stem ++ blob.ext ++ tag.ending)) with
  | true =>
    rw [htmp, if_pos rfl] at hreplace
    rw [runOps_put_of_made htarget hparts hmade, runOps_append_of_fault hreplace]
    exact iff_of_false (Option.some_ne_none _) fun h => Bool.noConfusion h.1
  | false =>
    cases hbundle : t₁.isDir (placeIn dirs (stem ++ blob.ext)) with
    | true =>
      rw [htmp, hbundle, if_neg Bool.false_ne_true, if_pos rfl] at hreplace
      rw [runOps_put_of_made htarget hparts hmade, runOps_append_of_fault hreplace]
      exact iff_of_false (Option.some_ne_none _) fun h => Bool.noConfusion h.2.1
    | false =>
      rw [runOps_put_of_free htarget hparts hmade htmp hbundle]
      cases t₁.isDir (placeIn dirs (stem ++ blob.ext ++ ".meta.json")) with
      | true => exact iff_of_false (Option.some_ne_none _) fun h => Bool.noConfusion h.2.2
      | false => exact iff_of_true rfl ⟨rfl, rfl, rfl⟩

theorem targetFails_iff (htarget : targetParts sink.root rel = dirs ++ [stem ++ blob.ext]) :
    TargetFails tag (dirs ++ [stem ++ blob.ext]) t ↔
      (runOps (sink.putOps libs tag blob rel) t).1 ≠ none := by
  by_cases hparts : ∀ p ∈ dirs ++ [stem ++ blob.ext], IsPart p
  · have hdirs : ∀ p ∈ dirs, IsPart p := fun p hp => hparts p (List.mem_append_left _ hp)
    rw [TargetFails, List.dropLast_concat, sibling_concat, sibling_concat]
    rcases hmade : t.makeDirs [] dirs with ⟨_ | f, t₁⟩
    · have hfree := (FileTree.makeDirs_ok_iff t.find_nil hdirs).1 (congrArg Prod.fst hmade)
      rw [ne_eq, runOps_put_ok_iff htarget hparts hmade]
      simp only [List.mem_cons, List.not_mem_nil, or_false, exists_eq_or_imp, exists_eq_left,
        dirThere_iff hparts hmade, resolveParts_bundle, resolveParts_beside _ _ tag.ending_length,
        resolveParts_beside dirs _ (show 2 < ".meta.json".length by decide)]
      constructor
      · rintro (⟨p, hp, hpart⟩ | ⟨q, hq, hfile⟩ | hdir) ⟨htmp, hbundle, hside⟩
        · exact hpart (hparts p hp)
        · rw [hfree q hq] at hfile
          cases hfile
        · rw [htmp, hbundle, hside] at hdir
          rcases hdir with h | h | h
          · cases h
          · cases h
          · cases h
      · intro h
        by_contra hnone
        obtain ⟨htmp, hrest⟩ := not_or.1 (not_or.1 (not_or.1 hnone).2).2
        obtain ⟨hbundle, hside⟩ := not_or.1 hrest
        exact h ⟨Bool.eq_false_iff.2 htmp, Bool.eq_false_iff.2 hbundle, Bool.eq_false_iff.2 hside⟩
    · refine iff_of_true (.inr (.inl ?_)) ?_
      · apply FileTree.exists_file_of_blocked t.find_nil hdirs
        rw [hmade]
        exact Option.some_ne_none f
      · rw [putOps_eq htarget, runOps_cons_of_fault ((run_makeDirs hdirs).trans hmade)]
        exact Option.some_ne_none f
  · refine iff_of_true (.inl ?_) (fault_of_unclean htarget hparts)
    by_contra hnone
    exact hparts fun p hp => by_contra fun hpart => hnone ⟨p, hp, hpart⟩

/-! ## Reading back -/

theorem resolve_ok {locator : String} (h : sink.resolve locator t = .ok path) :
    path = sink.placeOf locator ∧ sink.root <+: path ∧ t.isFile path = true := by
  rw [resolve] at h
  split at h
  · split at h
    · rename_i hin
      split at h
      · rename_i hfile
        cases h
        exact ⟨rfl, hin, hfile⟩
      · cases h
    · cases h
  · cases h

theorem get_of_find {locator : String} (hparts : ∀ p ∈ targetParts sink.root locator, IsPart p)
    (hin : sink.root <+: sink.placeOf locator)
    (h : t.find (sink.placeOf locator) = some (.file data)) :
    sink.get locator t = .ok data := by
  have hfile : t.isFile (sink.placeOf locator) = true := FileTree.isFile_iff.2 ⟨data, h⟩
  have hresolve : sink.resolve locator t = .ok (sink.placeOf locator) := by
    rw [resolve, if_pos hparts]
    exact (if_pos hin).trans (if_pos hfile)
  rw [LocalDiskSink.get]
  apply bind_eq_ok.2
  refine ⟨_, hresolve, ?_⟩
  rw [h]

theorem exists_concat_of_file (h : t.find path = some (.file data)) :
    ∃ dirs name, path = dirs ++ [name] ∧ IsName name := by
  rcases List.eq_nil_or_concat path with rfl | ⟨dirs, name, rfl⟩
  · cases h
  · rw [List.concat_eq_append] at h
    refine ⟨dirs, name, List.concat_eq_append, ?_⟩
    exact FileTree.names_of_find h name (List.mem_append_right _ List.mem_cons_self)

theorem places_putOps (htarget : targetParts sink.root rel = dirs ++ [stem ++ blob.ext])
    (hop : op ∈ sink.putOps libs tag blob rel) (hq : q ∈ op.places) :
    q = placeIn dirs (stem ++ blob.ext ++ tag.ending) ∨ q = placeIn dirs (stem ++ blob.ext) ∨
      q = placeIn dirs (stem ++ blob.ext ++ ".meta.json") := by
  have htmp := resolveParts_beside dirs (stem ++ blob.ext) tag.ending_length
  have hside : resolveParts (dirs ++ [stem ++ blob.ext ++ ".meta.json"]) =
      placeIn dirs (stem ++ blob.ext ++ ".meta.json") := resolveParts_beside dirs _ (by decide)
  rw [putOps_eq htarget] at hop
  rcases List.mem_cons.1 hop with rfl | hop
  · cases hq
  rcases List.mem_cons.1 hop with rfl | hop
  · exact .inl ((List.mem_singleton.1 hq).trans htmp)
  rcases List.mem_cons.1 hop with rfl | hop
  · rcases List.mem_cons.1 hq with hq | hq
    · exact .inl (hq.trans htmp)
    · exact .inr (.inl ((List.mem_singleton.1 hq).trans (resolveParts_bundle dirs stem blob)))
  · rw [List.mem_singleton.1 hop] at hq
    exact .inr (.inr ((List.mem_singleton.1 hq).trans hside))

theorem places_unlinkOps (hnames : ∀ p ∈ dirs ++ [name], IsName p)
    (hop : op ∈ unlinkOps (dirs ++ [name])) (hq : q ∈ op.places) :
    q = dirs ++ [name] ∨ q = placeIn dirs (name ++ ".meta.json") := by
  have hside : resolveParts (dirs ++ [name ++ ".meta.json"]) =
      placeIn dirs (name ++ ".meta.json") := resolveParts_beside dirs _ (by decide)
  rw [unlinkOps, sibling_concat] at hop
  rcases List.mem_cons.1 hop with rfl | hop
  · exact .inl ((List.mem_singleton.1 hq).trans (resolveFrom_of_names [] hnames))
  · rw [List.mem_singleton.1 hop] at hq
    exact .inr ((List.mem_singleton.1 hq).trans hside)

/-- A bundle stays as it is under every call that does not write or delete it. -/
theorem find_after {call : SinkCall} (h : t.find path = some (.file data))
    (hbundle : BundleChar (lastChar path)) (hcall : ¬ sink.Changes path call) :
    (sink.after libs call t).find path = some (.file data) := by
  cases call with
  | get locator => exact h
  | list app_slug tenant_slug => exact h
  | put tag blob =>
    rw [after, put]
    cases hname : fileNameOf blob with
    | error e => exact h
    | ok rel =>
      obtain ⟨dirs, stem, htarget⟩ := target_of_blob sink.root hname
      have hkept : (runOps (sink.putOps libs tag blob rel) t).2.find path = some (.file data) := by
        apply find_runOps_of_some h
        intro op hop hq
        rcases places_putOps htarget hop hq with hq | hq | hq
        · exact hbundle.ne (lastChar_tmp dirs (stem ++ blob.ext) tag) (by decide) hq
        · rw [← resolveParts_bundle, ← htarget] at hq
          exact hcall ⟨rel, hname, hq.symm⟩
        · exact hbundle.ne (lastChar_sidecar dirs (stem ++ blob.ext)) (by decide) hq
      dsimp only
      split
      · rename_i f t' hrun
        rwa [hrun] at hkept
      · rename_i t' hrun
        rwa [hrun] at hkept
  | delete locator =>
    rw [after, delete]
    cases hresolve : sink.resolve locator t with
    | error e => exact h
    | ok place =>
      obtain ⟨hplace, hin, hfile⟩ := resolve_ok hresolve
      obtain ⟨gone, hgone⟩ := FileTree.isFile_iff.1 hfile
      obtain ⟨dirs, name, hconcat, -⟩ := exists_concat_of_file hgone
      have hkept : (runOps (unlinkOps place) t).2.find path = some (.file data) := by
        apply find_runOps_of_some h
        intro op hop hq
        rw [hconcat] at hop hgone
        rcases places_unlinkOps (FileTree.names_of_find hgone) hop hq with hq | hq
        · exact hcall ((hq.trans hconcat.symm).trans hplace).symm
        · exact hbundle.ne (lastChar_sidecar dirs name) (by decide) hq
      dsimp only
      split
      · rename_i f t' hrun
        rwa [hrun] at hkept
      · rename_i t' hrun
        rwa [hrun] at hkept

theorem find_calls {calls : List SinkCall} (h : t.find path = some (.file data))
    (hbundle : BundleChar (lastChar path)) (hcalls : ∀ c ∈ calls, ¬ sink.Changes path c) :
    (calls.foldl (fun t c => sink.after libs c t) t).find path = some (.file data) := by
  induction calls generalizing t with
  | nil => exact h
  | cons c calls ih =>
    apply ih (find_after h hbundle (hcalls c List.mem_cons_self))
    intro c' hc'
    exact hcalls c' (List.mem_cons_of_mem _ hc')

theorem find_placed_bundle (hparts : ∀ p ∈ dirs ++ [stem ++ blob.ext], IsPart p)
    (hdir : t₁.find (resolveParts dirs) = some .dir)
    (hbundle : t₁.isDir (placeIn dirs (stem ++ blob.ext)) = false) :
    (placed tag blob dirs (stem ++ blob.ext) t₁).find (placeIn dirs (stem ++ blob.ext)) =
      some (.file blob.data) := by
  have hname : IsPart (stem ++ blob.ext) := hparts _ (List.mem_append_right _ List.mem_cons_self)
  have hne := tmp_ne_bundle dirs stem blob tag
  have hsame : (t₁.set (placeIn dirs (stem ++ blob.ext ++ tag.ending))
      (some (.file blob.data))).isDir (placeIn dirs (stem ++ blob.ext)) = false := by
    rwa [FileTree.isDir, FileTree.find_set_of_ne _ _ hne.symm, ← FileTree.isDir]
  rw [placed, FileTree.find_set_of_ne _ _ hne.symm, FileTree.find_set_self]
  apply FileTree.settable_concat (FileTree.find_set_of_dir hdir _) _ hsame
  exact ⟨hname, ne_dots_of_length (length_append_of_ending stem (ext_length blob))⟩

theorem find_written_bundle (libs : SinkLibraries) (tag : WriterTag)
    (hparts : ∀ p ∈ dirs ++ [stem ++ blob.ext], IsPart p)
    (hdir : t₁.find (resolveParts dirs) = some .dir)
    (hbundle : t₁.isDir (placeIn dirs (stem ++ blob.ext)) = false) :
    (written libs tag blob dirs (stem ++ blob.ext) t₁).find (placeIn dirs (stem ++ blob.ext)) =
      some (.file blob.data) := by
  rw [written, FileTree.find_set_of_ne _ _ (sidecar_ne_bundle dirs stem blob).symm]
  exact find_placed_bundle hparts hdir hbundle

theorem keepsOutside_written_iff {root : List String} (hin : root <+: resolveParts dirs) :
    KeepsOutside root t (written libs tag blob dirs name t₁) ↔ KeepsOutside root t t₁ := by
  have hplace : ∀ name, root <+: placeIn dirs name := fun _ => hin.trans (List.prefix_append _ _)
  rw [written, keepsOutside_set_iff (hplace _), placed, keepsOutside_set_iff (hplace _),
    keepsOutside_set_iff (hplace _), keepsOutside_set_iff (hplace _)]

end

/-- What `put` promises: it raises, or writes below the root only, and `get` of the locator gives
the bytes until a call writes or deletes them. -/
def ReadsBack (libs : SinkLibraries) (sink : LocalDiskSink) (tag : WriterTag)
    (blob : BackupBlob (List UInt8)) (t : Disk) : Prop :=
  ∀ result t', sink.put libs tag blob t = (.ok result, t') →
    KeepsOutside sink.root t t' ∧
      ∀ calls : List SinkCall, (∀ c ∈ calls, ¬ sink.Changes (sink.placeOf result.locator) c) →
        sink.get result.locator (calls.foldl (fun t c => sink.after libs c t) t') = .ok blob.data

/-- The target lies below the root, and so does each directory that is missing on the way. -/
def PutInside (sink : LocalDiskSink) (blob : BackupBlob (List UInt8)) (t : Disk) : Prop :=
  ∀ rel, fileNameOf blob = .ok rel →
    sink.root <+: resolveParts (targetParts sink.root rel).dropLast ∧
      ∀ q ∈ way [] (targetParts sink.root rel).dropLast, t.find q = none → sink.root <+: q

section
variable {libs : SinkLibraries} {sink : LocalDiskSink} {tag : WriterTag}
  {blob : BackupBlob (List UInt8)} {t : Disk}

theorem put_of_fails (libs : SinkLibraries) (h : PutFails sink tag blob t) :
    ∃ e, (sink.put libs tag blob t).1 = .error e := by
  rw [PutFails] at h
  rw [put]
  cases hname : fileNameOf blob with
  | error e => exact ⟨e, rfl⟩
  | ok rel =>
    rw [hname] at h
    obtain ⟨dirs, stem, htarget⟩ := target_of_blob sink.root hname
    have hfault : (runOps (sink.putOps libs tag blob rel) t).1 ≠ none :=
      (targetFails_iff htarget).1 (htarget ▸ h)
    dsimp only
    split
    · rename_i f t' hrun
      exact ⟨faultExc f, rfl⟩
    · rename_i t' hrun
      rw [hrun] at hfault
      exact (hfault rfl).elim

/-- A `put` that returns. -/
theorem put_of_not_fails (libs : SinkLibraries) (h : ¬ PutFails sink tag blob t) :
    ∃ rel dirs stem t₁, fileNameOf blob = .ok rel ∧
      targetParts sink.root rel = dirs ++ [stem ++ blob.ext] ∧
      (∀ p ∈ dirs ++ [stem ++ blob.ext], IsPart p) ∧ t.makeDirs [] dirs = (none, t₁) ∧
      t₁.isDir (placeIn dirs (stem ++ blob.ext ++ tag.ending)) = false ∧
      t₁.isDir (placeIn dirs (stem ++ blob.ext)) = false ∧
      sink.put libs tag blob t = (.ok ⟨rel, "local_disk", blob.size, blob.created_at⟩,
        written libs tag blob dirs (stem ++ blob.ext) t₁) := by
  rw [PutFails] at h
  cases hname : fileNameOf blob with
  | error e =>
    rw [hname] at h
    exact (h trivial).elim
  | ok rel =>
    rw [hname] at h
    obtain ⟨dirs, stem, htarget⟩ := target_of_blob sink.root hname
    have hok : (runOps (sink.putOps libs tag blob rel) t).1 = none := by
      by_contra hfault
      apply h
      dsimp only
      rw [htarget]
      exact (targetFails_iff htarget).2 hfault
    have hparts : ∀ p ∈ dirs ++ [stem ++ blob.ext], IsPart p := by
      by_contra hunclean
      exact fault_of_unclean htarget hunclean hok
    rcases hmade : t.makeDirs [] dirs with ⟨_ | f, t₁⟩
    · obtain ⟨htmp, hbundle, hside⟩ := (runOps_put_ok_iff htarget hparts hmade).1 hok
      refine ⟨rel, dirs, stem, t₁, rfl, htarget, hparts, hmade, htmp, hbundle, ?_⟩
      rw [put, hname]
      dsimp only
      rw [runOps_put_of_free htarget hparts hmade htmp hbundle, hside]
      rfl
    · rw [putOps_eq htarget, runOps_cons_of_fault ((run_makeDirs fun p hp =>
        hparts p (List.mem_append_left _ hp)).trans hmade)] at hok
      cases hok

theorem put_readsBack_iff (libs : SinkLibraries) (sink : LocalDiskSink) (tag : WriterTag)
    (blob : BackupBlob (List UInt8)) (t : Disk) (hroot : t.find sink.root = some .dir) :
    ReadsBack libs sink tag blob t ↔ PutFails sink tag blob t ∨ PutInside sink blob t := by
  by_cases hfails : PutFails sink tag blob t
  · refine iff_of_true ?_ (.inl hfails)
    intro result t' hput
    obtain ⟨e, he⟩ := put_of_fails libs hfails
    rw [hput] at he
    cases he
  · obtain ⟨rel, dirs, stem, t₁, hname, htarget, hparts, hmade, htmp, hbundle, hput⟩ :=
      put_of_not_fails libs hfails
    have hdirs : ∀ p ∈ dirs, IsPart p := fun p hp => hparts p (List.mem_append_left _ hp)
    have hplace : sink.placeOf rel = placeIn dirs (stem ++ blob.ext) := by
      rw [placeOf, htarget, resolveParts_bundle]
    have hmakes : KeepsOutside sink.root t (t.makeDirs [] dirs).2 ↔
        MakesInside sink.root dirs t := keepsOutside_makeDirs_iff hdirs
    rw [hmade, MakesInside, FileTree.cleared_of_ok
      ((FileTree.makeDirs_ok_iff t.find_nil hdirs).1 (congrArg Prod.fst hmade))] at hmakes
    constructor
    · intro h
      obtain ⟨hkeeps, hget⟩ := h _ _ hput
      have hfirst := hget [] nofun
      have hin : sink.root <+: resolveParts dirs := by
        cases hresolve : sink.resolve rel (written libs tag blob dirs (stem ++ blob.ext) t₁) with
        | error e =>
          rw [List.foldl_nil, LocalDiskSink.get, hresolve] at hfirst
          cases hfirst
        | ok path =>
          obtain ⟨hpath, hbelow, -⟩ := resolve_ok hresolve
          rw [hpath, hplace] at hbelow
          rcases List.prefix_concat_iff.1 hbelow with he | hbelow
          · have hdir : t₁.isDir (placeIn dirs (stem ++ blob.ext)) = true := by
              have hkept := FileTree.find_makeDirs_of_some t.find_nil hdirs hroot
              rw [hmade, he] at hkept
              exact FileTree.isDir_iff.2 hkept
            rw [hbundle] at hdir
            cases hdir
          · exact hbelow
      right
      intro rel' hname'
      obtain rfl : rel = rel' := Except.ok.inj (hname.symm.trans hname')
      rw [htarget, List.dropLast_concat]
      exact ⟨hin, hmakes.1 ((keepsOutside_written_iff hin).1 hkeeps)⟩
    · rintro (h | h)
      · exact (hfails h).elim
      · obtain ⟨hin, hway⟩ := h rel hname
        rw [htarget, List.dropLast_concat] at hin hway
        intro result t' hput'
        rw [hput] at hput'
        cases hput'
        refine ⟨(keepsOutside_written_iff hin).2 (hmakes.2 hway), ?_⟩
        intro calls hcalls
        have hdir := find_of_way (way_of_made hparts hmade)
        have hfind := find_written_bundle libs tag hparts hdir hbundle
        rw [← hplace] at hfind
        apply get_of_find (htarget ▸ hparts)
        · rw [hplace]
          exact hin.trans (List.prefix_append _ _)
        · apply find_calls hfind _ hcalls
          rw [hplace]
          exact lastChar_bundle dirs stem blob

end

/-! ## A store that holds one kind of bundle -/

def newYearUtc : DateTime := ⟨2024, 1, 1, 0, 0, 0, 0, some 0, by decide⟩

/-- A backup of one byte, with its digest. -/
def byteBlob (app_slug : String) : BackupBlob (List UInt8) where
  data := [104]
  sha256 := "aaa9402664f1a41f40ebbc52c9993eb66aeb366602958fdfaa283b71e64db123"
  size := 1
  app_slug := app_slug
  scope := "platform"
  kind := "full"
  created_at := newYearUtc
  encrypted := false
  key_fingerprint := none
  tenant_slug := none

/-- `json.dumps` of what has no members. -/
def scalarText : Json → String
  | .null => "null"
  | .bool true => "true"
  | .bool false => "false"
  | .int i => toString i
  | .number text => text
  | .str s => quote s
  | .arr _ => "[]"
  | .obj _ => "\x7b\x7d"

/-- `json.dumps` of a dictionary of such values. -/
def flatText (indent : Option Nat) (members : JsonDict) : String :=
  let items := members.map fun p => quote p.1 ++ ": " ++ scalarText p.2
  match indent with
  | none => "\x7b" ++ String.intercalate ", " items ++ "\x7d"
  | some n =>
    let pad := String.ofList ('\n' :: List.replicate n ' ')
    "\x7b" ++ pad ++ String.intercalate ("," ++ pad) items ++ "\n\x7d"

/-- The libraries of sinks that meet only the sidecar of one blob. -/
def byteLibs (app_slug : String) : SinkLibraries where
  dumps := flatText
  loads text :=
    let members := sidecarMeta (byteBlob app_slug)
    if text = flatText (some 2) members ∨ text = flatText none members then some (.obj members)
    else none
  int
    | .int i => .ok i
    | _ => .error (.python (.typeError "int() argument must be a string or a number"))
  sha256 _ := (byteBlob "").sha256
  now := newYearUtc
  directorySize := 4096

def backupsSink : LocalDiskSink := ⟨["backups"], by decide⟩

def backupsDisk : Disk := (∅ : Disk).set ["backups"] (some .dir)

def workerTag : WriterTag := ⟨"17", "00007f3a5c0b2d10", List.all_eq_true.1 (by decide)⟩

theorem put_readsBack_demo :
    ReadsBack (byteLibs "demo") backupsSink workerTag (byteBlob "demo") backupsDisk := by
  apply (put_readsBack_iff _ _ _ _ _ (by decide)).2
  right
  intro rel hname
  obtain rfl := defaultFilename_of_ok hname
  decide +kernel

/-- The slug `..` leads out of the root. -/
theorem put_escapes :
    ¬ ReadsBack (byteLibs "..") backupsSink workerTag (byteBlob "..") backupsDisk := by
  intro h
  have hput : backupsSink.put (byteLibs "..") workerTag (byteBlob "..") backupsDisk =
      (.ok ⟨"../platform/20240101T000000Z-full.tar.gz", "local_disk", 1, newYearUtc⟩,
        (backupsSink.put (byteLibs "..") workerTag (byteBlob "..") backupsDisk).2) :=
    Prod.ext (by decide +kernel) rfl
  have hplatform := (h _ _ hput).1 ["platform"] (by decide)
  revert hplatform
  decide +kernel

end ScottyCore
