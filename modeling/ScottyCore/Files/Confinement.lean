import ScottyCore.Files.Service
import ScottyCore.Lib.Calls

namespace ScottyCore
open Python DirTree DirTree.Tree FilesService
set_option autoImplicit true

variable {u : Unicode} {base : List String} {slug : String} {t : UploadTree}

/-- A slug that is the name of its own directory. -/
structure IsSlug (u : Unicode) (slug : String) : Prop where
  name : IsName slug
  secure : secureFilename u slug = slug

theorem isSlug_slugify (h : slugify u name ≠ "") : IsSlug u (slugify u name) :=
  ⟨isName_slugify h, secureFilename_slugify u name⟩

namespace FilesService

/-! ## Resolving and making the directory of a tenant -/

theorem tenantRoot_of_slug (base : List String) (h : IsSlug u slug) :
    tenantRoot u base slug = base ++ [slug] := by
  rw [tenantRoot, h.secure, goTo_of_name base h.name]

theorem safeResolve_empty (base : List String) (hslug : IsSlug u slug) :
    safeResolve u base slug "" = some (base ++ [slug]) := by
  have hname : secureFilename u slug ≠ "" := by
    rw [hslug.secure]
    exact hslug.name.2.1
  have hsplit : ((splitPath "").filter fun p => p ≠ "" ∧ p ≠ ".") = [] := by decide
  rw [safeResolve, if_neg hname, tenantRoot_of_slug base hslug, hsplit]
  exact if_pos List.prefix_rfl

theorem prefix_of_safeResolve (hslug : IsSlug u slug)
    (h : safeResolve u base slug rel_path = some target) : base ++ [slug] <+: target := by
  rw [safeResolve, tenantRoot_of_slug base hslug] at h
  split at h
  · cases h
  dsimp only at h
  split at h
  · rename_i hpre
    rwa [Option.some.inj h] at hpre
  · cases h

theorem ensureTenantDir_eq (now : Int) (hslug : IsSlug u slug) (hbase : t.isDirAt base = true) :
    ensureTenantDir u base slug now t =
      match t.find (base ++ [slug]) with
      | none => (.ok (base ++ [slug]), t.put now (base ++ [slug]) (some (.dir [] now)))
      | some (.dir ..) => (.ok (base ++ [slug]), t)
      | some (.file ..) => (.error (.os .fileExists), t) := by
  have habove : ∀ p ∈ base.inits.tail, t.isDirAt p = true := by
    intro p hp
    exact isDirAt_of_start hbase ((List.mem_inits p base).1 (List.mem_of_mem_tail hp))
  have hname : secureFilename u slug ≠ "" := by
    rw [hslug.secure]
    exact hslug.name.2.1
  rw [ensureTenantDir, if_neg hname, tenantRoot_of_slug base hslug]
  dsimp only
  rw [makeDirs_of_dirs now habove, makeDirs]
  cases t.find (base ++ [slug]) with
  | none => rfl
  | some s =>
    cases s with
    | file => rfl
    | dir => rfl

/-- The parent of what stands below the directory of a tenant. -/
theorem prefix_dropLast {root target : List String} (h : root <+: target) (hne : target ≠ root) :
    root <+: target.dropLast := by
  obtain ⟨r, rfl⟩ := h
  have hr : r ≠ [] := by
    rintro rfl
    exact hne (List.append_nil root)
  rw [List.dropLast_append_of_ne_nil hr]
  exact List.prefix_append root r.dropLast

/-- A name that is not found in a directory is the name of nothing there. -/
theorem fresh_of_stat (hempty : name ≠ "") (hdir : t.isDirAt p = true)
    (h : ¬ (t.stat p (nameParts name)).isSome = true) : t.find (p ++ [name]) = none := by
  rw [nameParts] at h
  split at h
  · exact (h (isSome_of_isDirAt hdir)).elim
  · rename_i hdot
    rw [isSome_stat hempty hdot] at h
    exact Option.not_isSome_iff_eq_none.1 fun hfound => h ⟨hdir, .inr hfound⟩

end FilesService

/-! ## What one call can do -/

/-- The directory of the tenant was made, if it was not there. -/
inductive Ensured (root : List String) (now : Int) (t : UploadTree) : UploadTree → Prop where
  | there : Ensured root now t t
  | made : t.find root = none → Ensured root now t (t.put now root (some (.dir [] now)))

/-- What a call returns below the directory of its tenant, and the tree it leaves. -/
inductive FilesStep (u : Unicode) (base : List String) (slug : String) (now : Int)
    (t : UploadTree) : FilesCall → Except FilesError FilesResult → UploadTree → Prop where
  | failed : Ensured (base ++ [slug]) now t t' →
      FilesStep u base slug now t call (.error err) t'
  | listed : Ensured (base ++ [slug]) now t t' → safeResolve u base slug path = some target →
      t'.find target = some (.dir entries time) →
      response.entries = entriesOf u target (base ++ [slug]) entries →
      FilesStep u base slug now t (.list path) (.ok (.listing response)) t'
  | made : safeResolve u base slug path = some parent → t.isDirAt parent = true →
      t.find (parent ++ [secureFilename u name]) = none →
      FilesStep u base slug now t (.mkdir path name)
        (.ok (.entry (entryFromPath u (parent ++ [secureFilename u name]) (base ++ [slug])
          (.dir [] now))))
        (t.put now (parent ++ [secureFilename u name]) (some (.dir [] now)))
  | renamed : safeResolve u base slug path = some target → target ≠ base ++ [slug] →
      t.find target = some found → t.find (target.dropLast ++ [secureFilename u name]) = none →
      FilesStep u base slug now t (.rename path name)
        (.ok (.entry (entryFromPath u (target.dropLast ++ [secureFilename u name])
          (base ++ [slug]) found)))
        ((t.put now target none).put now (target.dropLast ++ [secureFilename u name]) (some found))
  | deleted : safeResolve u base slug path = some target → target ≠ base ++ [slug] →
      t.find target = some found → found.children = [] →
      FilesStep u base slug now t (.delete path) (.ok .deleted) (t.put now target none)

theorem ensured_ensureTenantDir (now : Int) (hslug : IsSlug u slug)
    (hbase : t.isDirAt base = true) :
    Ensured (base ++ [slug]) now t (ensureTenantDir u base slug now t).2 := by
  rw [ensureTenantDir_eq now hslug hbase]
  split
  · rename_i hfind
    exact .made hfind
  · exact .there
  · exact .there

/-- Where something stands below the directory of the tenant, the directory is there. -/
theorem ensureTenantDir_of_below (now : Int) (hslug : IsSlug u slug)
    (hbase : t.isDirAt base = true) (hroot : t.isDirAt (base ++ [slug]) = true) :
    ensureTenantDir u base slug now t = (.ok (base ++ [slug]), t) := by
  rw [ensureTenantDir_eq now hslug hbase]
  rw [isDirAt] at hroot
  cases hfind : t.find (base ++ [slug]) with
  | none =>
    rw [hfind] at hroot
    cases hroot
  | some s =>
    cases s with
    | file =>
      rw [hfind] at hroot
      cases hroot
    | dir => rfl

theorem ensureTenantDir_ok (hslug : IsSlug u slug) (hbase : t.isDirAt base = true)
    (h : ensureTenantDir u base slug now t = (.ok root, t')) : root = base ++ [slug] := by
  rw [ensureTenantDir_eq now hslug hbase] at h
  split at h
  · exact (Except.ok.inj (congrArg Prod.fst h)).symm
  · exact (Except.ok.inj (congrArg Prod.fst h)).symm
  · cases congrArg Prod.fst h

theorem listFiles_step (now : Int) (path : String) (hslug : IsSlug u slug)
    (hbase : t.isDirAt base = true) :
    FilesStep u base slug now t (.list path) (listFiles u base slug path now t).1
      (listFiles u base slug path now t).2 := by
  have hens := ensured_ensureTenantDir now hslug hbase
  rw [listFiles]
  cases hpair : ensureTenantDir u base slug now t with
  | mk r s =>
    rw [hpair] at hens
    cases r with
    | error err => exact .failed hens
    | ok root =>
      obtain rfl := ensureTenantDir_ok hslug hbase hpair
      cases htarget : safeResolve u base slug path with
      | none => exact .failed hens
      | some target =>
        dsimp only
        cases hfind : s.find target with
        | none => exact .failed hens
        | some found =>
          cases found with
          | file => exact .failed hens
          | dir => exact .listed hens htarget hfind rfl

theorem mkdir_step (now : Int) (path name : String) (hslug : IsSlug u slug) :
    FilesStep u base slug now t (.mkdir path name) (mkdir u base slug path name now t).1
      (mkdir u base slug path name now t).2 := by
  rw [mkdir]
  dsimp only
  split
  · exact .failed .there
  rename_i hname
  cases htarget : safeResolve u base slug path with
  | none => exact .failed .there
  | some parent =>
    dsimp only
    cases hfind : t.find parent with
    | none => exact .failed .there
    | some found =>
      dsimp only
      split
      · exact .failed .there
      rename_i hstat
      split
      · exact .failed .there
      rename_i hdir
      have hparent : t.isDirAt parent = true := by
        rw [isDirAt, hfind]
        simpa using hdir
      have hpre : base ++ [slug] <+: parent := prefix_of_safeResolve hslug htarget
      have hbase := (List.prefix_append base [slug]).trans hpre
      have hnew : ∀ p, p <+: parent → (t.put now (parent ++ [secureFilename u name])
          (some (.dir [] now))).isDirAt p = true := by
        intro p hp
        rw [isDirAt_put_of_above now _ t (hp.trans (List.prefix_append _ _))]
        · exact isDirAt_of_start hparent hp
        · rintro rfl
          have hlen := hp.length_le
          rw [List.length_append, List.length_singleton] at hlen
          omega
      rw [ensureTenantDir_of_below now hslug (hnew base hbase) (hnew _ hpre)]
      dsimp only
      rw [entryAt, find_put_concat now hparent]
      exact .made htarget hparent (fresh_of_stat hname hparent hstat)

theorem isDirAt_dropLast (h : (t.find p).isSome) (hp : p ≠ []) : t.isDirAt p.dropLast = true := by
  rw [← List.dropLast_append_getLast hp] at h
  exact isDirAt_of_below h (List.cons_ne_nil _ _)

theorem rename_step (now : Int) (path name : String) (hslug : IsSlug u slug)
    (hbase : t.isDirAt base = true) :
    FilesStep u base slug now t (.rename path name) (rename u base slug path name now t).1
      (rename u base slug path name now t).2 := by
  have hens := ensured_ensureTenantDir now hslug hbase
  rw [rename]
  dsimp only
  split
  · exact .failed .there
  rename_i hname
  cases htarget : safeResolve u base slug path with
  | none => exact .failed .there
  | some target =>
    dsimp only
    cases hfind : t.find target with
    | none => exact .failed .there
    | some found =>
      dsimp only
      cases hpair : ensureTenantDir u base slug now t with
      | mk r s =>
        rw [hpair] at hens
        cases r with
        | error err => exact .failed hens
        | ok root =>
          obtain rfl := ensureTenantDir_ok hslug hbase hpair
          dsimp only
          split
          · exact .failed hens
          rename_i hroot
          have hpre : base ++ [slug] <+: target := prefix_of_safeResolve hslug htarget
          have hne : target ≠ [] := by
            rintro rfl
            exact List.cons_ne_nil slug [] (List.append_eq_nil_iff.1 (List.prefix_nil.1 hpre)).2
          have hparent := isDirAt_dropLast (hfind ▸ rfl : (t.find target).isSome) hne
          have hpre' := prefix_dropLast hpre hroot
          rw [ensureTenantDir_of_below now hslug hbase (isDirAt_of_start hparent hpre')] at hpair
          obtain rfl : t = s := congrArg Prod.snd hpair
          split
          · exact .failed .there
          split
          · exact .failed .there
          rename_i hstat
          have hfresh := fresh_of_stat hname hparent hstat
          have hkept : ((t.put now target none).isDirAt target.dropLast) = true := by
            rw [isDirAt_put_of_above now none t (List.dropLast_prefix target)]
            · exact hparent
            · intro hlast
              have hlen := congrArg List.length hlast
              have hpos := List.length_pos_of_ne_nil hne
              rw [List.length_dropLast] at hlen
              omega
          rw [entryAt, find_put_concat now hkept]
          exact .renamed htarget hroot hfind hfresh

theorem delete_step (now : Int) (path : String) (hslug : IsSlug u slug)
    (hbase : t.isDirAt base = true) :
    FilesStep u base slug now t (.delete path) (delete u base slug path now t).1
      (delete u base slug path now t).2 := by
  have hens := ensured_ensureTenantDir now hslug hbase
  rw [delete]
  cases htarget : safeResolve u base slug path with
  | none => exact .failed .there
  | some target =>
    dsimp only
    cases hpair : ensureTenantDir u base slug now t with
    | mk r s =>
      rw [hpair] at hens
      cases r with
      | error err => exact .failed hens
      | ok root =>
        obtain rfl := ensureTenantDir_ok hslug hbase hpair
        dsimp only
        split
        · exact .failed hens
        rename_i hroot
        cases hfind : s.find target with
        | none => exact .failed hens
        | some found =>
          dsimp only
          split
          · exact .failed hens
          rename_i hempty
          have hchildren : found.children = [] := by
            cases found with
            | file => rfl
            | dir => simpa [isDir] using hempty
          cases hens with
          | there => exact .deleted htarget hroot hfind hchildren
          | made hfresh =>
            obtain ⟨r, rfl⟩ := prefix_of_safeResolve hslug htarget
            have hr : r ≠ [] := by
              rintro rfl
              exact hroot (List.append_nil _)
            rw [find_put_below now hbase, Option.bind_some, find_empty_append now hr] at hfind
            cases hfind

theorem perform_step (e : FilesEvent) (hslug : IsSlug u slug) (hbase : t.isDirAt base = true) :
    FilesStep u base slug e.now t e.call (perform u base slug e t).1
      (perform u base slug e t).2 := by
  obtain ⟨call, now⟩ := e
  cases call with
  | list path => exact listFiles_step now path hslug hbase
  | mkdir path name => exact mkdir_step now path name hslug
  | rename path name => exact rename_step now path name hslug hbase
  | delete path => exact delete_step now path hslug hbase

/-! ## What a call leaves as it was -/

/-- Only the directory of a tenant changes, and it stays what it is. -/
structure KeptWithin (root : List String) (t t' : UploadTree) : Prop where
  beside : KeepsBeside root t t'
  stays : ∀ s, t.find root = some s → ∃ s', t'.find root = some s' ∧ s'.isDir = s.isDir

theorem KeptWithin.refl (root : List String) (t : UploadTree) : KeptWithin root t t :=
  ⟨.refl root t, fun s hs => ⟨s, hs, rfl⟩⟩

theorem KeptWithin.trans (h : KeptWithin root t t') (h' : KeptWithin root t' t'') :
    KeptWithin root t t'' := by
  refine ⟨h.beside.trans h'.beside, ?_⟩
  intro s hs
  obtain ⟨s', hs', hkind⟩ := h.stays s hs
  obtain ⟨s'', hs'', hkind'⟩ := h'.stays s' hs'
  exact ⟨s'', hs'', hkind'.trans hkind⟩

/-- A change strictly below the directory. -/
theorem keptWithin_put (now : Int) (o : Option UploadTree) (t : UploadTree) (h : root <+: p)
    (hne : p ≠ root) : KeptWithin root t (t.put now p o) := by
  refine ⟨keepsBeside_put now o t h, ?_⟩
  obtain ⟨r, rfl⟩ := h
  have hr : r ≠ [] := by
    rintro rfl
    exact hne (List.append_nil root)
  intro s hs
  rw [find_put_append now root hr, hs]
  exact ⟨s.put now r o, rfl, isDir_put now r o s⟩

theorem Ensured.keptWithin (h : Ensured root now t t') : KeptWithin root t t' := by
  cases h with
  | there => exact .refl root t
  | made hfresh =>
    refine ⟨keepsBeside_put now _ t List.prefix_rfl, ?_⟩
    intro s hs
    rw [hfresh] at hs
    cases hs

theorem ne_of_concat_start {root p : List String} (h : root <+: p) (name : String) :
    p ++ [name] ≠ root := by
  intro heq
  have hlen := h.length_le
  rw [← heq, List.length_append, List.length_singleton] at hlen
  omega

theorem FilesStep.keptWithin (hslug : IsSlug u slug) (h : FilesStep u base slug now t call r t') :
    KeptWithin (base ++ [slug]) t t' := by
  cases h with
  | failed hens => exact hens.keptWithin
  | listed hens => exact hens.keptWithin
  | made hparent =>
    have hpre := prefix_of_safeResolve hslug hparent
    exact keptWithin_put now _ t (hpre.trans (List.prefix_append _ _)) (ne_of_concat_start hpre _)
  | renamed htarget hroot =>
    have hpre := prefix_of_safeResolve hslug htarget
    have hpre' := prefix_dropLast hpre hroot
    exact (keptWithin_put now none t hpre hroot).trans
      (keptWithin_put now _ _ (hpre'.trans (List.prefix_append _ _)) (ne_of_concat_start hpre' _))
  | deleted htarget hroot =>
    exact keptWithin_put now none t (prefix_of_safeResolve hslug htarget) hroot

/-! ## Two trees with the same directory of a tenant -/

/-- Both trees hold the same at the directory of a tenant. -/
structure SameUploads (base : List String) (slug : String) (t t' : UploadTree) : Prop where
  dir : t.isDirAt base = true
  dir' : t'.isDirAt base = true
  root : t.find (base ++ [slug]) = t'.find (base ++ [slug])

namespace SameUploads

theorem find (h : SameUploads base slug t t') (hp : base ++ [slug] <+: p) :
    t.find p = t'.find p := by
  obtain ⟨r, rfl⟩ := hp
  rw [find_append t (base ++ [slug]), find_append t' (base ++ [slug]), h.root]

theorem put (h : SameUploads base slug t t') (now : Int) (o : Option UploadTree)
    (hp : base ++ [slug] <+: p) : SameUploads base slug (t.put now p o) (t'.put now p o) := by
  have hbase : base <+: p := (List.prefix_append base [slug]).trans hp
  have hne : base ≠ p := by
    rintro rfl
    exact ne_of_concat_start List.prefix_rfl slug (hp.eq_of_length_le (by
      rw [List.length_append]
      omega))
  refine ⟨?_, ?_, ?_⟩
  · rw [isDirAt_put_of_above now o t hbase hne, h.dir]
  · rw [isDirAt_put_of_above now o t' hbase hne, h.dir']
  · obtain ⟨r, rfl⟩ := hp
    by_cases hr : r = []
    · rw [hr, List.append_nil, find_put_concat now h.dir, find_put_concat now h.dir']
    · rw [find_put_append now _ hr, find_put_append now _ hr, h.root]

theorem stat (h : SameUploads base slug t t') (hp : base ++ [slug] <+: p) (hempty : name ≠ "") :
    (t.stat p (nameParts name)).isSome = (t'.stat p (nameParts name)).isSome := by
  rw [nameParts]
  split
  · rw [Tree.stat, Tree.stat, walk, walk, Option.bind_some, Option.bind_some, h.find hp]
  · rename_i hdot
    rw [Bool.eq_iff_iff, isSome_stat hempty hdot, isSome_stat hempty hdot, isDirAt, isDirAt,
      h.find hp, h.find (hp.trans (List.prefix_append _ _))]

theorem ensure (h : SameUploads base slug t t') (now : Int) (hslug : IsSlug u slug) :
    ∃ r s s', ensureTenantDir u base slug now t = (r, s) ∧
      ensureTenantDir u base slug now t' = (r, s') ∧ SameUploads base slug s s' := by
  rw [ensureTenantDir_eq now hslug h.dir, ensureTenantDir_eq now hslug h.dir', ← h.root]
  split
  · exact ⟨_, _, _, rfl, rfl, h.put now _ List.prefix_rfl⟩
  · exact ⟨_, _, _, rfl, rfl, h⟩
  · exact ⟨_, _, _, rfl, rfl, h⟩

end SameUploads

/-- A call returns the same on both trees and leaves them alike. -/
def AgreeOn (base : List String) (slug : String)
    (x x' : Except FilesError FilesResult × UploadTree) : Prop :=
  x.1 = x'.1 ∧ SameUploads base slug x.2 x'.2

theorem SameUploads.listFiles (h : SameUploads base slug t t') (hslug : IsSlug u slug) (now : Int)
    (path : String) : AgreeOn base slug (listFiles u base slug path now t)
      (listFiles u base slug path now t') := by
  obtain ⟨r, s, s', hpair, hpair', hens⟩ := h.ensure now hslug
  rw [FilesService.listFiles, FilesService.listFiles, hpair, hpair']
  cases r with
  | error err => exact ⟨rfl, hens⟩
  | ok root =>
    cases htarget : safeResolve u base slug path with
    | none => exact ⟨rfl, hens⟩
    | some target =>
      dsimp only
      rw [← hens.find (prefix_of_safeResolve hslug htarget)]
      cases s.find target with
      | none => exact ⟨rfl, hens⟩
      | some found =>
        cases found with
        | file => exact ⟨rfl, hens⟩
        | dir => exact ⟨rfl, hens⟩

theorem SameUploads.entryAt (h : SameUploads base slug t t') (hp : base ++ [slug] <+: p)
    (root : List String) : AgreeOn base slug (entryAt u p root t, t) (entryAt u p root t', t') := by
  refine ⟨?_, h⟩
  dsimp only
  rw [FilesService.entryAt, FilesService.entryAt, h.find hp]

theorem SameUploads.mkdir (h : SameUploads base slug t t') (hslug : IsSlug u slug) (now : Int)
    (path name : String) : AgreeOn base slug (mkdir u base slug path name now t)
      (mkdir u base slug path name now t') := by
  rw [FilesService.mkdir, FilesService.mkdir]
  dsimp only
  split
  · exact ⟨rfl, h⟩
  rename_i hname
  cases htarget : safeResolve u base slug path with
  | none => exact ⟨rfl, h⟩
  | some parent =>
    have hpre := prefix_of_safeResolve hslug htarget
    have hnew := hpre.trans (List.prefix_append parent [secureFilename u name])
    dsimp only
    rw [← h.find hpre]
    cases t.find parent with
    | none => exact ⟨rfl, h⟩
    | some found =>
      dsimp only
      rw [← h.stat hpre hname]
      split
      · exact ⟨rfl, h⟩
      split
      · exact ⟨rfl, h⟩
      have hput := h.put now (some (.dir [] now)) hnew
      obtain ⟨r, s, s', hpair, hpair', hens⟩ := hput.ensure now hslug
      rw [hpair, hpair']
      cases r with
      | error err => exact ⟨rfl, hens⟩
      | ok root => exact hens.entryAt hnew root

theorem SameUploads.rename (h : SameUploads base slug t t') (hslug : IsSlug u slug) (now : Int)
    (path name : String) : AgreeOn base slug (rename u base slug path name now t)
      (rename u base slug path name now t') := by
  rw [FilesService.rename, FilesService.rename]
  dsimp only
  split
  · exact ⟨rfl, h⟩
  rename_i hname
  cases htarget : safeResolve u base slug path with
  | none => exact ⟨rfl, h⟩
  | some target =>
    have hpre := prefix_of_safeResolve hslug htarget
    dsimp only
    rw [← h.find hpre]
    cases t.find target with
    | none => exact ⟨rfl, h⟩
    | some found =>
      obtain ⟨r, s, s', hpair, hpair', hens⟩ := h.ensure now hslug
      dsimp only
      rw [hpair, hpair']
      cases r with
      | error err => exact ⟨rfl, hens⟩
      | ok root =>
        obtain rfl := ensureTenantDir_ok hslug h.dir hpair
        dsimp only
        split
        · exact ⟨rfl, hens⟩
        rename_i hroot
        split
        · exact ⟨rfl, hens⟩
        have hparent := prefix_dropLast hpre hroot
        rw [← hens.stat hparent hname]
        split
        · exact ⟨rfl, hens⟩
        have hnew := hparent.trans
          (List.prefix_append target.dropLast [secureFilename u name])
        exact ((hens.put now none hpre).put now (some found) hnew).entryAt hnew _

theorem SameUploads.delete (h : SameUploads base slug t t') (hslug : IsSlug u slug) (now : Int)
    (path : String) : AgreeOn base slug (delete u base slug path now t)
      (delete u base slug path now t') := by
  rw [FilesService.delete, FilesService.delete]
  cases htarget : safeResolve u base slug path with
  | none => exact ⟨rfl, h⟩
  | some target =>
    have hpre := prefix_of_safeResolve hslug htarget
    obtain ⟨r, s, s', hpair, hpair', hens⟩ := h.ensure now hslug
    dsimp only
    rw [hpair, hpair']
    cases r with
    | error err => exact ⟨rfl, hens⟩
    | ok root =>
      dsimp only
      split
      · exact ⟨rfl, hens⟩
      rw [← hens.find hpre]
      cases s.find target with
      | none => exact ⟨rfl, hens⟩
      | some found =>
        dsimp only
        split
        · exact ⟨rfl, hens⟩
        · exact ⟨rfl, hens.put now none hpre⟩

theorem SameUploads.perform (h : SameUploads base slug t t') (hslug : IsSlug u slug)
    (e : FilesEvent) : AgreeOn base slug (perform u base slug e t) (perform u base slug e t') := by
  obtain ⟨call, now⟩ := e
  cases call with
  | list path => exact h.listFiles hslug now path
  | mkdir path name => exact h.mkdir hslug now path name
  | rename path name => exact h.rename hslug now path name
  | delete path => exact h.delete hslug now path

/-! ## Runs -/

/-- Without a slug, nothing is done. -/
theorem perform_of_empty (h : secureFilename u slug = "") (e : FilesEvent) (t : UploadTree) :
    ∃ err, perform u base slug e t = (.error err, t) ∧
      ∀ t' : UploadTree, perform u base slug e t' = (.error err, t') := by
  have hres : ∀ path, safeResolve u base slug path = none := by
    intro path
    rw [safeResolve, if_pos h]
  obtain ⟨call, now⟩ := e
  cases call with
  | list path =>
    have hlist : ∀ t : UploadTree, listFiles u base slug path now t =
        (.error (.forbidden "Invalid tenant slug"), t) := by
      intro t
      rw [listFiles, ensureTenantDir, if_pos h]
    exact ⟨_, hlist t, hlist⟩
  | mkdir path name =>
    by_cases hname : secureFilename u name = ""
    · have hmkdir : ∀ t : UploadTree, mkdir u base slug path name now t =
          (.error (.validation "Invalid directory name"), t) := by
        intro t
        rw [mkdir]
        exact if_pos hname
      exact ⟨_, hmkdir t, hmkdir⟩
    · have hmkdir : ∀ t : UploadTree, mkdir u base slug path name now t =
          (.error (.forbidden "Path traversal detected"), t) := by
        intro t
        rw [mkdir, hres]
        exact if_neg hname
      exact ⟨_, hmkdir t, hmkdir⟩
  | rename path name =>
    by_cases hname : secureFilename u name = ""
    · have hrename : ∀ t : UploadTree, rename u base slug path name now t =
          (.error (.validation "Invalid new name"), t) := by
        intro t
        rw [rename]
        exact if_pos hname
      exact ⟨_, hrename t, hrename⟩
    · have hrename : ∀ t : UploadTree, rename u base slug path name now t =
          (.error (.forbidden "Path traversal detected"), t) := by
        intro t
        rw [rename, hres]
        exact if_neg hname
      exact ⟨_, hrename t, hrename⟩
  | delete path =>
    have hdelete : ∀ t : UploadTree, delete u base slug path now t =
        (.error (.forbidden "Path traversal detected"), t) := by
      intro t
      rw [delete, hres]
    exact ⟨_, hdelete t, hdelete⟩

/-- The calls with the slug of one tenant, on two trees that hold the same for it. -/
structure FilesConfined (u : Unicode) (base : List String) (slug other : String)
    (events : List FilesEvent) (t t' : UploadTree) : Prop where
  outside : KeepsBeside (base ++ [slug]) t (Calls.run (perform u base slug) events t).2
  others : (Calls.run (perform u base slug) events t).2.find (base ++ [other]) =
    t.find (base ++ [other])
  results : (Calls.run (perform u base slug) events t).1 =
    (Calls.run (perform u base slug) events t').1
  uploads : (Calls.run (perform u base slug) events t).2.find (base ++ [slug]) =
    (Calls.run (perform u base slug) events t').2.find (base ++ [slug])
  stays : ∀ begun rest, events = begun ++ rest →
    ∀ s, (Calls.run (perform u base slug) begun t).2.find (base ++ [slug]) = some s →
      ∃ s', (Calls.run (perform u base slug) events t).2.find (base ++ [slug]) = some s' ∧
        s'.isDir = s.isDir

theorem perform_keptWithin (hslug : slug = "" ∨ IsSlug u slug) (e : FilesEvent)
    (hbase : t.isDirAt base = true) : (perform u base slug e t).2.isDirAt base = true ∧
      KeptWithin (base ++ [slug]) t (perform u base slug e t).2 := by
  have hkept : KeptWithin (base ++ [slug]) t (perform u base slug e t).2 := by
    rcases hslug with rfl | hslug
    · obtain ⟨err, hperform, -⟩ := @perform_of_empty u base "" rfl e t
      rw [hperform]
      exact .refl _ t
    · exact (perform_step e hslug hbase).keptWithin hslug
  refine ⟨?_, hkept⟩
  rw [hkept.beside.above base (List.prefix_append base [slug]), hbase]
  intro heq
  exact List.cons_ne_nil slug [] (List.append_right_eq_self.1 heq.symm)

theorem run_keptWithin (hslug : slug = "" ∨ IsSlug u slug) (events : List FilesEvent)
    (hbase : t.isDirAt base = true) :
    (Calls.run (perform u base slug) events t).2.isDirAt base = true ∧
      KeptWithin (base ++ [slug]) t (Calls.run (perform u base slug) events t).2 := by
  apply Calls.run_invariant (perform u base slug)
    (I := fun _ s => s.isDirAt base = true ∧ KeptWithin (base ++ [slug]) t s) ⟨hbase, .refl _ t⟩
  rintro e events s ⟨hdir, hkept⟩
  obtain ⟨hdir', hkept'⟩ := perform_keptWithin hslug e hdir
  exact ⟨hdir', hkept.trans hkept'⟩

theorem perform_agree (hslug : slug = "" ∨ IsSlug u slug) (e : FilesEvent)
    (h : SameUploads base slug t t') :
    AgreeOn base slug (perform u base slug e t) (perform u base slug e t') := by
  rcases hslug with rfl | hslug
  · obtain ⟨err, hperform, hsame⟩ := @perform_of_empty u base "" rfl e t
    rw [hperform, hsame t']
    exact ⟨rfl, h⟩
  · exact h.perform hslug e

theorem files_confined (u : Unicode) (base : List String) (tenant other : String)
    (events : List FilesEvent) (hdistinct : slugify u tenant ≠ slugify u other)
    (hbase : t.isDirAt base = true) (hbase' : t'.isDirAt base = true)
    (hsame : t.find (base ++ [slugify u tenant]) = t'.find (base ++ [slugify u tenant])) :
    FilesConfined u base (slugify u tenant) (slugify u other) events t t' := by
  have hslug : slugify u tenant = "" ∨ IsSlug u (slugify u tenant) := by
    by_cases hempty : slugify u tenant = ""
    · exact .inl hempty
    · exact .inr (isSlug_slugify hempty)
  obtain ⟨-, hkept⟩ := run_keptWithin hslug events hbase
  obtain ⟨hresults, hend⟩ := Calls.run_agree (perform u base (slugify u tenant)) id
    (R := fun _ t t' => SameUploads base (slugify u tenant) t t') ⟨hbase, hbase', hsame⟩
    fun h => perform_agree hslug _ h
  rw [List.map_id, List.map_id] at hresults
  refine ⟨hkept.beside, ?_, hresults, hend.root, ?_⟩
  · apply hkept.beside.beside
    · intro hpre
      rw [List.prefix_append_right_inj, List.cons_prefix_cons] at hpre
      exact hdistinct hpre.1
    · intro hpre
      rw [List.prefix_append_right_inj, List.cons_prefix_cons] at hpre
      exact hdistinct hpre.1.symm
  · rintro begun rest rfl s hs
    rw [Calls.run_append]
    obtain ⟨hdir, -⟩ := run_keptWithin hslug begun hbase
    exact (run_keptWithin hslug rest hdir).2.stays s hs

/-! ## A name that survives as two dots -/

def sharedUploads : UploadTree :=
  .dir [("uploads", .dir [("acme-corp", .dir [("plans", .dir [] 0)] 0), ("beta", .dir [] 0)] 0)] 0

def ownUploads : UploadTree :=
  .dir [("uploads", .dir [("acme-corp", .dir [("plans", .dir [] 0)] 0)] 0)] 0

theorem dots_confined : FilesConfined asciiTables ["uploads"] (slugify asciiTables "Acme Corp")
    (slugify asciiTables "Beta") [⟨.rename "plans" "\t..", 1⟩, ⟨.delete "\t../beta", 2⟩]
    sharedUploads ownUploads := by
  have hacme : slugify asciiTables "Acme Corp" = "acme-corp" := by decide +kernel
  have hbeta : slugify asciiTables "Beta" = "beta" := by decide +kernel
  apply files_confined asciiTables ["uploads"] "Acme Corp" "Beta"
  · rw [hacme, hbeta]
    decide
  · rfl
  · rfl
  · rw [hacme]
    rfl

end ScottyCore
