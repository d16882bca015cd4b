import ScottyCore.Files.Ownership

namespace ScottyCore
open Python DirTree DirTree.Tree FilesService
set_option autoImplicit true

variable {u : Unicode} {base : List String} {slug : String} {t : UploadTree}

/-- What a call may do that is to change the entry at a place: change just this entry, or leave
the tree as it is where a guard stops it. -/
inductive EntryStep (u : Unicode) (now : Int) (t : UploadTree) (root place : List String)
    (found : UploadTree) :
    FilesCall → Except FilesError FilesResult → UploadTree → Prop where
  | deleted : EntryStep u now t root place found (.delete path) (.ok .deleted)
      (t.put now place none)
  | renamed : EntryStep u now t root place found (.rename path name)
      (.ok (.entry (entryFromPath u (place.dropLast ++ [secureFilename u name]) root found)))
      ((t.put now place none).put now (place.dropLast ++ [secureFilename u name]) (some found))
  | notEmpty : found.children ≠ [] → EntryStep u now t root place found (.delete path)
      (.error (.validation "Directory is not empty; remove contents first")) t
  | taken : (t.find (place.dropLast ++ [secureFilename u name])).isSome →
      EntryStep u now t root place found (.rename path name)
      (.error (.validation ("'" ++ secureFilename u name ++ "' already exists"))) t
  | noName : ¬ IsName (secureFilename u name) →
      EntryStep u now t root place found (.rename path name) (.error err) t

/-- The path of an entry leads `delete` and `rename` to what stands at its place. -/
structure PathActsOn (u : Unicode) (base : List String) (slug : String) (t : UploadTree)
    (place : List String) (e : FileEntry) (found : UploadTree) : Prop where
  stands : t.find place = some found
  shown : entryFromPath u place (base ++ [slug]) found = e
  delete : ∀ now, EntryStep u now t (base ++ [slug]) place found (.delete e.path)
    (delete u base slug e.path now t).1 (delete u base slug e.path now t).2
  rename : ∀ new_name now,
    EntryStep u now t (base ++ [slug]) place found (.rename e.path new_name)
      (rename u base slug e.path new_name now t).1 (rename u base slug e.path new_name now t).2

/-! ## Names that the sanitiser keeps -/

theorem exists_longer (names : List String) : ∃ k, ∀ name ∈ names, name.length < k := by
  induction names with
  | nil => exact ⟨0, fun name h => by cases h⟩
  | cons first names ih =>
    obtain ⟨k, hk⟩ := ih
    refine ⟨max k (first.length + 1), ?_⟩
    intro name hname
    rcases List.mem_cons.1 hname with rfl | hname
    · omega
    · have hlt := hk name hname
      omega

/-- There is always another name to give. -/
theorem exists_fresh_name (u : Unicode) (names : List String) :
    ∃ name, IsName name ∧ secureFilename u name = name ∧ name ∉ names := by
  obtain ⟨k, hk⟩ := exists_longer names
  have hlist : (String.ofList (List.replicate (k + 3) 'a')).toList = List.replicate (k + 3) 'a' :=
    String.toList_ofList
  have hchar : ∀ c ∈ (String.ofList (List.replicate (k + 3) 'a')).toList, c = 'a' := by
    intro c hc
    rw [hlist] at hc
    exact List.eq_of_mem_replicate hc
  have hlen : (String.ofList (List.replicate (k + 3) 'a')).length = k + 3 := by
    rw [← String.length_toList, hlist, List.length_replicate]
  generalize String.ofList (List.replicate (k + 3) 'a') = name at hchar hlen
  have hname : IsName name := by
    refine ⟨⟨?_, ?_⟩, ne_dots_of_length (by omega)⟩
    · intro hc
      cases hchar _ hc
    · intro hc
      cases hchar _ hc
  refine ⟨name, hname, ?_, ?_⟩
  · apply secureFilename_eq_self
    · intro c hc
      rw [hchar c hc, u.isWord_ascii (by decide)]
      decide
    · intro c hc
      rw [hchar c hc]
      decide
  · intro hmem
    have hlt := hk name hmem
    omega

/-! ## Where the path of an entry leads -/

theorem filter_names {names : List String} (h : ∀ name ∈ names, IsName name) :
    (names.filter fun p => p ≠ "" ∧ p ≠ ".") = names := by
  apply List.filter_eq_self.2
  intro name hname
  exact decide_eq_true ⟨(h name hname).2.1, (h name hname).2.2.1⟩

theorem safeResolve_joinPath {names : List String} (hslug : IsSlug u slug) (hne : names ≠ [])
    (h : ∀ name ∈ names, IsName name) : safeResolve u base slug (joinPath names) =
      let target := resolveFrom (base ++ [slug])
        ((names.map (secureFilename u)).filter (· ≠ ""))
      if base ++ [slug] <+: target then some target else none := by
  have hsecure : secureFilename u slug ≠ "" := by
    rw [hslug.secure]
    exact hslug.name.2.1
  rw [safeResolve, if_neg hsecure, tenantRoot_of_slug base hslug, splitPath_joinPath hne h,
    filter_names h]

/-- The path of a place leads there just if the sanitiser keeps each name of it. -/
theorem safeResolve_joinPath_iff (base : List String) {names : List String}
    (hslug : IsSlug u slug) (hne : names ≠ []) (h : ∀ name ∈ names, IsName name) :
    safeResolve u base slug (joinPath names) = some (base ++ [slug] ++ names) ↔
      ∀ name ∈ names, secureFilename u name = name := by
  rw [safeResolve_joinPath hslug hne h]
  dsimp only
  constructor
  · intro hresolve
    split at hresolve
    · -- Only as many parts as there are names lead so far, so that none of them was left out.
      have htarget := Option.some.inj hresolve
      have hlen := congrArg List.length htarget
      have hfilter := List.length_filter_le (fun p => decide (p ≠ ""))
        (names.map (secureFilename u))
      rw [List.length_map] at hfilter
      rw [List.length_append] at hlen
      rw [resolveFrom_of_length (by omega)] at htarget
      have hparts := List.append_cancel_left htarget
      have hall : ∀ p ∈ names.map (secureFilename u), decide (p ≠ "") = true := by
        apply List.length_filter_eq_length_iff.1
        rw [hparts, List.length_map]
      rw [List.filter_eq_self.2 hall] at hparts
      apply List.map_inj_left.1
      rw [hparts, List.map_id']
    · cases hresolve
  · intro hsecure
    have hmap : names.map (secureFilename u) = names :=
      (List.map_congr_left hsecure).trans (List.map_id' names)
    have hfilter : names.filter (· ≠ "") = names :=
      List.filter_eq_self.2 fun name hname => decide_eq_true (h name hname).2.1
    rw [hmap, hfilter, resolveFrom_of_names _ h, if_pos (List.prefix_append _ _)]

/-! ## What the calls do with a path that leads to a place -/

theorem isDirAt_dropLast_put (now : Int) (hfind : t.find place = some found)
    (hpre : root <+: place) (hne : place ≠ root) :
    t.isDirAt place.dropLast = true ∧ (t.put now place none).isDirAt place.dropLast = true := by
  have hplace : place ≠ [] := by
    rintro rfl
    exact hne (List.prefix_nil.1 hpre).symm
  have hdir := isDirAt_dropLast (hfind ▸ rfl : (t.find place).isSome) hplace
  refine ⟨hdir, ?_⟩
  rw [isDirAt_put_of_above now none t (List.dropLast_prefix place)]
  · exact hdir
  · intro hlast
    have hlen := congrArg List.length hlast
    have hpos := List.length_pos_of_ne_nil hplace
    rw [List.length_dropLast] at hlen
    omega

theorem delete_entryStep (now : Int) (hslug : IsSlug u slug) (hbase : t.isDirAt base = true)
    (hroot : t.isDirAt (base ++ [slug]) = true)
    (hresolve : safeResolve u base slug path = some place) (hne : place ≠ base ++ [slug])
    (hfind : t.find place = some found) :
    EntryStep u now t (base ++ [slug]) place found (.delete path)
      (delete u base slug path now t).1 (delete u base slug path now t).2 := by
  rw [delete, hresolve]
  dsimp only
  rw [ensureTenantDir_of_below now hslug hbase hroot]
  dsimp only
  rw [if_neg hne, hfind]
  dsimp only
  split
  · rename_i hfull
    exact .notEmpty hfull.2
  · exact .deleted

theorem rename_entryStep (new_name : String) (now : Int) (hslug : IsSlug u slug)
    (hbase : t.isDirAt base = true) (hroot : t.isDirAt (base ++ [slug]) = true)
    (hresolve : safeResolve u base slug path = some place) (hne : place ≠ base ++ [slug])
    (hfind : t.find place = some found) :
    EntryStep u now t (base ++ [slug]) place found (.rename path new_name)
      (rename u base slug path new_name now t).1 (rename u base slug path new_name now t).2 := by
  have hpre := prefix_of_safeResolve hslug hresolve
  obtain ⟨hparent, hkept⟩ := isDirAt_dropLast_put now hfind hpre hne
  rw [rename]
  dsimp only
  split
  · rename_i hempty
    exact .noName fun hname => hname.2.1 hempty
  rw [hresolve]
  dsimp only
  rw [hfind]
  dsimp only
  rw [ensureTenantDir_of_below now hslug hbase hroot]
  dsimp only
  rw [if_neg hne]
  split
  · rename_i hout
    apply EntryStep.noName
    intro hname
    apply hout
    rw [nameParts, if_neg hname.2.2.1, resolveFrom, List.foldl_cons, List.foldl_nil,
      goTo_of_name _ hname]
    exact (prefix_dropLast hpre hne).trans (List.prefix_append _ _)
  split
  · rename_i hthere
    by_cases hname : IsName (secureFilename u new_name)
    · rw [nameParts, if_neg hname.2.2.1, isSome_stat hname.2.1 hname.2.2.1] at hthere
      exact .taken (hthere.2.resolve_left hname.2.2.2)
    · exact .noName hname
  · rw [entryAt, find_put_concat now hkept]
    exact .renamed

/-- With a new name that is free, the entry is moved. -/
theorem EntryStep.moved (h : EntryStep u now t root place found (.rename path name) r t')
    (hname : IsName (secureFilename u name))
    (hfree : t.find (place.dropLast ++ [secureFilename u name]) = none) :
    r = .ok (.entry (entryFromPath u (place.dropLast ++ [secureFilename u name]) root found)) ∧
      t' = (t.put now place none).put now (place.dropLast ++ [secureFilename u name])
        (some found) := by
  cases h with
  | renamed => exact ⟨rfl, rfl⟩
  | taken hthere =>
    rw [hfree] at hthere
    cases hthere
  | noName hno => exact (hno hname).elim

theorem FilesStep.moved (h : FilesStep u base slug now t (.rename path name) (.ok x) t') :
    ∃ target found, safeResolve u base slug path = some target ∧ target ≠ base ++ [slug] ∧
      t.find target = some found ∧
      x = .entry (entryFromPath u (target.dropLast ++ [secureFilename u name]) (base ++ [slug])
        found) ∧
      t' = (t.put now target none).put now (target.dropLast ++ [secureFilename u name])
        (some found) := by
  cases h with
  | renamed hresolve hne hfind => exact ⟨_, _, hresolve, hne, hfind, rfl, rfl⟩

theorem path_below (u : Unicode) (root rel : List String) (name : String) (s : UploadTree) :
    (entryFromPath u (root ++ rel ++ [name]) root s).path = joinPath (rel ++ [name]) := by
  rw [List.append_assoc, path_entryFromPath]

theorem joinPath_inj {names names' : List String} (hne : names ≠ []) (hne' : names' ≠ [])
    (h : ∀ name ∈ names, IsName name) (h' : ∀ name ∈ names', IsName name)
    (heq : joinPath names = joinPath names') : names = names' := by
  rw [← splitPath_joinPath hne h, ← splitPath_joinPath hne' h', heq]

/-- What is moved away is not found any more; what stands beside it is. -/
theorem find_moved {parent : List String} {old new name : String} (now : Int)
    (hdir : t.isDirAt parent = true) (hnew : new ≠ name) (s : Option UploadTree) :
    ((t.put now (parent ++ [old]) none).put now (parent ++ [new]) s).find (parent ++ [name]) =
      if name = old then none else t.find (parent ++ [name]) := by
  have hbeside : ∀ {a b : String}, a ≠ b → ¬ parent ++ [a] <+: parent ++ [b] := by
    intro a b hab hpre
    rw [List.prefix_append_right_inj, List.cons_prefix_cons] at hpre
    exact hab hpre.1
  rw [find_put_of_beside now s _ (hbeside hnew) (hbeside hnew.symm)]
  by_cases hold : name = old
  · rw [if_pos hold, hold, find_put_concat now hdir]
  · rw [if_neg hold, find_put_of_beside now none t (hbeside (Ne.symm hold)) (hbeside hold)]

theorem forall_concat {P : α → Prop} {l : List α} (h : ∀ x ∈ l, P x) (hx : P x) :
    ∀ y ∈ l ++ [x], P y := by
  intro y hy
  rcases List.mem_append.1 hy with hy | hy
  · exact h y hy
  · rw [List.mem_singleton.1 hy]
    exact hx

/-- Where a path is to change what stands at a place, it leads there. A new name that is free
shows where the path leads: the entry that comes back names the directory, and what was moved
away the name in it. -/
theorem PathActsOn.resolves {rel : List String} {name : String} (hslug : IsSlug u slug)
    (hbase : t.isDirAt base = true) (hnames : WellNamed t)
    (h : PathActsOn u base slug t (base ++ [slug] ++ rel ++ [name]) e found) :
    safeResolve u base slug e.path = some (base ++ [slug] ++ rel ++ [name]) := by
  obtain ⟨below, time, hdir⟩ := exists_dir_of_below h.stands (List.cons_ne_nil name [])
  obtain ⟨new, hnew, hsecure, hfresh⟩ := exists_fresh_name u (below.map Prod.fst)
  have hfree : t.find (base ++ [slug] ++ rel ++ [new]) = none := by
    cases hfind : t.find (base ++ [slug] ++ rel ++ [new]) with
    | none => rfl
    | some s => exact (hfresh (List.mem_map_of_mem (mem_children_of_find hfind hdir))).elim
  have hother : new ≠ name := by
    rintro rfl
    cases hfree.symm.trans h.stands
  obtain ⟨hresult, htree⟩ := (h.rename new 0).moved (by rw [hsecure]; exact hnew)
    (by rw [List.dropLast_concat, hsecure]; exact hfree)
  have hstep := rename_step 0 e.path new hslug hbase
  rw [hresult] at hstep
  obtain ⟨target, found', hresolve, hne, hfind, hentry, htree'⟩ := hstep.moved
  obtain ⟨rel', name', rfl⟩ := exists_concat_of_prefix (prefix_of_safeResolve hslug hresolve) hne
  have hparts := hnames.names_of_find h.stands
  have hparts' := hnames.names_of_find hfind
  have hpaths := congrArg FileEntry.path (FilesResult.entry.inj hentry)
  rw [List.dropLast_concat, List.dropLast_concat, hsecure, path_below, path_below] at hpaths
  have hrel : rel ++ [new] = rel' ++ [new] := by
    apply joinPath_inj (concat_ne_nil rel new) (concat_ne_nil rel' new) _ _ hpaths
    · exact forall_concat (fun x hx => hparts x (List.mem_append_left _
        (List.mem_append_right _ hx))) hnew
    · exact forall_concat (fun x hx => hparts' x (List.mem_append_left _
        (List.mem_append_right _ hx))) hnew
  obtain rfl := List.append_cancel_right hrel
  rw [List.dropLast_concat, hsecure] at htree htree'
  have hparent : t.isDirAt (base ++ [slug] ++ rel) = true := by
    rw [isDirAt, hdir]
    rfl
  have hgone := congrArg (fun s => s.find (base ++ [slug] ++ rel ++ [name]))
    (htree.symm.trans htree')
  rw [find_moved 0 hparent hother, find_moved 0 hparent hother, if_pos rfl, h.stands] at hgone
  by_cases hsame : name = name'
  · rw [hsame]
    exact hresolve
  · rw [if_neg hsame] at hgone
    cases hgone

/-- The entries of a listing and what they show: the tree is the one that was there. -/
theorem entry_of_listing (hslug : IsSlug u slug) (hbase : t.isDirAt base = true)
    (hnames : WellNamed t)
    (hlist : listFiles u base slug rel_path now t = (.ok (.listing response), t'))
    (htarget : safeResolve u base slug rel_path = some target) (he : e ∈ response.entries) :
    t' = t ∧ ∃ found, t.find (target ++ [e.name]) = some found ∧
      entryFromPath u (target ++ [e.name]) (base ++ [slug]) found = e := by
  have hstep := listFiles_step now rel_path hslug hbase
  rw [hlist] at hstep
  cases hstep with
  | listed hens hpath hfind hentries =>
    obtain rfl := Option.some.inj (htarget.symm.trans hpath)
    rw [hentries, mem_entriesOf] at he
    obtain ⟨c, hc, rfl⟩ := he
    rw [name_entryFromPath]
    cases hens with
    | there => exact ⟨rfl, c.2, hnames.find_of_mem hfind hc, rfl⟩
    | made hfresh =>
      -- What was just made is empty, and nothing is below it.
      obtain ⟨rel, rfl⟩ := prefix_of_safeResolve hslug htarget
      rw [find_put_below now hbase, Option.bind_some] at hfind
      cases rel with
      | nil =>
        obtain rfl := (Tree.dir.inj (Option.some.inj hfind)).1
        cases hc
      | cons name rel => cases hfind

theorem listed_path_acts_iff (u : Unicode) (base : List String) (tenant : String)
    (hbase : t.isDirAt base = true) (hnames : WellNamed t)
    (hlist : listFiles u base (slugify u tenant) rel_path now t = (.ok (.listing response), t'))
    (htarget : safeResolve u base (slugify u tenant) rel_path = some target)
    (he : e ∈ response.entries) :
    (∃ found, PathActsOn u base (slugify u tenant) t' (target ++ [e.name]) e found) ↔
      ∀ name ∈ splitPath e.path, secureFilename u name = name := by
  have hslug : IsSlug u (slugify u tenant) := by
    apply isSlug_slugify
    intro hempty
    rw [hempty, safeResolve] at htarget
    cases htarget
  obtain ⟨rfl, found, hfind, hshown⟩ :=
    entry_of_listing hslug hbase hnames hlist htarget he
  have hpre := prefix_of_safeResolve hslug htarget
  obtain ⟨rel, rfl⟩ := hpre
  have hpath : e.path = joinPath (rel ++ [e.name]) := by
    rw [← path_below u (base ++ [slugify u tenant]) rel e.name found, hshown]
  have hparts : ∀ name ∈ rel ++ [e.name], IsName name := by
    intro name hname
    apply hnames.names_of_find hfind
    rw [List.append_assoc]
    exact List.mem_append_right _ hname
  have hresolves := safeResolve_joinPath_iff base hslug (concat_ne_nil rel e.name) hparts
  rw [← hpath, ← List.append_assoc] at hresolves
  rw [hpath, splitPath_joinPath (concat_ne_nil rel e.name) hparts, ← hresolves]
  constructor
  · rintro ⟨found', hacts⟩
    exact hacts.resolves hslug hbase hnames
  · intro hresolve
    have hroot : t'.isDirAt (base ++ [slugify u tenant]) = true := by
      apply isDirAt_of_below (r := rel ++ [e.name]) _ (concat_ne_nil rel e.name)
      rw [← List.append_assoc, hfind]
      rfl
    have hne : base ++ [slugify u tenant] ++ rel ++ [e.name] ≠ base ++ [slugify u tenant] :=
      ne_of_concat_start (List.prefix_append _ rel) e.name
    refine ⟨found, hfind, hshown, ?_, ?_⟩
    · intro now
      exact delete_entryStep now hslug hbase hroot hresolve hne hfind
    · intro new_name now
      exact rename_entryStep new_name now hslug hbase hroot hresolve hne hfind

/-! ## A name that is sanitised to another one -/

/-- Two files of a tenant, one of them under a name that the service would not give. -/
def rawNames : List (String × UploadTree) := [("ab", .file [1] 0), ("a?b", .file [2] 0)]

def rawUploads : UploadTree :=
  .dir [("uploads", .dir [("acme", .dir rawNames 0)] 0)] 0

def rawListing : FileListResponse :=
  ⟨true, entriesOf asciiTables ["uploads", "acme"] ["uploads", "acme"] rawNames, "", "acme"⟩

theorem wellNamed_rawUploads : WellNamed rawUploads := by
  apply wellNamed_dir (by decide) (by decide)
  intro c hc
  obtain rfl := List.mem_singleton.1 hc
  apply wellNamed_dir (by decide) (by decide)
  intro c hc
  obtain rfl := List.mem_singleton.1 hc
  apply wellNamed_dir (by decide) (by decide)
  intro c hc
  rcases List.mem_cons.1 hc with rfl | hc
  · exact wellNamed_file _ _
  · obtain rfl := List.mem_singleton.1 hc
    exact wellNamed_file _ _

theorem slugify_acme : slugify asciiTables "Acme" = "acme" := by decide +kernel

theorem resolve_rawUploads :
    safeResolve asciiTables ["uploads"] "acme" "" = some ["uploads", "acme"] := by
  decide +kernel

theorem list_rawUploads : listFiles asciiTables ["uploads"] "acme" "" 1 rawUploads =
    (.ok (.listing rawListing), rawUploads) := by
  have hslug : IsSlug asciiTables "acme" := by
    rw [← slugify_acme]
    apply isSlug_slugify
    rw [slugify_acme]
    decide
  rw [listFiles, ensureTenantDir_of_below 1 hslug rfl rfl]
  dsimp only
  rw [resolve_rawUploads]
  rfl

theorem mem_rawListing (h : c ∈ rawNames) :
    entryFromPath asciiTables ["uploads", "acme", c.1] ["uploads", "acme"] c.2 ∈
      rawListing.entries :=
  mem_entriesOf.2 ⟨c, h, rfl⟩

theorem plain_name_acts : ∃ found, PathActsOn asciiTables ["uploads"]
    (slugify asciiTables "Acme") rawUploads ["uploads", "acme", "ab"]
    ⟨"ab", "ab", .file, 1, 0, ""⟩ found := by
  have hlist := list_rawUploads
  have hresolve := resolve_rawUploads
  rw [← slugify_acme] at hlist hresolve
  have hiff := listed_path_acts_iff asciiTables ["uploads"] "Acme" rfl wellNamed_rawUploads hlist
    hresolve (mem_rawListing (c := ("ab", .file [1] 0)) List.mem_cons_self)
  apply hiff.2
  decide +kernel

theorem delete_other_entry : ¬ ∀ (u : Unicode) (base : List String) (tenant rel_path : String)
    (now : Int) (t t' : UploadTree) (response : FileListResponse) (target : List String),
    t.isDirAt base = true → WellNamed t →
    listFiles u base (slugify u tenant) rel_path now t = (.ok (.listing response), t') →
    safeResolve u base (slugify u tenant) rel_path = some target →
    ∀ e ∈ response.entries, ∃ found,
      PathActsOn u base (slugify u tenant) t' (target ++ [e.name]) e found := by
  intro h
  have hlisted := h asciiTables ["uploads"] "Acme" "" 1 rawUploads rawUploads rawListing
    ["uploads", "acme"] rfl wellNamed_rawUploads
  rw [slugify_acme] at hlisted
  obtain ⟨found, hacts⟩ := hlisted list_rawUploads resolve_rawUploads _
    (mem_rawListing (c := ("a?b", .file [2] 0)) (List.mem_cons_of_mem _ List.mem_cons_self))
  have hstep : EntryStep asciiTables 2 rawUploads ["uploads", "acme"] ["uploads", "acme", "a?b"]
      found (.delete "a?b") (delete asciiTables ["uploads"] "acme" "a?b" 2 rawUploads).1
      (delete asciiTables ["uploads"] "acme" "a?b" 2 rawUploads).2 := hacts.delete 2
  have hdeleted : (delete asciiTables ["uploads"] "acme" "a?b" 2 rawUploads).1 = .ok .deleted := by
    decide +kernel
  have hleft : ((delete asciiTables ["uploads"] "acme" "a?b" 2 rawUploads).2.find
      ["uploads", "acme", "a?b"]).isSome = true := by
    decide +kernel
  rw [hdeleted] at hstep
  generalize (delete asciiTables ["uploads"] "acme" "a?b" 2 rawUploads).2 = t' at hstep hleft
  cases hstep with
  | deleted => cases hleft

end ScottyCore
