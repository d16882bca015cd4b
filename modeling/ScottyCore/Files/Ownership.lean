import ScottyCore.Files.Confinement
import ScottyCore.Files.Tenants

namespace ScottyCore
open Python DirTree DirTree.Tree FilesService TransitionSystem
set_option autoImplicit true

variable {u : Unicode} {base : List String} {slug : String} {t : UploadTree}

/-! ## What stands in the directory of a slug -/

/-- The directory of a slug holds directories, at just these paths. -/
structure HoldsEntries (base : List String) (slug : String) (owned : List (List String))
    (t : UploadTree) : Prop where
  root : t.kindAt (base ++ [slug]) ≠ some false
  entries : ∀ rel, rel ≠ [] → rel ∈ owned ∧ t.kindAt (base ++ [slug] ++ rel) = some true ∨
    rel ∉ owned ∧ t.kindAt (base ++ [slug] ++ rel) = none
  nonempty : [] ∉ owned

theorem relParts_of_resolve
    (h : safeResolve u base slug path = some (base ++ [slug] ++ rel)) :
    relParts u base slug path = rel := by
  rw [relParts, h, Option.getD_some, List.drop_left]

theorem name_entryFromPath (u : Unicode) (p : List String) (name : String) (root : List String)
    (s : UploadTree) : (entryFromPath u (p ++ [name]) root s).name = name := by
  cases s with
  | file => simp only [entryFromPath, List.getLast?_concat, Option.getD_some]
  | dir => simp only [entryFromPath, List.getLast?_concat, Option.getD_some]

theorem path_entryFromPath (u : Unicode) (root rel : List String) (s : UploadTree) :
    (entryFromPath u (root ++ rel) root s).path = joinPath rel := by
  cases s with
  | file => simp only [entryFromPath, List.drop_left]
  | dir => simp only [entryFromPath, List.drop_left]

/-- What is below a directory has a parent there. -/
theorem exists_concat_of_prefix {root target : List String} (h : root <+: target)
    (hne : target ≠ root) : ∃ parent name, target = root ++ parent ++ [name] := by
  obtain ⟨rel, rfl⟩ := h
  have hrel : rel ≠ [] := by
    rintro rfl
    exact hne (List.append_nil root)
  refine ⟨rel.dropLast, rel.getLast hrel, ?_⟩
  rw [List.append_assoc, List.dropLast_append_getLast]

theorem concat_ne_nil (p : List String) (name : String) : p ++ [name] ≠ [] :=
  List.append_ne_nil_of_right_ne_nil p (List.cons_ne_nil name [])

namespace HoldsEntries

theorem kind_of_mem (h : HoldsEntries base slug owned t) (hrel : rel ∈ owned) :
    t.kindAt (base ++ [slug] ++ rel) = some true := by
  have hne : rel ≠ [] := by
    rintro rfl
    exact h.nonempty hrel
  rcases h.entries rel hne with ⟨-, hkind⟩ | ⟨hnot, -⟩
  · exact hkind
  · exact (hnot hrel).elim

theorem mem_of_kind (h : HoldsEntries base slug owned t) (hne : rel ≠ [])
    (hkind : t.kindAt (base ++ [slug] ++ rel) ≠ none) : rel ∈ owned := by
  rcases h.entries rel hne with ⟨hmem, -⟩ | ⟨-, hnone⟩
  · exact hmem
  · exact (hkind hnone).elim

/-- Nothing below a path where nothing stands is an entry. -/
theorem not_mem_below (h : HoldsEntries base slug owned t)
    (hfree : t.find (base ++ [slug] ++ rel) = none) (r : List String) : rel ++ r ∉ owned := by
  intro hmem
  have hkind := h.kind_of_mem hmem
  rw [← List.append_assoc, kindAt_eq_none_iff.2 (find_append_of_none hfree r)] at hkind
  cases hkind

theorem ensured (h : HoldsEntries base slug owned t) (hbase : t.isDirAt base = true)
    (hens : Ensured (base ++ [slug]) now t t') : HoldsEntries base slug owned t' := by
  cases hens with
  | there => exact h
  | made hfresh =>
    refine ⟨?_, ?_, h.nonempty⟩
    · rw [kindAt, find_put_concat now hbase]
      intro hkind
      cases hkind
    · intro rel hrel
      refine .inr ⟨?_, ?_⟩
      · have hroot : t.find (base ++ [slug] ++ []) = none := by rwa [List.append_nil]
        exact h.not_mem_below hroot rel
      · rw [kindAt_eq_none_iff, find_put_below now hbase, Option.bind_some,
          find_empty_append now hrel]

theorem root_put (h : t.kindAt (base ++ [slug]) ≠ some false)
    (hparent : t.isDirAt (base ++ [slug] ++ parent) = true) (name : String)
    (o : Option UploadTree) :
    (t.put now (base ++ [slug] ++ parent ++ [name]) o).kindAt (base ++ [slug]) ≠ some false := by
  rw [kindAt_put now hparent, if_neg]
  · exact h
  · intro hpre
    have hlen := hpre.length_le
    simp only [List.length_append, List.length_singleton] at hlen
    omega

theorem mkdir (h : HoldsEntries base slug owned t)
    (hparent : t.isDirAt (base ++ [slug] ++ parent) = true)
    (hfree : t.find (base ++ [slug] ++ parent ++ [name]) = none) :
    HoldsEntries base slug (owned ++ [parent ++ [name]])
      (t.put now (base ++ [slug] ++ parent ++ [name]) (some (.dir [] now))) := by
  refine ⟨root_put h.root hparent name _, ?_, ?_⟩
  · intro rel hrel
    rw [kindAt_put_within now hparent, List.mem_append, List.mem_singleton]
    by_cases hbelow : parent ++ [name] <+: rel
    · obtain ⟨r, rfl⟩ := hbelow
      rw [List.append_assoc] at hfree
      have hold := h.not_mem_below hfree r
      rw [if_pos (List.prefix_append _ r), Option.bind_some, List.drop_left]
      by_cases hr : r = []
      · rw [hr, List.append_nil]
        exact .inl ⟨.inr rfl, rfl⟩
      · refine .inr ⟨?_, kindAt_eq_none_iff.2 (find_empty_append now hr)⟩
        rintro (hmem | heq)
        · exact hold hmem
        · exact hr (List.append_right_eq_self.1 heq)
    · rw [if_neg hbelow]
      have hne : rel ≠ parent ++ [name] := by
        rintro rfl
        exact hbelow List.prefix_rfl
      rw [or_iff_left hne]
      exact h.entries rel hrel
  · rw [List.mem_append, List.mem_singleton, not_or]
    exact ⟨h.nonempty, (concat_ne_nil parent name).symm⟩

/-- What is taken away was a directory without entries. -/
theorem delete (h : HoldsEntries base slug owned t)
    (hfind : t.find (base ++ [slug] ++ parent ++ [name]) = some found)
    (hempty : found.children = []) :
    HoldsEntries base slug (owned.filter (· ≠ parent ++ [name]))
      (t.put now (base ++ [slug] ++ parent ++ [name]) none) := by
  have hparent : t.isDirAt (base ++ [slug] ++ parent) = true :=
    isDirAt_of_below (by rw [hfind]; rfl) (List.cons_ne_nil name [])
  refine ⟨root_put h.root hparent name _, ?_, ?_⟩
  · intro rel hrel
    rw [kindAt_put_within now hparent, List.mem_filter, decide_eq_true_eq]
    by_cases hbelow : parent ++ [name] <+: rel
    · rw [if_pos hbelow, Option.bind_none]
      refine .inr ⟨?_, rfl⟩
      rintro ⟨hmem, hne⟩
      obtain ⟨r, rfl⟩ := hbelow
      have hr : r ≠ [] := by
        rintro rfl
        exact hne (List.append_nil _)
      have hkind := h.kind_of_mem hmem
      have hnone : t.find (base ++ [slug] ++ (parent ++ [name] ++ r)) = none := by
        rw [← List.append_assoc, ← List.append_assoc, find_append, hfind, Option.bind_some]
        cases found with
        | file data mtime => exact find_file_append data mtime hr
        | dir children mtime =>
          obtain rfl : children = [] := hempty
          exact find_empty_append mtime hr
      rw [kindAt_eq_none_iff.2 hnone] at hkind
      cases hkind
    · rw [if_neg hbelow]
      have hne : rel ≠ parent ++ [name] := by
        rintro rfl
        exact hbelow List.prefix_rfl
      rw [and_iff_left hne]
      exact h.entries rel hrel
  · exact fun hmem => h.nonempty (List.mem_filter.1 hmem).1

theorem mem_moved_iff {owned : List (List String)} {old new rel : List String} :
    rel ∈ owned.map (fun p => if old <+: p then new ++ p.drop old.length else p) ↔
      (∃ r, old ++ r ∈ owned ∧ rel = new ++ r) ∨ rel ∈ owned ∧ ¬ old <+: rel := by
  rw [List.mem_map]
  constructor
  · rintro ⟨p, hp, rfl⟩
    by_cases hold : old <+: p
    · obtain ⟨r, rfl⟩ := hold
      rw [if_pos (List.prefix_append old r), List.drop_left]
      exact .inl ⟨r, hp, rfl⟩
    · rw [if_neg hold]
      exact .inr ⟨hp, hold⟩
  · rintro (⟨r, hr, rfl⟩ | ⟨hp, hold⟩)
    · refine ⟨old ++ r, hr, ?_⟩
      rw [if_pos (List.prefix_append old r), List.drop_left]
    · exact ⟨rel, hp, if_neg hold⟩

theorem rename (h : HoldsEntries base slug owned t)
    (hfind : t.find (base ++ [slug] ++ parent ++ [old]) = some found)
    (hfree : t.find (base ++ [slug] ++ parent ++ [new]) = none) :
    HoldsEntries base slug (owned.map fun p =>
        if parent ++ [old] <+: p then parent ++ [new] ++ p.drop (parent ++ [old]).length else p)
      ((t.put now (base ++ [slug] ++ parent ++ [old]) none).put now
        (base ++ [slug] ++ parent ++ [new]) (some found)) := by
  have hparent : t.isDirAt (base ++ [slug] ++ parent) = true :=
    isDirAt_of_below (by rw [hfind]; rfl) (List.cons_ne_nil old [])
  have hparent' : (t.put now (base ++ [slug] ++ parent ++ [old]) none).isDirAt
      (base ++ [slug] ++ parent) = true := by
    rw [isDirAt_put_of_above now none t (List.prefix_append _ _)]
    · exact hparent
    · exact (ne_of_concat_start List.prefix_rfl old).symm
  refine ⟨root_put (root_put h.root hparent old none) hparent' new _, ?_, ?_⟩
  · intro rel hrel
    rw [kindAt_put_within now hparent', kindAt_put_within now hparent, mem_moved_iff]
    by_cases hnew : parent ++ [new] <+: rel
    · obtain ⟨r, rfl⟩ := hnew
      rw [List.append_assoc] at hfree
      have hnotold := h.not_mem_below hfree r
      -- What stands below the new name stood below the old one.
      have hmoved : found.kindAt r = t.kindAt (base ++ [slug] ++ (parent ++ [old] ++ r)) := by
        rw [← List.append_assoc, ← List.append_assoc, kindAt, kindAt, find_append t, hfind,
          Option.bind_some]
      have hiff : ((∃ r', parent ++ [old] ++ r' ∈ owned ∧
          parent ++ [new] ++ r = parent ++ [new] ++ r') ∨
          parent ++ [new] ++ r ∈ owned ∧ ¬ parent ++ [old] <+: parent ++ [new] ++ r) ↔
          parent ++ [old] ++ r ∈ owned := by
        constructor
        · rintro (⟨r', hr', heq⟩ | ⟨hmem, -⟩)
          · rwa [List.append_cancel_left heq]
          · exact (hnotold hmem).elim
        · exact fun hmem => .inl ⟨r, hmem, rfl⟩
      rw [if_pos (List.prefix_append _ r), Option.bind_some, List.drop_left, hmoved, hiff]
      exact h.entries _ (List.append_ne_nil_of_left_ne_nil (concat_ne_nil parent old) r)
    · have hiff : ((∃ r', parent ++ [old] ++ r' ∈ owned ∧ rel = parent ++ [new] ++ r') ∨
          rel ∈ owned ∧ ¬ parent ++ [old] <+: rel) ↔ rel ∈ owned ∧ ¬ parent ++ [old] <+: rel := by
        constructor
        · rintro (⟨r', -, rfl⟩ | hmem)
          · exact (hnew (List.prefix_append _ r')).elim
          · exact hmem
        · exact .inr
      rw [if_neg hnew, hiff]
      by_cases hold : parent ++ [old] <+: rel
      · rw [if_pos hold, Option.bind_none]
        exact .inr ⟨fun hmem => hmem.2 hold, rfl⟩
      · rw [if_neg hold, and_iff_left hold]
        exact h.entries rel hrel
  · rw [mem_moved_iff]
    rintro (⟨r, -, hr⟩ | ⟨hmem, -⟩)
    · exact List.append_ne_nil_of_left_ne_nil (concat_ne_nil parent new) r hr.symm
    · exact h.nonempty hmem

/-! ## One operation -/

theorem perform (h : HoldsEntries base slug owned t) (hslug : IsSlug u slug)
    (hbase : t.isDirAt base = true) (hstep : FilesStep u base slug now t call r t') :
    HoldsEntries base slug (ownedAfter u base slug owned call r) t' := by
  cases hstep with
  | failed hens =>
    have hsame : ∀ err, ownedAfter u base slug owned call (.error err) = owned := by
      intro err
      cases call with
      | list => rfl
      | mkdir => rfl
      | rename => rfl
      | delete => rfl
    rw [hsame]
    exact h.ensured hbase hens
  | listed hens => exact h.ensured hbase hens
  | made hparent hdir hfree =>
    obtain ⟨rel, rfl⟩ := prefix_of_safeResolve hslug hparent
    rw [ownedAfter, relParts_of_resolve hparent, name_entryFromPath]
    exact h.mkdir hdir hfree
  | renamed htarget hroot hfind hfree =>
    obtain ⟨parent, old, rfl⟩ :=
      exists_concat_of_prefix (prefix_of_safeResolve hslug htarget) hroot
    rw [List.dropLast_concat] at hfree ⊢
    rw [List.append_assoc] at htarget
    rw [ownedAfter, relParts_of_resolve htarget, name_entryFromPath]
    rw [List.dropLast_concat]
    exact h.rename hfind hfree
  | deleted htarget hroot hfind hempty =>
    obtain ⟨parent, old, rfl⟩ :=
      exists_concat_of_prefix (prefix_of_safeResolve hslug htarget) hroot
    have hresolve := htarget
    rw [List.append_assoc] at hresolve
    rw [ownedAfter, relParts_of_resolve hresolve]
    exact h.delete hfind hempty

/-- An operation with another slug changes nothing here. -/
theorem of_keptWithin (h : HoldsEntries base slug owned t)
    (hkept : KeptWithin (base ++ [other]) t t') (hne : other ≠ slug) :
    HoldsEntries base slug owned t' := by
  have hsame : ∀ rel, t'.kindAt (base ++ [slug] ++ rel) = t.kindAt (base ++ [slug] ++ rel) := by
    intro rel
    rw [kindAt, kindAt, hkept.beside.beside]
    · rw [List.append_assoc, List.prefix_append_right_inj, List.singleton_append,
        List.cons_prefix_cons]
      exact fun hpre => hne hpre.1
    · rw [List.append_assoc, List.prefix_append_right_inj, List.singleton_append,
        List.cons_prefix_cons]
      exact fun hpre => hne hpre.1.symm
  refine ⟨?_, ?_, h.nonempty⟩
  · have hroot := hsame []
    rw [List.append_nil] at hroot
    rw [hroot]
    exact h.root
  · intro rel hrel
    rw [hsame]
    exact h.entries rel hrel

theorem find_of_noEntries (hnone : NoEntries base slug t) (name : String) (rel : List String) :
    t.kindAt (base ++ [slug] ++ name :: rel) = none := by
  have hfind := find_append_of_none (hnone name) rel
  rw [List.append_assoc, List.cons_append, List.singleton_append] at hfind
  rw [List.append_assoc, List.singleton_append]
  exact kindAt_eq_none_iff.2 hfind

theorem none_of_noEntries (h : HoldsEntries base slug owned t) (hnone : NoEntries base slug t) :
    owned = [] := by
  apply List.eq_nil_iff_forall_not_mem.2
  intro rel hrel
  cases rel with
  | nil => exact h.nonempty hrel
  | cons name rel =>
    have hkind := h.kind_of_mem hrel
    rw [find_of_noEntries hnone] at hkind
    cases hkind

theorem of_noEntries (hroot : t.kindAt (base ++ [slug]) ≠ some false)
    (hnone : NoEntries base slug t) : HoldsEntries base slug [] t := by
  refine ⟨hroot, ?_, List.not_mem_nil⟩
  intro rel hrel
  cases rel with
  | nil => exact (hrel rfl).elim
  | cons name rel => exact .inr ⟨List.not_mem_nil, find_of_noEntries hnone name rel⟩

end HoldsEntries

/-! ## What is listed -/

theorem mem_entriesOf : e ∈ entriesOf u target root listed ↔
    ∃ c ∈ listed, entryFromPath u (target ++ [c.1]) root c.2 = e := by
  rw [entriesOf, List.mem_map]
  have hmem : ∀ c, c ∈ sortByName u (listed.filter fun c => c.2.isDir) ++
      sortByName u (listed.filter fun c => !c.2.isDir) ↔ c ∈ listed := by
    intro c
    rw [List.mem_append, sortByName, sortByName, List.mem_mergeSort, List.mem_mergeSort,
      List.mem_filter, List.mem_filter, Bool.not_eq_true']
    cases c.2.isDir with
    | true => simp only [and_true, Bool.true_eq_false, and_false, or_false]
    | false => simp only [and_true, Bool.false_eq_true, and_false, false_or]
  simp only [hmem]

/-- A response shows just the entries right below a path. -/
structure ShowsEntries (rel : List String) (owned : List (List String))
    (response : FileListResponse) : Prop where
  names : ∀ name, name ∈ response.entries.map FileEntry.name ↔ rel ++ [name] ∈ owned
  paths : ∀ e ∈ response.entries, e.path = joinPath (rel ++ [e.name])

theorem HoldsEntries.shows (h : HoldsEntries base slug owned t)
    (hfind : t.find (base ++ [slug] ++ rel) = some (.dir listed time))
    (hentries : response.entries =
      entriesOf u (base ++ [slug] ++ rel) (base ++ [slug]) listed) :
    ShowsEntries rel owned response := by
  constructor
  · intro name
    have hbelow : t.find (base ++ [slug] ++ (rel ++ [name])) = listed.lookup name := by
      rw [← List.append_assoc, find_append, hfind, Option.bind_some, Tree.find, Tree.children]
      cases listed.lookup name with
      | none => rfl
      | some s => rfl
    have hlisted : name ∈ response.entries.map FileEntry.name ↔
        (listed.lookup name).isSome = true := by
      rw [hentries, List.mem_map, List.lookup_isSome_iff]
      constructor
      · rintro ⟨e, he, rfl⟩
        obtain ⟨c, hc, rfl⟩ := mem_entriesOf.1 he
        refine ⟨c, hc, ?_⟩
        rw [name_entryFromPath, beq_self_eq_true]
      · rintro ⟨c, hc, hname⟩
        refine ⟨_, mem_entriesOf.2 ⟨c, hc, rfl⟩, ?_⟩
        rw [name_entryFromPath]
        exact (beq_iff_eq.1 hname).symm
    rw [hlisted, ← hbelow]
    rcases h.entries (rel ++ [name]) (concat_ne_nil rel name) with ⟨hmem, hkind⟩ | ⟨hnot, hkind⟩
    · obtain ⟨_, _, hsome⟩ := find_of_kindAt hkind
      rw [hsome]
      exact iff_of_true rfl hmem
    · rw [kindAt_eq_none_iff.1 hkind]
      exact iff_of_false Bool.false_ne_true hnot
  · intro e he
    rw [hentries] at he
    obtain ⟨c, -, rfl⟩ := mem_entriesOf.1 he
    rw [name_entryFromPath, List.append_assoc, path_entryFromPath]

/-! ## Runs -/

variable {s s' : TenantStore} {history : List (TenantCall × TenantResult)}

theorem ownEntries_concat (u : Unicode) (base : List String) (id : Uuid)
    (history : List (TenantCall × TenantResult)) (a : TenantCall × TenantResult) :
    ownEntries u base id (history ++ [a]) =
      recordOwn u base id (ownEntries u base id history) a := by
  rw [ownEntries, List.foldl_append]
  rfl

/-- A call of the tenants service leaves the entries. -/
theorem ownEntries_tenant (u : Unicode) (base : List String) (id : Uuid)
    (history : List (TenantCall × TenantResult)) (call : TenantCall)
    (r : Except AppError TenantRead) :
    ownEntries u base id (history ++ [(call, .tenant r)]) = ownEntries u base id history := by
  rw [ownEntries_concat]
  cases call with
  | create => rfl
  | update => rfl
  | files => rfl

/-- Each tenant's directory holds what its own operations left there. -/
structure FilesFollow (u : Unicode) (base : List String)
    (history : List (TenantCall × TenantResult)) (s : TenantStore) : Prop where
  dir : s.uploads.isDirAt base = true
  flat : ∀ slug, s.uploads.kindAt (base ++ [slug]) ≠ some false
  slugs : ∀ x ∈ s.tenants.rows, ∀ y ∈ s.tenants.rows, x.slug = y.slug → x = y
  valid : ∀ x ∈ s.tenants.rows, IsSlug u x.slug
  holds : ∀ x ∈ s.tenants.rows,
    HoldsEntries base x.slug (ownEntries u base x.id history) s.uploads
  fresh : ∀ id, s.tenants.find id = none → ownEntries u base id history = []

namespace FilesFollow

/-- A row is added or replaced, under a slug that holds what the tenant's operations left. -/
theorem upsert (h : FilesFollow u base history s) (tenant : Tenant)
    (hfree : Untaken tenant.id tenant.name tenant.slug s.tenants) (hslug : IsSlug u tenant.slug)
    (hholds : HoldsEntries base tenant.slug (ownEntries u base tenant.id history) s.uploads) :
    FilesFollow u base history { s with tenants := s.tenants.upsert tenant } := by
  refine ⟨h.dir, h.flat, ?_, ?_, ?_, ?_⟩
  · intro x hx y hy hsame
    rcases KeyedTable.mem_upsert_iff.1 hx with rfl | ⟨hxold, hxid⟩
    · rcases KeyedTable.mem_upsert_iff.1 hy with rfl | ⟨hyold, hyid⟩
      · rfl
      · exact ((hfree y hyold hyid).2 hsame.symm).elim
    · rcases KeyedTable.mem_upsert_iff.1 hy with rfl | ⟨hyold, -⟩
      · exact ((hfree x hxold hxid).2 hsame).elim
      · exact h.slugs x hxold y hyold hsame
  · intro x hx
    rcases KeyedTable.mem_upsert_iff.1 hx with rfl | ⟨hx, -⟩
    · exact hslug
    · exact h.valid x hx
  · intro x hx
    rcases KeyedTable.mem_upsert_iff.1 hx with rfl | ⟨hx, -⟩
    · exact hholds
    · exact h.holds x hx
  · intro id hid
    apply h.fresh
    rw [KeyedTable.find_eq_none_iff] at hid ⊢
    intro x hx hkey
    by_cases hsame : x.id = tenant.id
    · exact hid tenant (KeyedTable.mem_upsert_iff.2 (.inl rfl)) (hsame.symm.trans hkey)
    · exact hid x (KeyedTable.mem_upsert_iff.2 (.inr ⟨hx, hsame⟩)) hkey

theorem record (h : FilesFollow u base history s) (call : TenantCall)
    (r : Except AppError TenantRead) :
    FilesFollow u base (history ++ [(call, .tenant r)]) s := by
  refine ⟨h.dir, h.flat, h.slugs, h.valid, ?_, ?_⟩
  · intro x hx
    rw [ownEntries_tenant]
    exact h.holds x hx
  · intro id hid
    rw [ownEntries_tenant]
    exact h.fresh id hid

theorem create (h : FilesFollow u base history s) (data : TenantCreate) (new_uuid : Uuid)
    (hfresh : SlugsFresh u base s (.create data new_uuid, r))
    (hcreate : TenantsService.create u data new_uuid s.tenants = .ok (tenant, tenants)) :
    FilesFollow u base history { s with tenants } := by
  rw [TenantsService.create] at hcreate
  split at hcreate
  · cases hcreate
  rw [TenantRepository.create] at hcreate
  split at hcreate
  · cases hcreate
  rename_i hid
  have hnone : s.tenants.find new_uuid = none := Option.not_isSome_iff_eq_none.1 hid
  obtain ⟨-, rfl, hfree⟩ := TenantRepository.flush_ok hcreate
  obtain ⟨hslug, hentries⟩ := hfresh.create data new_uuid rfl hnone hfree
  apply h.upsert _ hfree (isSlug_slugify hslug)
  rw [h.fresh new_uuid hnone]
  exact .of_noEntries (h.flat _) hentries

theorem update (h : FilesFollow u base history s) (slug : String) (data : TenantUpdate)
    (hfresh : SlugsFresh u base s (.update slug data, r))
    (hupdate : TenantsService.update u slug data s.tenants = .ok (tenant', tenants)) :
    FilesFollow u base history { s with tenants } := by
  rw [TenantsService.update] at hupdate
  cases hget : TenantRepository.getBySlug slug s.tenants with
  | none =>
    rw [hget] at hupdate
    cases hupdate
  | some tenant =>
    rw [hget] at hupdate
    obtain ⟨htenant, rfl⟩ := TenantRepository.getBySlug_eq_some hget
    obtain ⟨-, rfl, hfree⟩ := TenantRepository.flush_ok hupdate
    have hvalid := h.valid tenant htenant
    have hholds := h.holds tenant htenant
    cases hname : data.name.join.filter (· ≠ "") with
    | none =>
      rw [TenantsService.slugUpdate, hname] at hfree ⊢
      exact h.upsert _ hfree hvalid hholds
    | some name =>
      have hjoin : data.name.join = some name := (Option.filter_eq_some_iff.1 hname).1
      rw [TenantsService.slugUpdate, hname, hjoin] at hfree ⊢
      by_cases hsame : slugify u name = tenant.slug
      · apply h.upsert _ hfree
        · rw [Option.map_some, Option.getD_some, hsame]
          exact hvalid
        · rw [Option.map_some, Option.getD_some, hsame]
          exact hholds
      · obtain ⟨hslug, hleft, hentries⟩ :=
          hfresh.update tenant.slug data tenant name rfl hget hname hsame hfree
        apply h.upsert _ hfree (isSlug_slugify hslug)
        dsimp only
        rw [hholds.none_of_noEntries hleft]
        exact .of_noEntries (h.flat _) hentries

theorem files (h : FilesFollow u base history s) (e : FilesEvent)
    (htenant : tenant ∈ s.tenants.rows) :
    FilesFollow u base (history ++ [(.files tenant.slug e,
        .files tenant.id (FilesService.perform u base tenant.slug e s.uploads).1)])
      { s with uploads := (FilesService.perform u base tenant.slug e s.uploads).2 } := by
  have hslug := h.valid tenant htenant
  have hstep := perform_step e hslug h.dir
  obtain ⟨hdir, hkept⟩ := perform_keptWithin (.inr hslug) e h.dir
  have hown := (h.holds tenant htenant).perform hslug h.dir hstep
  refine ⟨hdir, ?_, h.slugs, h.valid, ?_, ?_⟩
  · intro slug
    by_cases hsame : slug = tenant.slug
    · rw [hsame]
      exact hown.root
    · rw [kindAt, hkept.beside.beside]
      · exact h.flat slug
      · rw [List.prefix_append_right_inj, List.cons_prefix_cons]
        exact fun hpre => hsame hpre.1.symm
      · rw [List.prefix_append_right_inj, List.cons_prefix_cons]
        exact fun hpre => hsame hpre.1
  · intro x hx
    rw [ownEntries_concat, recordOwn]
    by_cases hid : tenant.id = x.id
    · rw [if_pos hid, ← KeyedTable.eq_of_mem htenant hx hid]
      exact hown
    · rw [if_neg hid]
      apply (h.holds x hx).of_keptWithin hkept
      intro hsame
      exact hid (congrArg Tenant.id (h.slugs tenant htenant x hx hsame))
  · intro id hnone
    rw [ownEntries_concat, recordOwn, if_neg]
    · exact h.fresh id hnone
    · exact KeyedTable.find_eq_none_iff.1 hnone tenant htenant

theorem step {a : TenantCall × TenantResult} (h : FilesFollow u base history s)
    (hstep : TenantStore.Step u base s a s') (hfresh : SlugsFresh u base s a) :
    FilesFollow u base (history ++ [a]) s' := by
  obtain ⟨call, r⟩ := a
  rw [TenantStore.Step] at hstep
  cases call with
  | create data new_uuid =>
    cases hcreate : TenantsService.create u data new_uuid s.tenants with
    | error err =>
      rw [TenantStore.perform, hcreate] at hstep
      obtain ⟨rfl, rfl⟩ := Prod.mk.inj hstep
      exact h.record _ _
    | ok x =>
      rw [TenantStore.perform, hcreate] at hstep
      obtain ⟨rfl, rfl⟩ := Prod.mk.inj hstep
      exact (h.create data new_uuid hfresh hcreate).record _ _
  | update slug data =>
    cases hupdate : TenantsService.update u slug data s.tenants with
    | error err =>
      rw [TenantStore.perform, hupdate] at hstep
      obtain ⟨rfl, rfl⟩ := Prod.mk.inj hstep
      exact h.record _ _
    | ok x =>
      rw [TenantStore.perform, hupdate] at hstep
      obtain ⟨rfl, rfl⟩ := Prod.mk.inj hstep
      exact (h.update slug data hfresh hupdate).record _ _
  | files slug e =>
    cases hget : TenantRepository.getBySlug slug s.tenants with
    | none =>
      rw [TenantStore.perform, hget] at hstep
      obtain ⟨rfl, rfl⟩ := Prod.mk.inj hstep
      exact h.record _ _
    | some tenant =>
      rw [TenantStore.perform, hget] at hstep
      obtain ⟨htenant, rfl⟩ := TenantRepository.getBySlug_eq_some hget
      obtain ⟨rfl, rfl⟩ := Prod.mk.inj hstep
      exact h.files e htenant

end FilesFollow

theorem filesFollow_run
    (h : Run (Guarded (TenantStore.Step u base) (SlugsFresh u base)) s history s')
    (htenants : s.tenants = ∅) (hbase : s.uploads.find base = some (.dir [] time)) :
    FilesFollow u base history s' := by
  induction h with
  | nil =>
    have hdir : s.uploads.isDirAt base = true := by
      rw [isDirAt, hbase]
      rfl
    refine ⟨hdir, ?_, ?_, ?_, ?_, fun id _ => rfl⟩
    · intro slug
      rw [kindAt, find_append, hbase, Option.bind_some, find_empty_append time
        (List.cons_ne_nil slug [])]
      intro hkind
      cases hkind
    · rw [htenants]
      intro x hx
      cases hx
    · rw [htenants]
      intro x hx
      cases hx
    · rw [htenants]
      intro x hx
      cases hx
  | snoc _ hstep ih => exact ih.step hstep.1 hstep.2

/-- What `list_files` shows a tenant is just what the tenant owns. -/
structure ListsOwn (u : Unicode) (base : List String) (owned : List (List String)) (tenant : Tenant)
    (s : TenantStore) : Prop where
  top : safeResolve u base tenant.slug "" = some (base ++ [tenant.slug])
  lists : ∀ path now rel,
    safeResolve u base tenant.slug path = some (base ++ [tenant.slug] ++ rel) →
    rel = [] ∨ rel ∈ owned →
    ∃ response, (s.perform u base (.files tenant.slug ⟨.list path, now⟩)).1 =
      .files tenant.id (.ok (.listing response))
  exactly : ∀ path now response,
    (s.perform u base (.files tenant.slug ⟨.list path, now⟩)).1 =
      .files tenant.id (.ok (.listing response)) →
    ∃ rel, safeResolve u base tenant.slug path = some (base ++ [tenant.slug] ++ rel) ∧
      (rel = [] ∨ rel ∈ owned) ∧ ShowsEntries rel owned response

theorem HoldsEntries.listed (h : HoldsEntries base slug owned t) (hslug : IsSlug u slug)
    (hbase : t.isDirAt base = true) (now : Int)
    (hpath : safeResolve u base slug path = some (base ++ [slug] ++ rel))
    (hrel : rel = [] ∨ rel ∈ owned) :
    ∃ response, (listFiles u base slug path now t).1 = .ok (.listing response) := by
  have hlist : ∀ t' below time, ensureTenantDir u base slug now t = (.ok (base ++ [slug]), t') →
      t'.find (base ++ [slug] ++ rel) = some (.dir below time) →
      ∃ response, (listFiles u base slug path now t).1 = .ok (.listing response) := by
    intro t' below time hens hfind
    rw [listFiles, hens]
    dsimp only
    rw [hpath]
    dsimp only
    rw [hfind]
    exact ⟨_, rfl⟩
  have hens := ensureTenantDir_eq now hslug hbase
  cases hroot : t.find (base ++ [slug]) with
  | none =>
    rw [hroot] at hens
    rcases hrel with rfl | hmem
    · apply hlist _ _ _ hens
      rw [List.append_nil, find_put_concat now hbase]
    · have hkind := h.kind_of_mem hmem
      rw [kindAt_eq_none_iff.2 (find_append_of_none hroot rel)] at hkind
      cases hkind
  | some s =>
    cases s with
    | file =>
      have hkind := h.root
      rw [kindAt, hroot] at hkind
      exact (hkind rfl).elim
    | dir =>
      rw [hroot] at hens
      rcases hrel with rfl | hmem
      · apply hlist _ _ _ hens
        rw [List.append_nil, hroot]
      · obtain ⟨below, time, hfind⟩ := find_of_kindAt (h.kind_of_mem hmem)
        exact hlist _ _ _ hens hfind

theorem FilesFollow.listsOwn (h : FilesFollow u base history s)
    (htenant : tenant ∈ s.tenants.rows) :
    ListsOwn u base (ownEntries u base tenant.id history) tenant s := by
  have hslug := h.valid tenant htenant
  have hholds := h.holds tenant htenant
  have hget : TenantRepository.getBySlug tenant.slug s.tenants = some tenant := by
    cases hfind : TenantRepository.getBySlug tenant.slug s.tenants with
    | none =>
      have hnone := List.find?_eq_none.1 hfind tenant htenant
      exact (hnone (decide_eq_true rfl)).elim
    | some other =>
      obtain ⟨hother, hsame⟩ := TenantRepository.getBySlug_eq_some hfind
      rw [h.slugs other hother tenant htenant hsame]
  have hperform : ∀ path now, (s.perform u base (.files tenant.slug ⟨.list path, now⟩)).1 =
      .files tenant.id (listFiles u base tenant.slug path now s.uploads).1 := by
    intro path now
    rw [TenantStore.perform, hget]
    rfl
  refine ⟨safeResolve_empty base hslug, ?_, ?_⟩
  · intro path now rel hpath hrel
    obtain ⟨response, hlist⟩ := hholds.listed hslug h.dir now hpath hrel
    exact ⟨response, by rw [hperform, hlist]⟩
  · intro path now response hlist
    rw [hperform] at hlist
    have hstep := listFiles_step now path hslug h.dir
    rw [(TenantResult.files.inj hlist).2] at hstep
    generalize (listFiles u base tenant.slug path now s.uploads).2 = t' at hstep
    cases hstep with
    | listed hens hpath hfind hentries =>
      obtain ⟨rel, rfl⟩ := prefix_of_safeResolve hslug hpath
      have hafter := hholds.ensured h.dir hens
      refine ⟨rel, hpath, ?_, hafter.shows hfind hentries⟩
      by_cases hrel : rel = []
      · exact .inl hrel
      · apply Or.inr
        apply hafter.mem_of_kind hrel
        rw [kindAt, hfind]
        intro hkind
        cases hkind

theorem files_follow_tenant
    (h : Run (Guarded (TenantStore.Step u base) (SlugsFresh u base)) s history s')
    (htenants : s.tenants = ∅) (hbase : s.uploads.find base = some (.dir [] time)) :
    ∀ tenant ∈ s'.tenants.rows, ListsOwn u base (ownEntries u base tenant.id history) tenant s' :=
  fun _ htenant => (filesFollow_run h htenants hbase).listsOwn htenant

/-! ## A tenant that is renamed -/

/-- Nothing is stored yet. -/
def noTenants : TenantStore := ⟨∅, .dir [("uploads", .dir [] 0)] 0⟩

def createAcme : TenantCall := .create ⟨"Acme"⟩ ⟨1⟩

def listAcme : TenantCall := .files "acme" ⟨.list "", 1⟩

def makePlans : TenantCall := .files "acme" ⟨.mkdir "" "plans", 1⟩

def renameToApex : TenantCall := .update "acme" { name := some (some "Apex") }

def storeAfter (calls : List TenantCall) : TenantStore :=
  (Calls.run (TenantStore.perform asciiTables ["uploads"]) calls noTenants).2

def historyOf (calls : List TenantCall) : List (TenantCall × TenantResult) :=
  calls.zip (Calls.run (TenantStore.perform asciiTables ["uploads"]) calls noTenants).1

/-- Calls make a run, where each of them meets the condition. -/
theorem run_of_calls {P : TenantStore → TenantCall × TenantResult → Prop} (calls : List TenantCall)
    (s : TenantStore) (h : ∀ begun call rest, calls = begun ++ call :: rest →
      ∀ r, P (Calls.run (TenantStore.perform u base) begun s).2 (call, r)) :
    Run (Guarded (TenantStore.Step u base) P) s
      (calls.zip (Calls.run (TenantStore.perform u base) calls s).1)
      (Calls.run (TenantStore.perform u base) calls s).2 := by
  induction calls generalizing s with
  | nil => exact .nil
  | cons call calls ih =>
    have hfirst : Run (Guarded (TenantStore.Step u base) P) s
        [(call, (s.perform u base call).1)] (s.perform u base call).2 :=
      .single ⟨rfl, h [] call calls rfl _⟩
    apply hfirst.append
    apply ih
    intro begun next rest hcalls r
    exact h (call :: begun) next rest (congrArg (call :: ·) hcalls) r

theorem renamed_tenant_loses_entries : ¬ ∀ history s,
    Run (TenantStore.Step asciiTables ["uploads"]) noTenants history s →
    ∀ tenant ∈ s.tenants.rows, ListsOwn asciiTables ["uploads"]
      (ownEntries asciiTables ["uploads"] tenant.id history) tenant s := by
  intro h
  let calls := [createAcme, listAcme, makePlans, renameToApex]
  have hrun : Run (TenantStore.Step asciiTables ["uploads"]) noTenants (historyOf calls)
      (storeAfter calls) :=
    (run_of_calls (P := fun _ _ => True) calls noTenants fun _ _ _ _ _ => trivial).of_guarded
  have hrows : (storeAfter calls).tenants.rows.map (fun tenant => (tenant.id, tenant.slug)) =
      [(⟨1⟩, "apex")] := by
    decide +kernel
  obtain ⟨tenant, htenant, hkeys⟩ : ∃ tenant ∈ (storeAfter calls).tenants.rows,
      (tenant.id, tenant.slug) = ((⟨1⟩ : Uuid), "apex") := by
    apply List.mem_map.1
    rw [hrows]
    exact List.mem_singleton_self _
  obtain ⟨hid, hslug⟩ := Prod.mk.inj hkeys
  have howned : ownEntries asciiTables ["uploads"] ⟨1⟩ (historyOf calls) = [["plans"]] := by
    decide +kernel
  have hlist : ((storeAfter calls).perform asciiTables ["uploads"]
      (.files "apex" ⟨.list "", 2⟩)).1 = .files ⟨1⟩ (.ok (.listing ⟨true, [], "", "apex"⟩)) := by
    decide +kernel
  have hown := h _ _ hrun tenant htenant
  rw [hid, howned] at hown
  obtain ⟨rel, hpath, -, hshows⟩ :=
    hown.exactly "" 2 ⟨true, [], "", "apex"⟩ (by rw [hslug, hid, hlist])
  rw [hown.top] at hpath
  obtain rfl : rel = [] := List.append_right_eq_self.1 (Option.some.inj hpath).symm
  cases (hshows.names "plans").2 (List.mem_singleton_self _)

theorem slugsFresh_files (s : TenantStore) (e : FilesEvent) (r : TenantResult) :
    SlugsFresh u base s (.files slug e, r) := by
  constructor
  · intro data new_uuid hcall
    cases hcall
  · intro slug data tenant name hcall
    cases hcall

theorem slugsFresh_createAcme (r : TenantResult) :
    SlugsFresh asciiTables ["uploads"] noTenants (createAcme, r) := by
  have hslug : slugify asciiTables "Acme" = "acme" := by decide +kernel
  constructor
  · intro data new_uuid hcall _ _
    obtain ⟨rfl, rfl⟩ := TenantCall.create.inj hcall
    rw [hslug]
    exact ⟨by decide, fun name => rfl⟩
  · intro slug data tenant name hcall
    cases hcall

/-- A new tenant, and an entry that it makes. -/
theorem new_tenant_lists_own :
    ∃ tenant ∈ (storeAfter [createAcme, listAcme, makePlans]).tenants.rows,
      ListsOwn asciiTables ["uploads"] (ownEntries asciiTables ["uploads"] tenant.id
        (historyOf [createAcme, listAcme, makePlans])) tenant
        (storeAfter [createAcme, listAcme, makePlans]) := by
  have hrun : Run (Guarded (TenantStore.Step asciiTables ["uploads"])
      (SlugsFresh asciiTables ["uploads"])) noTenants
      (historyOf [createAcme, listAcme, makePlans])
      (storeAfter [createAcme, listAcme, makePlans]) := by
    apply run_of_calls
    intro begun call rest hcalls r
    cases begun with
    | nil =>
      obtain rfl : createAcme = call := (List.cons.inj hcalls).1
      exact slugsFresh_createAcme r
    | cons first begun =>
      have hmem : call ∈ [listAcme, makePlans] := by
        rw [(List.cons.inj hcalls).2]
        exact List.mem_append_right begun List.mem_cons_self
      rcases List.mem_cons.1 hmem with rfl | hmem
      · exact slugsFresh_files _ _ r
      · rw [List.mem_singleton.1 hmem]
        exact slugsFresh_files _ _ r
  have hlength : (storeAfter [createAcme, listAcme, makePlans]).tenants.rows.length = 1 := by
    decide +kernel
  obtain ⟨tenant, hrows⟩ := List.length_eq_one_iff.1 hlength
  have htenant : tenant ∈ (storeAfter [createAcme, listAcme, makePlans]).tenants.rows :=
    hrows ▸ List.mem_singleton_self tenant
  exact ⟨tenant, htenant, files_follow_tenant hrun rfl rfl tenant htenant⟩

end ScottyCore
