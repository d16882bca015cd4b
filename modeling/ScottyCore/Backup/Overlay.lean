import Mathlib.Data.String.Basic
import ScottyCore.Backup.Uploads

namespace ScottyCore
open Python FileSystem
set_option autoImplicit true

/-! ## The export -/

/-- `sorted(root.rglob("*"))` -/
def sortedPaths (root : List String) (t : Disk) : List (List String) :=
  ((t.entries.rows.map Prod.fst).filter fun path => root <+: path ∧ path ≠ root).mergeSort
    fun path path' => decide (path ≤ path')

/-- `FilesContributor.export` for the platform. -/
def FilesContributor.exportPlatform (base : List String) (max_bytes_per_file : Nat) (t : Disk) :
    List (String × List UInt8) :=
  if t.isDir base then
    (sortedPaths base t).filterMap fun path =>
      match t.find path with
      | some (.file raw) =>
        if max_bytes_per_file < raw.length then none
        else some (joinPath (path.drop base.length), raw)
      | _ => none
  else []

/-! ## Laying files over a tree -/

/-- A file below some base directory. -/
structure Upload where
  dirs : List String
  name : String
  raw : List UInt8

namespace Upload

def path (u : Upload) : List String := u.dirs ++ [u.name]

/-- Where `restore` puts the bytes first. -/
def part (u : Upload) : List String := u.dirs ++ [u.name ++ ".part"]

end Upload

/-- The tree of uploads below a base directory holds a file. -/
def HoldsUpload (base : List String) (t : Disk) (u : Upload) : Prop :=
  t.find (base ++ u.path) = some (.file u.raw)

section

variable (files : Upload → Prop) (base : List String) (t : Disk)

/-- A directory that the files need. -/
def OnTheWay (q : List String) : Prop := q <+: base ∨ ∃ u, files u ∧ q <+: base ++ u.dirs

/-- No file is in the place of a directory of the tree, and no directory in the place of a file. -/
structure NoCollision : Prop where
  file_free : ∀ u, files u → t.isDir (base ++ u.path) = false
  dir_free : ∀ q, OnTheWay files base q → t.isFile q = false

/-- The tree with every file added or replaced, the directories on the way to them, and else as it
was. -/
structure Overlays (result : Option Fault × Disk) : Prop where
  returns : result.1 = none
  written : ∀ u, files u → result.2.find (base ++ u.path) = some (.file u.raw)
  kept : ∀ q n, t.find q = some n → (∀ u, files u → q ≠ base ++ u.path) →
    result.2.find q = some n
  made : ∀ q, t.find q = none → OnTheWay files base q → result.2.find q = some .dir
  absent : ∀ q, t.find q = none → ¬ OnTheWay files base q → (∀ u, files u → q ≠ base ++ u.path) →
    result.2.find q = none

/-- At the `.part` name of each file there is nothing, or a file that is replaced too. -/
def PartsFree : Prop :=
  ∀ u, files u → t.find (base ++ u.part) = none ∨
    t.isFile (base ++ u.part) = true ∧ ∃ v, files v ∧ v.path = u.part

end

/-! ## What is exported -/

/-- One file before another: its place is not the `.part` file of the other, nor below it. -/
def Upload.Before (u v : Upload) : Prop := u.path ≠ v.path ∧ ¬ v.part <+: u.path

theorem lt_part (name : String) : name < name ++ ".part" := by
  rw [String.lt_iff_toList_lt, String.toList_append]
  have h : name.toList ++ [] < name.toList ++ (".part" : String).toList :=
    List.append_left_lt (by decide)
  rwa [List.append_nil] at h

theorem Upload.lt_of_part_prefix {u v : Upload} (h : v.part <+: u.path) (base : List String) :
    base ++ v.path < base ++ u.path := by
  obtain ⟨rest, hrest⟩ := h
  rw [← hrest, part, path, List.append_assoc]
  apply List.append_left_lt
  apply List.append_left_lt
  exact List.cons_lt_cons_iff.2 (.inl (lt_part v.name))

theorem mem_sortedPaths : path ∈ sortedPaths root t ↔
    (∃ n, (path, n) ∈ t.entries.rows) ∧ root <+: path ∧ path ≠ root := by
  rw [sortedPaths, List.mem_mergeSort, List.mem_filter, List.mem_map, decide_eq_true_iff]
  apply and_congr_left'
  constructor
  · rintro ⟨e, he, rfl⟩
    exact ⟨e.2, he⟩
  · rintro ⟨n, h⟩
    exact ⟨(path, n), h, rfl⟩

theorem sortedPaths_lt (root : List String) (t : Disk) : (sortedPaths root t).Pairwise (· < ·) := by
  have hsorted : (sortedPaths root t).Pairwise (· ≤ ·) := by
    apply (List.pairwise_mergeSort _ _ _).imp of_decide_eq_true
    · intro p q r hpq hqr
      exact decide_eq_true ((of_decide_eq_true hpq).trans (of_decide_eq_true hqr))
    · intro p q
      rw [Bool.or_eq_true, decide_eq_true_iff, decide_eq_true_iff]
      exact le_total p q
  have hnodup : (sortedPaths root t).Nodup :=
    (List.mergeSort_perm _ _).nodup_iff.2 (t.entries.nodup.filter _)
  exact (hsorted.and hnodup).imp fun h => lt_of_le_of_ne h.1 h.2

/-- What `export` reads at a path below the base. -/
def uploadAt (base : List String) (t : Disk) (path : List String) : Option Upload :=
  match t.find path, (path.drop base.length).getLast? with
  | some (.file raw), some name => some ⟨(path.drop base.length).dropLast, name, raw⟩
  | _, _ => none

theorem uploadAt_eq_some_iff (hpre : base <+: path) :
    uploadAt base t path = some u ↔ path = base ++ u.path ∧ HoldsUpload base t u := by
  obtain ⟨rel, rfl⟩ := hpre
  rw [uploadAt, List.drop_left]
  constructor
  · intro h
    split at h
    · rename_i raw name hfind hlast
      cases h
      have hrel := List.dropLast_append_getLast? name hlast
      rw [HoldsUpload, Upload.path, hrel]
      exact ⟨rfl, hfind⟩
    · cases h
  · rintro ⟨hpath, hholds⟩
    obtain rfl : rel = u.path := List.append_cancel_left hpath
    rw [hholds, Upload.path, List.getLast?_concat, List.dropLast_concat]

theorem HoldsUpload.mem_sortedPaths (h : HoldsUpload base t u) :
    base ++ u.path ∈ sortedPaths base t := by
  have hne : u.path ≠ [] := List.append_ne_nil_of_right_ne_nil _ (List.cons_ne_nil _ _)
  apply ScottyCore.mem_sortedPaths.2
  refine ⟨⟨_, (FileTree.find_eq_some_iff ?_).1 h⟩, List.prefix_append _ _, ?_⟩
  · exact List.append_ne_nil_of_right_ne_nil _ hne
  · intro he
    exact hne (List.append_cancel_left (he.trans (List.append_nil base).symm))

theorem isDir_of_holds (h : HoldsUpload base t u) : t.isDir base = true :=
  FileTree.isDir_iff.2
    (FileTree.find_of_append h (List.append_ne_nil_of_right_ne_nil _ (List.cons_ne_nil _ _)))

def Upload.entry (u : Upload) : String × List UInt8 := (joinPath u.path, u.raw)

theorem entry_uploadAt (hpre : base <+: path) (hne : path ≠ base)
    (hcap : ∀ u, HoldsUpload base t u → u.raw.length ≤ cap) :
    (match t.find path with
      | some (.file raw) =>
        if cap < raw.length then none else some (joinPath (path.drop base.length), raw)
      | _ => none) = (uploadAt base t path).map Upload.entry := by
  obtain ⟨rel, rfl⟩ := hpre
  rcases List.eq_nil_or_concat rel with rfl | ⟨dirs, name, rfl⟩
  · exact (hne (List.append_nil base)).elim
  · rw [List.concat_eq_append, uploadAt, List.drop_left, List.getLast?_concat, List.dropLast_concat]
    cases hfind : t.find (base ++ (dirs ++ [name])) with
    | none => rfl
    | some n =>
      cases n with
      | dir => rfl
      | file raw => exact if_neg (Nat.not_lt.2 (hcap ⟨dirs, name, raw⟩ hfind))

/-- Within the size cap, the export lists each upload once, and none after its `.part` name. -/
theorem exportPlatform_eq (hcap : ∀ u, HoldsUpload base t u → u.raw.length ≤ cap) :
    ∃ uploads : List Upload,
      FilesContributor.exportPlatform base cap t = uploads.map Upload.entry ∧
      uploads.Pairwise Upload.Before ∧ ∀ u, u ∈ uploads ↔ HoldsUpload base t u := by
  cases hdir : t.isDir base with
  | false =>
    refine ⟨[], ?_, List.Pairwise.nil, ?_⟩
    · rw [FilesContributor.exportPlatform, hdir]
      rfl
    · intro u
      apply iff_of_false List.not_mem_nil
      intro h
      rw [isDir_of_holds h] at hdir
      cases hdir
  | true =>
    have hpre : ∀ path ∈ sortedPaths base t, base <+: path := fun path h =>
      (mem_sortedPaths.1 h).2.1
    refine ⟨(sortedPaths base t).filterMap (uploadAt base t), ?_, ?_, ?_⟩
    · rw [FilesContributor.exportPlatform, hdir, if_pos rfl, List.map_filterMap]
      apply List.filterMap_congr
      intro path hpath
      obtain ⟨-, hpre, hne⟩ := mem_sortedPaths.1 hpath
      exact entry_uploadAt hpre hne hcap
    · apply List.Pairwise.filterMap _ _ (List.Pairwise.and_mem.1 (sortedPaths_lt base t))
      rintro path path' ⟨hpath, hpath', hlt⟩ u hu v hv
      obtain ⟨rfl, -⟩ := (uploadAt_eq_some_iff (hpre path hpath)).1 hu
      obtain ⟨rfl, -⟩ := (uploadAt_eq_some_iff (hpre path' hpath')).1 hv
      constructor
      · intro he
        rw [he] at hlt
        exact lt_irrefl _ hlt
      · intro hpart
        exact lt_asymm hlt (Upload.lt_of_part_prefix hpart base)
    · intro u
      rw [List.mem_filterMap]
      constructor
      · rintro ⟨path, hpath, hat⟩
        exact ((uploadAt_eq_some_iff (hpre path hpath)).1 hat).2
      · intro h
        exact ⟨_, h.mem_sortedPaths, (uploadAt_eq_some_iff (List.prefix_append _ _)).2 ⟨rfl, h⟩⟩

/-! ## One file -/

section

variable {base : List String} {t : Disk} {u v : Upload}

theorem Upload.part_ne_path : u.part ≠ u.path := by
  intro he
  have hname := List.singleton_inj.1 (List.append_cancel_left he)
  exact (lt_part u.name).ne hname.symm

theorem Upload.path_eq_of_part (h : u.part = v.part) : u.path = v.path := by
  obtain ⟨hdirs, hname⟩ := List.append_inj' h rfl
  have hlist := congrArg String.toList (List.singleton_inj.1 hname)
  rw [String.toList_append, String.toList_append] at hlist
  rw [path, path, hdirs, String.toList_inj.1 (List.append_cancel_right hlist)]

theorem Upload.not_prefix_dirs (base : List String) (last : String) :
    ¬ base ++ (u.dirs ++ [last]) <+: base ++ u.dirs := by
  intro h
  have hlen := h.length_le
  rw [List.length_append, List.length_append, List.length_append, List.length_singleton] at hlen
  omega

theorem Upload.names (hbase : ∀ p ∈ base, IsName p) (hnames : ∀ p ∈ u.path, IsName p) :
    ∀ p ∈ (base ++ u.dirs) ++ [u.name], IsName p := by
  rw [List.append_assoc, List.forall_mem_append]
  exact ⟨hbase, hnames⟩

theorem Upload.target (hnames : ∀ p ∈ u.path, IsName p) :
    targetParts base u.entry.1 = (base ++ u.dirs) ++ [u.name] := by
  rw [List.append_assoc]
  exact targetParts_joinPath base
    (List.append_ne_nil_of_right_ne_nil _ (List.cons_ne_nil _ _)) hnames

theorem Upload.inside (hall : ∀ p ∈ (base ++ u.dirs) ++ [u.name], IsName p) :
    base <+: resolveParts ((base ++ u.dirs) ++ [u.name]) := by
  rw [resolveParts_of_names hall, List.append_assoc]
  exact List.prefix_append _ _

/-- The tree with one file put in its place: the directories on the way are there, and the `.part`
name is free. -/
def Placed (base : List String) (u : Upload) (t t' : Disk) : Prop :=
  ∀ q, t'.find q =
    if q = base ++ u.path then some (.file u.raw)
    else if q = base ++ u.part then none
    else if t.find q = none ∧ q <+: base ++ u.dirs then some .dir else t.find q

/-- A file whose own place and `.part` name are no directories is put in its place. -/
theorem restore_upload (hbase : ∀ p ∈ base, IsName p) (hnames : ∀ p ∈ u.path, IsName p)
    (hpath : t.isDir (base ++ u.path) = false)
    (hdirs : ∀ q, q <+: base ++ u.dirs → t.isFile q = false)
    (hpart : t.isDir (base ++ u.part) = false) :
    ∃ t', runOps (restoreOps base u.entry) t = (none, t') ∧ Placed base u t t' := by
  have hall := Upload.names hbase hnames
  have hdirnames : ∀ p ∈ base ++ u.dirs, IsName p :=
    fun p hp => hall p (List.mem_append_left _ hp)
  have hname : IsName u.name := hall u.name (List.mem_append_right _ List.mem_cons_self)
  have hpartnames : ∀ p ∈ (base ++ u.dirs) ++ [u.name ++ ".part"], IsName p := by
    rw [List.forall_mem_append, List.forall_mem_singleton]
    exact ⟨hdirnames, isName_part hname.1⟩
  have hself := resolveParts_of_names hall
  have hpartself := resolveParts_of_names hpartnames
  obtain ⟨t₁, hmade, hfind₁⟩ := FileTree.makeDirs_of_names hdirnames hdirs
  have hsame : ∀ last, t₁.find (base ++ (u.dirs ++ [last])) = t.find (base ++ (u.dirs ++ [last])) :=
    fun last => (hfind₁ _).trans (if_neg fun h => Upload.not_prefix_dirs base last h.2)
  have hpart₁ : t₁.isDir ((base ++ u.dirs) ++ [u.name ++ ".part"]) = false := by
    rw [FileTree.isDir, List.append_assoc, hsame, ← FileTree.isDir]
    exact hpart
  have hpath₁ : t₁.isDir ((base ++ u.dirs) ++ [u.name]) = false := by
    rw [FileTree.isDir, List.append_assoc, hsame, ← FileTree.isDir]
    exact hpath
  have hdir₁ : t₁.find (base ++ u.dirs) = some .dir := by
    have hmake := FileTree.find_makeDirs_self hdirnames (congrArg Prod.fst hmade)
    rwa [hmade] at hmake
  have hwritten := restoreFile_of_written (Upload.target hnames) (fun p hp => (hall p hp).1)
    ⟨hname.2.1, hname.2.2.1⟩ (Upload.inside hall) hmade (hpartself.symm ▸ hpart₁)
  rw [hself, hpartself, hpath₁] at hwritten
  refine ⟨_, hwritten, ?_⟩
  intro q
  have hne : u.name ++ ".part" ≠ u.name := (lt_part u.name).ne'
  rw [FileTree.find_set_replaced hdir₁ hname (isName_part hname.1) hne hpath₁ hpart₁, hfind₁,
    List.append_assoc, List.append_assoc]
  rfl

/-! ## All files -/

/-- No path of the files lies below another. -/
def Treelike (files : Upload → Prop) : Prop := ∀ u v, files u → files v → ¬ u.path <+: v.dirs

theorem OnTheWay.ne_path (htree : Treelike files) (h : OnTheWay files base q) (hu : files u) :
    q ≠ base ++ u.path := by
  rintro rfl
  rcases h with hpre | ⟨v, hv, hpre⟩
  · apply Upload.not_prefix_dirs (u := u) base u.name
    exact hpre.trans (List.prefix_append _ _)
  · exact htree u v hu hv ((List.prefix_append_right_inj base).1 hpre)

theorem PartsFree.not_dir (h : PartsFree files base t) (hu : files u) :
    t.isDir (base ++ u.part) = false := by
  rcases h u hu with hnone | ⟨hfile, -⟩
  · rw [FileTree.isDir, hnone]
  · obtain ⟨raw, hraw⟩ := FileTree.isFile_iff.1 hfile
    rw [FileTree.isDir, hraw]

/-- A place that no file has is not the `.part` name of one, if something stands there. -/
theorem PartsFree.ne_part (h : PartsFree files base t) (hq : t.find q = some n)
    (hfree : ∀ v, files v → q ≠ base ++ v.path) (hu : files u) : q ≠ base ++ u.part := by
  rintro rfl
  rcases h u hu with hnone | ⟨-, v, hv, hpath⟩
  · rw [hnone] at hq
    cases hq
  · exact hfree v hv (hpath ▸ rfl)

theorem Placed.find_path (h : Placed base u t t') :
    t'.find (base ++ u.path) = some (.file u.raw) := by
  rw [h, if_pos rfl]

theorem Placed.find_part (h : Placed base u t t') : t'.find (base ++ u.part) = none := by
  rw [h, if_neg, if_pos rfl]
  intro he
  exact Upload.part_ne_path (List.append_cancel_left he)

theorem Placed.find_eq (h : Placed base u t t') (hpath : q ≠ base ++ u.path)
    (hpart : q ≠ base ++ u.part) (hq : t.find q = none → ¬ q <+: base ++ u.dirs) :
    t'.find q = t.find q := by
  rw [h, if_neg hpath, if_neg hpart, if_neg fun hand => hq hand.1 hand.2]

theorem Placed.find_dir (h : Placed base u t t') (hnone : t.find q = none)
    (hpre : q <+: base ++ u.dirs) : t'.find q = some .dir := by
  rw [h, if_neg, if_neg, if_pos ⟨hnone, hpre⟩]
  · rintro rfl
    exact Upload.not_prefix_dirs base _ hpre
  · rintro rfl
    exact Upload.not_prefix_dirs base _ hpre

/-- A file or directory that the file does not concern, in the tree with the file. -/
theorem Placed.find_of_before (h : Placed base u t t') (hu : u.path ≠ v.path)
    (hpath : ¬ v.path <+: u.dirs) (hpart : ¬ v.part <+: u.path) :
    (t'.find (base ++ v.path) = t.find (base ++ v.path) ∨ t'.find (base ++ v.path) = none) ∧
      t'.find (base ++ v.part) = t.find (base ++ v.part) := by
  have hcancel : ∀ {a b : List String}, base ++ a <+: base ++ b → a <+: b :=
    (List.prefix_append_right_inj base).1
  constructor
  · by_cases hvpart : v.path = u.part
    · right
      rw [hvpart, h.find_part]
    · left
      apply h.find_eq
      · exact fun he => hu (List.append_cancel_left he).symm
      · exact fun he => hvpart (List.append_cancel_left he)
      · exact fun _ hpre => hpath (hcancel hpre)
  · apply h.find_eq
    · exact fun he => hpart (List.append_cancel_left he ▸ List.prefix_refl _)
    · exact fun he => hu (Upload.path_eq_of_part (List.append_cancel_left he)).symm
    · exact fun _ hpre => hpart ((hcancel hpre).trans (List.prefix_append _ _))

section

variable {uploads : List Upload}

theorem NoCollision.placed (hfit : NoCollision (· ∈ u :: uploads) base t) (h : Placed base u t t')
    (htree : Treelike (· ∈ u :: uploads)) (hbefore : ∀ v ∈ uploads, u.Before v) :
    NoCollision (· ∈ uploads) base t' where
  file_free v hv := by
    have hv' := List.mem_cons_of_mem u hv
    obtain ⟨hpath, hpart⟩ := hbefore v hv
    have hmiss := htree v u hv' List.mem_cons_self
    rcases (h.find_of_before hpath hmiss hpart).1 with hfind | hfind
    · rw [FileTree.isDir, hfind]
      exact hfit.file_free v hv'
    · rw [FileTree.isDir, hfind]
  dir_free q hq := by
    have hway : OnTheWay (· ∈ u :: uploads) base q := by
      apply hq.imp_right
      intro hex
      obtain ⟨v, hv, hpre⟩ := hex
      exact ⟨v, List.mem_cons_of_mem u hv, hpre⟩
    have hpath := hway.ne_path htree List.mem_cons_self
    rw [FileTree.isFile, h, if_neg hpath]
    by_cases hpart : q = base ++ u.part
    · rw [if_pos hpart]
    · rw [if_neg hpart]
      split_ifs
      · rfl
      · exact hfit.dir_free q hway

theorem PartsFree.placed (hparts : PartsFree (· ∈ u :: uploads) base t) (h : Placed base u t t')
    (htree : Treelike (· ∈ u :: uploads)) (hbefore : ∀ v ∈ uploads, u.Before v) :
    PartsFree (· ∈ uploads) base t' := by
  intro v hv
  have hv' := List.mem_cons_of_mem u hv
  obtain ⟨hpath, hpart⟩ := hbefore v hv
  have hfind := (h.find_of_before hpath (htree v u hv' List.mem_cons_self) hpart).2
  rw [FileTree.isFile, hfind]
  apply (hparts v hv').imp_right
  rintro ⟨hfile, w, hw, he⟩
  rcases List.mem_cons.1 hw with rfl | hw
  · exact (hpart (he ▸ List.prefix_refl _)).elim
  · exact ⟨hfile, w, hw, he⟩

theorem Treelike.tail (h : Treelike (· ∈ u :: uploads)) : Treelike (· ∈ uploads) :=
  fun v w hv hw => h v w (List.mem_cons_of_mem u hv) (List.mem_cons_of_mem u hw)

/-- One file placed, and the rest laid over the tree with it. -/
theorem Overlays.cons (hrest : Overlays (· ∈ uploads) base t' result) (h : Placed base u t t')
    (hparts : PartsFree (· ∈ u :: uploads) base t) (htree : Treelike (· ∈ u :: uploads))
    (hbefore : ∀ v ∈ uploads, u.Before v) : Overlays (· ∈ u :: uploads) base t result where
  returns := hrest.returns
  written v hv := by
    rcases List.mem_cons.1 hv with rfl | hv
    · apply hrest.kept _ _ h.find_path
      intro w hw he
      exact (hbefore w hw).1 (List.append_cancel_left he)
    · exact hrest.written v hv
  kept q n hq hfree := by
    apply hrest.kept q n _ fun v hv => hfree v (List.mem_cons_of_mem u hv)
    rw [h.find_eq (hfree u List.mem_cons_self) (hparts.ne_part hq hfree List.mem_cons_self), hq]
    intro hnone
    rw [hq] at hnone
    cases hnone
  made q hnone hway := by
    have hne : ∀ v ∈ u :: uploads, q ≠ base ++ v.path := fun v hv => hway.ne_path htree hv
    by_cases hpre : q <+: base ++ u.dirs
    · exact hrest.kept q .dir (h.find_dir hnone hpre) fun v hv => hne v (List.mem_cons_of_mem u hv)
    · apply hrest.made q
      · by_cases hpart : q = base ++ u.part
        · rw [hpart, h.find_part]
        · rw [h.find_eq (hne u List.mem_cons_self) hpart fun _ => hpre, hnone]
      · rcases hway with hbase | ⟨v, hv, hpre'⟩
        · exact .inl hbase
        · rcases List.mem_cons.1 hv with rfl | hv
          · exact (hpre hpre').elim
          · exact .inr ⟨v, hv, hpre'⟩
  absent q hnone hway hfree := by
    have hpre : ¬ q <+: base ++ u.dirs := fun hpre => hway (.inr ⟨u, List.mem_cons_self, hpre⟩)
    apply hrest.absent q
    · by_cases hpart : q = base ++ u.part
      · rw [hpart, h.find_part]
      · rw [h.find_eq (hfree u List.mem_cons_self) hpart fun _ => hpre, hnone]
    · exact fun h' => hway (h'.imp_right fun ⟨v, hv, hpre'⟩ =>
        ⟨v, List.mem_cons_of_mem u hv, hpre'⟩)
    · exact fun v hv => hfree v (List.mem_cons_of_mem u hv)

theorem restore_uploads (hbase : ∀ p ∈ base, IsName p) (hdir : t.find base = some .dir)
    (hnames : ∀ u ∈ uploads, ∀ p ∈ u.path, IsName p) (hbefore : uploads.Pairwise Upload.Before)
    (htree : Treelike (· ∈ uploads)) (hfit : NoCollision (· ∈ uploads) base t)
    (hparts : PartsFree (· ∈ uploads) base t) :
    Overlays (· ∈ uploads) base t
      (runOps ((uploads.map Upload.entry).flatMap (restoreOps base)) t) := by
  induction uploads generalizing t with
  | nil =>
    refine ⟨rfl, nofun, fun _ _ hq _ => hq, ?_, fun _ hq _ _ => hq⟩
    rintro q hnone (hpre | ⟨u, hu, -⟩)
    · by_cases he : q = base
      · exact he ▸ hdir
      · exact FileTree.find_of_ancestor hpre he hdir
    · cases hu
  | cons u uploads ih =>
    have hu : u ∈ u :: uploads := List.mem_cons_self
    obtain ⟨hfirst, hrest⟩ := List.pairwise_cons.1 hbefore
    obtain ⟨t', hrun, hplaced⟩ := restore_upload hbase (hnames u hu) (hfit.file_free u hu)
      (fun q hpre => hfit.dir_free q (.inr ⟨u, hu, hpre⟩)) (hparts.not_dir hu)
    have hdir' : t'.find base = some .dir := by
      have hkept := find_runOps_of_dir (restoreOps base u.entry) hdir
      rwa [hrun] at hkept
    rw [List.map_cons, List.flatMap_cons, runOps_append_of_ok hrun]
    apply Overlays.cons _ hplaced hparts htree hfirst
    exact ih hdir' (fun v hv => hnames v (List.mem_cons_of_mem u hv)) hrest htree.tail
      (hfit.placed hplaced htree hfirst) (hparts.placed hplaced htree hfirst)

/-! ## What a restoration that returns has met -/

theorem placed_of_restored (hbase : ∀ p ∈ base, IsName p) (hdir : t.find base = some .dir)
    (hnames : ∀ p ∈ u.path, IsName p) (h : runOps (restoreOps base u.entry) t = (none, t')) :
    Placed base u t t' ∧ t.isDir (base ++ u.part) = false := by
  have hall := Upload.names hbase hnames
  have hdirnames : ∀ p ∈ base ++ u.dirs, IsName p :=
    fun p hp => hall p (List.mem_append_left _ hp)
  have hdirparts : ∀ p ∈ base ++ u.dirs, IsPart p := fun p hp => (hdirnames p hp).1
  have hname : IsName u.name := hall u.name (List.mem_append_right _ List.mem_cons_self)
  obtain ⟨t₁, hmade, hpart, hpath, -⟩ := below_of_restored (Upload.target hnames)
    (fun p hp => (hall p hp).1) ⟨hname.2.1, hname.2.2.1⟩ (Upload.inside hall) hdir
    (congrArg Prod.fst h)
  -- a directory that is there is there when the directories are made
  have hback : ∀ {q}, t₁.isDir q = false → t.isDir q = false := by
    intro q hq
    apply Bool.eq_false_iff.2
    intro hdirq
    have hkept := FileTree.find_makeDirs_of_some t.find_nil hdirparts (FileTree.isDir_iff.1 hdirq)
    rw [hmade, ← FileTree.isDir_iff, hq] at hkept
    cases hkept
  rw [resolveParts_of_names hall, List.append_assoc] at hpath
  have hpartself : resolveParts ((base ++ u.dirs) ++ [u.name ++ ".part"]) = base ++ u.part := by
    rw [resolveParts_part _ hname.1, resolveParts_of_names hdirnames, List.append_assoc]
    rfl
  rw [hpartself] at hpart
  have hfree : ∀ q, q <+: base ++ u.dirs → t.isFile q = false := by
    intro q hpre
    by_cases hq : q = []
    · rw [hq, FileTree.isFile, FileTree.find_nil]
    · exact (FileTree.makeDirs_ok_iff t.find_nil hdirparts).1 (congrArg Prod.fst hmade) q
        ((mem_way_of_names hdirnames).2 ⟨hq, hpre⟩)
  obtain ⟨t'', hrun, hplaced⟩ := restore_upload hbase hnames (hback hpath) hfree (hback hpart)
  rw [h] at hrun
  cases hrun
  exact ⟨hplaced, hback hpart⟩

theorem find_eq_of_restored (hbase : ∀ p ∈ base, IsName p) (hdir : t.find base = some .dir)
    (hnames : ∀ u ∈ uploads, ∀ p ∈ u.path, IsName p)
    (h : runOps ((uploads.map Upload.entry).flatMap (restoreOps base)) t = (none, t'))
    (hq : ∀ u ∈ uploads, q ≠ base ++ u.path ∧ q ≠ base ++ u.part ∧ ¬ q <+: base ++ u.dirs) :
    t'.find q = t.find q := by
  induction uploads generalizing t with
  | nil => exact congrArg (fun result => result.2.find q) h.symm
  | cons u uploads ih =>
    have hu : u ∈ u :: uploads := List.mem_cons_self
    rw [List.map_cons, List.flatMap_cons] at h
    obtain ⟨t₁, hone, hrest⟩ := runOps_append_eq_ok h
    obtain ⟨hplaced, -⟩ := placed_of_restored hbase hdir (hnames u hu) hone
    have hdir₁ := find_runOps_of_dir (restoreOps base u.entry) hdir
    rw [hone] at hdir₁
    rw [ih hdir₁ (fun v hv => hnames v (List.mem_cons_of_mem u hv)) hrest
      fun v hv => hq v (List.mem_cons_of_mem u hv)]
    exact hplaced.find_eq (hq u hu).1 (hq u hu).2.1 fun _ => (hq u hu).2.2

/-- No `.part` name was a directory, and each is gone, unless it is a place of a file too. -/
theorem parts_of_restored (hbase : ∀ p ∈ base, IsName p) (hdir : t.find base = some .dir)
    (hnames : ∀ u ∈ uploads, ∀ p ∈ u.path, IsName p) (hbefore : uploads.Pairwise Upload.Before)
    (h : runOps ((uploads.map Upload.entry).flatMap (restoreOps base)) t = (none, t'))
    (hu : u ∈ uploads) :
    t.isDir (base ++ u.part) = false ∧
      ((∀ v ∈ uploads, v.path ≠ u.part ∧ ¬ u.part <+: v.dirs) →
        t'.find (base ++ u.part) = none) := by
  induction uploads generalizing t with
  | nil => cases hu
  | cons w uploads ih =>
    have hw : w ∈ w :: uploads := List.mem_cons_self
    have hnames' : ∀ v ∈ uploads, ∀ p ∈ v.path, IsName p :=
      fun v hv => hnames v (List.mem_cons_of_mem w hv)
    rw [List.map_cons, List.flatMap_cons] at h
    obtain ⟨t₁, hone, hrest⟩ := runOps_append_eq_ok h
    obtain ⟨hplaced, hpart⟩ := placed_of_restored hbase hdir (hnames w hw) hone
    obtain ⟨hfirst, hlater⟩ := List.pairwise_cons.1 hbefore
    have hdirs₁ : ∀ {q}, t.find q = some .dir → t₁.find q = some .dir := by
      intro q hq
      have hkept := find_runOps_of_dir (restoreOps base w.entry) hq
      rwa [hone] at hkept
    rcases List.mem_cons.1 hu with rfl | hu
    · refine ⟨hpart, ?_⟩
      intro hfree
      rw [find_eq_of_restored hbase (hdirs₁ hdir) hnames' hrest, hplaced.find_part]
      intro v hv
      have hv' := List.mem_cons_of_mem u hv
      refine ⟨?_, ?_, ?_⟩
      · exact fun he => (hfree v hv').1 (List.append_cancel_left he).symm
      · exact fun he => (hfirst v hv).1 (Upload.path_eq_of_part (List.append_cancel_left he))
      · exact fun hpre => (hfree v hv').2 ((List.prefix_append_right_inj base).1 hpre)
    · obtain ⟨hnotdir, hgone⟩ := ih (hdirs₁ hdir) hnames' hlater hrest hu
      refine ⟨?_, fun hfree => hgone fun v hv => hfree v (List.mem_cons_of_mem w hv)⟩
      apply Bool.eq_false_iff.2
      intro hdirpart
      rw [FileTree.isDir_iff.2 (hdirs₁ (FileTree.isDir_iff.1 hdirpart))] at hnotdir
      cases hnotdir

theorem partsFree_of_overlays (hbase : ∀ p ∈ base, IsName p) (hdir : t.find base = some .dir)
    (hnames : ∀ u ∈ uploads, ∀ p ∈ u.path, IsName p) (hbefore : uploads.Pairwise Upload.Before)
    (hfit : NoCollision (· ∈ uploads) base t)
    (h : Overlays (· ∈ uploads) base t
      (runOps ((uploads.map Upload.entry).flatMap (restoreOps base)) t)) :
    PartsFree (· ∈ uploads) base t := by
  intro u hu
  obtain ⟨hnotdir, hgone⟩ := parts_of_restored hbase hdir hnames hbefore (Prod.ext h.returns rfl) hu
  cases hfind : t.find (base ++ u.part) with
  | none => exact .inl rfl
  | some n =>
    right
    cases n with
    | dir =>
      rw [FileTree.isDir, hfind] at hnotdir
      cases hnotdir
    | file raw =>
      have hfile := FileTree.isFile_iff.2 ⟨raw, hfind⟩
      refine ⟨hfile, ?_⟩
      by_contra hnone
      have hpath : ∀ v ∈ uploads, v.path ≠ u.part := fun v hv he => hnone ⟨v, hv, he⟩
      have hkept := h.kept _ _ hfind fun v hv he => hpath v hv (List.append_cancel_left he).symm
      rw [hgone] at hkept
      · cases hkept
      · intro v hv
        refine ⟨hpath v hv, ?_⟩
        intro hpre
        have hdirv := hfit.dir_free _ (.inr ⟨v, hv, (List.prefix_append_right_inj base).2 hpre⟩)
        rw [hfile] at hdirv
        cases hdirv

end

/-! ## The base directory first -/

section

variable {files : Upload → Prop} {t₁ : Disk} {result : Option Fault × Disk}

/-- The directories of the base are made. -/
def BaseMade (base : List String) (t t₁ : Disk) : Prop :=
  ∀ q, t₁.find q = if t.find q = none ∧ q <+: base then some .dir else t.find q

theorem BaseMade.find_below (h : BaseMade base t t₁) (dirs : List String) (last : String) :
    t₁.find (base ++ (dirs ++ [last])) = t.find (base ++ (dirs ++ [last])) := by
  rw [h, if_neg]
  rintro ⟨-, hpre⟩
  have hlen := hpre.length_le
  rw [List.length_append, List.length_append, List.length_singleton] at hlen
  omega

theorem BaseMade.noCollision (h : BaseMade base t t₁) (hfit : NoCollision files base t) :
    NoCollision files base t₁ where
  file_free u hu := by
    rw [FileTree.isDir, Upload.path, h.find_below]
    exact hfit.file_free u hu
  dir_free q hq := by
    rw [FileTree.isFile, h]
    split_ifs
    · rfl
    · exact hfit.dir_free q hq

theorem BaseMade.partsFree_iff (h : BaseMade base t t₁) :
    PartsFree files base t₁ ↔ PartsFree files base t := by
  have hsame : ∀ u : Upload, t₁.find (base ++ u.part) = t.find (base ++ u.part) :=
    fun u => h.find_below u.dirs _
  simp only [PartsFree, FileTree.isFile, hsame]

theorem BaseMade.overlays_iff (h : BaseMade base t t₁) (htree : Treelike files) :
    Overlays files base t₁ result ↔ Overlays files base t result := by
  constructor
  · intro hlaid
    refine ⟨hlaid.returns, hlaid.written, ?_, ?_, ?_⟩
    · intro q n hq hfree
      apply hlaid.kept q n _ hfree
      rw [h, if_neg fun hand => Option.some_ne_none n (hq.symm.trans hand.1), hq]
    · intro q hnone hway
      by_cases hpre : q <+: base
      · apply hlaid.kept q .dir _ fun u hu => hway.ne_path htree hu
        rw [h, if_pos ⟨hnone, hpre⟩]
      · apply hlaid.made q _ hway
        rw [h, if_neg fun hand => hpre hand.2, hnone]
    · intro q hnone hway hfree
      apply hlaid.absent q _ hway hfree
      rw [h, if_neg fun hand => hway (.inl hand.2), hnone]
  · intro hlaid
    refine ⟨hlaid.returns, hlaid.written, ?_, ?_, ?_⟩
    · intro q n hq hfree
      rw [h] at hq
      split at hq
      · rename_i hand
        cases hq
        exact hlaid.made q hand.1 (.inl hand.2)
      · exact hlaid.kept q n hq hfree
    · intro q hnone hway
      rw [h] at hnone
      split at hnone
      · cases hnone
      · exact hlaid.made q hnone hway
    · intro q hnone hway hfree
      rw [h] at hnone
      split at hnone
      · cases hnone
      · exact hlaid.absent q hnone hway hfree

theorem restore_of_made (hbase : ∀ p ∈ base, IsName p)
    (hfree : ∀ q, q <+: base → t.isFile q = false) (files : List (String × List UInt8)) :
    ∃ t₁, BaseMade base t t₁ ∧ t₁.find base = some .dir ∧
      FilesContributor.restore base files t = runOps (files.flatMap (restoreOps base)) t₁ := by
  obtain ⟨t₁, hmade, hfind⟩ := FileTree.makeDirs_of_names hbase hfree
  have hdir := FileTree.find_makeDirs_self hbase (congrArg Prod.fst hmade)
  rw [hmade] at hdir
  refine ⟨t₁, hfind, hdir, ?_⟩
  apply runOps_cons_of_ok
  rw [run_makeDirs fun p hp => (hbase p hp).1, hmade]

end

theorem treelike_holds (root : List String) (source : Disk) :
    Treelike (HoldsUpload root source) := by
  intro u v hu hv hpre
  have hdir : source.find (root ++ u.path) = some .dir := by
    apply FileTree.find_of_ancestor _ _ hv
    · exact (List.prefix_append_right_inj root).2 (hpre.trans (List.prefix_append _ _))
    · intro he
      have hlen := hpre.length_le
      rw [List.append_cancel_left he, Upload.path, List.length_append,
        List.length_singleton] at hlen
      omega
  rw [hu] at hdir
  cases hdir

/-- Restoring an export over another tree adds or replaces its files, and changes nothing else,
exactly when nothing else is at their `.part` names. -/
theorem restore_overlays_iff (root base : List String) (max_bytes_per_file : Nat)
    (source target : Disk) (hbase : ∀ p ∈ base, IsName p)
    (hcap : ∀ u, HoldsUpload root source u → u.raw.length ≤ max_bytes_per_file)
    (hfit : NoCollision (HoldsUpload root source) base target) :
    Overlays (HoldsUpload root source) base target
        (FilesContributor.restore base
          (FilesContributor.exportPlatform root max_bytes_per_file source) target) ↔
      PartsFree (HoldsUpload root source) base target := by
  obtain ⟨uploads, hexport, hbefore, hmem⟩ := exportPlatform_eq hcap
  have hfiles : HoldsUpload root source = (· ∈ uploads) := funext fun u => propext (hmem u).symm
  have htree := treelike_holds root source
  have hnames : ∀ u ∈ uploads, ∀ p ∈ u.path, IsName p := fun u hu p hp =>
    FileTree.names_of_find ((hmem u).1 hu) p (List.mem_append_right _ hp)
  obtain ⟨t₁, hmade, hdir, hrestore⟩ := restore_of_made hbase
    (fun q hpre => hfit.dir_free q (.inl hpre)) (uploads.map Upload.entry)
  rw [hexport, hrestore, ← hmade.overlays_iff htree, ← hmade.partsFree_iff]
  have hfit₁ := hmade.noCollision hfit
  rw [hfiles] at htree hfit₁ ⊢
  constructor
  · exact partsFree_of_overlays hbase hdir hnames hbefore hfit₁
  · exact restore_uploads hbase hdir hnames hbefore htree hfit₁

end

/-! ### A single file -/

def oneUpload (name : String) (raw : List UInt8) : Disk :=
  uploadsDisk.set ["uploads", name] (some (.file raw))

theorem holds_oneUpload (h : HoldsUpload ["uploads"] (oneUpload name raw) u) :
    u = ⟨[], name, raw⟩ := by
  obtain ⟨dirs, last, data⟩ := u
  rw [HoldsUpload, oneUpload, FileTree.find_set] at h
  split at h
  · rename_i hand
    have hpath : dirs ++ [last] = [] ++ [name] := (List.cons.inj hand.2).2
    obtain ⟨rfl, hlast⟩ := List.append_inj' hpath rfl
    cases hlast
    cases h
    rfl
  · rw [uploadsDisk, FileTree.find_set] at h
    split at h
    · cases h
    · cases h

theorem noCollision_oneUpload (hpath : t.isDir ["uploads", name] = false)
    (hbase : t.isFile ["uploads"] = false) :
    NoCollision (HoldsUpload ["uploads"] (oneUpload name raw)) ["uploads"] t where
  file_free u hu := by
    rw [holds_oneUpload hu]
    exact hpath
  dir_free q hq := by
    have hpre : q <+: ["uploads"] := by
      rcases hq with hpre | ⟨u, hu, hpre⟩
      · exact hpre
      · rwa [holds_oneUpload hu] at hpre
    rcases List.prefix_concat_iff.1 (show q <+: [] ++ ["uploads"] from hpre) with rfl | hnil
    · exact hbase
    · rw [List.prefix_nil.1 hnil, FileTree.isFile, FileTree.find_nil]

theorem restore_overlays_text :
    Overlays (HoldsUpload ["uploads"] (oneUpload "a.txt" [104])) ["uploads"]
      (oneUpload "b.txt" [105]) (FilesContributor.restore ["uploads"]
        (FilesContributor.exportPlatform ["uploads"] 10 (oneUpload "a.txt" [104]))
        (oneUpload "b.txt" [105])) := by
  apply (restore_overlays_iff ["uploads"] ["uploads"] 10 _ _ (by decide) ?_ ?_).2
  · intro u hu
    left
    rw [holds_oneUpload hu]
    decide +kernel
  · intro u hu
    rw [holds_oneUpload hu]
    decide
  · exact noCollision_oneUpload (by decide +kernel) (by decide +kernel)

/-- A file of the target that is called like the `.part` file of a restored one is gone. -/
theorem part_file_lost :
    (∀ u, HoldsUpload ["uploads"] (oneUpload "a.txt" [104]) u → u.raw.length ≤ 10) ∧
    NoCollision (HoldsUpload ["uploads"] (oneUpload "a.txt" [104])) ["uploads"]
      (oneUpload "a.txt.part" [105]) ∧
    ¬ Overlays (HoldsUpload ["uploads"] (oneUpload "a.txt" [104])) ["uploads"]
      (oneUpload "a.txt.part" [105])
      (FilesContributor.restore ["uploads"]
        (FilesContributor.exportPlatform ["uploads"] 10 (oneUpload "a.txt" [104]))
        (oneUpload "a.txt.part" [105])) := by
  refine ⟨?_, noCollision_oneUpload (by decide +kernel) (by decide +kernel), ?_⟩
  · intro u hu
    rw [holds_oneUpload hu]
    decide
  · intro h
    have hkept := h.kept ["uploads", "a.txt.part"] (.file [105]) (by decide +kernel) (by
      intro u hu
      rw [holds_oneUpload hu]
      decide)
    revert hkept
    decide +kernel

end ScottyCore
