import Mathlib.Logic.Function.Basic
import ScottyCore.Lib.FileOps

namespace FileSystem
open Python
set_option autoImplicit true

/-! ## A directory whose files are a map -/

/-- The place of a file: its directories have names of a kind, and its own name is of another. -/
def IsKey (D : String → Prop) (names : List String) : Prop :=
  ∃ dirs last, names = dirs ++ [last] ∧ (∀ dir ∈ dirs, D dir) ∧ ¬ D last

/-- The files below a directory are those of a map, with directories of a kind on the way. -/
structure FileMap (D : String → Prop) (root : List String) (m : List String → Option α)
    (t : FileTree α) : Prop where
  top : t.find root = some .dir
  files : ∀ {names data}, t.find (root ++ names) = some (.file data) ↔ m names = some data
  dirs : ∀ {names}, t.find (root ++ names) = some .dir → ∀ name ∈ names, D name
  keys : ∀ {names data}, m names = some data → IsKey D names

variable {D : String → Prop} {root dirs names path : List String} {m : List String → Option α}
variable {t t' : FileTree α} {data : α}

theorem IsKey.not_dirs (h : IsKey D names) : ¬ ∀ name ∈ names, D name := by
  obtain ⟨dirs, last, rfl, -, hlast⟩ := h
  exact fun hall => hlast (hall last (List.mem_append_right _ List.mem_cons_self))

theorem IsKey.dropLast (h : IsKey D names) : ∀ name ∈ names.dropLast, D name := by
  obtain ⟨dirs, last, rfl, hdirs, -⟩ := h
  rwa [List.dropLast_concat]

theorem IsKey.ne_nil (h : IsKey D names) : names ≠ [] := by
  rintro rfl
  exact h.not_dirs (List.forall_mem_nil _)

namespace FileMap

theorem isFile_of_dirs (h : FileMap D root m t) (hdirs : ∀ name ∈ names, D name) :
    t.isFile (root ++ names) = false := by
  apply Bool.eq_false_of_not_eq_true
  intro hfile
  obtain ⟨data, hfind⟩ := FileTree.isFile_iff.1 hfile
  exact (h.keys (h.files.1 hfind)).not_dirs hdirs

/-- No file stands on the way to directories of the kind. -/
theorem isFile_of_prefix (h : FileMap D root m t) (hdirs : ∀ dir ∈ dirs, D dir)
    (hpath : path <+: root ++ dirs) : t.isFile path = false := by
  rcases List.prefix_or_prefix_of_prefix hpath (List.prefix_append root dirs) with
    hpre | ⟨below, rfl⟩
  · have hdir : t.find path = some .dir := by
      by_cases he : path = root
      · rw [he, h.top]
      · exact FileTree.find_of_ancestor hpre he h.top
    rw [FileTree.isFile, hdir]
  · apply h.isFile_of_dirs
    exact fun name hname => hdirs name (((List.prefix_append_right_inj root).1 hpath).subset hname)

theorem isDir_of_key (h : FileMap D root m t) (hkey : IsKey D names) :
    t.isDir (root ++ names) = false := by
  apply Bool.eq_false_of_not_eq_true
  intro hdir
  exact hkey.not_dirs (h.dirs (FileTree.isDir_iff.1 hdir))

theorem names_append (h : FileMap D root m t) (hnames : ∀ name ∈ names, IsName name) :
    ∀ name ∈ root ++ names, IsName name := by
  intro name hname
  rcases List.mem_append.1 hname with hname | hname
  · exact FileTree.names_of_find h.top name hname
  · exact hnames name hname

/-- Directories of the kind are made. -/
theorem made (h : FileMap D root m t) (hdirs : ∀ dir ∈ dirs, D dir)
    (hfind : ∀ path, t'.find path =
      if t.find path = none ∧ path <+: root ++ dirs then some .dir else t.find path) :
    FileMap D root m t' where
  top := by
    rw [hfind, if_neg, h.top]
    rintro ⟨hnone, -⟩
    rw [h.top] at hnone
    cases hnone
  files := by
    intro names data
    rw [hfind, ← h.files]
    split
    · rename_i hnone
      rw [hnone.1]
      exact ⟨nofun, nofun⟩
    · rfl
  dirs := by
    intro names hdir
    rw [hfind] at hdir
    split at hdir
    · rename_i hmade
      have hpre := (List.prefix_append_right_inj root).1 hmade.2
      exact fun name hname => hdirs name (hpre.subset hname)
    · exact h.dirs hdir
  keys := h.keys

/-- A file is put where its directory is there. -/
theorem stored (h : FileMap D root m t) (hkey : IsKey D names)
    (hnames : ∀ name ∈ names, IsName name) (hparent : t.find (root ++ names.dropLast) = some .dir)
    (data : α) :
    FileMap D root (Function.update m names (some data))
      (t.set (root ++ names) (some (.file data))) := by
  have hset : t.Settable (root ++ names) := by
    refine ⟨List.append_ne_nil_of_right_ne_nil root hkey.ne_nil, h.names_append hnames, ?_,
      h.isDir_of_key hkey⟩
    rw [List.dropLast_append_of_ne_nil hkey.ne_nil]
    exact FileTree.isDir_iff.2 hparent
  refine ⟨FileTree.find_set_of_dir h.top _, ?_, ?_, ?_⟩
  · intro names' data'
    by_cases he : names' = names
    · rw [he, FileTree.find_set_self hset, Function.update_self, Option.some_inj, Option.some_inj,
        Node.file.injEq]
    · rw [FileTree.find_set_of_ne _ _ fun heq => he (List.append_cancel_left heq),
        Function.update_of_ne he, ← h.files]
  · intro names' hdir
    rw [FileTree.find_set] at hdir
    split at hdir
    · cases hdir
    · exact h.dirs hdir
  · intro names' data' hm
    rw [Function.update_apply] at hm
    split at hm
    · rename_i he
      rwa [he]
    · exact h.keys hm

/-- A file that is there is taken away. -/
theorem removed (h : FileMap D root m t) (hdata : m names = some data) :
    (∀ path, (t.set (root ++ names) none).find path =
        if path = root ++ names then none else t.find path) ∧
      FileMap D root (Function.update m names none) (t.set (root ++ names) none) := by
  have hkey := h.keys hdata
  have hthere := h.files.2 hdata
  have hset : t.Settable (root ++ names) :=
    ⟨List.append_ne_nil_of_right_ne_nil root hkey.ne_nil, FileTree.names_of_find hthere,
      FileTree.isDir_iff.2 (FileTree.find_dropLast hthere), h.isDir_of_key hkey⟩
  have hfind : ∀ path, (t.set (root ++ names) none).find path =
      if path = root ++ names then none else t.find path := by
    intro path
    rw [FileTree.find_set]
    exact if_congr (and_iff_right hset) rfl rfl
  refine ⟨hfind, ?_, ?_, ?_, ?_⟩
  · exact FileTree.find_set_of_dir h.top none
  · intro names' data'
    by_cases he : names' = names
    · rw [he, hfind, if_pos rfl, Function.update_self]
      exact ⟨nofun, nofun⟩
    · rw [hfind, if_neg fun heq => he (List.append_cancel_left heq), Function.update_of_ne he,
        ← h.files]
  · intro names' hdir
    rw [hfind] at hdir
    split at hdir
    · cases hdir
    · exact h.dirs hdir
  · intro names' data' hm
    rw [Function.update_apply] at hm
    split at hm
    · cases hm
    · exact h.keys hm

/-- A directory with nothing in it. -/
theorem of_bare (hroot : t.find root = some .dir)
    (hbare : ∀ path n, t.find path = some n → root <+: path → path = root) :
    FileMap D root (fun _ => none) t where
  top := hroot
  files := by
    intro names data
    refine ⟨fun hfile => ?_, nofun⟩
    have he := hbare _ _ hfile (List.prefix_append root names)
    rw [he, hroot] at hfile
    cases hfile
  dirs := by
    intro names hdir
    have he := hbare _ _ hdir (List.prefix_append root names)
    rw [List.append_right_eq_self.1 he]
    exact List.forall_mem_nil _
  keys := nofun

/-! ### Calls of the system -/

theorem run_makeDirs (h : FileMap D root m t) (hdirs : ∀ dir ∈ dirs, D dir)
    (hnames : ∀ dir ∈ dirs, IsName dir) :
    ∃ t', (Op.makeDirs (root ++ dirs)).run t = (none, t') ∧ FileMap D root m t' ∧
      t'.find (root ++ dirs) = some .dir := by
  have hall := h.names_append hnames
  obtain ⟨t', hmake, hfind⟩ := FileTree.makeDirs_of_names hall fun _ => h.isFile_of_prefix hdirs
  have hself := FileTree.find_makeDirs_self hall (congrArg Prod.fst hmake)
  rw [hmake] at hself
  refine ⟨t', ?_, h.made hdirs hfind, hself⟩
  rw [FileSystem.run_makeDirs fun dir hdir => (hall dir hdir).1, hmake]

theorem run_write (h : FileMap D root m t) (hkey : IsKey D names)
    (hnames : ∀ name ∈ names, IsName name) (hparent : t.find (root ++ names.dropLast) = some .dir)
    (data : α) :
    (Op.write (root ++ names) data).run t = (none, t.set (root ++ names) (some (.file data))) ∧
      FileMap D root (Function.update m names (some data))
        (t.set (root ++ names) (some (.file data))) := by
  have hdir : t.find (root ++ names).dropLast = some .dir := by
    rwa [List.dropLast_append_of_ne_nil hkey.ne_nil]
  refine ⟨?_, h.stored hkey hnames hparent data⟩
  rw [run_write_of_names (h.names_append hnames) hdir, h.isDir_of_key hkey]
  rfl

/-- A file is written, with the directories that are missing on the way. -/
theorem run_make_write (h : FileMap D root m t) (hkey : IsKey D names)
    (hnames : ∀ name ∈ names, IsName name) (data : α) :
    ∃ t', runOps [.makeDirs (root ++ names).dropLast, .write (root ++ names) data] t = (none, t') ∧
      FileMap D root (Function.update m names (some data)) t' := by
  obtain ⟨t', hmake, hm, hparent⟩ := h.run_makeDirs hkey.dropLast
    fun dir hdir => hnames dir (List.mem_of_mem_dropLast hdir)
  obtain ⟨hwrite, hstored⟩ := hm.run_write hkey hnames hparent data
  refine ⟨_, ?_, hstored⟩
  rw [List.dropLast_append_of_ne_nil hkey.ne_nil, runOps_cons_of_ok hmake, runOps_cons_of_ok hwrite]
  rfl

/-- A file is moved over another in its directory. -/
theorem run_rename (h : FileMap D root m t) (hsrc : m (dirs ++ [src]) = some data)
    (hdst : IsKey D (dirs ++ [dst])) (hname : IsName dst) (hne : src ≠ dst) :
    ∃ t', (Op.rename (root ++ (dirs ++ [src])) (root ++ (dirs ++ [dst]))).run t = (none, t') ∧
      FileMap D root (Function.update (Function.update m (dirs ++ [dst]) (some data))
        (dirs ++ [src]) none) t' := by
  have hthere := h.files.2 hsrc
  have hall := FileTree.names_of_find hthere
  have hdirs : ∀ dir ∈ root ++ dirs, IsName dir := by
    intro dir hdir
    apply hall
    rw [← List.append_assoc]
    exact List.mem_append_left _ hdir
  have hlast : ∀ name ∈ dirs ++ [dst], IsName name := by
    intro name hmem
    rcases List.mem_append.1 hmem with hmem | hmem
    · exact hdirs name (List.mem_append_right _ hmem)
    · rwa [List.mem_singleton.1 hmem]
  have hparent : t.find (root ++ dirs) = some .dir := by
    have hdrop := FileTree.find_dropLast hthere
    rwa [← List.append_assoc, List.dropLast_concat] at hdrop
  have hdir : t.find (root ++ (dirs ++ [dst]).dropLast) = some .dir := by
    rwa [List.dropLast_concat]
  have hapart : dirs ++ [src] ≠ dirs ++ [dst] :=
    fun he => hne (List.singleton_inj.1 (List.append_cancel_left he))
  have hstored := h.stored hdst hlast hdir data
  have hkept : Function.update m (dirs ++ [dst]) (some data) (dirs ++ [src]) = some data := by
    rw [Function.update_of_ne hapart, hsrc]
  refine ⟨_, ?_, (hstored.removed hkept).2⟩
  have hresolve : resolveParts (root ++ dirs ++ [src]) = root ++ (dirs ++ [src]) := by
    rw [List.append_assoc, resolveParts_of_names hall]
  have hresolve' : resolveParts (root ++ dirs ++ [dst]) = root ++ (dirs ++ [dst]) := by
    rw [List.append_assoc, resolveParts_of_names (h.names_append hlast)]
  have hrename : (Op.rename (root ++ dirs ++ [src]) (root ++ dirs ++ [dst])).run t =
      if t.isDir (resolveParts (root ++ dirs ++ [dst])) then (some .isADirectory, t)
      else (none, (t.set (resolveParts (root ++ dirs ++ [dst])) (some (.file data))).set
        (resolveParts (root ++ dirs ++ [src])) none) := by
    apply FileSystem.run_rename (way_of_dir hdirs hparent)
    · intro p hp
      rw [List.append_assoc] at hp
      exact (hall p hp).1
    · intro p hp
      rw [List.append_assoc] at hp
      exact (h.names_append hlast p hp).1
    · rw [hresolve, hthere]
    · rw [hresolve, hresolve']
      exact fun he => hapart (List.append_cancel_left he)
  rwa [hresolve, hresolve', h.isDir_of_key hdst, if_neg Bool.false_ne_true, List.append_assoc,
    List.append_assoc] at hrename

/-- A file is written under another name in its directory, and moved into its place. -/
theorem run_replace (h : FileMap D root m t) (hkey : IsKey D (dirs ++ [name]))
    (hname : IsName name) (htmp : IsKey D (dirs ++ [tmp]))
    (hnames : ∀ name ∈ dirs ++ [tmp], IsName name) (hfree : m (dirs ++ [tmp]) = none)
    (hne : tmp ≠ name) (hparent : t.find (root ++ dirs) = some .dir) (data : α) :
    ∃ t', runOps [.write (root ++ (dirs ++ [tmp])) data,
        .rename (root ++ (dirs ++ [tmp])) (root ++ (dirs ++ [name]))] t = (none, t') ∧
      FileMap D root (Function.update m (dirs ++ [name]) (some data)) t' := by
  have hdir : t.find (root ++ (dirs ++ [tmp]).dropLast) = some .dir := by
    rwa [List.dropLast_concat]
  have hapart : dirs ++ [name] ≠ dirs ++ [tmp] :=
    fun he => hne (List.singleton_inj.1 (List.append_cancel_left he)).symm
  obtain ⟨hwrite, hstored⟩ := h.run_write htmp hnames hdir data
  obtain ⟨t', hrename, hmoved⟩ :=
    hstored.run_rename (Function.update_self _ _ _) hkey hname hne
  refine ⟨t', ?_, ?_⟩
  · rw [runOps_cons_of_ok hwrite, runOps_cons_of_ok hrename]
    rfl
  · have hgone : Function.update m (dirs ++ [name]) (some data) (dirs ++ [tmp]) = none := by
      rw [Function.update_of_ne hapart.symm, hfree]
    have hmap : Function.update (Function.update (Function.update m (dirs ++ [tmp]) (some data))
        (dirs ++ [name]) (some data)) (dirs ++ [tmp]) none =
          Function.update m (dirs ++ [name]) (some data) := by
      rw [Function.update_comm hapart.symm, Function.update_idem, ← hgone,
        Function.update_eq_self]
    exact hmap ▸ hmoved

/-- A file is deleted. -/
theorem run_unlink (h : FileMap D root m t) (hm : m names = some data) :
    (Op.unlink (root ++ names)).run t = (none, t.set (root ++ names) none) := by
  have hthere := h.files.2 hm
  have hclean : (Op.unlink (α := α) (root ++ names)).clean = true :=
    List.all_eq_true.2 fun p hp => decide_eq_true (FileTree.names_of_find hthere p hp).1
  rw [Op.run, if_pos hclean]
  change t.unlink (root ++ names) = _
  rw [FileTree.unlink, FileTree.walk_of_find hthere, Option.map_some, hthere]

theorem run_unlinkExisting (h : FileMap D root m t) (hm : m names = some data) :
    (Op.unlinkExisting (root ++ names)).run t = (none, t.set (root ++ names) none) := by
  have hthere := h.files.2 hm
  have hclean : (Op.unlinkExisting (α := α) (root ++ names)).clean = true :=
    List.all_eq_true.2 fun p hp => decide_eq_true (FileTree.names_of_find hthere p hp).1
  have hunlink : (Op.unlink (root ++ names)).run t = t.unlink (root ++ names) := if_pos hclean
  rw [Op.run, if_pos hclean]
  change (if (t.stat (root ++ names)).isSome then t.unlink (root ++ names) else (none, t)) = _
  rw [t.stat_of_names (FileTree.names_of_find hthere), hthere, ← hunlink]
  exact h.run_unlink hm

end FileMap

end FileSystem
