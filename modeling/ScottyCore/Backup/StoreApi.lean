import ScottyCore.Backup.LocalPut
import ScottyCore.Backup.Schedules

namespace ScottyCore
open Python FileSystem
set_option autoImplicit true

/-! ## The store of `api/v1/backup.py` -/

/-- How a request ends that is not answered as it asks: with a response of its own, or with what a
call of the system raised. -/
inductive StoreError where
  | http (e : HTTPException)
  | raised (f : Fault)
  deriving DecidableEq

inductive StoreAnswer where
  | stored (rest : String) (bytes : Nat)
  | content (data : List UInt8)
  | deleted (rest : String)
  deriving DecidableEq

/-- The answer to a request, the disk after it, and the files that were read, written or deleted. -/
structure StoreResult where
  answer : Except StoreError StoreAnswer
  disk : Disk
  touched : List (List String)

def StoreResult.refused (e : StoreError) (t : Disk) : StoreResult := ⟨.error e, t, []⟩

/-- `(root / rest).resolve()`, and the check that its text begins with that of the root. -/
def storeTarget (root : List String) (rest : String) : Except StoreError (List String) :=
  if ∀ p ∈ targetParts root rest, IsPart p then
    let target := resolveParts (targetParts root rest)
    if (pathText root).toList <+: (pathText target).toList then .ok target
    else .error (.http ⟨400, "path escapes store root"⟩)
  else .error (.raised .nullByte)

/-- `sink_store_put`, from `target.parent.mkdir` on -/
def sinkStorePut (rest : String) (body : List UInt8) (target : List String) (t : Disk) :
    StoreResult :=
  match runOps [.makeDirs target.dropLast, .write target body] t with
  | (some f, t) => .refused (.raised f) t
  | (none, t) => ⟨.ok (.stored rest body.length), t, [target]⟩

/-- `sink_store_get`, from `target.is_file()` on -/
def sinkStoreGet (target : List String) (t : Disk) : StoreResult :=
  match t.find target with
  | some (.file data) => ⟨.ok (.content data), t, [target]⟩
  | _ => .refused (.http ⟨404, "not found"⟩) t

/-- `sink_store_delete`, from `target.is_file()` on -/
def sinkStoreDelete (rest : String) (target : List String) (t : Disk) : StoreResult :=
  if t.isFile target then
    let sidecar := LocalDiskSink.sibling target ".meta.json"
    let t := t.set target none
    if t.isFile sidecar then ⟨.ok (.deleted rest), t.set sidecar none, [target, sidecar]⟩
    else ⟨.ok (.deleted rest), t, [target]⟩
  else .refused (.http ⟨404, "not found"⟩) t

inductive StoreRequest where
  | put (rest : String) (body : List UInt8)
  | get (rest : String)
  | delete (rest : String)

namespace StoreRequest

def rest : StoreRequest → String
  | put rest _ | get rest | delete rest => rest

def run (target : List String) : StoreRequest → Disk → StoreResult
  | put rest body => sinkStorePut rest body target
  | get _ => sinkStoreGet target
  | delete rest => sinkStoreDelete rest target

/-- A request to the store at the directory that the environment names. -/
def handle (root : List String) (r : StoreRequest) (t : Disk) : StoreResult :=
  -- `_sink_store_root` makes the directory where it is missing.
  match (Op.makeDirs root).run t with
  | (some f, t) => .refused (.raised f) t
  | (none, t) =>
    match storeTarget root r.rest with
    | .error e => .refused e t
    | .ok target => r.run target t

end StoreRequest

/-! ## Requests that stay in the store -/

def StrictlyInside (root path : List String) : Prop := root <+: path ∧ path ≠ root

instance (root path : List String) : Decidable (StrictlyInside root path) :=
  inferInstanceAs (Decidable (_ ∧ _))

/-- A request reads, writes and deletes only what is strictly inside the root, and changes nothing
where it is answered with an error. -/
structure StaysInStore (root : List String) (t : Disk) (r : StoreResult) : Prop where
  touched : ∀ path ∈ r.touched, StrictlyInside root path
  kept : ∀ path, ¬ StrictlyInside root path → r.disk.find path = t.find path
  on_error : ∀ e, r.answer = .error e → r.disk = t

/-- The parts of an absolute path to a directory that is there, by directories that are there. -/
structure RootDirectory (root : List String) (t : Disk) : Prop where
  parts : ∀ p ∈ root, IsPart p ∧ p ≠ ""
  dirs : ∀ path ∈ way [] root, t.find path = some .dir

/-- What has to be at the place of a request for it to be carried out. -/
def StoreRequest.Serves (t : Disk) (target : List String) : StoreRequest → Prop
  | put _ _ => (∀ path, path <+: target.dropLast → t.isFile path = false) ∧ t.isDir target = false
  | get _ | delete _ => t.isFile target = true

/-- A request that leads past the root, to a place whose name in the directory of the root goes on
after the root's own name, and that finds there what it needs. -/
structure StoreRequest.Escapes (root : List String) (t : Disk) (r : StoreRequest) : Prop where
  clean : '\x00' ∉ r.rest.toList
  lengthens : Lengthens root (resolveParts (targetParts root r.rest))
  outside : ¬ StrictlyInside (resolveParts root) (resolveParts (targetParts root r.rest))
  serves : r.Serves t (resolveParts (targetParts root r.rest))

/-! ## What a request does at its place -/

theorem sinkStoreRoot_of_dirs (h : RootDirectory root t) :
    (Op.makeDirs root).run t = (none, t) := by
  rw [run_makeDirs fun p hp => (h.parts p hp).1]
  exact FileTree.makeDirs_of_dirs h.dirs

theorem staysInStore_refused (root : List String) (e : StoreError) (t : Disk) :
    StaysInStore root t (.refused e t) :=
  ⟨nofun, fun _ _ => rfl, fun _ _ => rfl⟩

/-- A directory that is missing on the way to a place in the root is in the root too. -/
theorem not_missing_outside {t : Disk} (hroot : t.find root = some .dir) (hin : root <+: target)
    (hpath : path <+: target) (hout : ¬ StrictlyInside root path) : t.find path ≠ none := by
  by_cases he : path = root
  · rw [he, hroot]
    exact Option.some_ne_none _
  · have hpre : path <+: root := by
      rcases List.prefix_or_prefix_of_prefix hin hpath with hpre | hpre
      · exact (hout ⟨hpre, he⟩).elim
      · exact hpre
    rw [FileTree.find_of_ancestor hpre he hroot]
    exact Option.some_ne_none _

theorem strictlyInside_sibling (h : StrictlyInside root target) (ending : String) :
    StrictlyInside root (LocalDiskSink.sibling target ending) := by
  obtain ⟨⟨below, rfl⟩, hne⟩ := h
  rcases List.eq_nil_or_concat below with rfl | ⟨init, last, rfl⟩
  · exact (hne (List.append_nil root)).elim
  · rw [List.concat_eq_append, ← List.append_assoc, sibling_concat,
      List.append_assoc]
    refine ⟨List.prefix_append root _, ?_⟩
    intro he
    have hlen := congrArg List.length he
    simp only [List.length_append, List.length_singleton] at hlen
    omega

section
variable {t : Disk} {root target : List String}

theorem sinkStorePut_of_serves (hnames : ∀ name ∈ target, IsName name)
    (h : (StoreRequest.put rest body).Serves t target) :
    ∃ t', sinkStorePut rest body target t = ⟨.ok (.stored rest body.length), t', [target]⟩ ∧
      ∀ path, t'.find path =
        if path = target then some (.file body)
        else if t.find path = none ∧ path <+: target.dropLast then some .dir else t.find path := by
  obtain ⟨hfree, hnodir⟩ := h
  have hdirs : ∀ name ∈ target.dropLast, IsName name :=
    fun name hname => hnames name (List.mem_of_mem_dropLast hname)
  obtain ⟨t', hmake, hfind⟩ := FileTree.makeDirs_of_names hdirs hfree
  have hrun : (Op.makeDirs target.dropLast).run t = (none, t') := by
    rw [run_makeDirs fun p hp => (hdirs p hp).1, hmake]
  have hne : target ≠ [] := by
    rintro rfl
    cases hnodir
  have hshort : ¬ target <+: target.dropLast := by
    intro hpre
    have hlen := hpre.length_le
    have hpos := List.length_pos_iff.2 hne
    rw [List.length_dropLast] at hlen
    omega
  have hparent : t'.find target.dropLast = some .dir := by
    have hself := FileTree.find_makeDirs_self hdirs (congrArg Prod.fst hmake)
    rwa [hmake] at hself
  have hnodir' : t'.isDir target = false := by
    rw [FileTree.isDir, hfind, if_neg fun hand => hshort hand.2, ← FileTree.isDir, hnodir]
  have hset : t'.Settable target := ⟨hne, hnames, FileTree.isDir_iff.2 hparent, hnodir'⟩
  have hwrite : (Op.write target body).run t' = (none, t'.set target (some (.file body))) := by
    rw [run_write_of_names hnames hparent, hnodir']
    rfl
  refine ⟨t'.set target (some (.file body)), ?_, ?_⟩
  · rw [sinkStorePut, runOps_cons_of_ok hrun, runOps_cons_of_ok hwrite]
    rfl
  · intro path
    by_cases hpath : path = target
    · rw [hpath, FileTree.find_set_self hset, if_pos rfl]
    · rw [FileTree.find_set_of_ne _ _ hpath, hfind, if_neg hpath]

theorem sinkStorePut_of_not_serves (hnames : ∀ name ∈ target, IsName name)
    (h : ¬ (StoreRequest.put rest body).Serves t target) :
    ∃ e, sinkStorePut rest body target t = .refused e t := by
  have hdirs : ∀ name ∈ target.dropLast, IsName name :=
    fun name hname => hnames name (List.mem_of_mem_dropLast hname)
  have hclean : ∀ p ∈ target.dropLast, IsPart p := fun p hp => (hdirs p hp).1
  by_cases hfree : ∀ path, path <+: target.dropLast → t.isFile path = false
  · have hdir : t.isDir target = true := Bool.of_not_eq_false fun hnodir => h ⟨hfree, hnodir⟩
    have hparent := FileTree.find_dropLast (FileTree.isDir_iff.1 hdir)
    have hrun : (Op.makeDirs target.dropLast).run t = (none, t) := by
      rw [run_makeDirs hclean, FileTree.makeDirs_of_dirs (way_of_dir hdirs hparent)]
    have hwrite : (Op.write target body).run t = (some .isADirectory, t) := by
      rw [run_write_of_names hnames hparent, hdir]
      rfl
    refine ⟨.raised .isADirectory, ?_⟩
    rw [sinkStorePut, runOps_cons_of_ok hrun, runOps_cons_of_fault hwrite]
  · obtain ⟨path, hpath⟩ := not_forall.1 hfree
    obtain ⟨hpre, hfile⟩ := Classical.not_imp.1 hpath
    have hne : path ≠ [] := by
      rintro rfl
      exact hfile rfl
    have hblocked : t.makeDirs [] target.dropLast = (some .notADirectory, t) :=
      FileTree.makeDirs_of_file hdirs hpre hne (Bool.of_not_eq_false hfile)
    have hrun : (Op.makeDirs target.dropLast).run t = (some .notADirectory, t) := by
      rw [run_makeDirs hclean, hblocked]
    refine ⟨.raised .notADirectory, ?_⟩
    rw [sinkStorePut, runOps_cons_of_fault hrun]

namespace StoreRequest

/-- A request that does not find what it needs is refused, and changes nothing. -/
theorem run_of_not_serves (r : StoreRequest) (hnames : ∀ name ∈ target, IsName name)
    (h : ¬ r.Serves t target) : ∃ e, r.run target t = .refused e t := by
  cases r with
  | put rest body => exact sinkStorePut_of_not_serves hnames h
  | get rest =>
    refine ⟨.http ⟨404, "not found"⟩, ?_⟩
    rw [run, sinkStoreGet]
    split
    · rename_i data hfile
      exact (h (FileTree.isFile_iff.2 ⟨data, hfile⟩)).elim
    · rfl
  | delete rest =>
    have hfile : ¬ t.isFile target = true := h
    refine ⟨.http ⟨404, "not found"⟩, ?_⟩
    rw [run, sinkStoreDelete, if_neg hfile]

/-- What a request needs does not stand at the root of all. -/
theorem ne_nil_of_serves (r : StoreRequest) (h : r.Serves t target) : target ≠ [] := by
  rintro rfl
  cases r with
  | put rest body => cases h.2
  | get rest => cases h
  | delete rest => cases h

/-- A request that finds what it needs touches the file at its place. -/
theorem mem_touched_of_serves (r : StoreRequest) (hnames : ∀ name ∈ target, IsName name)
    (h : r.Serves t target) : target ∈ (r.run target t).touched := by
  cases r with
  | put rest body =>
    obtain ⟨t', hput, -⟩ := sinkStorePut_of_serves hnames h
    rw [run, hput]
    exact List.mem_cons_self
  | get rest =>
    obtain ⟨data, hfile⟩ := FileTree.isFile_iff.1 h
    rw [run, sinkStoreGet, hfile]
    exact List.mem_cons_self
  | delete rest =>
    have hfile : t.isFile target = true := h
    rw [run, sinkStoreDelete, if_pos hfile]
    dsimp only
    split
    · exact List.mem_cons_self
    · exact List.mem_cons_self

/-- A request stays in the store where its place is in the root. -/
theorem staysInStore_of_inside (r : StoreRequest) (hroot : t.find root = some .dir)
    (hnames : ∀ name ∈ target, IsName name) (hin : StrictlyInside root target) :
    StaysInStore root t (r.run target t) := by
  by_cases hserves : r.Serves t target
  · have hother : ∀ path, ¬ StrictlyInside root path → path ≠ target := by
      rintro path hout rfl
      exact hout hin
    cases r with
    | put rest body =>
      obtain ⟨t', hput, hfind⟩ := sinkStorePut_of_serves hnames hserves
      rw [run, hput]
      refine ⟨?_, ?_, nofun⟩
      · intro path hpath
        rwa [List.mem_singleton.1 hpath]
      · intro path hout
        rw [hfind, if_neg (hother path hout), if_neg]
        rintro ⟨hnone, hpre⟩
        exact not_missing_outside hroot hin.1 (hpre.trans (List.dropLast_prefix target)) hout hnone
    | get rest =>
      obtain ⟨data, hfile⟩ := FileTree.isFile_iff.1 hserves
      rw [run, sinkStoreGet, hfile]
      refine ⟨?_, fun _ _ => rfl, nofun⟩
      intro path hpath
      rwa [List.mem_singleton.1 hpath]
    | delete rest =>
      have hfile : t.isFile target = true := hserves
      have hsidecar := strictlyInside_sibling hin ".meta.json"
      rw [run, sinkStoreDelete, if_pos hfile]
      dsimp only
      split
      · refine ⟨?_, ?_, nofun⟩
        · intro path hpath
          rcases List.mem_cons.1 hpath with rfl | hpath
          · exact hin
          · rwa [List.mem_singleton.1 hpath]
        · intro path hout
          rw [FileTree.find_set_of_ne, FileTree.find_set_of_ne _ _ (hother path hout)]
          rintro rfl
          exact hout hsidecar
      · refine ⟨?_, ?_, nofun⟩
        · intro path hpath
          rwa [List.mem_singleton.1 hpath]
        · intro path hout
          exact FileTree.find_set_of_ne _ _ (hother path hout)
  · obtain ⟨e, hrun⟩ := r.run_of_not_serves hnames hserves
    rw [hrun]
    exact staysInStore_refused root e t

end StoreRequest

end

theorem storeTarget_eq_ok {rest : String} :
    storeTarget root rest = .ok target ↔
      (∀ p ∈ targetParts root rest, IsPart p) ∧ target = resolveParts (targetParts root rest) ∧
        (pathText root).toList <+: (pathText target).toList := by
  rw [storeTarget]
  constructor
  · intro h
    split at h
    · rename_i hclean
      dsimp only at h
      split at h
      · rename_i hpre
        cases h
        exact ⟨hclean, rfl, hpre⟩
      · cases h
    · cases h
  · rintro ⟨hclean, rfl, hpre⟩
    rw [if_pos hclean]
    exact if_pos hpre

/-- The check lets a path through that leads to, or below, a place whose name in the directory of
the root goes on after the root's. -/
theorem lengthens_iff (hroot : RootDirectory root t) (hne : root ≠ [])
    (hnames : ∀ name ∈ target, IsName name) :
    (pathText root).toList <+: (pathText target).toList ↔ Lengthens root target := by
  apply pathText_prefix_iff hne
  · intro p hp
    exact ⟨(hroot.parts p hp).1.1, (hroot.parts p hp).2⟩
  · intro p hp
    exact (hnames p hp).1.1

/-- The endpoints of the store are confined to the root, but for a request that leads past it. -/
theorem store_confined_iff (hroot : RootDirectory root t) (r : StoreRequest) :
    StaysInStore (resolveParts root) t (r.handle root t) ↔ ¬ r.Escapes root t := by
  have hdir := find_of_way hroot.dirs
  have hnul := isPart_targetParts_iff (fun p hp => (hroot.parts p hp).1) r.rest
  have hparts : (∀ p ∈ targetParts root r.rest, IsPart p) →
      ∀ name ∈ resolveParts (targetParts root r.rest), IsName name := names_resolveFrom nofun
  rw [StoreRequest.handle, sinkStoreRoot_of_dirs hroot]
  dsimp only
  cases hcheck : storeTarget root r.rest with
  | error e =>
    apply iff_of_true (staysInStore_refused _ e t)
    intro h
    have hne : root ≠ [] := by
      rintro rfl
      cases h.lengthens
    have hclean := hnul.2 h.clean
    have hpre := (lengthens_iff hroot hne (hparts hclean)).2 h.lengthens
    rw [storeTarget_eq_ok.2 ⟨hclean, rfl, hpre⟩] at hcheck
    cases hcheck
  | ok target =>
    obtain ⟨hclean, rfl, hpre⟩ := storeTarget_eq_ok.1 hcheck
    have hnames := hparts hclean
    dsimp only
    by_cases hin : StrictlyInside (resolveParts root) (resolveParts (targetParts root r.rest))
    · exact iff_of_true (r.staysInStore_of_inside hdir hnames hin) fun h => h.outside hin
    · by_cases hserves : r.Serves t (resolveParts (targetParts root r.rest))
      · apply iff_of_false
        · intro h
          exact hin (h.touched _ (r.mem_touched_of_serves hnames hserves))
        · apply not_not_intro
          have hne : root ≠ [] := by
            rintro rfl
            exact hin ⟨List.nil_prefix, r.ne_nil_of_serves hserves⟩
          exact ⟨hnul.1 hclean, (lengthens_iff hroot hne hnames).1 hpre, hin, hserves⟩
      · obtain ⟨e, hrun⟩ := r.run_of_not_serves hnames hserves
        rw [hrun]
        exact iff_of_true (staysInStore_refused _ e t) fun h => hserves h.serves

/-! ## A store beside another directory -/

/-- The store, and beside it a directory whose name goes on after that of the store. -/
def twoStores : Disk :=
  (((∅ : Disk).set ["data"] (some .dir)).set ["data", "store"] (some .dir)).set
    ["data", "store-old"] (some .dir)

theorem twoStores_root : RootDirectory ["data", "store"] twoStores := by
  refine ⟨by decide, ?_⟩
  intro path hpath
  revert path
  decide +kernel

theorem bundle_stored :
    StaysInStore ["data", "store"] twoStores
      ((StoreRequest.put "demo/a.tar" [104]).handle ["data", "store"] twoStores) := by
  apply (store_confined_iff twoStores_root (.put "demo/a.tar" [104])).2
  intro h
  exact h.outside (by decide +kernel)

/-- A file that is written beside the store. -/
theorem neighbour_written : RootDirectory ["data", "store"] twoStores ∧
    ¬ StaysInStore ["data", "store"] twoStores
      ((StoreRequest.put "../store-old/a.tar" [104]).handle ["data", "store"] twoStores) := by
  refine ⟨twoStores_root, ?_⟩
  intro h
  have hout := h.touched ["data", "store-old", "a.tar"] (by decide +kernel)
  exact absurd hout.1 (by decide)

end ScottyCore
