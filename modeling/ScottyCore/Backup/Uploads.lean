import ScottyCore.Lib.FileOps

namespace ScottyCore
open Python FileSystem
set_option autoImplicit true

/-! ## `files_contributor.py`, on the disk -/

/-- `restore` of one file. A target that resolves to a place outside is skipped; `resolve` also
raises on a null byte. -/
def restoreOps (base : List String) (file : String × List UInt8) : List (Op (List UInt8)) :=
  let target := targetParts base file.1
  if (∀ p ∈ target, IsPart p) ∧ base <+: resolveParts target then
    match target.getLast? with
    | none => [.makeDirs [], .fail .emptyName]
    | some name =>
      let tmp := target.dropLast ++ [name ++ ".part"]
      [.makeDirs target.dropLast, .write tmp file.2, .rename tmp target]
  else []

/-- `FilesContributor.restore`: what it raises, and the disk that it leaves. -/
def FilesContributor.restore (base : List String) (files : List (String × List UInt8)) (t : Disk) :
    Option Fault × Disk :=
  runOps (.makeDirs base :: files.flatMap (restoreOps base)) t

/-! ## What a file leaves outside the uploads -/

/-- The base directory itself as a target: the `.part` file beside it is not written where a file
is in the way or a directory in its place, and not another where it holds the bytes already. -/
def PartUnchanged (base : List String) (file : String × List UInt8) (t : Disk) : Prop :=
  ∀ dirs name, targetParts base file.1 = dirs ++ [name] → name ≠ ".." →
    resolveParts (dirs ++ [name]) = base →
      (∃ q ∈ way [] dirs, t.isFile q = true) ∨
        t.find (resolveParts (dirs ++ [name ++ ".part"])) = some .dir ∨
        t.find (resolveParts (dirs ++ [name ++ ".part"])) = some (.file file.2)

/-- The restoration of a file stays in the uploads. -/
def StaysInside (base : List String) (file : String × List UInt8) (t : Disk) : Prop :=
  (∀ p ∈ targetParts base file.1, IsPart p) → base <+: resolveParts (targetParts base file.1) →
    MakesInside base (targetParts base file.1).dropLast t ∧ PartUnchanged base file t

/-! ## One file -/

theorem dot_free_targetParts (hbase : ∀ p ∈ base, IsName p) (rel : String) :
    ∀ p ∈ targetParts base rel, p ≠ "" ∧ p ≠ "." := by
  intro p hp
  rw [targetParts] at hp
  split at hp
  · exact of_decide_eq_true (List.mem_filter.1 hp).2
  · rcases List.mem_append.1 hp with hp | hp
    · exact ⟨(hbase p hp).2.1, (hbase p hp).2.2.1⟩
    · exact of_decide_eq_true (List.mem_filter.1 hp).2

theorem isName_part (h : IsPart name) : IsName (name ++ ".part") :=
  isName_append h (by decide) (by decide)

theorem resolveParts_part (dirs : List String) (h : IsPart name) :
    resolveParts (dirs ++ [name ++ ".part"]) = resolveParts dirs ++ [name ++ ".part"] := by
  have hname := isName_part h
  rw [resolveParts_concat, if_neg (not_or.2 ⟨hname.2.1, hname.2.2.1⟩), if_neg hname.2.2.2]

theorem part_ne (dirs : List String) (h : IsPart name) (hdot : name ≠ "" ∧ name ≠ ".") :
    resolveParts (dirs ++ [name ++ ".part"]) ≠ resolveParts (dirs ++ [name]) := by
  intro he
  rw [resolveParts_part dirs h, resolveParts_concat, if_neg (not_or.2 hdot)] at he
  split at he
  · have hlen := congrArg List.length he
    rw [List.length_append, List.length_singleton, List.length_dropLast] at hlen
    omega
  · have hname := List.singleton_inj.1 (List.append_cancel_left he)
    have hlen := congrArg String.length hname
    rw [String.length_append] at hlen
    have hpos : (".part" : String).length = 5 := by decide
    omega

/-- The `.part` file lies in the uploads, other than for the base directory itself. -/
theorem part_inside (h : IsPart name) (hdot : name ≠ "" ∧ name ≠ ".")
    (hin : base <+: resolveParts (dirs ++ [name])) :
    base <+: resolveParts (dirs ++ [name ++ ".part"]) ∨
      resolveParts (dirs ++ [name]) = base ∧ name ≠ ".." := by
  rw [resolveParts_part dirs h]
  rw [resolveParts_concat, if_neg (not_or.2 hdot)] at hin ⊢
  split at hin
  · exact .inl ((hin.trans (List.dropLast_prefix _)).trans (List.prefix_append _ _))
  · rename_i hup
    rw [if_neg hup]
    rcases List.prefix_concat_iff.1 hin with he | hin
    · exact .inr ⟨he.symm, hup⟩
    · exact .inl (hin.trans (List.prefix_append _ _))

theorem part_outside (h : IsPart name) (hdot : name ≠ "" ∧ name ≠ ".") (hup : name ≠ "..")
    (he : resolveParts (dirs ++ [name]) = base) :
    ¬ base <+: resolveParts (dirs ++ [name ++ ".part"]) := by
  intro hpre
  have hlen : base.length = (resolveParts (dirs ++ [name ++ ".part"])).length := by
    rw [← he, resolveParts_part dirs h, resolveParts_concat, if_neg (not_or.2 hdot), if_neg hup,
      List.length_append, List.length_append]
    rfl
  exact part_ne dirs h hdot (he.trans (hpre.eq_of_length hlen)).symm

section
variable {base dirs : List String} {name : String} {file : String × List UInt8} {t : Disk}

theorem restoreOps_eq (htarget : targetParts base file.1 = dirs ++ [name])
    (hparts : ∀ p ∈ dirs ++ [name], IsPart p) (hin : base <+: resolveParts (dirs ++ [name])) :
    restoreOps base file = [.makeDirs dirs, .write (dirs ++ [name ++ ".part"]) file.2,
      .rename (dirs ++ [name ++ ".part"]) (dirs ++ [name])] := by
  rw [restoreOps, htarget, List.getLast?_concat, List.dropLast_concat]
  exact if_pos ⟨hparts, hin⟩

/-! The ways in which the restoration of a file ends. -/

theorem restoreFile_of_blocked (htarget : targetParts base file.1 = dirs ++ [name])
    (hparts : ∀ p ∈ dirs ++ [name], IsPart p) (hin : base <+: resolveParts (dirs ++ [name]))
    (hmade : t.makeDirs [] dirs = (some f, t₁)) :
    runOps (restoreOps base file) t = (some f, t₁) := by
  rw [restoreOps_eq htarget hparts hin]
  apply runOps_cons_of_fault
  rw [run_makeDirs fun p hp => hparts p (List.mem_append_left _ hp), hmade]

theorem restoreFile_of_made (htarget : targetParts base file.1 = dirs ++ [name])
    (hparts : ∀ p ∈ dirs ++ [name], IsPart p) (hin : base <+: resolveParts (dirs ++ [name]))
    (hmade : t.makeDirs [] dirs = (none, t₁)) :
    runOps (restoreOps base file) t = runOps [.write (dirs ++ [name ++ ".part"]) file.2,
      .rename (dirs ++ [name ++ ".part"]) (dirs ++ [name])] t₁ := by
  rw [restoreOps_eq htarget hparts hin]
  apply runOps_cons_of_ok
  rw [run_makeDirs fun p hp => hparts p (List.mem_append_left _ hp), hmade]

theorem restoreFile_of_part_dir (htarget : targetParts base file.1 = dirs ++ [name])
    (hparts : ∀ p ∈ dirs ++ [name], IsPart p) (hdot : name ≠ "" ∧ name ≠ ".")
    (hin : base <+: resolveParts (dirs ++ [name])) (hmade : t.makeDirs [] dirs = (none, t₁))
    (hpart : t₁.isDir (resolveParts (dirs ++ [name ++ ".part"])) = true) :
    runOps (restoreOps base file) t = (some .isADirectory, t₁) := by
  have hne := part_ne dirs (hparts name (List.mem_append_right _ List.mem_cons_self)) hdot
  rw [restoreFile_of_made htarget hparts hin hmade,
    runOps_replace (way_of_made hparts hmade) (parts_beside hparts (by decide)) hparts hne, if_pos hpart]

theorem restoreFile_of_written (htarget : targetParts base file.1 = dirs ++ [name])
    (hparts : ∀ p ∈ dirs ++ [name], IsPart p) (hdot : name ≠ "" ∧ name ≠ ".")
    (hin : base <+: resolveParts (dirs ++ [name])) (hmade : t.makeDirs [] dirs = (none, t₁))
    (hpart : t₁.isDir (resolveParts (dirs ++ [name ++ ".part"])) = false) :
    let t₂ := t₁.set (resolveParts (dirs ++ [name ++ ".part"])) (some (.file file.2))
    runOps (restoreOps base file) t =
      if t₁.isDir (resolveParts (dirs ++ [name])) then (some .isADirectory, t₂)
      else (none, (t₂.set (resolveParts (dirs ++ [name])) (some (.file file.2))).set
        (resolveParts (dirs ++ [name ++ ".part"])) none) := by
  have hne := part_ne dirs (hparts name (List.mem_append_right _ List.mem_cons_self)) hdot
  rw [restoreFile_of_made htarget hparts hin hmade,
    runOps_replace (way_of_made hparts hmade) (parts_beside hparts (by decide)) hparts hne, hpart]
  rfl

/-- A file that is restored leads below the uploads, and not to them. -/
theorem below_of_restored (htarget : targetParts base file.1 = dirs ++ [name])
    (hparts : ∀ p ∈ dirs ++ [name], IsPart p) (hdot : name ≠ "" ∧ name ≠ ".")
    (hin : base <+: resolveParts (dirs ++ [name])) (hbase : t.find base = some .dir)
    (hrun : (runOps (restoreOps base file) t).1 = none) :
    ∃ t₁, t.makeDirs [] dirs = (none, t₁) ∧
      t₁.isDir (resolveParts (dirs ++ [name ++ ".part"])) = false ∧
      t₁.isDir (resolveParts (dirs ++ [name])) = false ∧
      resolveParts (dirs ++ [name]) ≠ base := by
  rcases hmade : t.makeDirs [] dirs with ⟨_ | f, t₁⟩
  · refine ⟨t₁, rfl, ?_⟩
    cases hpart : t₁.isDir (resolveParts (dirs ++ [name ++ ".part"])) with
    | true =>
      rw [restoreFile_of_part_dir htarget hparts hdot hin hmade hpart] at hrun
      cases hrun
    | false =>
      rw [restoreFile_of_written htarget hparts hdot hin hmade hpart] at hrun
      cases hdir : t₁.isDir (resolveParts (dirs ++ [name])) with
      | true =>
        rw [hdir] at hrun
        cases hrun
      | false =>
        refine ⟨rfl, rfl, ?_⟩
        intro he
        have hkept := FileTree.find_makeDirs_of_some t.find_nil
          (fun p hp => hparts p (List.mem_append_left _ hp)) hbase
        rw [hmade, ← he, ← FileTree.isDir_iff, hdir] at hkept
        cases hkept
  · rw [restoreFile_of_blocked htarget hparts hin hmade] at hrun
    cases hrun

theorem partUnchanged_of_below (htarget : targetParts base file.1 = dirs ++ [name])
    (h : resolveParts (dirs ++ [name]) ≠ base) : PartUnchanged base file t := by
  intro dirs' name' htarget' _ he
  rw [htarget] at htarget'
  exact (h (htarget'.symm ▸ he)).elim

theorem partUnchanged_iff (htarget : targetParts base file.1 = dirs ++ [name]) (hup : name ≠ "..")
    (he : resolveParts (dirs ++ [name]) = base) :
    PartUnchanged base file t ↔ (∃ q ∈ way [] dirs, t.isFile q = true) ∨
      t.find (resolveParts (dirs ++ [name ++ ".part"])) = some .dir ∨
      t.find (resolveParts (dirs ++ [name ++ ".part"])) = some (.file file.2) := by
  constructor
  · intro h
    exact h dirs name htarget hup he
  · intro h dirs' name' htarget' _ _
    obtain ⟨rfl, hname⟩ := List.append_inj' (htarget.symm.trans htarget') rfl
    cases hname
    exact h

/-- Beside the uploads the bytes are put in the `.part` file, and stay there. -/
theorem keepsOutside_part_iff (htarget : targetParts base file.1 = dirs ++ [name])
    (hparts : ∀ p ∈ dirs ++ [name], IsPart p) (hmade : t.makeDirs [] dirs = (none, t₁))
    (hpart : t₁.isDir (resolveParts (dirs ++ [name ++ ".part"])) = false) (hup : name ≠ "..")
    (he : resolveParts (dirs ++ [name]) = base)
    (hout : ¬ base <+: resolveParts (dirs ++ [name ++ ".part"])) :
    KeepsOutside base t (t₁.set (resolveParts (dirs ++ [name ++ ".part"])) (some (.file file.2))) ↔
      KeepsOutside base t t₁ ∧ PartUnchanged base file t := by
  have hdirs : ∀ p ∈ dirs, IsPart p := fun p hp => hparts p (List.mem_append_left _ hp)
  have hset := settable_of_way (way_of_made hparts hmade) (parts_beside hparts (by decide)) hpart
  have hkept : ∀ {n}, t.find (resolveParts (dirs ++ [name ++ ".part"])) = some n →
      t₁.find (resolveParts (dirs ++ [name ++ ".part"])) = some n := by
    intro n h
    have hfind := FileTree.find_makeDirs_of_some t.find_nil hdirs h
    rwa [hmade] at hfind
  rw [partUnchanged_iff htarget hup he]
  constructor
  · intro h
    have hsame := h _ hout
    rw [FileTree.find_set_self hset] at hsame
    refine ⟨?_, .inr (.inr hsame.symm)⟩
    intro q hq
    by_cases hqpart : q = resolveParts (dirs ++ [name ++ ".part"])
    · rw [hqpart, hkept hsame.symm, hsame]
    · rw [← h q hq, FileTree.find_set_of_ne _ _ hqpart]
  · rintro ⟨h, ⟨q, hq, hfile⟩ | hdir | hfile⟩
    · have hfree := (FileTree.makeDirs_ok_iff t.find_nil hdirs).1 (congrArg Prod.fst hmade)
      rw [hfree q hq] at hfile
      cases hfile
    · rw [FileTree.isDir_iff.2 (hkept hdir)] at hpart
      cases hpart
    · intro q hq
      by_cases hqpart : q = resolveParts (dirs ++ [name ++ ".part"])
      · rw [hqpart, FileTree.find_set_self hset, hfile]
      · rw [FileTree.find_set_of_ne _ _ hqpart, h q hq]

theorem keepsOutside_restoreFile (htarget : targetParts base file.1 = dirs ++ [name])
    (hparts : ∀ p ∈ dirs ++ [name], IsPart p) (hdot : name ≠ "" ∧ name ≠ ".")
    (hin : base <+: resolveParts (dirs ++ [name])) (hbase : t.find base = some .dir) :
    KeepsOutside base t (runOps (restoreOps base file) t).2 ↔
      MakesInside base dirs t ∧ PartUnchanged base file t := by
  have hdirs : ∀ p ∈ dirs, IsPart p := fun p hp => hparts p (List.mem_append_left _ hp)
  have hname := hparts name (List.mem_append_right _ List.mem_cons_self)
  rw [← keepsOutside_makeDirs_iff hdirs]
  rcases hmade : t.makeDirs [] dirs with ⟨_ | f, t₁⟩
  · cases hpart : t₁.isDir (resolveParts (dirs ++ [name ++ ".part"])) with
    | true =>
      rw [restoreFile_of_part_dir htarget hparts hdot hin hmade hpart]
      refine ⟨fun h => ⟨h, ?_⟩, And.left⟩
      intro dirs' name' htarget' hup he
      obtain ⟨rfl, hnames⟩ := List.append_inj' (htarget.symm.trans htarget') rfl
      cases hnames
      rw [← h _ (part_outside hname hdot hup he)]
      exact .inr (.inl (FileTree.isDir_iff.1 hpart))
    | false =>
      rw [restoreFile_of_written htarget hparts hdot hin hmade hpart]
      rcases part_inside hname hdot hin with hpartin | ⟨he, hup⟩
      · have hunchanged : PartUnchanged base file t := by
          intro dirs' name' htarget' hup he
          obtain ⟨rfl, hnames⟩ := List.append_inj' (htarget.symm.trans htarget') rfl
          cases hnames
          exact (part_outside hname hdot hup he hpartin).elim
        split
        · rw [keepsOutside_set_iff hpartin]
          exact ⟨fun h => ⟨h, hunchanged⟩, And.left⟩
        · rw [keepsOutside_set_iff hpartin, keepsOutside_set_iff hin, keepsOutside_set_iff hpartin]
          exact ⟨fun h => ⟨h, hunchanged⟩, And.left⟩
      · have hdir := FileTree.find_makeDirs_of_some t.find_nil hdirs hbase
        rw [hmade, ← he, ← FileTree.isDir_iff] at hdir
        rw [if_pos hdir]
        exact keepsOutside_part_iff htarget hparts hmade hpart hup he
          (part_outside hname hdot hup he)
  · rw [restoreFile_of_blocked htarget hparts hin hmade]
    refine ⟨fun h => ⟨h, ?_⟩, And.left⟩
    intro dirs' name' htarget' _ _
    obtain ⟨rfl, -⟩ := List.append_inj' (htarget.symm.trans htarget') rfl
    left
    apply FileTree.exists_file_of_blocked t.find_nil hdirs
    rw [hmade]
    exact Option.some_ne_none f

end

/-- A target in the uploads has a last part, unless the uploads are the root of the disk. -/
theorem targetParts_cases {base : List String} (hbase : ∀ p ∈ base, IsName p) (rel : String) :
    (∃ dirs name, targetParts base rel = dirs ++ [name] ∧ name ≠ "" ∧ name ≠ ".") ∨
      targetParts base rel = [] := by
  rcases List.eq_nil_or_concat (targetParts base rel) with h | ⟨dirs, name, h⟩
  · exact .inr h
  · rw [List.concat_eq_append] at h
    have hdot := dot_free_targetParts hbase rel name (h ▸ List.mem_append_right _ List.mem_cons_self)
    exact .inl ⟨dirs, name, h, hdot⟩

section
variable {base : List String} {t : Disk}

theorem keepsOutside_root (t t' : Disk) : KeepsOutside [] t t' :=
  fun _ hq => (hq List.nil_prefix).elim

theorem staysInside_root (file : String × List UInt8) (h : targetParts base file.1 = [])
    (hin : base <+: resolveParts (targetParts base file.1)) : base = [] ∧ StaysInside base file t := by
  rw [h] at hin
  obtain rfl := List.prefix_nil.1 hin
  refine ⟨rfl, fun _ _ => ⟨fun _ _ _ => List.nil_prefix, ?_⟩⟩
  intro dirs name htarget
  rw [h] at htarget
  cases List.append_ne_nil_of_right_ne_nil dirs (List.cons_ne_nil name []) htarget.symm

theorem staysInside_iff {file : String × List UInt8} (htarget : targetParts base file.1 = dirs ++ [name])
    (hparts : ∀ p ∈ dirs ++ [name], IsPart p) (hin : base <+: resolveParts (dirs ++ [name])) :
    StaysInside base file t ↔ MakesInside base dirs t ∧ PartUnchanged base file t := by
  rw [StaysInside, htarget, List.dropLast_concat]
  exact ⟨fun h => h hparts hin, fun h _ _ => h⟩

theorem keepsOutside_file (hbase : ∀ p ∈ base, IsName p) (hdir : t.find base = some .dir)
    (file : String × List UInt8) :
    KeepsOutside base t (runOps (restoreOps base file) t).2 ↔ StaysInside base file t := by
  by_cases haccept : (∀ p ∈ targetParts base file.1, IsPart p) ∧
      base <+: resolveParts (targetParts base file.1)
  · rcases targetParts_cases hbase file.1 with ⟨dirs, name, htarget, hdot⟩ | hnil
    · obtain ⟨hparts, hin⟩ := htarget ▸ haccept
      rw [keepsOutside_restoreFile htarget hparts hdot hin hdir, staysInside_iff htarget hparts hin]
    · obtain ⟨rfl, hstays⟩ := staysInside_root (t := t) file hnil haccept.2
      exact ⟨fun _ => hstays, fun _ => keepsOutside_root _ _⟩
  · rw [restoreOps, if_neg haccept]
    exact ⟨fun _ hparts hin => (haccept ⟨hparts, hin⟩).elim, fun _ _ _ => rfl⟩

/-- What a file leaves outside is still there at the end: a directory stays, and a `.part` file
beside the uploads ends the restoration. -/
theorem not_keepsOutside_of_file (hbase : ∀ p ∈ base, IsName p) (hdir : t.find base = some .dir)
    {file : String × List UInt8} (h : ¬ StaysInside base file t) (ops : List (Op (List UInt8))) :
    ¬ KeepsOutside base t (runOps (restoreOps base file ++ ops) t).2 := by
  have haccept : (∀ p ∈ targetParts base file.1, IsPart p) ∧
      base <+: resolveParts (targetParts base file.1) := by
    by_contra hreject
    exact h fun hparts hin => (hreject ⟨hparts, hin⟩).elim
  rcases targetParts_cases hbase file.1 with ⟨dirs, name, htarget, hdot⟩ | hnil
  · obtain ⟨hparts, hin⟩ := htarget ▸ haccept
    have hdirs : ∀ p ∈ dirs, IsPart p := fun p hp => hparts p (List.mem_append_left _ hp)
    by_cases hmakes : MakesInside base dirs t
    · cases hrun : (runOps (restoreOps base file) t).1 with
      | none =>
        obtain ⟨_, _, _, _, hne⟩ := below_of_restored htarget hparts hdot hin hdir hrun
        exact (h ((staysInside_iff htarget hparts hin).2
          ⟨hmakes, partUnchanged_of_below htarget hne⟩)).elim
      | some f =>
        rw [runOps_append_of_fault (Prod.ext hrun rfl), keepsOutside_file hbase hdir]
        exact h
    · obtain ⟨q, hout, hnone, hmade⟩ := made_outside hdirs hmakes
      intro hkeeps
      have hfind : (runOps (restoreOps base file ++ ops) t).2.find q = some .dir := by
        rw [restoreOps_eq htarget hparts hin, List.cons_append, runOps, run_makeDirs hdirs]
        split
        · rename_i t₁ hrun
          rw [hrun] at hmade
          exact find_runOps_of_dir _ hmade
        · rename_i f t₁ hrun
          rw [hrun] at hmade
          exact hmade
      rw [hkeeps q hout, hnone] at hfind
      cases hfind
  · exact (h (staysInside_root file hnil haccept.2).2).elim

/-! ## All files -/

theorem keepsOutside_files (hbase : ∀ p ∈ base, IsName p) (hdir : t.find base = some .dir)
    (files : List (String × List UInt8)) :
    KeepsOutside base t (runOps (files.flatMap (restoreOps base)) t).2 ↔
      ∀ done file rest, files = done ++ file :: rest →
        (runOps (done.flatMap (restoreOps base)) t).1 = none →
          StaysInside base file (runOps (done.flatMap (restoreOps base)) t).2 := by
  induction files generalizing t with
  | nil =>
    refine ⟨fun _ done file rest h => ?_, fun _ _ _ => rfl⟩
    cases List.append_ne_nil_of_right_ne_nil done (List.cons_ne_nil file rest) h.symm
  | cons file files ih =>
    rw [List.flatMap_cons]
    constructor
    · intro hkeeps
      have hfirst : StaysInside base file t := by
        by_contra h
        exact not_keepsOutside_of_file hbase hdir h _ hkeeps
      have hstep := (keepsOutside_file hbase hdir file).2 hfirst
      intro done file' rest hfiles hrun
      cases done with
      | nil =>
        cases hfiles
        exact hfirst
      | cons file'' done =>
        obtain ⟨rfl, htail⟩ := List.cons.inj hfiles
        rw [List.flatMap_cons] at hrun ⊢
        rcases hone : runOps (restoreOps base file) t with ⟨_ | f, t₁⟩
        · rw [runOps_append_of_ok hone] at hkeeps hrun ⊢
          rw [hone] at hstep
          have hdir₁ := find_runOps_of_dir (restoreOps base file) hdir
          rw [hone] at hdir₁
          have hrest : KeepsOutside base t₁ (runOps (files.flatMap (restoreOps base)) t₁).2 :=
            fun q hq => (hkeeps q hq).trans (hstep q hq).symm
          exact (ih hdir₁).1 hrest done file' rest htail hrun
        · rw [runOps_append_of_fault hone] at hrun
          cases hrun
    · intro hall
      have hstep := (keepsOutside_file hbase hdir file).2 (hall [] file files rfl rfl)
      rcases hone : runOps (restoreOps base file) t with ⟨_ | f, t₁⟩
      · rw [runOps_append_of_ok hone]
        rw [hone] at hstep
        have hdir₁ := find_runOps_of_dir (restoreOps base file) hdir
        rw [hone] at hdir₁
        apply hstep.trans
        apply (ih hdir₁).2
        intro done file' rest hfiles hrun
        have hlater := hall (file :: done) file' rest (by rw [hfiles, List.cons_append])
        rw [List.flatMap_cons, runOps_append_of_ok hone] at hlater
        exact hlater hrun
      · rw [runOps_append_of_fault hone]
        rw [hone] at hstep
        exact hstep

end

/-- Restoring changes nothing outside the uploads exactly when the directories above them are
there and each file that is reached makes only directories inside, and no `.part` file beside. -/
theorem restore_keepsOutside_iff (base : List String) (hbase : ∀ p ∈ base, IsName p)
    (files : List (String × List UInt8)) (t : Disk) :
    KeepsOutside base t (FilesContributor.restore base files t).2 ↔
      MakesInside base base t ∧ ∀ done file rest, files = done ++ file :: rest →
        (FilesContributor.restore base done t).1 = none →
          StaysInside base file (FilesContributor.restore base done t).2 := by
  have hparts : ∀ p ∈ base, IsPart p := fun p hp => (hbase p hp).1
  have hmakes : KeepsOutside base t (t.makeDirs [] base).2 ↔ MakesInside base base t :=
    keepsOutside_makeDirs_iff hparts
  rcases hmade : t.makeDirs [] base with ⟨_ | f, t₁⟩
  · have hrestore : ∀ files, FilesContributor.restore base files t =
        runOps (files.flatMap (restoreOps base)) t₁ := by
      intro files
      apply runOps_cons_of_ok
      rw [run_makeDirs hparts, hmade]
    have hdir := FileTree.find_makeDirs_self hbase (congrArg Prod.fst hmade)
    rw [hmade] at hmakes hdir
    simp only [hrestore]
    rw [← keepsOutside_files hbase hdir, ← hmakes]
    constructor
    · intro h
      have hfirst : KeepsOutside base t t₁ := by
        rw [hmakes]
        by_contra hmiss
        obtain ⟨q, hout, hnone, hq⟩ := made_outside hparts hmiss
        rw [hmade] at hq
        have hlast := h q hout
        rw [find_runOps_of_dir _ hq, hnone] at hlast
        cases hlast
      exact ⟨hfirst, fun q hq => (h q hq).trans (hfirst q hq).symm⟩
    · rintro ⟨hfirst, hrest⟩
      exact hfirst.trans hrest
  · have hrestore : ∀ files, FilesContributor.restore base files t = (some f, t₁) := by
      intro files
      apply runOps_cons_of_fault
      rw [run_makeDirs hparts, hmade]
    simp only [hrestore]
    rw [hmade] at hmakes
    rw [hmakes]
    exact ⟨fun h => ⟨h, fun _ _ _ _ hrun => (Option.some_ne_none _ hrun).elim⟩, And.left⟩

def uploadsDisk : Disk := (∅ : Disk).set ["uploads"] (some .dir)

theorem restore_keepsOutside_acme : KeepsOutside ["uploads"] uploadsDisk
    (FilesContributor.restore ["uploads"] [("acme/a.txt", [104])] uploadsDisk).2 := by
  apply (restore_keepsOutside_iff ["uploads"] (by decide) _ _).2
  refine ⟨fun q hq _ => ?_, ?_⟩
  · revert q
    decide +kernel
  · intro done file rest hfiles hrun
    cases done with
    | nil =>
      cases hfiles
      intro _ _
      refine ⟨fun q hq _ => ?_, ?_⟩
      · revert q
        decide +kernel
      · have htarget : targetParts ["uploads"] "acme/a.txt" = ["uploads", "acme"] ++ ["a.txt"] := by
          decide +kernel
        exact partUnchanged_of_below htarget (by decide +kernel)
    | cons first done =>
      cases List.append_ne_nil_of_right_ne_nil done (List.cons_ne_nil file rest)
        (List.cons.inj hfiles).2.symm

/-- A directory beside the uploads is made on the way to a file in them. -/
theorem restore_makes_sibling : ¬ KeepsOutside ["uploads"] uploadsDisk
    (FilesContributor.restore ["uploads"] [("../evil/../uploads/a.txt", [104])] uploadsDisk).2 := by
  intro h
  have hevil := h ["evil"] (by decide)
  revert hevil
  decide +kernel

end ScottyCore
