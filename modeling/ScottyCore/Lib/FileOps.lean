import Mathlib.Data.List.TakeWhile
import ScottyCore.Lib.FileTree

namespace FileSystem
open Python
set_option autoImplicit true

namespace FileTree

/-! ## Making directories -/

/-- Make each directory that is missing on the way, up to a file that is in the way. -/
def makeDirs : (loc parts : List String) → FileTree α → Option Fault × FileTree α
  | _, [], t => (none, t)
  | loc, part :: parts, t =>
    match t.find (goTo loc part) with
    | some .dir => makeDirs (goTo loc part) parts t
    | some (.file _) => (some .notADirectory, t)
    | none => makeDirs (goTo loc part) parts (t.set (goTo loc part) (some .dir))

/-- The places on the way that come before a file. -/
def cleared (t : FileTree α) (loc parts : List String) : List (List String) :=
  (way loc parts).takeWhile fun q => !t.isFile q

theorem cleared_congr {t t' : FileTree α} (h : ∀ q, t'.isFile q = t.isFile q)
    (loc parts : List String) : t'.cleared loc parts = t.cleared loc parts := by
  rw [cleared, cleared]
  simp only [h]

theorem isFile_set_dir {t : FileTree α} (h : t.find path = none) (q : List String) :
    (t.set path (some .dir)).isFile q = t.isFile q := by
  rw [isFile, isFile, find_set]
  by_cases hq : t.Settable path ∧ q = path
  · rw [if_pos hq, hq.2, h]
  · rw [if_neg hq]

theorem settable_goTo {t : FileTree α} (hdir : t.find loc = some .dir) (hpart : IsPart p)
    (h : t.find (goTo loc p) = none) : t.Settable (goTo loc p) := by
  rcases goTo_cases loc p with hgo | hgo | ⟨hname, hgo⟩
  · rw [hgo, hdir] at h
    cases h
  · rw [hgo, find_dropLast hdir] at h
    cases h
  · rw [hgo] at h ⊢
    apply settable_concat hdir ⟨hpart, hname⟩
    rw [isDir, h]

theorem find_makeDirs {t : FileTree α} (hdir : t.find loc = some .dir)
    (hparts : ∀ p ∈ parts, IsPart p) (q : List String) :
    (makeDirs loc parts t).2.find q =
      if t.find q = none ∧ q ∈ t.cleared loc parts then some .dir else t.find q := by
  induction parts generalizing loc t with
  | nil =>
    rw [if_neg fun h => List.not_mem_nil h.2]
    rfl
  | cons p parts ih =>
    have hrest : ∀ x ∈ parts, IsPart x := fun x hx => hparts x (List.mem_cons_of_mem _ hx)
    rw [makeDirs, cleared, way, List.takeWhile_cons]
    cases hgo : t.find (goTo loc p) with
    | none =>
      have hset := settable_goTo hdir (hparts p List.mem_cons_self) hgo
      have hfile : t.isFile (goTo loc p) = false := by rw [isFile, hgo]
      rw [ih (find_set_self hset _) hrest, cleared_congr (isFile_set_dir hgo), hfile, ← cleared,
        Bool.not_false, if_pos rfl]
      by_cases hq : q = goTo loc p
      · subst hq
        rw [find_set_self hset, if_neg fun h => Option.some_ne_none _ h.1,
          if_pos ⟨hgo, List.mem_cons_self⟩]
      · rw [find_set_of_ne t _ hq]
        simp only [List.mem_cons, hq, false_or]
    | some n =>
      cases n with
      | dir =>
        have hfile : t.isFile (goTo loc p) = false := by rw [isFile, hgo]
        rw [ih hgo hrest, hfile, ← cleared, Bool.not_false, if_pos rfl]
        by_cases hq : q = goTo loc p
        · rw [hq, hgo, if_neg fun h => Option.some_ne_none _ h.1,
            if_neg fun h => Option.some_ne_none _ h.1]
        · simp only [List.mem_cons, hq, false_or]
      | file data =>
        have hfile : t.isFile (goTo loc p) = true := by rw [isFile, hgo]
        rw [hfile, Bool.not_true, if_neg (Bool.false_ne_true),
          if_neg fun h => List.not_mem_nil h.2]

theorem makeDirs_ok_iff {t : FileTree α} (hdir : t.find loc = some .dir)
    (hparts : ∀ p ∈ parts, IsPart p) :
    (makeDirs loc parts t).1 = none ↔ ∀ q ∈ way loc parts, t.isFile q = false := by
  induction parts generalizing loc t with
  | nil => exact iff_of_true rfl fun q hq => absurd hq List.not_mem_nil
  | cons p parts ih =>
    have hrest : ∀ x ∈ parts, IsPart x := fun x hx => hparts x (List.mem_cons_of_mem _ hx)
    rw [makeDirs, way, List.forall_mem_cons]
    cases hgo : t.find (goTo loc p) with
    | none =>
      have hset := settable_goTo hdir (hparts p List.mem_cons_self) hgo
      have hfile : t.isFile (goTo loc p) = false := by rw [isFile, hgo]
      simp only [ih (find_set_self hset _) hrest, isFile_set_dir hgo, hfile, true_and]
    | some n =>
      cases n with
      | dir =>
        have hfile : t.isFile (goTo loc p) = false := by rw [isFile, hgo]
        simp only [ih hgo hrest, hfile, true_and]
      | file data =>
        have hfile : t.isFile (goTo loc p) = true := by rw [isFile, hgo]
        rw [hfile]
        constructor
        · intro h
          cases h
        · intro h
          cases h.1

theorem exists_file_of_blocked {t : FileTree α} (hdir : t.find loc = some .dir)
    (hparts : ∀ p ∈ parts, IsPart p) (h : (makeDirs loc parts t).1 ≠ none) :
    ∃ q ∈ way loc parts, t.isFile q = true := by
  by_contra hnone
  apply h
  apply (makeDirs_ok_iff hdir hparts).2
  intro q hq
  exact Bool.eq_false_iff.2 fun hfile => hnone ⟨q, hq, hfile⟩

theorem find_makeDirs_of_some {t : FileTree α} (hdir : t.find loc = some .dir)
    (hparts : ∀ p ∈ parts, IsPart p) (h : t.find q = some n) :
    (makeDirs loc parts t).2.find q = some n := by
  rw [find_makeDirs hdir hparts, if_neg, h]
  rintro ⟨hnone, -⟩
  rw [h] at hnone
  cases hnone

/-- What is new after making directories is a directory on the way. -/
theorem find_makeDirs_of_ne {t : FileTree α} (hdir : t.find loc = some .dir)
    (hparts : ∀ p ∈ parts, IsPart p) (h : (makeDirs loc parts t).2.find q ≠ t.find q) :
    t.find q = none ∧ q ∈ t.cleared loc parts ∧ (makeDirs loc parts t).2.find q = some .dir := by
  rw [find_makeDirs hdir hparts] at h ⊢
  split at h
  · rename_i hand
    rw [if_pos hand]
    exact ⟨hand.1, hand.2, rfl⟩
  · exact (h rfl).elim

theorem cleared_of_ok {t : FileTree α} (h : ∀ q ∈ way loc parts, t.isFile q = false) :
    t.cleared loc parts = way loc parts := by
  apply List.takeWhile_eq_self_iff.2
  intro q hq
  rw [h q hq]
  rfl

theorem find_makeDirs_way {t : FileTree α} (hdir : t.find loc = some .dir)
    (hparts : ∀ p ∈ parts, IsPart p) (h : (makeDirs loc parts t).1 = none)
    (hq : q ∈ way loc parts) : (makeDirs loc parts t).2.find q = some .dir := by
  have hfree := (makeDirs_ok_iff hdir hparts).1 h
  cases hfind : t.find q with
  | none => rw [find_makeDirs hdir hparts, cleared_of_ok hfree, if_pos ⟨hfind, hq⟩]
  | some n =>
    rw [find_makeDirs_of_some hdir hparts hfind]
    cases n with
    | dir => rfl
    | file data =>
      have hfile := hfree q hq
      rw [isFile, hfind] at hfile
      cases hfile

theorem find_makeDirs_self {t : FileTree α} (h : ∀ p ∈ names, IsName p)
    (hok : (makeDirs [] names t).1 = none) : (makeDirs [] names t).2.find names = some .dir := by
  by_cases hne : names = []
  · rw [hne]
    rfl
  · apply find_makeDirs_way t.find_nil (fun p hp => (h p hp).1) hok
    exact mem_way_iff.2 ⟨names, hne, List.prefix_refl names, resolveFrom_of_names [] h⟩

theorem find_makeDirs_dir_iff {t : FileTree α} (hdir : t.find loc = some .dir)
    (hparts : ∀ p ∈ parts, IsPart p) (hok : (makeDirs loc parts t).1 = none) :
    (makeDirs loc parts t).2.find q = some .dir ↔ t.find q = some .dir ∨ q ∈ way loc parts := by
  constructor
  · intro h
    by_cases hsame : (makeDirs loc parts t).2.find q = t.find q
    · exact .inl (hsame.symm.trans h)
    · obtain ⟨-, hq, -⟩ := find_makeDirs_of_ne hdir hparts hsame
      exact .inr ((List.takeWhile_sublist _).subset hq)
  · rintro (h | h)
    · exact find_makeDirs_of_some hdir hparts h
    · exact find_makeDirs_way hdir hparts hok h

theorem find_makeDirs_file_iff {t : FileTree α} (hdir : t.find loc = some .dir)
    (hparts : ∀ p ∈ parts, IsPart p) :
    (makeDirs loc parts t).2.find q = some (.file data) ↔ t.find q = some (.file data) := by
  constructor
  · intro h
    by_contra hne
    have hnew := find_makeDirs_of_ne hdir hparts (q := q) fun he => hne (he.symm.trans h)
    rw [h] at hnew
    cases hnew.2.2
  · exact find_makeDirs_of_some hdir hparts

/-- Making the directories of a path of names. -/
theorem makeDirs_of_names {t : FileTree α} (hnames : ∀ name ∈ names, IsName name)
    (hfree : ∀ q, q <+: names → t.isFile q = false) :
    ∃ t', makeDirs [] names t = (none, t') ∧ ∀ q, t'.find q =
      if t.find q = none ∧ q <+: names then some .dir else t.find q := by
  have hparts : ∀ p ∈ names, IsPart p := fun p hp => (hnames p hp).1
  have hway : ∀ q ∈ way [] names, t.isFile q = false :=
    fun q hq => hfree q ((mem_way_of_names hnames).1 hq).2
  have hok := (makeDirs_ok_iff t.find_nil hparts).2 hway
  refine ⟨(makeDirs [] names t).2, Prod.ext hok rfl, ?_⟩
  intro q
  rw [find_makeDirs t.find_nil hparts, cleared_of_ok hway]
  apply if_congr _ rfl rfl
  constructor
  · rintro ⟨hnone, hq⟩
    exact ⟨hnone, ((mem_way_of_names hnames).1 hq).2⟩
  · rintro ⟨hnone, hq⟩
    refine ⟨hnone, (mem_way_of_names hnames).2 ⟨?_, hq⟩⟩
    rintro rfl
    cases hnone

/-- Where all directories on the way are there, nothing is made. -/
theorem makeDirs_of_dirs {t : FileTree α} (h : ∀ q ∈ way loc parts, t.find q = some .dir) :
    makeDirs loc parts t = (none, t) := by
  induction parts generalizing loc with
  | nil => rfl
  | cons p parts ih =>
    rw [way, List.forall_mem_cons] at h
    rw [makeDirs, h.1]
    exact ih h.2

/-- A file in the way: all directories before it are there. -/
theorem makeDirs_of_file {t : FileTree α} (hnames : ∀ name ∈ names, IsName name)
    (hpre : dirs <+: names) (hne : dirs ≠ []) (hfile : t.isFile (loc ++ dirs) = true) :
    makeDirs loc names t = (some .notADirectory, t) := by
  induction dirs generalizing loc names with
  | nil => exact (hne rfl).elim
  | cons d dirs ih =>
    cases names with
    | nil => cases List.prefix_nil.1 hpre
    | cons name names =>
      obtain ⟨rfl, hpre'⟩ := List.cons_prefix_cons.1 hpre
      obtain ⟨data, hfind⟩ := isFile_iff.1 hfile
      rw [makeDirs, goTo_of_name loc (hnames d List.mem_cons_self)]
      rw [List.append_cons] at hfile hfind
      by_cases hdirs : dirs = []
      · rw [hdirs, List.append_nil] at hfind
        rw [hfind]
      · rw [find_of_append hfind hdirs]
        exact ih (fun x hx => hnames x (List.mem_cons_of_mem d hx)) hpre' hdirs hfile

/-! ## Files -/

/-- Open a path for writing, cut the file and fill it. -/
def writeFile (parts : List String) (data : α) (t : FileTree α) : Option Fault × FileTree α :=
  match t.walk [] parts with
  | none => (some .notFound, t)
  | some loc =>
    if t.isDir loc then (some .isADirectory, t) else (none, t.set loc (some (.file data)))

/-- Move a file over what is at another path. -/
def rename (src dst : List String) (t : FileTree α) : Option Fault × FileTree α :=
  match t.walk [] src, t.walk [] dst with
  | some s, some d =>
    match t.find s with
    | some (.file data) =>
      if t.isDir d then (some .isADirectory, t)
      else if s = d then (none, t)
      else (none, (t.set d (some (.file data))).set s none)
    | some .dir => (some .isADirectory, t)
    | none => (some .notFound, t)
  | _, _ => (some .notFound, t)

def unlink (parts : List String) (t : FileTree α) : Option Fault × FileTree α :=
  match (t.walk [] parts).map fun loc => (loc, t.find loc) with
  | some (loc, some (.file _)) => (none, t.set loc none)
  | some (_, some .dir) => (some .isADirectory, t)
  | _ => (some .notFound, t)

/-- What stands at a path. -/
def stat (t : FileTree α) (parts : List String) : Option (Node α) := (t.walk [] parts).bind t.find

/-- A path of names leads to what stands there. -/
theorem stat_of_names (t : FileTree α) (h : ∀ name ∈ path, IsName name) :
    t.stat path = t.find path := by
  cases hfind : t.find path with
  | some n => rw [stat, walk_of_find hfind, Option.bind_some, hfind]
  | none =>
    rw [stat]
    cases hwalk : t.walk [] path with
    | none => rfl
    | some q =>
      obtain rfl : q = path := (walk_eq hwalk).trans (resolveFrom_of_names [] h)
      exact hfind

end FileTree

/-- The files of a machine. -/
abbrev Disk := FileTree (List UInt8)

/-! ## Calls of the system -/

inductive Op (α : Type u) where
  | makeDirs (parts : List String)
  | write (parts : List String) (data : α)
  | rename (src dst : List String)
  | unlink (parts : List String)
  | unlinkExisting (parts : List String)
  | fail (f : Fault)

/-- No path of a call holds a null byte. -/
def Op.clean : Op α → Bool
  | makeDirs parts | write parts _ | unlink parts | unlinkExisting parts =>
    parts.all fun p => IsPart p
  | rename src dst => (src ++ dst).all fun p => IsPart p
  | fail _ => true

def Op.run (op : Op α) (t : FileTree α) : Option Fault × FileTree α :=
  if op.clean then
    match op with
    | makeDirs parts => t.makeDirs [] parts
    | write parts data => t.writeFile parts data
    | rename src dst => t.rename src dst
    | unlink parts => t.unlink parts
    | unlinkExisting parts => if (t.stat parts).isSome then t.unlink parts else (none, t)
    | fail f => (some f, t)
  else (some .nullByte, t)

/-- Calls one after another, up to one that fails. -/
def runOps : List (Op α) → FileTree α → Option Fault × FileTree α
  | [], t => (none, t)
  | op :: ops, t =>
    match op.run t with
    | (none, t) => runOps ops t
    | (some f, t) => (some f, t)

theorem runOps_cons_of_ok {op : Op α} (h : op.run t = (none, t')) (ops : List (Op α)) :
    runOps (op :: ops) t = runOps ops t' := by
  rw [runOps, h]

theorem runOps_cons_of_fault {op : Op α} (h : op.run t = (some f, t')) (ops : List (Op α)) :
    runOps (op :: ops) t = (some f, t') := by
  rw [runOps, h]

/-- Two operations: the first fails, or the second follows it. -/
theorem runOps_pair {op op' : Op α} {fault : Option Fault}
    (h : runOps [op, op'] t = (fault, t')) :
    (∃ f, fault = some f ∧ op.run t = (some f, t')) ∨
      ∃ t₁, op.run t = (none, t₁) ∧ op'.run t₁ = (fault, t') := by
  cases hfirst : op.run t with
  | mk first t₁ =>
    cases first with
    | some f =>
      rw [runOps_cons_of_fault hfirst] at h
      cases h
      exact .inl ⟨f, rfl, rfl⟩
    | none =>
      rw [runOps_cons_of_ok hfirst] at h
      refine .inr ⟨t₁, rfl, ?_⟩
      cases hsecond : op'.run t₁ with
      | mk second t₂ =>
        cases second with
        | some f => rwa [runOps_cons_of_fault hsecond] at h
        | none => rwa [runOps_cons_of_ok hsecond] at h

theorem runOps_append (ops ops' : List (Op α)) (t : FileTree α) :
    runOps (ops ++ ops') t =
      match runOps ops t with
      | (none, t) => runOps ops' t
      | (some f, t) => (some f, t) := by
  induction ops generalizing t with
  | nil => rfl
  | cons op ops ih =>
    rw [List.cons_append, runOps, runOps]
    split
    · exact ih _
    · rfl

theorem runOps_append_of_ok {ops : List (Op α)} (h : runOps ops t = (none, t'))
    (ops' : List (Op α)) : runOps (ops ++ ops') t = runOps ops' t' := by
  rw [runOps_append, h]

theorem runOps_append_of_fault {ops : List (Op α)} (h : runOps ops t = (some f, t'))
    (ops' : List (Op α)) : runOps (ops ++ ops') t = (some f, t') := by
  rw [runOps_append, h]

theorem runOps_append_eq_ok {ops ops' : List (Op α)} (h : runOps (ops ++ ops') t = (none, t')) :
    ∃ t₁, runOps ops t = (none, t₁) ∧ runOps ops' t₁ = (none, t') := by
  rw [runOps_append] at h
  split at h
  · rename_i t₁ hrun
    exact ⟨t₁, hrun, h⟩
  · cases h

/-! ### How a call ends -/

/-- A call that fails leaves the tree as it was, unless it makes directories one by one. -/
theorem Op.eq_of_fault {op : Op α} (hop : ∀ parts, op ≠ .makeDirs parts)
    (h : op.run t = (some f, t')) : t' = t := by
  by_cases hclean : op.clean = true
  · rw [Op.run.eq_def, if_pos hclean] at h
    cases op with
    | makeDirs parts => exact (hop parts rfl).elim
    | write parts data =>
      change FileTree.writeFile parts data t = _ at h
      rw [FileTree.writeFile] at h
      split at h
      · exact (congrArg Prod.snd h).symm
      · split at h
        · exact (congrArg Prod.snd h).symm
        · cases h
    | rename src dst =>
      change FileTree.rename src dst t = _ at h
      rw [FileTree.rename] at h
      split at h
      · split at h
        · split at h
          · exact (congrArg Prod.snd h).symm
          · split at h
            · cases h
            · cases h
        · exact (congrArg Prod.snd h).symm
        · exact (congrArg Prod.snd h).symm
      · exact (congrArg Prod.snd h).symm
    | unlink parts =>
      change FileTree.unlink parts t = _ at h
      rw [FileTree.unlink] at h
      split at h
      · cases h
      · exact (congrArg Prod.snd h).symm
      · exact (congrArg Prod.snd h).symm
    | unlinkExisting parts =>
      dsimp only at h
      split at h
      · rw [FileTree.unlink] at h
        split at h
        · cases h
        · exact (congrArg Prod.snd h).symm
        · exact (congrArg Prod.snd h).symm
      · cases h
    | fail f => exact (congrArg Prod.snd h).symm
  · rw [Op.run.eq_def, if_neg hclean] at h
    exact (congrArg Prod.snd h).symm

theorem Op.clean_of_ok {op : Op α} (h : op.run t = (none, t')) : op.clean = true := by
  by_contra hclean
  rw [Op.run.eq_def, if_neg hclean] at h
  cases h

theorem parts_of_clean {parts : List String} (h : (parts.all fun p => IsPart p) = true) :
    ∀ p ∈ parts, IsPart p :=
  fun p hp => of_decide_eq_true (List.all_eq_true.1 h p hp)

theorem makeDirs_of_ok {dirs : List String} (h : (Op.makeDirs dirs).run t = (none, t')) :
    (∀ p ∈ dirs, IsPart p) ∧ FileTree.makeDirs [] dirs t = (none, t') := by
  have hdirs := parts_of_clean (Op.clean_of_ok h)
  rw [Op.run.eq_def, if_pos (Op.clean_of_ok h)] at h
  exact ⟨hdirs, h⟩

theorem write_of_ok {parts : List String} (h : (Op.write parts data).run t = (none, t')) :
    (∀ p ∈ parts, IsPart p) ∧ t.Settable (resolveParts parts) ∧
      t' = t.set (resolveParts parts) (some (.file data)) := by
  have hparts := parts_of_clean (Op.clean_of_ok h)
  rw [Op.run.eq_def, if_pos (Op.clean_of_ok h)] at h
  change FileTree.writeFile parts data t = _ at h
  rw [FileTree.writeFile] at h
  split at h
  · cases h
  · rename_i loc hwalk
    split at h
    · cases h
    · rename_i hdir
      cases h
      have hset := FileTree.settable_of_walk hwalk hparts (Bool.eq_false_iff.2 hdir)
      obtain rfl : loc = resolveParts parts := FileTree.walk_eq hwalk
      exact ⟨hparts, hset, rfl⟩

theorem rename_of_ok {src dst : List String} (h : (Op.rename src dst).run t = (none, t'))
    (hne : resolveParts src ≠ resolveParts dst) :
    ∃ data, t.find (resolveParts src) = some (.file data) ∧ t.Settable (resolveParts dst) ∧
      t' = (t.set (resolveParts dst) (some (.file data))).set (resolveParts src) none := by
  have hparts := parts_of_clean (Op.clean_of_ok h)
  rw [Op.run.eq_def, if_pos (Op.clean_of_ok h)] at h
  change FileTree.rename src dst t = _ at h
  rw [FileTree.rename] at h
  split at h
  · rename_i s d hs hd
    obtain rfl : s = resolveParts src := FileTree.walk_eq hs
    obtain rfl : d = resolveParts dst := FileTree.walk_eq hd
    split at h
    · rename_i data hfile
      split at h
      · cases h
      · rename_i hdir
        cases h
        have hset := FileTree.settable_of_walk hd
          (fun p hp => hparts p (List.mem_append_right _ hp)) (Bool.eq_false_iff.2 hdir)
        exact ⟨data, hfile, hset, rfl⟩
    · cases h
    · cases h
  · cases h

theorem unlink_of_ok {parts : List String} (h : (Op.unlink parts).run t = (none, t')) :
    t' = t.set (resolveParts parts) none := by
  rw [Op.run.eq_def, if_pos (Op.clean_of_ok h)] at h
  change FileTree.unlink parts t = _ at h
  rw [FileTree.unlink] at h
  split at h
  · rename_i loc data hmap
    obtain ⟨loc', hwalk, hloc⟩ := Option.map_eq_some_iff.1 hmap
    obtain rfl : loc' = loc := congrArg Prod.fst hloc
    obtain rfl : loc' = resolveParts parts := FileTree.walk_eq hwalk
    exact (congrArg Prod.snd h).symm
  · cases h
  · cases h

theorem unlinkExisting_of_ok {parts : List String}
    (h : (Op.unlinkExisting parts).run t = (none, t')) :
    t' = t ∨ t' = t.set (resolveParts parts) none := by
  have hclean := Op.clean_of_ok h
  rw [Op.run.eq_def, if_pos hclean] at h
  dsimp only at h
  split at h
  · right
    apply unlink_of_ok
    rw [Op.run.eq_def]
    exact (if_pos hclean).trans h
  · exact .inl (congrArg Prod.snd h).symm

/-! ### What stays -/

theorem find_writeFile_of_dir {t : FileTree α} (h : t.find q = some .dir) (parts : List String)
    (data : α) : (t.writeFile parts data).2.find q = some .dir := by
  rw [FileTree.writeFile]
  split
  · exact h
  · split
    · exact h
    · exact FileTree.find_set_of_dir h _

theorem find_rename_of_dir {t : FileTree α} (h : t.find q = some .dir) (src dst : List String) :
    (t.rename src dst).2.find q = some .dir := by
  rw [FileTree.rename]
  split
  · split
    · split
      · exact h
      · split
        · exact h
        · exact FileTree.find_set_of_dir (FileTree.find_set_of_dir h _) _
    · exact h
    · exact h
  · exact h

theorem find_unlink_of_dir {t : FileTree α} (h : t.find q = some .dir) (parts : List String) :
    (t.unlink parts).2.find q = some .dir := by
  rw [FileTree.unlink]
  split
  · exact FileTree.find_set_of_dir h _
  · exact h
  · exact h

/-- No call takes a directory away. -/
theorem Op.find_run_of_dir {t : FileTree α} (op : Op α) (h : t.find q = some .dir) :
    (op.run t).2.find q = some .dir := by
  by_cases hclean : op.clean = true
  · rw [Op.run.eq_def, if_pos hclean]
    cases op with
    | makeDirs parts =>
      apply FileTree.find_makeDirs_of_some t.find_nil _ h
      intro p hp
      exact of_decide_eq_true (List.all_eq_true.1 hclean p hp)
    | write parts data => exact find_writeFile_of_dir h parts data
    | rename src dst => exact find_rename_of_dir h src dst
    | unlink parts => exact find_unlink_of_dir h parts
    | unlinkExisting parts =>
      dsimp only
      split
      · exact find_unlink_of_dir h parts
      · exact h
    | fail f => exact h
  · rw [Op.run.eq_def, if_neg hclean]
    exact h

theorem find_runOps_of_dir {t : FileTree α} (ops : List (Op α)) (h : t.find q = some .dir) :
    (runOps ops t).2.find q = some .dir := by
  induction ops generalizing t with
  | nil => exact h
  | cons op ops ih =>
    have hstep := op.find_run_of_dir h
    rw [runOps]
    split
    · rename_i t' hrun
      rw [hrun] at hstep
      exact ih hstep
    · rename_i f t' hrun
      rw [hrun] at hstep
      exact hstep

/-- The places at which a call puts, changes or takes away a file. -/
def Op.places : Op α → List (List String)
  | makeDirs _ | fail _ => []
  | write parts _ | unlink parts | unlinkExisting parts => [resolveParts parts]
  | rename src dst => [resolveParts src, resolveParts dst]

theorem find_writeFile_of_ne (t : FileTree α) (h : q ≠ resolveParts parts) (data : α) :
    (t.writeFile parts data).2.find q = t.find q := by
  rw [FileTree.writeFile]
  split
  · rfl
  · rename_i loc hwalk
    split
    · rfl
    · apply FileTree.find_set_of_ne
      rwa [FileTree.walk_eq hwalk]

theorem find_rename_of_ne (t : FileTree α) (hsrc : q ≠ resolveParts src)
    (hdst : q ≠ resolveParts dst) : (t.rename src dst).2.find q = t.find q := by
  rw [FileTree.rename]
  split
  · rename_i s d hs hd
    split
    · split
      · rfl
      · split
        · rfl
        · rw [FileTree.find_set_of_ne, FileTree.find_set_of_ne]
          · rwa [FileTree.walk_eq hd]
          · rwa [FileTree.walk_eq hs]
    · rfl
    · rfl
  · rfl

theorem find_unlink_of_ne (t : FileTree α) (h : q ≠ resolveParts parts) :
    (t.unlink parts).2.find q = t.find q := by
  rw [FileTree.unlink]
  split
  · rename_i loc data hmap
    obtain ⟨loc', hwalk, hloc⟩ := Option.map_eq_some_iff.1 hmap
    obtain rfl : loc' = loc := congrArg Prod.fst hloc
    apply FileTree.find_set_of_ne
    rwa [FileTree.walk_eq hwalk]
  · rfl
  · rfl

/-- What is elsewhere stays as it is. -/
theorem Op.find_run_of_some {t : FileTree α} (op : Op α) (h : t.find q = some n)
    (hne : q ∉ op.places) : (op.run t).2.find q = some n := by
  by_cases hclean : op.clean = true
  · rw [Op.run.eq_def, if_pos hclean]
    cases op with
    | makeDirs parts =>
      apply FileTree.find_makeDirs_of_some t.find_nil _ h
      intro p hp
      exact of_decide_eq_true (List.all_eq_true.1 hclean p hp)
    | write parts data =>
      exact (find_writeFile_of_ne t (List.ne_of_not_mem_cons hne) data).trans h
    | rename src dst =>
      rw [Op.places, List.mem_cons, not_or, List.mem_singleton] at hne
      exact (find_rename_of_ne t hne.1 hne.2).trans h
    | unlink parts => exact (find_unlink_of_ne t (List.ne_of_not_mem_cons hne)).trans h
    | unlinkExisting parts =>
      dsimp only
      split
      · exact (find_unlink_of_ne t (List.ne_of_not_mem_cons hne)).trans h
      · exact h
    | fail f => exact h
  · rw [Op.run.eq_def, if_neg hclean]
    exact h

theorem find_runOps_of_some {t : FileTree α} {ops : List (Op α)} (h : t.find q = some n)
    (hne : ∀ op ∈ ops, q ∉ op.places) : (runOps ops t).2.find q = some n := by
  induction ops generalizing t with
  | nil => exact h
  | cons op ops ih =>
    have hstep := op.find_run_of_some h (hne op List.mem_cons_self)
    rw [runOps]
    split
    · rename_i t' hrun
      rw [hrun] at hstep
      exact ih hstep fun op' hop => hne op' (List.mem_cons_of_mem _ hop)
    · rename_i f t' hrun
      rw [hrun] at hstep
      exact hstep

/-! ### Calls below directories that are there -/

section
variable {t : FileTree α} {dirs : List String} {last : String}

theorem find_of_way (hway : ∀ q ∈ way [] dirs, t.find q = some .dir) :
    t.find (resolveParts dirs) = some .dir := by
  by_cases hne : dirs = []
  · rw [hne]
    exact t.find_nil
  · exact hway _ (mem_way_iff.2 ⟨dirs, hne, List.prefix_refl dirs, rfl⟩)

/-- All places on the way to a directory are directories. -/
theorem way_of_dir (h : ∀ name ∈ dirs, IsName name) (hdir : t.find dirs = some .dir) :
    ∀ q ∈ way [] dirs, t.find q = some .dir := by
  intro q hq
  obtain ⟨-, hpre⟩ := (mem_way_of_names h).1 hq
  by_cases he : q = dirs
  · rwa [he]
  · exact FileTree.find_of_ancestor hpre he hdir

theorem way_of_made (hparts : ∀ p ∈ dirs ++ [last], IsPart p)
    (hmade : t.makeDirs [] dirs = (none, t₁)) : ∀ q ∈ way [] dirs, t₁.find q = some .dir := by
  intro q hq
  have hfind := FileTree.find_makeDirs_way t.find_nil
    (fun p hp => hparts p (List.mem_append_left _ hp)) (congrArg Prod.fst hmade) hq
  rwa [hmade] at hfind

theorem walk_of_way (hway : ∀ q ∈ way [] dirs, t.find q = some .dir) (last : String) :
    t.walk [] (dirs ++ [last]) = some (resolveParts (dirs ++ [last])) :=
  FileTree.walk_concat_iff.2 ⟨rfl, rfl, fun q hq => FileTree.isDir_iff.2 (hway q hq)⟩

theorem run_makeDirs (h : ∀ p ∈ dirs, IsPart p) :
    (Op.makeDirs dirs).run t = t.makeDirs [] dirs :=
  if_pos (List.all_eq_true.2 fun p hp => decide_eq_true (h p hp))

theorem run_write (hway : ∀ q ∈ way [] dirs, t.find q = some .dir)
    (h : ∀ p ∈ dirs ++ [last], IsPart p) (data : α) :
    (Op.write (dirs ++ [last]) data).run t =
      if t.isDir (resolveParts (dirs ++ [last])) then (some .isADirectory, t)
      else (none, t.set (resolveParts (dirs ++ [last])) (some (.file data))) := by
  have hclean : (Op.write (dirs ++ [last]) data).clean = true :=
    List.all_eq_true.2 fun p hp => decide_eq_true (h p hp)
  rw [Op.run, if_pos hclean]
  change t.writeFile _ _ = _
  rw [FileTree.writeFile, walk_of_way hway]

theorem run_write_of_names {path : List String} (h : ∀ name ∈ path, IsName name)
    (hdir : t.find path.dropLast = some .dir) (data : α) :
    (Op.write path data).run t =
      if t.isDir path then (some .isADirectory, t)
      else (none, t.set path (some (.file data))) := by
  rcases List.eq_nil_or_concat path with rfl | ⟨dirs, last, rfl⟩
  · rfl
  · rw [List.concat_eq_append] at h hdir ⊢
    rw [List.dropLast_concat] at hdir
    have hdirs : ∀ name ∈ dirs, IsName name :=
      fun name hname => h name (List.mem_append_left _ hname)
    rw [run_write (way_of_dir hdirs hdir) fun p hp => (h p hp).1, resolveParts_of_names h]

theorem run_rename {src : String} (hway : ∀ q ∈ way [] dirs, t.find q = some .dir)
    (hsrc : ∀ p ∈ dirs ++ [src], IsPart p) (hdst : ∀ p ∈ dirs ++ [last], IsPart p)
    (hfile : t.find (resolveParts (dirs ++ [src])) = some (.file data))
    (hne : resolveParts (dirs ++ [src]) ≠ resolveParts (dirs ++ [last])) :
    (Op.rename (dirs ++ [src]) (dirs ++ [last])).run t =
      if t.isDir (resolveParts (dirs ++ [last])) then (some .isADirectory, t)
      else (none, (t.set (resolveParts (dirs ++ [last])) (some (.file data))).set
        (resolveParts (dirs ++ [src])) none) := by
  have hclean : (Op.rename (α := α) (dirs ++ [src]) (dirs ++ [last])).clean = true := by
    apply List.all_eq_true.2
    intro p hp
    exact decide_eq_true ((List.mem_append.1 hp).elim (hsrc p) (hdst p))
  rw [Op.run, if_pos hclean]
  change t.rename _ _ = _
  rw [FileTree.rename, walk_of_way hway, walk_of_way hway]
  simp only [hfile, if_neg hne]

/-- Fill a file beside its place and move it there. -/
theorem runOps_replace {tmp : String} (hway : ∀ q ∈ way [] dirs, t.find q = some .dir)
    (htmp : ∀ p ∈ dirs ++ [tmp], IsPart p) (hlast : ∀ p ∈ dirs ++ [last], IsPart p)
    (hne : resolveParts (dirs ++ [tmp]) ≠ resolveParts (dirs ++ [last])) (data : α) :
    runOps [.write (dirs ++ [tmp]) data, .rename (dirs ++ [tmp]) (dirs ++ [last])] t =
      if t.isDir (resolveParts (dirs ++ [tmp])) then (some .isADirectory, t)
      else if t.isDir (resolveParts (dirs ++ [last])) then
        (some .isADirectory, t.set (resolveParts (dirs ++ [tmp])) (some (.file data)))
      else
        (none, ((t.set (resolveParts (dirs ++ [tmp])) (some (.file data))).set
          (resolveParts (dirs ++ [last])) (some (.file data))).set
            (resolveParts (dirs ++ [tmp])) none) := by
  cases hdir : t.isDir (resolveParts (dirs ++ [tmp])) with
  | true =>
    apply runOps_cons_of_fault
    rw [run_write hway htmp, hdir]
    rfl
  | false =>
    have hset := FileTree.settable_of_walk (walk_of_way hway tmp) htmp hdir
    have hwrite : (Op.write (dirs ++ [tmp]) data).run t =
        (none, t.set (resolveParts (dirs ++ [tmp])) (some (.file data))) := by
      rw [run_write hway htmp, hdir]
      rfl
    have hrename := run_rename (fun q hq => FileTree.find_set_of_dir (hway q hq) _) htmp hlast
      (FileTree.find_set_self hset (some (.file data))) hne
    have hsame : (t.set (resolveParts (dirs ++ [tmp])) (some (.file data))).isDir
        (resolveParts (dirs ++ [last])) = t.isDir (resolveParts (dirs ++ [last])) := by
      rw [FileTree.isDir, FileTree.find_set_of_ne t _ hne.symm, FileTree.isDir]
    rw [hsame] at hrename
    rw [runOps_cons_of_ok hwrite, if_neg Bool.false_ne_true]
    split
    · rename_i hlastdir
      apply runOps_cons_of_fault
      rw [hrename, if_pos hlastdir]
    · rename_i hlastdir
      rw [if_neg hlastdir] at hrename
      exact runOps_cons_of_ok hrename []

theorem settable_of_way (hway : ∀ q ∈ way [] dirs, t.find q = some .dir)
    (h : ∀ p ∈ dirs ++ [last], IsPart p) (hdir : t.isDir (resolveParts (dirs ++ [last])) = false) :
    t.Settable (resolveParts (dirs ++ [last])) :=
  FileTree.settable_of_walk (walk_of_way hway last) h hdir

end

/-! ## What lies outside a directory -/

/-- Nothing outside a directory is another. -/
def KeepsOutside (base : List String) (t t' : FileTree α) : Prop :=
  ∀ q, ¬ base <+: q → t'.find q = t.find q

/-- The directories that are missing on a way, up to a file that is in the way, lie in `base`. -/
def MakesInside (base dirs : List String) (t : FileTree α) : Prop :=
  ∀ q ∈ t.cleared [] dirs, t.find q = none → base <+: q

theorem KeepsOutside.trans (h : KeepsOutside base t t₁) (h' : KeepsOutside base t₁ t₂) :
    KeepsOutside base t t₂ :=
  fun q hq => (h' q hq).trans (h q hq)

theorem keepsOutside_makeDirs_iff {t : FileTree α} (hdirs : ∀ p ∈ dirs, IsPart p) :
    KeepsOutside base t (t.makeDirs [] dirs).2 ↔ MakesInside base dirs t := by
  constructor
  · intro h q hq hnone
    by_contra hout
    have hmade := h q hout
    rw [FileTree.find_makeDirs t.find_nil hdirs, if_pos ⟨hnone, hq⟩, hnone] at hmade
    cases hmade
  · intro h q hout
    by_contra hne
    obtain ⟨hnone, hq, -⟩ := FileTree.find_makeDirs_of_ne t.find_nil hdirs hne
    exact hout (h q hq hnone)

theorem made_outside {t : FileTree α} (hdirs : ∀ p ∈ dirs, IsPart p) (h : ¬ MakesInside base dirs t) :
    ∃ q, ¬ base <+: q ∧ t.find q = none ∧ (t.makeDirs [] dirs).2.find q = some .dir := by
  obtain ⟨q, h⟩ := not_forall.1 h
  obtain ⟨hq, h⟩ := Classical.not_imp.1 h
  obtain ⟨hnone, hout⟩ := Classical.not_imp.1 h
  refine ⟨q, hout, hnone, ?_⟩
  rw [FileTree.find_makeDirs t.find_nil hdirs, if_pos ⟨hnone, hq⟩]

theorem keepsOutside_set_iff (hin : base <+: path) (n : Option (Node α)) :
    KeepsOutside base t (FileTree.set t' path n) ↔ KeepsOutside base t t' := by
  have hother : ∀ q, ¬ base <+: q → (t'.set path n).find q = t'.find q := by
    intro q hq
    apply FileTree.find_set_of_ne
    rintro rfl
    exact hq hin
  constructor
  · intro h q hq
    exact (hother q hq).symm.trans (h q hq)
  · intro h q hq
    exact (hother q hq).trans (h q hq)

end FileSystem
