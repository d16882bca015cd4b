import ScottyCore.Lib.FileMap

namespace FileSystem
open Python
set_option autoImplicit true

/-! ## The commands of a host -/

/-- The parts of a path that a command takes, with the directory in which it runs. -/
def pathParts (home : List String) (path : String) : List String :=
  if path.toList.head? = some '/' then splitPath path else home ++ splitPath path

namespace FileTree

variable (home : List String) (t : FileTree α)

/-- What stands at a path that a command takes. -/
def lookup (path : String) : Option (Node α) :=
  if path = "" then none else t.stat (pathParts home path)

/-- `mkdir -p path` -/
def mkdir (path : String) : Option Fault × FileTree α :=
  if path = "" then (some .notFound, t) else t.makeDirs [] (pathParts home path)

/-- `test -f path` -/
def testFile (path : String) : Bool :=
  match t.lookup home path with
  | some (.file _) => true
  | _ => false

/-- `scp name host:path`: into a directory that is there, under the name of what is copied. -/
def copyTo (name : String) (data : α) (path : String) : Option Fault × FileTree α :=
  match t.lookup home path with
  | some .dir => t.writeFile (pathParts home path ++ [name]) data
  | _ => t.writeFile (pathParts home path) data

/-- `rm -f path` -/
def remove (path : String) : Option Fault × FileTree α :=
  match (t.walk [] (pathParts home path)).map fun loc => (loc, t.find loc) with
  | some (loc, some (.file _)) => (none, t.set loc none)
  | some (_, some .dir) => (some .isADirectory, t)
  | _ => (none, t)

/-- `rm -f` of two paths: the second is taken away even where the first cannot be. -/
def removeBoth (path path' : String) : Option Fault × FileTree α :=
  match t.remove home path with
  | (fault, t) => (fault <|> (t.remove home path').1, (t.remove home path').2)

/-- The paths that `find dir -name "*ending" -type f` prints. -/
def findFiles (dir ending : String) : Option (List String) :=
  if dir = "" then none
  else
    match (t.walk [] (pathParts home dir)).bind fun loc => (t.find loc).map (loc, ·) with
    | none => none
    | some (_, .file _) =>
      some ((splitPath dir).getLast?.toList.filterMap fun name =>
        if ending.toList <:+ name.toList then some dir else none)
    | some (loc, .dir) =>
      let start := if dir.toList.getLast? = some '/' then dir else dir ++ "/"
      some (t.entries.rows.filterMap fun e =>
        match e with
        | (path, .file _) =>
          if loc <+: path.dropLast ∧ ∃ name ∈ path.getLast?, ending.toList <:+ name.toList then
            some (start ++ joinPath (path.drop loc.length))
          else none
        | _ => none)

end FileTree

/-! ## Absolute paths of names -/

variable {home path root names dirs : List String} {t t' : FileTree α} {data : α}

theorem pathText_append (hroot : root ≠ []) (hne : names ≠ []) :
    pathText root ++ "/" ++ joinPath names = pathText (root ++ names) := by
  have hslash : (pathText names).toList = "/".toList ++ (joinPath names).toList :=
    String.toList_append
  apply String.toList_injective
  rw [String.toList_append, String.toList_append, List.append_assoc, ← hslash,
    toList_pathText hroot, toList_pathText hne, toList_pathText (List.append_ne_nil_of_left_ne_nil
      hroot names), List.flatMap_append]

theorem pathText_ne_empty (names : List String) : pathText names ≠ "" := by
  intro he
  have hnil := congrArg String.toList he
  rw [pathText, String.toList_append] at hnil
  cases hnil

theorem getLast?_pathText (hne : path ≠ []) (hnames : ∀ name ∈ path, IsName name) :
    (pathText path).toList.getLast? ≠ some '/' := by
  obtain ⟨dirs, name, rfl⟩ := List.eq_nil_or_concat path |>.resolve_left hne
  rw [List.concat_eq_append] at hne hnames ⊢
  have hname := hnames name (List.mem_append_right _ List.mem_cons_self)
  have hchars : name.toList ≠ [] := fun hnil => hname.2.1 (String.toList_eq_nil_iff.1 hnil)
  rw [toList_pathText hne, List.flatMap_append, List.flatMap_singleton,
    List.getLast?_append_of_ne_nil _ (List.cons_ne_nil _ _), List.getLast?_cons_of_ne_nil hchars]
  exact fun hlast => hname.1.1 (List.mem_of_getLast? hlast)

theorem joinPath_cons_empty (hne : path ≠ []) : joinPath ("" :: path) = pathText path := by
  apply String.toList_injective
  rw [pathText, String.toList_append, toList_joinPath, toList_joinPath, List.map_cons,
    List.intercalate_cons_of_ne_nil fun hnil => hne (List.map_eq_nil_iff.1 hnil)]
  rfl

theorem splitPath_pathText (hne : path ≠ []) (hnames : ∀ name ∈ path, IsName name) :
    splitPath (pathText path) = "" :: path := by
  rw [← joinPath_cons_empty hne, splitPath, toList_joinPath, List.splitOn_intercalate]
  · rw [List.map_map]
    exact (List.map_congr_left fun name _ => String.ofList_toList).trans (List.map_id _)
  · intro cs hcs
    obtain ⟨name, hname, rfl⟩ := List.mem_map.1 hcs
    rcases List.mem_cons.1 hname with rfl | hname
    · exact List.not_mem_nil
    · exact (hnames name hname).1.1
  · exact List.cons_ne_nil _ _

theorem pathParts_pathText (hne : path ≠ []) (hnames : ∀ name ∈ path, IsName name) :
    pathParts home (pathText path) = "" :: path := by
  have hhead : (pathText path).toList.head? = some '/' := by
    rw [pathText, String.toList_append]
    rfl
  rw [pathParts, if_pos hhead, splitPath_pathText hne hnames]

namespace FileTree

theorem walk_pathText (hne : path ≠ []) (hnames : ∀ name ∈ path, IsName name) :
    t.walk [] (pathParts home (pathText path)) = t.walk [] path := by
  rw [pathParts_pathText hne hnames]
  rfl

theorem lookup_pathText (hne : path ≠ []) (hnames : ∀ name ∈ path, IsName name) :
    t.lookup home (pathText path) = t.find path := by
  rw [lookup, if_neg (pathText_ne_empty path), stat, walk_pathText hne hnames, ← stat,
    t.stat_of_names hnames]

theorem testFile_pathText (hne : path ≠ []) (hnames : ∀ name ∈ path, IsName name) :
    t.testFile home (pathText path) = t.isFile path := by
  rw [testFile, lookup_pathText hne hnames]
  rfl

theorem mkdir_pathText (hne : path ≠ []) (hnames : ∀ name ∈ path, IsName name) :
    t.mkdir home (pathText path) = (Op.makeDirs path).run t := by
  rw [run_makeDirs fun p hp => (hnames p hp).1, mkdir, if_neg (pathText_ne_empty path),
    pathParts_pathText hne hnames, makeDirs]
  rfl

theorem copyTo_pathText (hne : path ≠ []) (hnames : ∀ name ∈ path, IsName name)
    (hfree : t.isDir path = false) (name : String) :
    t.copyTo home name data (pathText path) = (Op.write path data).run t := by
  have hclean : (Op.write path data).clean = true :=
    List.all_eq_true.2 fun p hp => decide_eq_true (hnames p hp).1
  have hwrite : t.writeFile (pathParts home (pathText path)) data = (Op.write path data).run t := by
    rw [Op.run, if_pos hclean, writeFile, walk_pathText hne hnames]
    rfl
  rw [copyTo, lookup_pathText hne hnames]
  split
  · rename_i hdir
    rw [isDir, hdir] at hfree
    cases hfree
  · exact hwrite

theorem remove_pathText (hne : path ≠ []) (hfile : t.find path = some (.file data)) :
    t.remove home (pathText path) = (none, t.set path none) := by
  rw [remove, walk_pathText hne (names_of_find hfile), walk_of_find hfile, Option.map_some, hfile]

/-- The files below a directory with an ending. -/
theorem findFiles_pathText (hne : root ≠ []) (hroot : t.find root = some .dir) (ending : String) :
    t.findFiles home (pathText root) ending = some (t.entries.rows.filterMap fun e =>
      match e with
      | (path, .file _) =>
        if root <+: path.dropLast ∧ ∃ name ∈ path.getLast?, ending.toList <:+ name.toList then
          some (pathText path)
        else none
      | _ => none) := by
  have hnames := names_of_find hroot
  have hbelow : ∀ path : List String, path ≠ [] → root <+: path.dropLast →
      pathText root ++ "/" ++ joinPath (path.drop root.length) = pathText path := by
    intro path hpath hpre
    obtain ⟨dirs, name, rfl⟩ := List.eq_nil_or_concat path |>.resolve_left hpath
    rw [List.concat_eq_append] at hpre ⊢
    rw [List.dropLast_concat] at hpre
    obtain ⟨rest, rfl⟩ := hpre
    rw [List.append_assoc, List.drop_left]
    exact pathText_append hne (List.append_ne_nil_of_right_ne_nil _ (List.cons_ne_nil _ _))
  rw [findFiles, if_neg (pathText_ne_empty root), walk_pathText hne hnames, walk_of_find hroot,
    Option.bind_some, hroot, Option.map_some]
  dsimp only
  rw [if_neg (getLast?_pathText hne hnames)]
  apply congrArg some
  apply List.filterMap_congr
  rintro ⟨path, n⟩ he
  cases n with
  | dir => rfl
  | file data =>
    dsimp only
    split
    · rename_i hfound
      rw [hbelow path (t.named _ he).1 hfound.1]
    · rfl

end FileTree

end FileSystem
