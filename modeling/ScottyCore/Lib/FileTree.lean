import ScottyCore.Lib.KeyedTable
import ScottyCore.Lib.Path

namespace FileSystem
open Python
set_option autoImplicit true

inductive Node (α : Type u) where
  | dir
  | file (data : α)
  deriving DecidableEq

/-- Directories and files without links. The root is no entry; an entry stands in a directory. -/
structure FileTree (α : Type u) where
  entries : KeyedTable (List String × Node α) Prod.fst
  named : ∀ e ∈ entries.rows, e.1 ≠ [] ∧ ∀ name ∈ e.1, IsName name
  closed : ∀ e ∈ entries.rows, e.1.dropLast ≠ [] → (e.1.dropLast, .dir) ∈ entries.rows

/-- Why a call of the system fails. -/
inductive Fault where
  | notFound
  | notADirectory
  | isADirectory
  | nullByte
  | emptyName
  deriving DecidableEq

namespace FileTree

def empty : FileTree α := ⟨∅, nofun, nofun⟩

instance : EmptyCollection (FileTree α) := ⟨empty⟩

def find (t : FileTree α) (path : List String) : Option (Node α) :=
  if path = [] then some .dir else (t.entries.find path).map Prod.snd

def isDir (t : FileTree α) (path : List String) : Bool :=
  match t.find path with
  | some .dir => true
  | _ => false

def isFile (t : FileTree α) (path : List String) : Bool :=
  match t.find path with
  | some (.file _) => true
  | _ => false

@[simp] theorem find_nil (t : FileTree α) : t.find [] = some .dir := if_pos rfl

theorem isDir_iff {t : FileTree α} : t.isDir path = true ↔ t.find path = some .dir := by
  rw [isDir]
  split
  · rename_i h
    exact ⟨fun _ => h, fun _ => rfl⟩
  · rename_i h
    exact ⟨nofun, fun hdir => (h hdir).elim⟩

theorem isFile_iff {t : FileTree α} :
    t.isFile path = true ↔ ∃ data, t.find path = some (.file data) := by
  rw [isFile]
  split
  · rename_i data h
    exact ⟨fun _ => ⟨data, h⟩, fun _ => rfl⟩
  · rename_i h
    exact ⟨nofun, fun ⟨data, hfile⟩ => (h data hfile).elim⟩

theorem find_eq_some_iff {t : FileTree α} (hne : path ≠ []) :
    t.find path = some n ↔ (path, n) ∈ t.entries.rows := by
  rw [find, if_neg hne, Option.map_eq_some_iff]
  constructor
  · rintro ⟨e, he, rfl⟩
    obtain ⟨hmem, rfl⟩ := KeyedTable.find_eq_some_iff.1 he
    exact hmem
  · intro h
    exact ⟨(path, n), KeyedTable.find_of_mem h, rfl⟩

theorem names_of_find {t : FileTree α} (h : t.find path = some n) : ∀ name ∈ path, IsName name := by
  by_cases hne : path = []
  · rw [hne]
    exact nofun
  · exact (t.named _ ((find_eq_some_iff hne).1 h)).2

/-- What is there stands in a directory. -/
theorem find_dropLast {t : FileTree α} (h : t.find path = some n) :
    t.find path.dropLast = some .dir := by
  by_cases hroot : path.dropLast = []
  · rw [hroot, find_nil]
  · have hne : path ≠ [] := by
      rintro rfl
      exact hroot rfl
    exact (find_eq_some_iff hroot).2 (t.closed _ ((find_eq_some_iff hne).1 h) hroot)

theorem find_of_append {t : FileTree α} (h : t.find (path ++ rest) = some n) (hne : rest ≠ []) :
    t.find path = some .dir := by
  induction rest using List.reverseRecOn generalizing n with
  | nil => exact (hne rfl).elim
  | append_singleton rest name ih =>
    have hdrop := find_dropLast h
    rw [← List.append_assoc, List.dropLast_concat] at hdrop
    by_cases hrest : rest = []
    · rwa [hrest, List.append_nil] at hdrop
    · exact ih hdrop hrest

theorem find_of_ancestor {t : FileTree α} (hpre : q <+: path) (hne : q ≠ path)
    (h : t.find path = some n) : t.find q = some .dir := by
  obtain ⟨rest, rfl⟩ := hpre
  apply find_of_append h
  rintro rfl
  exact hne (List.append_nil q).symm

/-! ## Changing one entry -/

/-- Where something can be put or taken away, other than a directory that is there. -/
def Settable (t : FileTree α) (path : List String) : Prop :=
  path ≠ [] ∧ (∀ name ∈ path, IsName name) ∧ t.isDir path.dropLast = true ∧ t.isDir path = false

instance (t : FileTree α) (path : List String) : Decidable (t.Settable path) :=
  inferInstanceAs (Decidable (_ ∧ _ ∧ _ ∧ _))

theorem Settable.parent {t : FileTree α} (h : t.Settable path) (hne : path.dropLast ≠ []) :
    (path.dropLast, .dir) ∈ t.entries.rows :=
  (find_eq_some_iff hne).1 (isDir_iff.1 h.2.2.1)

theorem dropLast_ne {path : List String} (h : path ≠ []) : path.dropLast ≠ path := by
  intro he
  have hlen := congrArg List.length he
  rw [List.length_dropLast] at hlen
  have hpos := List.length_pos_iff.2 h
  omega

/-- A directory that is there keeps its place when another entry is put or taken away. -/
theorem Settable.ne_of_dir {t : FileTree α} (h : t.Settable path)
    (hdir : (q, .dir) ∈ t.entries.rows) : q ≠ path := by
  rintro rfl
  have hfind := isDir_iff.2 ((find_eq_some_iff h.1).2 hdir)
  rw [h.2.2.2] at hfind
  cases hfind

/-- Put a node at a path, or take what is there away. Where that leaves no tree, nothing changes. -/
def set (t : FileTree α) (path : List String) : Option (Node α) → FileTree α
  | some n =>
    if h : t.Settable path then
      { entries := t.entries.upsert (path, n)
        named := by
          intro e he
          rcases KeyedTable.mem_upsert_iff.1 he with rfl | ⟨he, -⟩
          · exact ⟨h.1, h.2.1⟩
          · exact t.named e he
        closed := by
          intro e he hne
          apply KeyedTable.mem_upsert_iff.2
          rcases KeyedTable.mem_upsert_iff.1 he with rfl | ⟨he, -⟩
          · exact .inr ⟨h.parent hne, dropLast_ne h.1⟩
          · exact .inr ⟨t.closed e he hne, h.ne_of_dir (t.closed e he hne)⟩ }
    else t
  | none =>
    if h : t.Settable path then
      { entries := t.entries.erase path
        named := fun e he => t.named e (List.mem_of_mem_filter he)
        closed := by
          intro e he hne
          have hparent := t.closed e (List.mem_of_mem_filter he) hne
          exact List.mem_filter.2 ⟨hparent, decide_eq_true (h.ne_of_dir hparent)⟩ }
    else t

theorem find_set (t : FileTree α) (path q : List String) (n : Option (Node α)) :
    (t.set path n).find q = if t.Settable path ∧ q = path then n else t.find q := by
  by_cases h : t.Settable path
  · by_cases hq : q = path
    · subst hq
      rw [if_pos ⟨h, rfl⟩]
      cases n with
      | none =>
        rw [set, dif_pos h, find, if_neg h.1, KeyedTable.find_erase, if_pos rfl]
        rfl
      | some n =>
        rw [set, dif_pos h, find, if_neg h.1, KeyedTable.find_upsert, if_pos rfl]
        rfl
    · rw [if_neg fun hand => hq hand.2]
      cases n with
      | none => rw [set, dif_pos h, find, find, KeyedTable.find_erase, if_neg hq]
      | some n => rw [set, dif_pos h, find, find, KeyedTable.find_upsert, if_neg hq]
  · rw [if_neg fun hand => h hand.1]
    cases n with
    | none => rw [set, dif_neg h]
    | some n => rw [set, dif_neg h]

theorem find_set_of_ne (t : FileTree α) (n : Option (Node α)) (h : q ≠ path) :
    (t.set path n).find q = t.find q := by
  rw [find_set, if_neg fun hand => h hand.2]

theorem find_set_self {t : FileTree α} (h : t.Settable path) (n : Option (Node α)) :
    (t.set path n).find path = n := by
  rw [find_set, if_pos ⟨h, rfl⟩]

/-- No directory goes away. -/
theorem find_set_of_dir {t : FileTree α} (h : t.find q = some .dir) (n : Option (Node α)) :
    (t.set path n).find q = some .dir := by
  rw [find_set, if_neg, h]
  rintro ⟨hset, rfl⟩
  have hdir := hset.2.2.2
  rw [isDir_iff.2 h] at hdir
  cases hdir

theorem settable_concat {t : FileTree α} (hdir : t.find loc = some .dir) (hname : IsName name)
    (hfree : t.isDir (loc ++ [name]) = false) : t.Settable (loc ++ [name]) := by
  refine ⟨List.append_ne_nil_of_right_ne_nil _ (List.cons_ne_nil _ _), ?_, ?_, hfree⟩
  · intro x hx
    rcases List.mem_append.1 hx with hx | hx
    · exact names_of_find hdir x hx
    · rwa [List.mem_singleton.1 hx]
  · rw [List.dropLast_concat]
    exact isDir_iff.2 hdir

/-- A file put in place of another by way of a third name. -/
theorem find_set_replaced {t : FileTree α} (hdir : t.find loc = some .dir) (hname : IsName name)
    (htmp : IsName tmp) (hne : tmp ≠ name) (hfree : t.isDir (loc ++ [name]) = false)
    (htmpfree : t.isDir (loc ++ [tmp]) = false) (data : α) (q : List String) :
    (((t.set (loc ++ [tmp]) (some (.file data))).set (loc ++ [name]) (some (.file data))).set
      (loc ++ [tmp]) none).find q =
        if q = loc ++ [name] then some (.file data)
        else if q = loc ++ [tmp] then none else t.find q := by
  have hpath : loc ++ [name] ≠ loc ++ [tmp] := by
    intro he
    exact hne (List.singleton_inj.1 (List.append_cancel_left he)).symm
  have hset := settable_concat hdir htmp htmpfree
  have hdir₁ : (t.set (loc ++ [tmp]) (some (.file data))).find loc = some .dir :=
    find_set_of_dir hdir _
  have hfree₁ : (t.set (loc ++ [tmp]) (some (.file data))).isDir (loc ++ [name]) = false := by
    rw [isDir, find_set_of_ne _ _ hpath, ← isDir, hfree]
  have hset₁ := settable_concat hdir₁ hname hfree₁
  have hfree₂ : ((t.set (loc ++ [tmp]) (some (.file data))).set (loc ++ [name])
      (some (.file data))).isDir (loc ++ [tmp]) = false := by
    rw [isDir, find_set_of_ne _ _ hpath.symm, find_set_self hset]
  have hset₂ := settable_concat (find_set_of_dir hdir₁ _) htmp hfree₂
  by_cases hq : q = loc ++ [tmp]
  · rw [hq, find_set_self hset₂, if_neg hpath.symm, if_pos rfl]
  · rw [find_set_of_ne _ _ hq, if_neg hq]
    by_cases hq' : q = loc ++ [name]
    · rw [hq', find_set_self hset₁, if_pos rfl]
    · rw [find_set_of_ne _ _ hq', find_set_of_ne _ _ hq, if_neg hq']

/-! ## Walking along a path -/

/-- Where the parts of a path lead, all but the last through directories. -/
def walk (t : FileTree α) : (loc parts : List String) → Option (List String)
  | loc, [] => some loc
  | loc, part :: parts => if t.isDir loc then t.walk (goTo loc part) parts else none

theorem isDir_goTo_dropLast {t : FileTree α} (h : t.isDir loc = true) (part : String) :
    t.isDir (goTo loc part).dropLast = true := by
  have hup := isDir_iff.2 (find_dropLast (isDir_iff.1 h))
  rcases goTo_cases loc part with hgo | hgo | ⟨-, hgo⟩
  · rwa [hgo]
  · rw [hgo]
    exact isDir_iff.2 (find_dropLast (isDir_iff.1 hup))
  · rwa [hgo, List.dropLast_concat]

theorem walk_concat_iff {t : FileTree α} :
    t.walk loc (dirs ++ [last]) = some q ↔
      q = resolveFrom loc (dirs ++ [last]) ∧ t.isDir loc = true ∧
        ∀ d ∈ way loc dirs, t.isDir d = true := by
  induction dirs generalizing loc with
  | nil =>
    rw [List.nil_append, walk, walk]
    constructor
    · intro h
      split at h
      · rename_i hdir
        cases h
        exact ⟨rfl, hdir, nofun⟩
      · cases h
    · rintro ⟨rfl, hdir, -⟩
      rw [if_pos hdir]
      rfl
  | cons d dirs ih =>
    rw [List.cons_append, walk, way, List.forall_mem_cons]
    constructor
    · intro h
      split at h
      · rename_i hdir
        obtain ⟨hq, hall⟩ := ih.1 h
        exact ⟨hq, hdir, hall⟩
      · cases h
    · rintro ⟨hq, hdir, hall⟩
      rw [if_pos hdir]
      exact ih.2 ⟨hq, hall⟩

theorem walk_eq {t : FileTree α} (h : t.walk loc parts = some q) : q = resolveFrom loc parts := by
  rcases List.eq_nil_or_concat parts with rfl | ⟨dirs, last, rfl⟩
  · exact (Option.some.inj h).symm
  · rw [List.concat_eq_append] at h ⊢
    exact (walk_concat_iff.1 h).1

/-- A walk ends in a directory, or at a place in one. -/
theorem isDir_dropLast_of_walk {t : FileTree α} (h : t.walk loc parts = some q)
    (hloc : t.isDir loc.dropLast = true) : t.isDir q.dropLast = true := by
  induction parts generalizing loc with
  | nil => exact Option.some.inj h ▸ hloc
  | cons p parts ih =>
    rw [walk] at h
    split at h
    · rename_i hdir
      exact ih h (isDir_goTo_dropLast hdir p)
    · cases h

theorem walk_of_find {t : FileTree α} (h : t.find path = some n) : t.walk [] path = some path := by
  rcases List.eq_nil_or_concat path with rfl | ⟨dirs, last, rfl⟩
  · rfl
  · rw [List.concat_eq_append] at h ⊢
    have hnames := names_of_find h
    refine walk_concat_iff.2 ⟨(resolveFrom_of_names [] hnames).symm, rfl, ?_⟩
    intro d hd
    obtain ⟨begin, -, hpre, rfl⟩ := mem_way_iff.1 hd
    have hbegin : ∀ name ∈ begin, IsName name :=
      fun name hname => hnames name (List.mem_append_left _ (hpre.subset hname))
    rw [resolveFrom_of_names [] hbegin, List.nil_append]
    have hdirs := find_of_append h (List.cons_ne_nil last [])
    by_cases he : begin = dirs
    · rw [he]
      exact isDir_iff.2 hdirs
    · exact isDir_iff.2 (find_of_ancestor hpre he hdirs)

theorem settable_of_walk {t : FileTree α} (h : t.walk [] parts = some loc)
    (hparts : ∀ p ∈ parts, IsPart p) (hdir : t.isDir loc = false) : t.Settable loc := by
  refine ⟨?_, ?_, isDir_dropLast_of_walk h rfl, hdir⟩
  · rintro rfl
    cases hdir
  · rw [walk_eq h]
    exact names_resolveFrom nofun hparts

end FileTree

end FileSystem
