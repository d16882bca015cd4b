import Mathlib.Data.List.Infix
import ScottyCore.Lib.KeyedTable
import ScottyCore.Lib.Path
import ScottyCore.Lib.Value

/-! Directory trees without links, and what a change at one path leaves as it was. -/

namespace DirTree
open Python
set_option autoImplicit true

inductive Tree (α : Type u) where
  | file (data : α) (mtime : Int)
  | dir (children : List (String × Tree α)) (mtime : Int)

namespace Tree

def isDir : Tree α → Bool
  | file .. => false
  | dir .. => true

def mtime : Tree α → Int
  | file _ mtime => mtime
  | dir _ mtime => mtime

def children : Tree α → List (String × Tree α)
  | file .. => []
  | dir children _ => children

/-- What stands at a path of names. -/
def find : Tree α → List String → Option (Tree α)
  | t, [] => some t
  | t, name :: rest => (t.children.lookup name).bind fun child => child.find rest

def isDirAt (t : Tree α) (p : List String) : Bool := (t.find p).any isDir

/-- What kind of thing stands at a path, `true` for a directory. -/
def kindAt (t : Tree α) (p : List String) : Option Bool := (t.find p).map isDir

/-- Put something under a name of a directory, or take away what is there. -/
def setChild (name : String) : Option (Tree α) → List (String × Tree α) → List (String × Tree α)
  | some child, children => KeyedTable.upsertRows Prod.fst (name, child) children
  | none, children => children.filter fun c => c.1 ≠ name

/-- Put something at a path, or take away what is there. The directory it stands in changes. -/
def put (now : Int) : List String → Option (Tree α) → Tree α → Tree α
  | [], _, t => t
  | _ :: _, _, file data mtime => file data mtime
  | [name], o, dir children _ => dir (setChild name o children) now
  | name :: next :: rest, o, dir children mtime =>
    match children.lookup name with
    | some child => dir (setChild name (some (put now (next :: rest) o child)) children) mtime
    | none => dir children mtime

/-- Where the parts of a path lead: each but the last leads through a directory. -/
def walk (t : Tree α) : (loc parts : List String) → Option (List String)
  | loc, [] => some loc
  | loc, part :: parts => if t.isDirAt loc then t.walk (goTo loc part) parts else none

/-- `os.stat` of a path below a place. -/
def stat (t : Tree α) (loc parts : List String) : Option (Tree α) :=
  (t.walk loc parts).bind t.find

/-- Why a call of the system fails. -/
inductive Fault where
  | fileExists
  | fileNotFound
  | notADirectory
  deriving DecidableEq

/-- `Path.mkdir(parents=True, exist_ok=True)`, on the places along a path. -/
def makeDirs (now : Int) : List (List String) → Tree α → Option Fault × Tree α
  | [], t => (none, t)
  | p :: ps, t =>
    match t.find p with
    | none => makeDirs now ps (t.put now p (some (dir [] now)))
    | some (dir ..) => makeDirs now ps t
    | some (file ..) => (some (if ps = [] then .fileExists else .notADirectory), t)

end Tree

open DirTree.Tree

variable {t t' : Tree α} {p q r : List String} {o : Option (Tree α)}

/-! ## What is found after a change -/

theorem lookup_cons {β : Type v} (k k' : String) (x : β) (l : List (String × β)) :
    ((k', x) :: l).lookup k = if k = k' then some x else l.lookup k := by
  rw [List.lookup_cons]
  by_cases hk : k = k'
  · rw [if_pos hk, beq_iff_eq.2 hk]
  · rw [if_neg hk, beq_eq_false_iff_ne.2 hk]

theorem lookup_setChild (name k : String) (o : Option (Tree α))
    (children : List (String × Tree α)) :
    (setChild name o children).lookup k = if k = name then o else children.lookup k := by
  cases o with
  | none =>
    induction children with
    | nil => simp [setChild]
    | cons c children ih =>
      rw [setChild] at ih ⊢
      obtain ⟨k', child⟩ := c
      rw [List.filter_cons, lookup_cons]
      by_cases hname : k' = name
      · rw [if_neg (by simpa using hname), ih]
        by_cases hk : k = name
        · rw [if_pos hk, if_pos hk]
        · rw [if_neg hk, if_neg hk, if_neg fun h => hk (h.trans hname)]
      · rw [if_pos (by simpa using hname), lookup_cons, ih]
        by_cases hk : k = k'
        · rw [if_pos hk, if_pos hk, if_neg fun h => hname (hk.symm.trans h)]
        · rw [if_neg hk, if_neg hk]
  | some new =>
    induction children with
    | nil => exact lookup_cons k name new []
    | cons c children ih =>
      rw [setChild] at ih ⊢
      obtain ⟨k', child⟩ := c
      rw [KeyedTable.upsertRows]
      by_cases hname : k' = name
      · rw [if_pos hname, lookup_cons, lookup_cons, hname]
        by_cases hk : k = name
        · rw [if_pos hk, if_pos hk]
        · rw [if_neg hk, if_neg hk, if_neg hk]
      · rw [if_neg hname, lookup_cons, lookup_cons, ih]
        by_cases hk : k = k'
        · rw [if_pos hk, if_pos hk, if_neg fun h => hname (hk.symm.trans h)]
        · rw [if_neg hk, if_neg hk]

theorem find_append (t : Tree α) (p q : List String) :
    t.find (p ++ q) = (t.find p).bind fun s => s.find q := by
  induction p generalizing t with
  | nil => rfl
  | cons name p ih =>
    rw [List.cons_append, find, find, Option.bind_assoc]
    congr 1
    funext child
    exact ih child

theorem find_file_append (data : α) (mtime : Int) (hr : r ≠ []) :
    (file data mtime).find r = none := by
  cases r with
  | nil => exact (hr rfl).elim
  | cons name r => rfl

theorem find_empty_append (mtime : Int) (hr : r ≠ []) : (dir [] mtime : Tree α).find r = none := by
  cases r with
  | nil => exact (hr rfl).elim
  | cons name r => rfl

/-- What stands below a place stands in a directory. -/
theorem isDirAt_of_below (h : (t.find (p ++ r)).isSome) (hr : r ≠ []) : t.isDirAt p = true := by
  rw [find_append] at h
  rw [isDirAt]
  cases hp : t.find p with
  | none =>
    rw [hp] at h
    cases h
  | some s =>
    cases s with
    | file data mtime =>
      rw [hp, Option.bind_some, find_file_append data mtime hr] at h
      cases h
    | dir => rfl

theorem isSome_of_isDirAt (h : t.isDirAt p = true) : (t.find p).isSome := by
  rw [isDirAt] at h
  cases hp : t.find p with
  | none =>
    rw [hp] at h
    cases h
  | some s => rfl

theorem isDirAt_of_start (h : t.isDirAt p = true) (hq : q <+: p) : t.isDirAt q = true := by
  obtain ⟨r, rfl⟩ := hq
  by_cases hr : r = []
  · rwa [hr, List.append_nil] at h
  · exact isDirAt_of_below (isSome_of_isDirAt h) hr

/-- Where a name is looked up in a directory, `..` is always there. -/
theorem isSome_stat (hempty : name ≠ "") (hdot : name ≠ ".") : (t.stat p [name]).isSome = true ↔
    t.isDirAt p = true ∧ (name = ".." ∨ (t.find (p ++ [name])).isSome) := by
  rw [stat, walk, walk, goTo, if_neg (not_or.2 ⟨hempty, hdot⟩)]
  by_cases hp : t.isDirAt p = true
  · rw [if_pos hp, Option.bind_some]
    by_cases hup : name = ".."
    · rw [if_pos hup]
      have habove := isDirAt_of_start hp (List.dropLast_prefix p)
      exact iff_of_true (isSome_of_isDirAt habove) ⟨hp, .inl hup⟩
    · rw [if_neg hup]
      constructor
      · intro h
        exact ⟨hp, .inr h⟩
      · intro h
        exact h.2.resolve_left hup
  · rw [if_neg hp]
    constructor
    · intro h
      cases h
    · intro h
      exact (hp h.1).elim

theorem makeDirs_of_dirs (now : Int) (h : ∀ p ∈ places, t.isDirAt p = true)
    (places' : List (List String)) :
    makeDirs now (places ++ places') t = makeDirs now places' t := by
  induction places with
  | nil => rfl
  | cons p places ih =>
    have hp := h p List.mem_cons_self
    rw [List.cons_append, makeDirs]
    rw [isDirAt] at hp
    cases hfind : t.find p with
    | none =>
      rw [hfind] at hp
      cases hp
    | some s =>
      cases s with
      | file =>
        rw [hfind] at hp
        cases hp
      | dir => exact ih fun q hq => h q (List.mem_cons_of_mem _ hq)

theorem isDir_put (now : Int) (p : List String) (o : Option (Tree α)) (t : Tree α) :
    (t.put now p o).isDir = t.isDir := by
  cases p with
  | nil => rfl
  | cons name p =>
    cases t with
    | file => rfl
    | dir children mtime =>
      cases p with
      | nil => rfl
      | cons next p =>
        rw [put]
        split
        · rfl
        · rfl

/-- A change below a place changes what stands there. -/
theorem find_put_append (now : Int) (p : List String) (hr : r ≠ []) (o : Option (Tree α))
    (t : Tree α) : (t.put now (p ++ r) o).find p = (t.find p).map (put now r o) := by
  induction p generalizing t with
  | nil => rfl
  | cons name p ih =>
    cases t with
    | file => rfl
    | dir children mtime =>
      obtain ⟨next, rest, hnext⟩ : ∃ next rest, p ++ r = next :: rest :=
        List.exists_cons_of_ne_nil (List.append_ne_nil_of_right_ne_nil p hr)
      rw [List.cons_append, hnext, put]
      cases hchild : children.lookup name with
      | none => simp only [find, Tree.children, hchild, Option.bind_none, Option.map_none]
      | some child =>
        have hrest := ih child
        rw [hnext] at hrest
        simp only [find, Tree.children, lookup_setChild, if_true, hchild, Option.bind_some, hrest]

theorem find_put_concat (now : Int) (h : t.isDirAt p = true) (name : String)
    (o : Option (Tree α)) : (t.put now (p ++ [name]) o).find (p ++ [name]) = o := by
  rw [find_append, find_put_append now p (List.cons_ne_nil name [])]
  cases hp : t.find p with
  | none =>
    rw [isDirAt, hp] at h
    cases h
  | some s =>
    cases s with
    | file =>
      rw [isDirAt, hp] at h
      cases h
    | dir children mtime =>
      rw [Option.map_some, Option.bind_some, put, find, Tree.children, lookup_setChild, if_pos rfl]
      cases o with
      | none => rfl
      | some s => rfl

theorem find_put_below (now : Int) (h : t.isDirAt p = true) (name : String) (o : Option (Tree α))
    (r : List String) : (t.put now (p ++ [name]) o).find (p ++ [name] ++ r) =
      o.bind fun s => s.find r := by
  rw [find_append, find_put_concat now h]

theorem find_put_of_beside (now : Int) (o : Option (Tree α)) (t : Tree α) (h : ¬ p <+: q)
    (h' : ¬ q <+: p) : (t.put now p o).find q = t.find q := by
  induction p generalizing t q with
  | nil => exact (h List.nil_prefix).elim
  | cons name p ih =>
    cases q with
    | nil => exact (h' List.nil_prefix).elim
    | cons name' q =>
      cases t with
      | file => rfl
      | dir children mtime =>
        have hchild : name' = name → ∀ child : Tree α, p ≠ [] →
            (child.put now p o).find q = child.find q := by
          rintro rfl child -
          apply ih
          · exact fun hpre => h (List.cons_prefix_cons.2 ⟨rfl, hpre⟩)
          · exact fun hpre => h' (List.cons_prefix_cons.2 ⟨rfl, hpre⟩)
        cases p with
        | nil =>
          have hne : name' ≠ name := by
            rintro rfl
            exact h (List.cons_prefix_cons.2 ⟨rfl, List.nil_prefix⟩)
          rw [put, find, find, Tree.children, Tree.children, lookup_setChild, if_neg hne]
        | cons next p =>
          rw [put]
          cases hlookup : children.lookup name with
          | none => rfl
          | some child =>
            rw [find, find, Tree.children, Tree.children, lookup_setChild]
            by_cases hname : name' = name
            · rw [if_pos hname, hname, hlookup, Option.bind_some, Option.bind_some,
                hchild hname child (List.cons_ne_nil _ _)]
            · rw [if_neg hname]

/-- A directory above a change stays one. -/
theorem isDirAt_put_of_above (now : Int) (o : Option (Tree α)) (t : Tree α) (h : q <+: p)
    (hne : q ≠ p) : (t.put now p o).isDirAt q = t.isDirAt q := by
  obtain ⟨r, rfl⟩ := h
  have hr : r ≠ [] := by
    rintro rfl
    exact hne (List.append_nil q).symm
  rw [isDirAt, isDirAt, find_put_append now q hr]
  cases t.find q with
  | none => rfl
  | some s => exact isDir_put now r o s

/-! ## The kinds of what is found -/

theorem kindAt_eq_none_iff : t.kindAt p = none ↔ t.find p = none := Option.map_eq_none_iff

theorem find_of_kindAt (h : t.kindAt p = some true) :
    ∃ children mtime, t.find p = some (dir children mtime) := by
  rw [kindAt] at h
  cases hp : t.find p with
  | none =>
    rw [hp] at h
    cases h
  | some s =>
    cases s with
    | file =>
      rw [hp] at h
      cases h
    | dir children mtime => exact ⟨children, mtime, rfl⟩

theorem find_append_of_none (h : t.find p = none) (r : List String) : t.find (p ++ r) = none := by
  rw [find_append, h]
  rfl

theorem kindAt_put (now : Int) (h : t.isDirAt p = true) (name : String) (o : Option (Tree α))
    (q : List String) : (t.put now (p ++ [name]) o).kindAt q =
      if p ++ [name] <+: q then o.bind fun s => s.kindAt (q.drop (p ++ [name]).length)
      else t.kindAt q := by
  by_cases hbelow : p ++ [name] <+: q
  · obtain ⟨r, rfl⟩ := hbelow
    rw [if_pos (List.prefix_append _ r), kindAt, find_put_below now h, List.drop_left]
    cases o with
    | none => rfl
    | some s => rfl
  · rw [if_neg hbelow, kindAt, kindAt]
    by_cases habove : q <+: p ++ [name]
    · obtain ⟨r, hr⟩ := habove
      have hne : r ≠ [] := by
        rintro rfl
        rw [List.append_nil] at hr
        exact hbelow (hr ▸ List.prefix_rfl)
      rw [← hr, find_put_append now q hne]
      cases t.find q with
      | none => rfl
      | some s => exact congrArg some (isDir_put now r o s)
    · rw [find_put_of_beside now o t hbelow habove]

/-- The same, below a place. -/
theorem kindAt_put_within (now : Int) (h : t.isDirAt (root ++ p) = true) (name : String)
    (o : Option (Tree α)) (q : List String) :
    (t.put now (root ++ p ++ [name]) o).kindAt (root ++ q) =
      if p ++ [name] <+: q then o.bind fun s => s.kindAt (q.drop (p ++ [name]).length)
      else t.kindAt (root ++ q) := by
  have hpre : root ++ p ++ [name] <+: root ++ q ↔ p ++ [name] <+: q := by
    rw [List.append_assoc, List.prefix_append_right_inj]
  rw [kindAt_put now h]
  by_cases hbelow : p ++ [name] <+: q
  · rw [if_pos hbelow, if_pos (hpre.2 hbelow)]
    obtain ⟨r, rfl⟩ := hbelow
    rw [← List.append_assoc, ← List.append_assoc, List.drop_left, List.drop_left]
  · rw [if_neg hbelow, if_neg fun h => hbelow (hpre.1 h)]

/-! ## The names in a tree -/

/-- Each directory holds names of files, every one of them once. -/
def WellNamed (t : Tree α) : Prop := ∀ p entries time, t.find p = some (dir entries time) →
  (entries.map Prod.fst).Nodup ∧ ∀ c ∈ entries, IsName c.1

theorem mem_of_lookup {β : Type v} {l : List (String × β)} {x : β} (h : l.lookup k = some x) :
    (k, x) ∈ l := by
  obtain ⟨before, after, hl, -⟩ := List.lookup_eq_some_iff.1 h
  rw [hl]
  exact List.mem_append_right before List.mem_cons_self

/-- What is found below a directory stands under a name of it. -/
theorem mem_children_of_find (h : t.find (p ++ [name]) = some s)
    (hp : t.find p = some (dir entries time)) : (name, s) ∈ entries := by
  rw [find_append, hp, Option.bind_some, find] at h
  obtain ⟨child, hchild, hs⟩ := Option.bind_eq_some_iff.1 h
  obtain rfl : child = s := Option.some.inj hs
  exact mem_of_lookup hchild

theorem exists_dir_of_below (h : t.find (p ++ r) = some s) (hr : r ≠ []) :
    ∃ entries time, t.find p = some (dir entries time) := by
  apply find_of_kindAt
  have hdir : t.isDirAt p = true := isDirAt_of_below (by rw [h]; rfl) hr
  rw [isDirAt, Option.any_eq_true_iff_get] at hdir
  obtain ⟨hsome, hget⟩ := hdir
  rw [kindAt, Option.map_eq_some_iff]
  exact ⟨_, (Option.some_get hsome).symm, hget⟩

theorem WellNamed.names_of_find (h : WellNamed t) (hfind : t.find p = some s) :
    ∀ name ∈ p, IsName name := by
  intro name hname
  obtain ⟨above, below, rfl⟩ := List.append_of_mem hname
  obtain ⟨entries, time, hdir⟩ := exists_dir_of_below hfind (List.cons_ne_nil name below)
  rw [← List.singleton_append, ← List.append_assoc, find_append] at hfind
  obtain ⟨child, hchild, -⟩ := Option.bind_eq_some_iff.1 hfind
  exact (h above entries time hdir).2 _ (mem_children_of_find hchild hdir)

theorem WellNamed.find_of_mem (h : WellNamed t) (hdir : t.find p = some (dir entries time))
    (hmem : (name, s) ∈ entries) : t.find (p ++ [name]) = some s := by
  obtain ⟨hdistinct, -⟩ := h p entries time hdir
  rw [find_append, hdir, Option.bind_some, find, Tree.children, lookup_of_mem hdistinct hmem]
  rfl

theorem wellNamed_file (data : α) (time : Int) : WellNamed (file data time) := by
  intro p entries time' hfind
  cases p with
  | nil => cases hfind
  | cons name p => cases hfind

theorem wellNamed_dir {entries : List (String × Tree α)} {time : Int}
    (hdistinct : (entries.map Prod.fst).Nodup) (hnames : ∀ c ∈ entries, IsName c.1)
    (hbelow : ∀ c ∈ entries, WellNamed c.2) : WellNamed (dir entries time) := by
  intro p entries' time' hfind
  cases p with
  | nil =>
    obtain ⟨rfl, -⟩ := Tree.dir.inj (Option.some.inj hfind)
    exact ⟨hdistinct, hnames⟩
  | cons name p =>
    obtain ⟨child, hchild, hrest⟩ := Option.bind_eq_some_iff.1 hfind
    exact hbelow _ (mem_of_lookup hchild) p entries' time' hrest

/-! ## What stands outside of a place -/

/-- Nothing beside a place changes, and the directories above it stay. -/
structure KeepsBeside (root : List String) (t t' : Tree α) : Prop where
  beside : ∀ q, ¬ root <+: q → ¬ q <+: root → t'.find q = t.find q
  above : ∀ q, q <+: root → q ≠ root → t'.isDirAt q = t.isDirAt q

theorem KeepsBeside.refl (root : List String) (t : Tree α) : KeepsBeside root t t :=
  ⟨fun _ _ _ => rfl, fun _ _ _ => rfl⟩

theorem KeepsBeside.trans (h : KeepsBeside root t t') (h' : KeepsBeside root t' t'') :
    KeepsBeside root t t'' :=
  ⟨fun q hq hq' => (h'.beside q hq hq').trans (h.beside q hq hq'),
    fun q hq hne => (h'.above q hq hne).trans (h.above q hq hne)⟩

theorem keepsBeside_put (now : Int) (o : Option (Tree α)) (t : Tree α) (h : root <+: p) :
    KeepsBeside root t (t.put now p o) := by
  constructor
  · intro q hq hq'
    apply find_put_of_beside
    · exact fun hpre => hq (h.trans hpre)
    · intro hpre
      rcases List.prefix_or_prefix_of_prefix hpre h with hpre | hpre
      · exact hq' hpre
      · exact hq hpre
  · intro q hq hne
    apply isDirAt_put_of_above
    · exact hq.trans h
    · rintro rfl
      exact hne (hq.eq_of_length (Nat.le_antisymm hq.length_le h.length_le))

end DirTree
