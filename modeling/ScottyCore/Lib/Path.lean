import Mathlib.Data.List.Infix
import Mathlib.Data.String.Basic

namespace Python
set_option autoImplicit true

/-! ## Paths of a POSIX file system, as `pathlib` cuts them -/

/-- What stands between two slashes of a path that a file system takes. -/
def IsPart (s : String) : Prop := '/' ∉ s.toList ∧ '\x00' ∉ s.toList

instance : Decidable (IsPart s) := inferInstanceAs (Decidable (_ ∧ _))

/-- What can be the name of a file. -/
def IsName (s : String) : Prop := IsPart s ∧ s ≠ "" ∧ s ≠ "." ∧ s ≠ ".."

instance : Decidable (IsName s) := inferInstanceAs (Decidable (_ ∧ _ ∧ _ ∧ _))

/-- The parts of a path, with `.` and `..` resolved. -/
def resolveParts (parts : List String) : List String :=
  parts.foldl (fun acc p =>
    if p = "" ∨ p = "." then acc else if p = ".." then acc.dropLast else acc ++ [p]) []

def splitPath (s : String) : List String :=
  (s.toList.splitOn '/').map String.ofList

/-- The parts of `base / rel`. -/
def targetParts (base : List String) (rel : String) : List String :=
  let parts := (splitPath rel).filter fun p => p ≠ "" ∧ p ≠ "."
  if rel.toList.head? = some '/' then parts else base ++ parts

/-! ### Going along a path -/

/-- The place that one part of a path leads to. -/
def goTo (loc : List String) (part : String) : List String :=
  if part = "" ∨ part = "." then loc else if part = ".." then loc.dropLast else loc ++ [part]

def resolveFrom (loc parts : List String) : List String := parts.foldl goTo loc

/-- The places that the parts of a path lead to, one after another. -/
def way : (loc parts : List String) → List (List String)
  | _, [] => []
  | loc, part :: parts => goTo loc part :: way (goTo loc part) parts

theorem resolveParts_eq (parts : List String) : resolveParts parts = resolveFrom [] parts := rfl

theorem resolveParts_concat (parts : List String) (last : String) :
    resolveParts (parts ++ [last]) =
      if last = "" ∨ last = "." then resolveParts parts
      else if last = ".." then (resolveParts parts).dropLast else resolveParts parts ++ [last] := by
  rw [resolveParts, List.foldl_append]
  rfl

theorem goTo_of_name (loc : List String) (h : IsName p) : goTo loc p = loc ++ [p] := by
  rw [goTo, if_neg (not_or.2 ⟨h.2.1, h.2.2.1⟩), if_neg h.2.2.2]

/-- Where a part does not lead to a new name, it stays or goes back. -/
theorem goTo_cases (loc : List String) (p : String) :
    goTo loc p = loc ∨ goTo loc p = loc.dropLast ∨
      (p ≠ "" ∧ p ≠ "." ∧ p ≠ "..") ∧ goTo loc p = loc ++ [p] := by
  rw [goTo]
  split
  · exact .inl rfl
  · rename_i hdot
    split
    · exact .inr (.inl rfl)
    · rename_i hup
      exact .inr (.inr ⟨⟨(not_or.1 hdot).1, (not_or.1 hdot).2, hup⟩, rfl⟩)

theorem resolveFrom_of_names (loc : List String) (h : ∀ name ∈ names, IsName name) :
    resolveFrom loc names = loc ++ names := by
  induction names generalizing loc with
  | nil => exact (List.append_nil loc).symm
  | cons name names ih =>
    rw [resolveFrom, List.foldl_cons, goTo_of_name loc (h name List.mem_cons_self), ← resolveFrom,
      ih _ fun x hx => h x (List.mem_cons_of_mem _ hx), List.append_assoc, List.singleton_append]

theorem length_resolveFrom_le (loc parts : List String) :
    (resolveFrom loc parts).length ≤ loc.length + parts.length := by
  induction parts generalizing loc with
  | nil => exact Nat.le_refl _
  | cons p parts ih =>
    have hrest := ih (goTo loc p)
    rw [resolveFrom, List.foldl_cons, ← resolveFrom, List.length_cons]
    rcases goTo_cases loc p with hp | hp | ⟨-, hp⟩
    · rw [hp] at hrest ⊢
      omega
    · rw [hp, List.length_dropLast] at hrest
      rw [hp]
      omega
    · rw [hp, List.length_append, List.length_singleton] at hrest
      rw [hp]
      omega

/-- Where every part counts, each of them leads one name further. -/
theorem resolveFrom_of_length (h : loc.length + parts.length ≤ (resolveFrom loc parts).length) :
    resolveFrom loc parts = loc ++ parts := by
  induction parts generalizing loc with
  | nil => exact (List.append_nil loc).symm
  | cons p parts ih =>
    have hrest := length_resolveFrom_le (goTo loc p) parts
    rw [resolveFrom, List.foldl_cons, ← resolveFrom, List.length_cons] at h
    rw [resolveFrom, List.foldl_cons, ← resolveFrom]
    rcases goTo_cases loc p with hp | hp | ⟨-, hp⟩
    · rw [hp] at h hrest
      omega
    · rw [hp] at h hrest
      rw [List.length_dropLast] at hrest
      omega
    · have hlen : (goTo loc p).length = loc.length + 1 := by
        rw [hp, List.length_append, List.length_singleton]
      rw [ih (by omega), hp, List.append_assoc, List.singleton_append]

theorem names_resolveFrom (hloc : ∀ name ∈ loc, IsName name) (h : ∀ p ∈ parts, IsPart p) :
    ∀ name ∈ resolveFrom loc parts, IsName name := by
  induction parts generalizing loc with
  | nil => exact hloc
  | cons p parts ih =>
    apply ih
    · intro name hname
      rcases goTo_cases loc p with hp | hp | ⟨hp, hgo⟩
      · exact hloc name (hp ▸ hname)
      · exact hloc name (List.mem_of_mem_dropLast (hp ▸ hname))
      · rw [hgo] at hname
        rcases List.mem_append.1 hname with hname | hname
        · exact hloc name hname
        · rw [List.mem_singleton.1 hname]
          exact ⟨h p List.mem_cons_self, hp⟩
    · intro q hq
      exact h q (List.mem_cons_of_mem _ hq)

/-- Each place on the way is where some beginning of the path leads. -/
theorem mem_way_iff {q : List String} :
    q ∈ way loc parts ↔ ∃ dirs, dirs ≠ [] ∧ dirs <+: parts ∧ resolveFrom loc dirs = q := by
  induction parts generalizing loc with
  | nil =>
    constructor
    · intro h
      cases h
    · rintro ⟨dirs, hne, hpre, -⟩
      exact (hne (List.prefix_nil.1 hpre)).elim
  | cons p parts ih =>
    rw [way, List.mem_cons, ih]
    constructor
    · rintro (rfl | ⟨dirs, -, hpre, rfl⟩)
      · exact ⟨[p], List.cons_ne_nil _ _, List.prefix_append [p] parts, rfl⟩
      · exact ⟨p :: dirs, List.cons_ne_nil _ _, List.cons_prefix_cons.2 ⟨rfl, hpre⟩, rfl⟩
    · rintro ⟨dirs, hne, hpre, rfl⟩
      cases dirs with
      | nil => exact (hne rfl).elim
      | cons d dirs =>
        obtain ⟨rfl, hrest⟩ := List.cons_prefix_cons.1 hpre
        by_cases hdirs : dirs = []
        · exact .inl (by rw [hdirs]; rfl)
        · exact .inr ⟨dirs, hdirs, hrest, rfl⟩

/-- A path of names leads to its own beginnings, one after another. -/
theorem mem_way_of_names {q : List String} (h : ∀ name ∈ names, IsName name) :
    q ∈ way [] names ↔ q ≠ [] ∧ q <+: names := by
  have hself : ∀ {dirs}, dirs <+: names → resolveFrom [] dirs = dirs := by
    intro dirs hpre
    rw [resolveFrom_of_names [] fun name hname => h name (hpre.subset hname), List.nil_append]
  rw [mem_way_iff]
  constructor
  · rintro ⟨dirs, hne, hpre, rfl⟩
    rw [hself hpre]
    exact ⟨hne, hpre⟩
  · rintro ⟨hne, hpre⟩
    exact ⟨q, hne, hpre, hself hpre⟩

theorem resolveParts_of_names (h : ∀ name ∈ names, IsName name) : resolveParts names = names :=
  (resolveFrom_of_names [] h).trans (List.nil_append names)

theorem isPart_append (h : IsPart s) (hending : IsPart ending) : IsPart (s ++ ending) := by
  rw [IsPart, String.toList_append, List.mem_append, List.mem_append]
  exact ⟨not_or.2 ⟨h.1, hending.1⟩, not_or.2 ⟨h.2, hending.2⟩⟩

theorem isPart_of_append (h : IsPart (s ++ ending)) : IsPart s := by
  rw [IsPart, String.toList_append, List.mem_append, List.mem_append] at h
  exact ⟨fun hslash => h.1 (.inl hslash), fun hnul => h.2 (.inl hnul)⟩

theorem parts_beside (hparts : ∀ p ∈ dirs ++ [name], IsPart p) (hending : IsPart ending) :
    ∀ p ∈ dirs ++ [name ++ ending], IsPart p := by
  intro p hp
  rcases List.mem_append.1 hp with hp | hp
  · exact hparts p (List.mem_append_left _ hp)
  · rw [List.mem_singleton.1 hp]
    exact isPart_append (hparts name (List.mem_append_right _ List.mem_cons_self)) hending

/-- A text that is longer than `..` is no such part. -/
theorem ne_dots_of_length (h : 2 < s.length) : s ≠ "" ∧ s ≠ "." ∧ s ≠ ".." := by
  have hempty : ("" : String).length = 0 := by decide
  have hdot : ("." : String).length = 1 := by decide
  have hup : (".." : String).length = 2 := by decide
  refine ⟨?_, ?_, ?_⟩
  all_goals
    rintro rfl
    omega

theorem resolveParts_concat_of_length (dirs : List String) (h : 2 < last.length) :
    resolveParts (dirs ++ [last]) = resolveParts dirs ++ [last] := by
  obtain ⟨hempty, hdot, hup⟩ := ne_dots_of_length h
  rw [resolveParts_concat, if_neg (not_or.2 ⟨hempty, hdot⟩), if_neg hup]

theorem length_append_of_ending (s : String) (h : 2 < ending.length) :
    2 < (s ++ ending).length := by
  rw [String.length_append]
  omega

theorem isName_append (h : IsPart s) (hending : IsPart ending) (hlen : 2 < ending.length) :
    IsName (s ++ ending) :=
  ⟨isPart_append h hending, ne_dots_of_length (length_append_of_ending s hlen)⟩

/-! ### Cutting a path at its slashes -/

theorem splitPath_of_part (h : '/' ∉ s.toList) : splitPath s = [s] := by
  rw [splitPath, List.splitOn_eq_singleton h, List.map_singleton, String.ofList_toList]

/-- What is appended without a slash goes to the last part. -/
theorem splitPath_append_part (s : String) (h : '/' ∉ ending.toList) :
    ∃ init last, splitPath s = init ++ [last] ∧ splitPath (s ++ ending) = init ++ [last ++ ending] := by
  have hcut : ∀ cs : List Char, ∃ init last, cs.splitOn '/' = init ++ [last] ∧
      (cs ++ ending.toList).splitOn '/' = init ++ [last ++ ending.toList] := by
    intro cs
    induction cs with
    | nil =>
      refine ⟨[], [], List.splitOn_nil '/', ?_⟩
      rw [List.nil_append, List.splitOn_eq_singleton h]
      rfl
    | cons c cs ih =>
      obtain ⟨init, last, hs, happ⟩ := ih
      rw [List.cons_append, List.splitOn_cons_eq_if_modifyHead,
        List.splitOn_cons_eq_if_modifyHead, hs, happ]
      by_cases hc : (c == '/') = true
      · rw [if_pos hc, if_pos hc]
        exact ⟨[] :: init, last, rfl, rfl⟩
      · rw [if_neg hc, if_neg hc]
        cases init with
        | nil => exact ⟨[], c :: last, rfl, rfl⟩
        | cons first init => exact ⟨(c :: first) :: init, last, rfl, rfl⟩
  obtain ⟨init, last, hs, happ⟩ := hcut s.toList
  refine ⟨init.map String.ofList, String.ofList last, ?_, ?_⟩
  · rw [splitPath, hs, List.map_append, List.map_singleton]
  · rw [splitPath, String.toList_append, happ, List.map_append, List.map_singleton,
      String.ofList_append, String.ofList_toList]

theorem splitPath_ne_nil (s : String) : splitPath s ≠ [] := by
  intro h
  exact List.splitOn_ne_nil '/' s.toList (List.map_eq_nil_iff.1 h)

theorem not_mem_of_mem_splitOn {c : Char} {s : List Char} (h : p ∈ s.splitOn c) : c ∉ p := by
  induction s generalizing p with
  | nil =>
    rw [List.splitOn_nil, List.mem_singleton] at h
    rw [h]
    exact List.not_mem_nil
  | cons d s ih =>
    rw [List.splitOn_cons_eq_if_modifyHead] at h
    split at h
    · rcases List.mem_cons.1 h with rfl | h
      · exact List.not_mem_nil
      · exact ih h
    · rename_i hd
      cases hs : s.splitOn c with
      | nil => exact (List.splitOn_ne_nil c s hs).elim
      | cons q qs =>
        rw [hs, List.modifyHead_cons] at h
        rw [hs] at ih
        rcases List.mem_cons.1 h with rfl | h
        · rw [List.mem_cons, not_or]
          exact ⟨fun he => hd (beq_iff_eq.2 he.symm), ih List.mem_cons_self⟩
        · exact ih (List.mem_cons_of_mem _ h)

theorem slash_not_mem_of_splitPath (h : p ∈ splitPath s) : '/' ∉ p.toList := by
  obtain ⟨part, hpart, rfl⟩ := List.mem_map.1 h
  rw [String.toList_ofList]
  exact not_mem_of_mem_splitOn hpart

/-- The characters of a path, other than slashes, stand in its parts. -/
theorem mem_splitOn_iff {c sep : Char} {s : List Char} (hne : c ≠ sep) :
    (∃ p ∈ s.splitOn sep, c ∈ p) ↔ c ∈ s := by
  induction s with
  | nil =>
    rw [List.splitOn_nil]
    simp
  | cons d s ih =>
    rw [List.splitOn_cons_eq_if_modifyHead, List.mem_cons]
    split
    · rename_i hd
      have hcd : c ≠ d := fun he => hne (he.trans (beq_iff_eq.1 hd))
      simp only [List.mem_cons, exists_eq_or_imp, List.not_mem_nil, false_or, hcd, ih]
    · cases hs : s.splitOn sep with
      | nil => exact (List.splitOn_ne_nil sep s hs).elim
      | cons q qs =>
        rw [hs] at ih
        simp only [List.modifyHead_cons, List.mem_cons, exists_eq_or_imp] at ih ⊢
        rw [← ih, or_assoc]

theorem mem_splitPath_iff {c : Char} {s : String} (hne : c ≠ '/') :
    (∃ p ∈ splitPath s, c ∈ p.toList) ↔ c ∈ s.toList := by
  rw [← mem_splitOn_iff hne]
  simp only [splitPath, List.mem_map, exists_exists_and_eq_and, String.toList_ofList]

/-- What `base / rel` can be the path of. -/
theorem isPart_targetParts_iff (hbase : ∀ p ∈ base, IsPart p) (rel : String) :
    (∀ p ∈ targetParts base rel, IsPart p) ↔ '\x00' ∉ rel.toList := by
  have hkept : ∀ p ∈ splitPath rel, '\x00' ∈ p.toList → p ≠ "" ∧ p ≠ "." := by
    intro p _ hp
    constructor
    · rintro rfl
      cases hp
    · rintro rfl
      revert hp
      decide
  have hparts : (∀ p ∈ (splitPath rel).filter fun p => p ≠ "" ∧ p ≠ ".", IsPart p) ↔
      '\x00' ∉ rel.toList := by
    rw [← mem_splitPath_iff (by decide)]
    constructor
    · intro h hex
      obtain ⟨p, hp, hnul⟩ := hex
      exact (h p (List.mem_filter.2 ⟨hp, decide_eq_true (hkept p hp hnul)⟩)).2 hnul
    · intro h p hp
      have hmem := List.mem_of_mem_filter hp
      exact ⟨slash_not_mem_of_splitPath hmem, fun hnul => h ⟨p, hmem, hnul⟩⟩
  rw [targetParts]
  split
  · exact hparts
  · rw [List.forall_mem_append, hparts]
    exact and_iff_right hbase

/-- A path whose text ends without a slash ends in a part with that ending. -/
theorem targetParts_append_part (base : List String) (s : String) (h : '/' ∉ ending.toList)
    (hlen : 1 < ending.length) :
    ∃ dirs last, targetParts base (s ++ ending) = dirs ++ [last ++ ending] := by
  obtain ⟨init, last, -, hsplit⟩ := splitPath_append_part s h
  have hlong : 1 < (last ++ ending).length := by
    rw [String.length_append]
    omega
  have hkept : (last ++ ending) ≠ "" ∧ (last ++ ending) ≠ "." := by
    constructor
    · intro he
      rw [he] at hlong
      exact absurd hlong (by decide)
    · intro he
      rw [he] at hlong
      exact absurd hlong (by decide)
  rw [targetParts, hsplit, List.filter_append, List.filter_singleton, decide_eq_true hkept]
  split
  · exact ⟨_, last, rfl⟩
  · exact ⟨_, last, (List.append_assoc _ _ _).symm⟩

/-- `"/".join(names)` -/
def joinPath (names : List String) : String := String.intercalate "/" names

theorem toList_joinPath (names : List String) :
    (joinPath names).toList = ['/'].intercalate (names.map String.toList) := by
  rw [joinPath, String.toList_intercalate]
  rfl

theorem splitPath_joinPath (hne : names ≠ []) (h : ∀ name ∈ names, IsName name) :
    splitPath (joinPath names) = names := by
  rw [splitPath, toList_joinPath, List.splitOn_intercalate]
  · rw [List.map_map]
    exact (List.map_congr_left fun name _ => String.ofList_toList).trans (List.map_id names)
  · intro cs hcs
    obtain ⟨name, hname, rfl⟩ := List.mem_map.1 hcs
    exact (h name hname).1.1
  · exact fun hnil => hne (List.map_eq_nil_iff.1 hnil)

theorem joinPath_concat_append (init : List String) (last ending : String) :
    joinPath (init ++ [last]) ++ ending = joinPath (init ++ [last ++ ending]) := by
  apply String.toList_injective
  rw [String.toList_append, toList_joinPath, toList_joinPath]
  induction init with
  | nil => simp only [List.nil_append, List.map_singleton, List.intercalate_singleton,
      String.toList_append]
  | cons name init ih =>
    have hne : ∀ s : String, (init ++ [s]).map String.toList ≠ [] := by
      intro s hnil
      exact List.append_ne_nil_of_right_ne_nil init (List.cons_ne_nil s [])
        (List.map_eq_nil_iff.1 hnil)
    rw [List.cons_append, List.cons_append, List.map_cons, List.map_cons,
      List.intercalate_cons_of_ne_nil (hne _), List.intercalate_cons_of_ne_nil (hne _), ← ih,
      List.append_assoc]

/-- A relative path of names, read back. -/
theorem targetParts_joinPath (base : List String) (hne : names ≠ [])
    (h : ∀ name ∈ names, IsName name) : targetParts base (joinPath names) = base ++ names := by
  have hfilter : names.filter (fun p => p ≠ "" ∧ p ≠ ".") = names := by
    apply List.filter_eq_self.2
    intro name hname
    exact decide_eq_true ⟨(h name hname).2.1, (h name hname).2.2.1⟩
  have hhead : (joinPath names).toList.head? ≠ some '/' := by
    cases names with
    | nil => exact (hne rfl).elim
    | cons name names =>
      have hname := h name List.mem_cons_self
      have hfirst : ∃ c cs, name.toList = c :: cs ∧ c ≠ '/' := by
        cases hcs : name.toList with
        | nil => exact (hname.2.1 (String.toList_eq_nil_iff.1 hcs)).elim
        | cons c cs => exact ⟨c, cs, rfl, fun he => hname.1.1 (hcs ▸ he ▸ List.mem_cons_self)⟩
      obtain ⟨c, cs, hcs, hc⟩ := hfirst
      rw [toList_joinPath, List.map_cons, hcs]
      cases names with
      | nil =>
        intro he
        exact hc (Option.some.inj he)
      | cons next names =>
        intro he
        exact hc (Option.some.inj he)
  rw [targetParts, splitPath_joinPath hne h, hfilter, if_neg hhead]

/-! ### Absolute paths as texts -/

/-- `str(path)` of an absolute path -/
def pathText (names : List String) : String := "/" ++ joinPath names

theorem slash_intercalate (h : parts ≠ []) :
    '/' :: ['/'].intercalate parts = parts.flatMap fun p => '/' :: p := by
  induction parts with
  | nil => exact (h rfl).elim
  | cons p parts ih =>
    by_cases hparts : parts = []
    · rw [hparts, List.intercalate_singleton, List.flatMap_singleton]
    · rw [List.intercalate_cons_of_ne_nil hparts, List.flatMap_cons, ← ih hparts,
        List.append_assoc, List.singleton_append, List.cons_append]

theorem toList_pathText (h : names ≠ []) :
    (pathText names).toList = names.flatMap fun name => '/' :: name.toList := by
  have hcons : (pathText names).toList = '/' :: (joinPath names).toList := by
    rw [pathText, String.toList_append]
    rfl
  rw [hcons, toList_joinPath, slash_intercalate fun hnil => h (List.map_eq_nil_iff.1 hnil),
    List.flatMap_map]

theorem pathText_prefix_append (root : List String) (hne : names ≠ []) :
    (pathText root).toList <+: (pathText (root ++ names)).toList := by
  by_cases hroot : root = []
  · have hslash : (pathText []).toList = ['/'] := by decide
    obtain ⟨name, names, rfl⟩ := List.exists_cons_of_ne_nil hne
    rw [hroot, List.nil_append, hslash, toList_pathText hne, List.flatMap_cons, List.cons_append]
    exact List.cons_prefix_cons.2 ⟨rfl, List.nil_prefix⟩
  · rw [toList_pathText hroot, toList_pathText (List.append_ne_nil_of_left_ne_nil hroot names),
      List.flatMap_append]
    exact List.prefix_append _ _

/-- What is before a slash of one text and of another. -/
theorem exists_append_of_slash {a b s s' : List Char} (ha : '/' ∉ a)
    (hs : ∀ c ∈ s'.head?, c = '/') (h : a ++ s = b ++ s') : ∃ c, b = a ++ c ∧ s = c ++ s' := by
  rcases List.append_eq_append_iff.1 h with ⟨c, hb, hs'⟩ | ⟨c, hb, hs'⟩
  · exact ⟨c, hb, hs'⟩
  · cases c with
    | nil =>
      rw [List.append_nil] at hb
      exact ⟨[], by rw [hb, List.append_nil], hs'.symm⟩
    | cons x c =>
      have hx : x = '/' := by
        apply hs
        rw [hs']
        rfl
      rw [hb, hx] at ha
      exact (ha (List.mem_append_right b List.mem_cons_self)).elim

theorem head_parts (parts : List String) :
    ∀ c ∈ (parts.flatMap fun p => '/' :: p.toList).head?, c = '/' := by
  cases parts with
  | nil => exact nofun
  | cons p parts =>
    intro c hc
    exact (Option.some.inj hc).symm

/-- A path of one name begins another path. -/
theorem prefix_part_iff {a b s : List Char} (ha : '/' ∉ a) (hs : ∀ c ∈ s.head?, c = '/') :
    a <+: b ++ s ↔ a <+: b := by
  constructor
  · rintro ⟨rest, hrest⟩
    obtain ⟨c, hb, -⟩ := exists_append_of_slash ha hs hrest
    exact ⟨c, hb.symm⟩
  · intro h
    exact h.trans (List.prefix_append b s)

/-- A path that goes on after its first name begins another path. -/
theorem prefix_slash_iff {a b s s' : List Char} (ha : '/' ∉ a) (hb : '/' ∉ b)
    (hs : ∀ c ∈ s'.head?, c = '/') : a ++ '/' :: s <+: b ++ s' ↔ a = b ∧ '/' :: s <+: s' := by
  constructor
  · rintro ⟨rest, hrest⟩
    rw [List.append_assoc] at hrest
    obtain ⟨c, hc, hslash⟩ := exists_append_of_slash ha hs hrest
    cases c with
    | nil =>
      rw [List.append_nil] at hc
      exact ⟨hc.symm, rest, hslash⟩
    | cons x c =>
      obtain rfl : '/' = x := (List.cons.inj hslash).1
      rw [hc] at hb
      exact (hb (List.mem_append_right a List.mem_cons_self)).elim
  · rintro ⟨rfl, hpre⟩
    exact (List.prefix_append_right_inj a).2 hpre

/-- A path to, or below, a place whose last name goes on after that of another path. -/
inductive Lengthens : List String → List String → Prop where
  | last (name ending : String) (rest : List String) :
      Lengthens [name] ((name ++ ending) :: rest)
  | cons (name : String) (h : Lengthens parts parts') :
      Lengthens (name :: parts) (name :: parts')

/-- The text of one path begins that of another. -/
theorem prefix_parts_iff {parts parts' : List String} (hne : parts ≠ [])
    (h : ∀ p ∈ parts, '/' ∉ p.toList) (h' : ∀ p ∈ parts', '/' ∉ p.toList) :
    (parts.flatMap fun p => '/' :: p.toList) <+: (parts'.flatMap fun p => '/' :: p.toList) ↔
      Lengthens parts parts' := by
  induction parts generalizing parts' with
  | nil => exact (hne rfl).elim
  | cons p parts ih =>
    have hp := h p List.mem_cons_self
    have htail : ∀ q ∈ parts, '/' ∉ q.toList := fun q hq => h q (List.mem_cons_of_mem p hq)
    cases parts' with
    | nil =>
      apply iff_of_false
      · intro hpre
        cases List.prefix_nil.1 hpre
      · intro hlen
        cases hlen
    | cons p' parts' =>
      have hp' := h' p' List.mem_cons_self
      have htail' : ∀ q ∈ parts', '/' ∉ q.toList := fun q hq => h' q (List.mem_cons_of_mem p' hq)
      rw [List.flatMap_cons, List.flatMap_cons, List.cons_append, List.cons_append,
        List.cons_prefix_cons, eq_self, true_and]
      by_cases hparts : parts = []
      · subst hparts
        rw [List.flatMap_nil, List.append_nil, prefix_part_iff hp (head_parts parts')]
        constructor
        · intro hpre
          obtain ⟨c, hc⟩ := hpre
          have hname : p' = p ++ String.ofList c := by
            apply String.toList_injective
            rw [String.toList_append, String.toList_ofList, hc]
          rw [hname]
          exact .last p _ parts'
        · intro hlen
          cases hlen with
          | last name ending rest =>
            rw [String.toList_append]
            exact List.prefix_append _ _
          | cons name hlen => cases hlen
      · obtain ⟨q, rest, rfl⟩ := List.exists_cons_of_ne_nil hparts
        have hbelow := ih hparts htail htail'
        rw [List.flatMap_cons, List.cons_append] at hbelow
        rw [List.flatMap_cons, List.cons_append, prefix_slash_iff hp hp' (head_parts parts'),
          hbelow, String.toList_inj]
        constructor
        · intro hand
          rw [hand.1]
          exact .cons p' hand.2
        · intro hlen
          cases hlen with
          | cons name hlen => exact ⟨rfl, hlen⟩

/-- `str(path).startswith(str(other))` -/
theorem pathText_prefix_iff (hne : names ≠ []) (h : ∀ p ∈ names, '/' ∉ p.toList ∧ p ≠ "")
    (h' : ∀ p ∈ names', '/' ∉ p.toList) :
    (pathText names).toList <+: (pathText names').toList ↔ Lengthens names names' := by
  have hslash : ∀ p ∈ names, '/' ∉ p.toList := fun p hp => (h p hp).1
  by_cases hne' : names' = []
  · subst hne'
    apply iff_of_false
    · obtain ⟨name, names, rfl⟩ := List.exists_cons_of_ne_nil hne
      obtain ⟨c, cs, hcs⟩ := List.exists_cons_of_ne_nil
        (mt String.toList_eq_nil_iff.1 (h name List.mem_cons_self).2)
      rw [toList_pathText hne, List.flatMap_cons, hcs]
      intro hpre
      have hone : (pathText []).toList.length = 1 := by decide
      have hle := hpre.length_le
      rw [hone, List.cons_append, List.cons_append, List.length_cons, List.length_cons] at hle
      omega
    · intro hlen
      cases hlen
  · rw [toList_pathText hne, toList_pathText hne', prefix_parts_iff hne hslash h']

/-! ### Texts with a separator at the end -/

theorem eq_of_append_sep {sep : Char} {xs ys a b : List Char} (ha : sep ∉ a) (hb : sep ∉ b)
    (h : xs ++ sep :: a = ys ++ sep :: b) : xs = ys ∧ a = b := by
  rcases List.append_eq_append_iff.1 h with ⟨zs, hys, hzs⟩ | ⟨zs, hxs, hzs⟩
  · cases zs with
    | nil =>
      rw [List.nil_append] at hzs
      rw [List.append_nil] at hys
      exact ⟨hys.symm, (List.cons.inj hzs).2⟩
    | cons z zs =>
      rw [List.cons_append] at hzs
      exact (ha ((List.cons.inj hzs).2 ▸ List.mem_append_right _ List.mem_cons_self)).elim
  · cases zs with
    | nil =>
      rw [List.nil_append] at hzs
      rw [List.append_nil] at hxs
      exact ⟨hxs, (List.cons.inj hzs).2.symm⟩
    | cons z zs =>
      rw [List.cons_append] at hzs
      exact (hb ((List.cons.inj hzs).2 ▸ List.mem_append_right _ List.mem_cons_self)).elim

end Python
