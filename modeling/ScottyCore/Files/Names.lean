import ScottyCore.Lib.Path
import ScottyCore.Lib.Text

namespace Python
set_option autoImplicit true

/-- What the Unicode tables say: which characters `\w` matches, and how a text is lowered. -/
structure Unicode where
  isWord : Char → Bool
  lower : String → String
  isSpace_of_isWord : isWord c = true → isSpace c = false
  isWord_ascii : c.toNat < 128 → isWord c = (c.isAlphanum || c == '_')

/-- `re.sub` of each run of such characters by one. -/
def replaceRuns (p : Char → Bool) (new : Char) : List Char → List Char
  | [] => []
  | c :: cs =>
    if p c then if cs.head?.any p then replaceRuns p new cs else new :: replaceRuns p new cs
    else c :: replaceRuns p new cs

/-- `os.path.basename` -/
def basename (path : String) : String := (splitPath path).getLast (splitPath_ne_nil path)

/-- `Path(name).suffix` of a name. -/
def suffix (name : String) : String :=
  let ext := (name.toList.reverse.takeWhile (· ≠ '.')).reverse
  if ext ≠ [] ∧ ext.length + 1 < name.length then String.ofList ('.' :: ext) else ""

/-- `str(Path(path))` -/
def pathStr (path : String) : String :=
  let anchor := match path.toList with
    | '/' :: '/' :: '/' :: _ => "/"
    | '/' :: '/' :: _ => "//"
    | '/' :: _ => "/"
    | _ => ""
  let parts := (splitPath path).filter fun p => p ≠ "" ∧ p ≠ "."
  if anchor = "" ∧ parts = [] then "." else anchor ++ joinPath parts

end Python

namespace ScottyCore
open Python
set_option autoImplicit true

/-! ## The names that the services make -/

/-- `_slugify` -/
def slugify (u : Unicode) (name : String) : String :=
  let slug := (strip (u.lower name)).toList
  let slug := slug.filter fun c => u.isWord c || isSpace c || c == '-'
  let slug := replaceRuns (fun c => isSpace c || c == '_') '-' slug
  let slug := Uuid.trim (· == '-') (replaceRuns (· == '-') '-' slug)
  String.ofList slug

/-- `_secure_filename` -/
def secureFilename (u : Unicode) (name : String) : String :=
  let name := (basename name).toList
  let name := name.filter fun c => u.isWord c || isSpace c || c == '-' || c == '.'
  strip (String.ofList (name.dropWhile fun c => c == '.' || c == ' '))

variable {u : Unicode}

theorem mem_replaceRuns (h : c ∈ replaceRuns p new cs) : c = new ∨ c ∈ cs ∧ p c = false := by
  induction cs with
  | nil => cases h
  | cons d cs ih =>
    rw [replaceRuns] at h
    have hrest : c ∈ replaceRuns p new cs → c = new ∨ c ∈ d :: cs ∧ p c = false := by
      intro hc
      rcases ih hc with hnew | ⟨hmem, hp⟩
      · exact .inl hnew
      · exact .inr ⟨List.mem_cons_of_mem _ hmem, hp⟩
    split at h
    · split at h
      · exact hrest h
      · rcases List.mem_cons.1 h with hnew | h
        · exact .inl hnew
        · exact hrest h
    · rename_i hd
      rcases List.mem_cons.1 h with rfl | h
      · exact .inr ⟨List.mem_cons_self, Bool.eq_false_of_not_eq_true hd⟩
      · exact hrest h

theorem chars_slugify (h : c ∈ (slugify u name).toList) : u.isWord c = true ∨ c = '-' := by
  rw [slugify, String.toList_ofList] at h
  rcases mem_replaceRuns ((isInfix_trim _ _).subset h) with rfl | ⟨hmem, -⟩
  · exact .inr rfl
  rcases mem_replaceRuns hmem with rfl | ⟨hmem, hspace⟩
  · exact .inr rfl
  have hkept := (List.mem_filter.1 hmem).2
  rw [Bool.or_eq_true, Bool.or_eq_true, beq_iff_eq] at hkept
  rw [Bool.or_eq_false_iff] at hspace
  rcases hkept with (hword | hs) | hdash
  · exact .inl hword
  · rw [hspace.1] at hs
    cases hs
  · exact .inr hdash

/-- No character of a slug is one of these. -/
theorem ne_of_slug (h : c ∈ (slugify u name).toList) (hd : d.toNat < 128)
    (hword : (d.isAlphanum || d == '_') = false) (hdash : d ≠ '-') : c ≠ d := by
  rintro rfl
  rcases chars_slugify h with hc | hc
  · rw [u.isWord_ascii hd, hword] at hc
    cases hc
  · exact hdash hc

theorem isSpace_of_slug (h : c ∈ (slugify u name).toList) : isSpace c = false := by
  rcases chars_slugify h with hc | rfl
  · exact u.isSpace_of_isWord hc
  · decide

theorem strip_eq_self (h : ∀ c ∈ s.toList, isSpace c = false) : strip s = s := by
  have htrim : Uuid.trim isSpace s.toList = s.toList := by
    apply trim_eq_self
    · intro c hc
      exact h c (List.mem_of_mem_head? hc)
    · intro c hc
      exact h c (List.mem_of_mem_getLast? hc)
  exact (congrArg String.ofList htrim).trans String.ofList_toList

/-- What `_secure_filename` removes nowhere is kept as it is. -/
theorem secureFilename_of_clean (hslash : '/' ∉ s.toList)
    (hkept : ∀ c ∈ s.toList, (u.isWord c || isSpace c || c == '-' || c == '.') = true)
    (hhead : ∀ c ∈ s.toList.head?, c ≠ '.' ∧ isSpace c = false)
    (hlast : ∀ c ∈ s.toList.getLast?, isSpace c = false) : secureFilename u s = s := by
  have hbase : basename s = s := by
    simp only [basename, splitPath_of_part hslash, List.getLast_singleton]
  have hlead : ∀ c ∈ s.toList.head?, (c == '.' || c == ' ') = false := by
    intro c hc
    obtain ⟨hdot, hspace⟩ := hhead c hc
    have hblank : c ≠ ' ' := by
      rintro rfl
      cases hspace
    rw [Bool.or_eq_false_iff, beq_eq_false_iff_ne, beq_eq_false_iff_ne]
    exact ⟨hdot, hblank⟩
  have htrim := trim_eq_self (fun c hc => (hhead c hc).2) hlast
  rw [secureFilename, hbase, List.filter_eq_self.2 hkept, dropWhile_eq_self_of_head hlead,
    String.ofList_toList]
  exact (congrArg String.ofList htrim).trans String.ofList_toList

/-- A name of word characters and dashes is kept. -/
theorem secureFilename_eq_self (hword : ∀ c ∈ s.toList, u.isWord c = true ∨ c = '-')
    (hplain : ∀ c ∈ s.toList, c ≠ '/' ∧ c ≠ '.') : secureFilename u s = s := by
  have hspace : ∀ c ∈ s.toList, isSpace c = false := by
    intro c hc
    rcases hword c hc with h | rfl
    · exact u.isSpace_of_isWord h
    · decide
  apply secureFilename_of_clean
  · exact fun hc => (hplain '/' hc).1 rfl
  · intro c hc
    rcases hword c hc with h | rfl
    · rw [h]
      rfl
    · simp
  · intro c hc
    have hmem := List.mem_of_mem_head? hc
    exact ⟨(hplain c hmem).2, hspace c hmem⟩
  · exact fun c hc => hspace c (List.mem_of_mem_getLast? hc)

/-- A slug is the name of its directory as it stands. -/
theorem secureFilename_slugify (u : Unicode) (name : String) :
    secureFilename u (slugify u name) = slugify u name := by
  apply secureFilename_eq_self
  · intro c hc
    exact chars_slugify hc
  · intro c hc
    exact ⟨ne_of_slug hc (by decide) (by decide) (by decide),
      ne_of_slug hc (by decide) (by decide) (by decide)⟩

theorem isName_slugify (h : slugify u name ≠ "") : IsName (slugify u name) := by
  have hmem : ∀ c, c ∈ (slugify u name).toList → c ≠ '/' ∧ c ≠ '\x00' ∧ c ≠ '.' := by
    intro c hc
    exact ⟨ne_of_slug hc (by decide) (by decide) (by decide),
      ne_of_slug hc (by decide) (by decide) (by decide),
      ne_of_slug hc (by decide) (by decide) (by decide)⟩
  refine ⟨⟨fun hc => (hmem _ hc).1 rfl, fun hc => (hmem _ hc).2.1 rfl⟩, h, ?_, ?_⟩
  · intro hdot
    rw [hdot] at hmem
    exact (hmem '.' (by decide)).2.2 rfl
  · intro hup
    rw [hup] at hmem
    exact (hmem '.' (by decide)).2.2 rfl

/-! ## Plain tables -/

/-- Texts of ASCII characters. -/
def asciiTables : Unicode where
  isWord c := c.isAlphanum || c == '_'
  lower s := String.ofList (s.toList.map Char.toLower)
  isSpace_of_isWord := isSpace_of_alphanum
  isWord_ascii _ := rfl

end ScottyCore
