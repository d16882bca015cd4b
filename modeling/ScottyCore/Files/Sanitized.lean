import ScottyCore.Files.Names

namespace ScottyCore
open Python
set_option autoImplicit true

variable {u : Unicode}

/-! ## What the sanitiser promises -/

/-- The characters of the last component that are not removed. -/
def keptChars (u : Unicode) (name : String) : List Char :=
  (basename name).toList.filter fun c => u.isWord c || isSpace c || c == '-' || c == '.'

/-- One component that begins with neither a dot nor a blank. -/
def IsSafeComponent (s : String) : Prop :=
  IsName s ∧ ∀ c ∈ s.toList.head?, c ≠ '.' ∧ isSpace c = false

/-- The result is empty or safe, and is its own result. -/
def SanitisedOnce (u : Unicode) (name : String) : Prop :=
  let safe := secureFilename u name
  (safe = "" ∨ IsSafeComponent safe) ∧ secureFilename u safe = safe

/-- After dots and spaces stands another kind of blank, and then, blanks aside, a dot. -/
def HidesDot (cs : List Char) : Prop :=
  ∃ lead blank blanks rest, cs = lead ++ blank :: blanks ++ '.' :: rest ∧
    (∀ c ∈ lead, c = '.' ∨ c = ' ') ∧ isSpace blank = true ∧ blank ≠ ' ' ∧
    ∀ c ∈ blanks, isSpace c = true

/-! ## The characters of a result -/

/-- What is left once the dots and spaces at the front are gone. -/
def afterLead (cs : List Char) : List Char := cs.dropWhile fun c => c == '.' || c == ' '

theorem isLead_iff {c : Char} : (c == '.' || c == ' ') = true ↔ c = '.' ∨ c = ' ' := by
  rw [Bool.or_eq_true, beq_iff_eq, beq_iff_eq]

theorem toList_secureFilename (u : Unicode) (name : String) :
    (secureFilename u name).toList = Uuid.trim isSpace (afterLead (keptChars u name)) := by
  rw [secureFilename, strip, String.toList_ofList, String.toList_ofList]
  rfl

theorem kept_of_mem_secureFilename (h : c ∈ (secureFilename u name).toList) :
    (u.isWord c || isSpace c || c == '-' || c == '.') = true := by
  rw [toList_secureFilename] at h
  have hkept : c ∈ keptChars u name :=
    (List.dropWhile_suffix _).subset ((isInfix_trim _ _).subset h)
  exact (List.mem_filter.1 hkept).2

theorem not_mem_secureFilename (hd : d.toNat < 128) (hword : (d.isAlphanum || d == '_') = false)
    (hother : (isSpace d || d == '-' || d == '.') = false) :
    d ∉ (secureFilename u name).toList := by
  intro h
  have hkept := kept_of_mem_secureFilename h
  rw [u.isWord_ascii hd, hword, Bool.false_or, hother] at hkept
  cases hkept

/-- A result begins with a dot where another kind of blank hid it. -/
theorem dot_head_iff (u : Unicode) (name : String) :
    (secureFilename u name).toList.head? = some '.' ↔ HidesDot (keptChars u name) := by
  rw [toList_secureFilename, head_trim_eq]
  constructor
  · intro h
    obtain ⟨rest, hrest⟩ := List.head?_eq_some_iff.1 h
    have hsplit := List.takeWhile_append_dropWhile (p := isSpace) (l := afterLead (keptChars u name))
    rw [hrest] at hsplit
    cases hblanks : (afterLead (keptChars u name)).takeWhile isSpace with
    | nil =>
      -- the dot would have gone with the dots and spaces
      rw [hblanks, List.nil_append] at hsplit
      have hhead := head_dropWhile (fun c => c == '.' || c == ' ') (keptChars u name) '.'
      rw [← afterLead, ← hsplit] at hhead
      cases hhead rfl
    | cons blank blanks =>
      rw [hblanks] at hsplit
      have hall : ∀ c ∈ blank :: blanks, isSpace c = true := by
        intro c hc
        rw [← hblanks] at hc
        exact List.mem_takeWhile_imp hc
      have hblank := head_dropWhile (fun c => c == '.' || c == ' ') (keptChars u name) blank
      rw [← afterLead, ← hsplit] at hblank
      refine ⟨(keptChars u name).takeWhile fun c => c == '.' || c == ' ', blank, blanks, rest,
        ?_, ?_, hall blank List.mem_cons_self, ?_, ?_⟩
      · rw [List.append_assoc, hsplit, afterLead, List.takeWhile_append_dropWhile]
      · intro c hc
        have hlead := List.mem_takeWhile_imp hc
        exact isLead_iff.1 hlead
      · rintro rfl
        cases hblank rfl
      · exact fun c hc => hall c (List.mem_cons_of_mem blank hc)
  · rintro ⟨lead, blank, blanks, rest, hkept, hlead, hblank, hne, hblanks⟩
    have hstop : (blank == '.' || blank == ' ') = false := by
      rw [Bool.or_eq_false_iff, beq_eq_false_iff_ne, beq_eq_false_iff_ne]
      refine ⟨?_, hne⟩
      rintro rfl
      cases hblank
    have hleft : afterLead (keptChars u name) = blank :: blanks ++ '.' :: rest := by
      rw [hkept, List.append_assoc, afterLead,
        List.dropWhile_append_of_pos fun c hc => isLead_iff.2 (hlead c hc)]
      exact dropWhile_eq_self_of_head fun c hc => (Option.mem_some_iff.1 hc) ▸ hstop
    have hspaces : ∀ c ∈ blank :: blanks, isSpace c = true := by
      intro c hc
      rcases List.mem_cons.1 hc with rfl | hc
      · exact hblank
      · exact hblanks c hc
    rw [hleft, List.dropWhile_append_of_pos hspaces]
    rfl

/-- A result that begins with no dot is safe and stays. -/
theorem sanitisedOnce_of_head (h : (secureFilename u name).toList.head? ≠ some '.') :
    SanitisedOnce u name := by
  have hslash : '/' ∉ (secureFilename u name).toList :=
    not_mem_secureFilename (by decide) (by decide) (by decide)
  have hnul : '\x00' ∉ (secureFilename u name).toList :=
    not_mem_secureFilename (by decide) (by decide) (by decide)
  have hhead : ∀ c ∈ (secureFilename u name).toList.head?, c ≠ '.' ∧ isSpace c = false := by
    intro c hc
    constructor
    · rintro rfl
      exact h hc
    · rw [toList_secureFilename] at hc
      exact head_trim _ _ c hc
  constructor
  · by_cases hempty : secureFilename u name = ""
    · exact .inl hempty
    · right
      refine ⟨⟨⟨hslash, hnul⟩, hempty, ?_, ?_⟩, hhead⟩
      · intro hdot
        rw [hdot] at h
        exact h rfl
      · intro hup
        rw [hup] at h
        exact h rfl
  · apply secureFilename_of_clean hslash (fun c hc => kept_of_mem_secureFilename hc) hhead
    intro c hc
    rw [toList_secureFilename] at hc
    exact last_trim _ _ c hc

/-- The sanitiser keeps its promise where no blank hides a dot. -/
theorem sanitisedOnce_iff (u : Unicode) (name : String) :
    SanitisedOnce u name ↔ ¬ HidesDot (keptChars u name) := by
  rw [← dot_head_iff]
  constructor
  · rintro ⟨hsafe, -⟩ hdot
    rcases hsafe with hempty | ⟨-, hhead⟩
    · rw [hempty] at hdot
      cases hdot
    · exact (hhead '.' hdot).1 rfl
  · exact sanitisedOnce_of_head

/-- A tab before two dots. -/
theorem tab_hides_dots : ¬ SanitisedOnce asciiTables "\t.." := by
  intro h
  have hup : secureFilename asciiTables "\t.." = ".." := by decide +kernel
  have hsafe := h.1
  rw [hup] at hsafe
  rcases hsafe with hempty | ⟨hname, -⟩
  · exact absurd hempty (by decide)
  · exact hname.2.2.2 rfl

end ScottyCore
