import Mathlib.Data.List.DropRight
import ScottyCore.Lib.Bytes

namespace ScottyCore
open Python
set_option autoImplicit true

/-! ## `yaml_inserts.py` -/

abbrev Line := List Char

/-- `ln.strip() == ""` -/
def isBlank (ln : Line) : Bool := ln.all isSpace

/-- `len(ln) - len(ln.lstrip(" "))` -/
def leading (ln : Line) : Nat := (ln.takeWhile (· = ' ')).length

/-- Group 1 of `^(\s*){key}:\s*$`. -/
def matchBlock (list_key : List Char) (ln : Line) : Option Line :=
  (List.isSuffixOf? (list_key ++ [':']) (ln.rdropWhile isSpace)).filter (List.all · isSpace)

/-- Group 1 of `^(\s*){key}:\s*\[\]\s*$`. -/
def matchInline (list_key : List Char) (ln : Line) : Option Line :=
  (List.isSuffixOf? ['[', ']'] (ln.rdropWhile isSpace)).bind (matchBlock list_key)

/-- The first line with a match: the lines before it, the group, and the lines after it. -/
def findLine (f : Line → Option β) : List Line → Option (List Line × Line × β × List Line)
  | [] => none
  | ln :: lines =>
    match f ln with
    | some x => some ([], ln, x, lines)
    | none => (findLine f lines).map fun r => (ln :: r.1, r.2)

/-- `el if el.endswith("\n") else el + "\n"` -/
def entryText (el : List Char) : List Char :=
  if el.getLast? = some '\n' then el else el ++ ['\n']

/-- `snippet` -/
def entryTexts (entry_lines : List (List Char)) : List Char := entry_lines.flatMap entryText

/-- The lines behind the key up to `insert_at`: those before the first that dedents, without the
blank ones at their end. -/
def listBody (key_indent : Nat) (lines : List Line) : List Line :=
  (lines.takeWhile fun ln => isBlank ln || key_indent < leading ln).rdropWhile isBlank

/-- `append_to_yaml_list` on the text of the file. -/
def appendToYamlList (text list_key : List Char) (entry_lines : List (List Char)) :
    Bool × List Char :=
  let lines := keepLines (universalNewlines text)
  match findLine (matchBlock list_key) lines with
  | some (before, ln, indent, after) =>
    let body := listBody indent.length after
    (true, (before ++ ln :: body ++ entryTexts entry_lines :: after.drop body.length).flatten)
  | none =>
    match findLine (matchInline list_key) lines with
    | some (before, _, indent, after) =>
      let replacement := indent ++ list_key ++ [':', '\n'] ++ entryTexts entry_lines
      (true, (before ++ replacement :: after).flatten)
    | none => (false, text)

/-! ## What an insertion promises -/

/-- An item of a list: a dash alone or before a space. -/
def isItem (ln : Line) : Bool :=
  match ln.dropWhile (· = ' ') with
  | '-' :: rest => rest.head?.all isSpace
  | _ => false

def isComment (ln : Line) : Bool := (ln.dropWhile (· = ' ')).head? = some '#'

/-- A line of the list: indented more than the key, or an item at the key's own indent. -/
def inList (key_indent : Nat) (ln : Line) : Bool :=
  !isBlank ln && (key_indent < leading ln || leading ln = key_indent && isItem ln)

/-- A line that leaves the list open. -/
def isGap (ln : Line) : Bool := isBlank ln || isComment ln

/-- How many of the lines behind the key are the block: up to the last line of the list before one
that ends it. -/
def blockLength (key_indent : Nat) : List Line → Nat
  | [] => 0
  | ln :: lines =>
    if inList key_indent ln then blockLength key_indent lines + 1
    else if isGap ln ∧ blockLength key_indent lines ≠ 0 then blockLength key_indent lines + 1
    else 0

/-- A line without its end. -/
def lineText (ln : Line) : Line := ln.takeWhile fun c => !isLineBreak c

/-- The lines that the file should have, where the key is found. -/
def insertedLines (text list_key : List Char) (entries : List Line) : Option (List Line) :=
  let lines := keepLines (universalNewlines text)
  match findLine (matchBlock list_key) lines with
  | some (before, ln, indent, after) =>
    let length := blockLength indent.length after
    some ((before ++ ln :: after.take length).map lineText ++ entries ++
      (after.drop length).map lineText)
  | none =>
    (findLine (matchInline list_key) lines).map fun (before, _, indent, after) =>
      before.map lineText ++ (indent ++ list_key ++ [':']) :: entries ++ after.map lineText

/-- The lines of a file. -/
def fileLines (text : List Char) : List Line := splitLines (universalNewlines text)

structure OnlyInserts (text list_key : List Char) (entry_lines : List (List Char)) : Prop where
  inserted : (appendToYamlList text list_key entry_lines).1 = true →
    insertedLines text list_key (fileLines (entryTexts entry_lines)) =
      some (fileLines (appendToYamlList text list_key entry_lines).2)
  unchanged : (appendToYamlList text list_key entry_lines).1 = false →
    (appendToYamlList text list_key entry_lines).2 = text

/-! ## The lines of the new file -/

section
variable {pre post lines before after : List Line} {ln indent key : Line} {k : Nat}

theorem findLine_eq_some {f : Line → Option β} (h : findLine f lines = some (before, ln, x, after)) :
    lines = before ++ ln :: after ∧ f ln = some x := by
  induction lines generalizing before with
  | nil => cases h
  | cons ln' lines ih =>
    rw [findLine] at h
    cases hf : f ln' with
    | some y =>
      rw [hf] at h
      cases h
      exact ⟨rfl, hf⟩
    | none =>
      rw [hf] at h
      obtain ⟨⟨before', r⟩, hr, heq⟩ := Option.map_eq_some_iff.1 h
      cases heq
      obtain ⟨rfl, hx⟩ := ih hr
      exact ⟨rfl, hx⟩

theorem entryText_ends (el : List Char) : ∃ s, entryText el = s ++ ['\n'] := by
  rw [entryText]
  split
  · rename_i h
    obtain ⟨s, hs⟩ := List.getLast?_eq_some_iff.1 h
    exact ⟨s, hs⟩
  · exact ⟨el, rfl⟩

theorem entryTexts_ends (entry : List Char) (entries : List (List Char)) :
    ∃ s, entryTexts (entry :: entries) = s ++ ['\n'] := by
  induction entries generalizing entry with
  | nil =>
    obtain ⟨s, hs⟩ := entryText_ends entry
    exact ⟨s, by rw [entryTexts, List.flatMap_singleton, hs]⟩
  | cons entry' entries ih =>
    obtain ⟨s, hs⟩ := ih entry'
    exact ⟨entryText entry ++ s, by rw [entryTexts, List.flatMap_cons, ← entryTexts, hs,
      List.append_assoc]⟩

/-- Whole lines, a text that ends a line, and further lines. -/
theorem fileLines_inserted (hpre : AreLines pre) (hpost : AreLines post)
    (hclosed : ∀ c ∈ pre.flatten.getLast?, isLineBreak c = true) (s : List Char) :
    fileLines ((pre ++ (s ++ ['\n']) :: post).flatten) =
      pre.map lineText ++ fileLines (s ++ ['\n']) ++ post.map lineText := by
  have hsplit : (pre ++ (s ++ ['\n']) :: post).flatten =
      pre.flatten ++ (s ++ '\n' :: post.flatten) := by
    simp only [List.flatten_append, List.flatten_cons, List.append_assoc, List.singleton_append]
  obtain ⟨u, hu, -⟩ := universalNewlines_newline s
  have hlast : ∀ c ∈ (u ++ ['\n']).getLast?, isLineBreak c = true := by
    intro c hc
    rw [List.getLast?_concat] at hc
    cases hc
    rfl
  have hreturn : '\r' ∉ u ++ ['\n'] := hu ▸ no_return_universalNewlines (s ++ ['\n'])
  rw [fileLines, hsplit, universalNewlines_plain_append hpre.no_return, universalNewlines_append,
    universalNewlines_of_plain hpost.no_return, fileLines, hu, splitLines,
    keepLines_append hpre.no_return hclosed, keepLines_append hreturn hlast,
    hpre.keepLines_flatten, hpost.keepLines_flatten, List.map_append, List.map_append, splitLines,
    List.append_assoc]
  rfl

/-- Behind an unfinished last line, the first line of the text is lost in it. -/
theorem length_fileLines_unfinished (hpre : AreLines pre)
    (hopen : ¬ ∀ c ∈ pre.flatten.getLast?, isLineBreak c = true) (s : List Char) :
    (fileLines ((pre ++ [s ++ ['\n']]).flatten)).length + 1 =
      pre.length + (fileLines (s ++ ['\n'])).length := by
  obtain rfl | ⟨pre, ln, rfl⟩ := List.eq_nil_or_concat pre
  · exact (hopen fun c hc => nomatch hc).elim
  · rw [List.concat_eq_append] at hpre hopen ⊢
    have hflat : (pre ++ [ln]).flatten = pre.flatten ++ ln := by
      rw [List.flatten_append, List.flatten_singleton]
    have hbody : ∀ c ∈ ln, isLineBreak c = false := by
      cases hpre.append.2 with
      | last hne hbody => exact hbody
      | cons hbody hb hr h =>
        refine (hopen fun c hc => ?_).elim
        rw [hflat, ← List.append_assoc, List.getLast?_concat] at hc
        cases hc
        exact hb
    obtain ⟨u, hu, -⟩ := universalNewlines_newline s
    have hnewline : u ++ ['\n'] ≠ [] := List.append_ne_nil_of_right_ne_nil _ (List.cons_ne_nil _ _)
    rw [fileLines, List.flatten_append, List.flatten_singleton,
      universalNewlines_plain_append hpre.no_return, hflat, List.append_assoc, fileLines, hu,
      splitLines, splitLines, List.length_map, List.length_map,
      keepLines_append hpre.append.1.no_return (hpre.closed (List.cons_ne_nil ln [])),
      List.length_append, hpre.append.1.keepLines_flatten, length_keepLines_append hbody hnewline,
      List.length_append, List.length_singleton]
    omega

/-! ## Where the entries stand -/

theorem le_blockLength {body rest : List Line} (hbody : ∀ ln ∈ body, inList k ln ∨ isGap ln)
    (hlast : ∀ ln ∈ body.getLast?, inList k ln) : body.length ≤ blockLength k (body ++ rest) := by
  induction body with
  | nil => exact Nat.zero_le _
  | cons ln body ih =>
    have ih := ih (fun ln' hmem => hbody ln' (List.mem_cons_of_mem _ hmem)) fun ln' hmem =>
      hlast ln' (List.mem_getLast?_cons hmem)
    rw [List.cons_append, blockLength]
    split
    · exact Nat.succ_le_succ ih
    · rename_i hout
      cases body with
      | nil => exact (hout (hlast ln rfl)).elim
      | cons ln' body =>
        have hgap := (hbody ln List.mem_cons_self).resolve_left hout
        have hpos : blockLength k (ln' :: body ++ rest) ≠ 0 :=
          Nat.ne_of_gt (Nat.lt_of_lt_of_le (Nat.succ_pos _) ih)
        rw [if_pos ⟨hgap, hpos⟩]
        exact Nat.succ_le_succ ih

theorem listBody_prefix (k : Nat) (lines : List Line) : listBody k lines <+: lines :=
  (List.rdropWhile_prefix _ _).trans (List.takeWhile_prefix _)

/-- The entries stand behind no line but the block's. -/
theorem length_listBody_le (k : Nat) (lines : List Line) :
    (listBody k lines).length ≤ blockLength k lines := by
  have hmem : ∀ ln ∈ listBody k lines, isBlank ln = true ∨ k < leading ln := by
    intro ln hln
    have hin := List.mem_takeWhile_imp ((List.rdropWhile_prefix _ _).subset hln)
    rw [Bool.or_eq_true, decide_eq_true_iff] at hin
    exact hin
  have hinside : ∀ ln ∈ listBody k lines, isBlank ln = false → inList k ln = true := by
    intro ln hln hblank
    have hlt := (hmem ln hln).resolve_left (Bool.eq_false_iff.1 hblank)
    rw [inList, hblank, decide_eq_true hlt]
    rfl
  have hbody : ∀ ln ∈ listBody k lines, inList k ln = true ∨ isGap ln = true := by
    intro ln hln
    cases hblank : isBlank ln with
    | true => exact .inr (by rw [isGap, hblank, Bool.true_or])
    | false => exact .inl (hinside ln hln hblank)
  have hlast : ∀ ln ∈ (listBody k lines).getLast?, inList k ln = true := by
    intro ln hln
    obtain ⟨hne, heq⟩ := List.mem_getLast?_eq_getLast hln
    have hblank := List.rdropWhile_last_not isBlank _ hne
    exact hinside ln (List.mem_of_mem_getLast? hln) (Bool.eq_false_iff.2 (heq ▸ hblank))
  obtain ⟨rest, hrest⟩ := listBody_prefix k lines
  have hle : (listBody k lines).length ≤ blockLength k (listBody k lines ++ rest) :=
    le_blockLength hbody hlast
  rwa [hrest] at hle

/-- The entries are in their place where a finished line stands before them, and where the lines of
the block behind them read the same before them. -/
theorem insertedLines_block_iff (hlines : AreLines (before ++ ln :: after)) (k : Nat)
    (s : List Char) :
    (before ++ ln :: after.take (blockLength k after)).map lineText ++ fileLines (s ++ ['\n']) ++
        (after.drop (blockLength k after)).map lineText =
      fileLines ((before ++ ln :: listBody k after ++
        (s ++ ['\n']) :: after.drop (listBody k after).length).flatten) ↔
    (∀ c ∈ (before ++ ln :: listBody k after).flatten.getLast?, isLineBreak c = true) ∧
      fileLines (s ++ ['\n']) ++
          ((after.take (blockLength k after)).drop (listBody k after).length).map lineText =
        ((after.take (blockLength k after)).drop (listBody k after).length).map lineText ++
          fileLines (s ++ ['\n']) := by
  obtain ⟨rest, hrest⟩ := listBody_prefix k after
  have hlength := length_listBody_le k after
  generalize listBody k after = body at hrest hlength ⊢
  generalize blockLength k after = n at hlength ⊢
  subst hrest
  rw [← List.cons_append, ← List.append_assoc] at hlines
  obtain ⟨hpre, hpost⟩ := hlines.append
  rw [List.take_append, List.take_of_length_le hlength, List.drop_append,
    List.drop_eq_nil_of_le hlength, List.nil_append, List.drop_left, List.drop_left]
  by_cases hclosed : ∀ c ∈ (before ++ ln :: body).flatten.getLast?, isLineBreak c = true
  · have hmoved := congrArg (List.map lineText) (List.take_append_drop (n - body.length) rest)
    rw [List.map_append] at hmoved
    rw [and_iff_right hclosed, fileLines_inserted hpre hpost hclosed, ← List.cons_append,
      ← List.append_assoc before, List.map_append, ← hmoved, List.append_assoc, List.append_assoc,
      List.append_assoc, List.append_cancel_left_eq, ← List.append_assoc, ← List.append_assoc,
      List.append_cancel_right_eq, eq_comm]
  · refine iff_of_false (fun heq => ?_) fun h => hclosed h.1
    obtain rfl : rest = [] := by
      by_contra hne
      exact hclosed (hlines.closed hne)
    have hshort := length_fileLines_unfinished hpre hclosed s
    rw [← heq, List.take_nil, List.drop_nil, List.append_nil, List.map_nil, List.append_nil,
      List.length_append, List.length_map] at hshort
    omega

/-- The inline form gives way to a key line and the entries. -/
theorem insertedLines_inline (hlines : AreLines (before ++ ln :: after))
    (hkey : ∀ c ∈ key, isLineBreak c = false) (s : List Char) :
    before.map lineText ++ key :: fileLines (s ++ ['\n']) ++ after.map lineText =
      fileLines ((before ++ (key ++ ['\n'] ++ (s ++ ['\n'])) :: after).flatten) := by
  have hnew : AreLines ((before ++ [key ++ ['\n']]) ++ after) := by
    rw [List.append_assoc]
    exact hlines.replace hkey
  have hclosed : ∀ c ∈ (before ++ [key ++ ['\n']]).flatten.getLast?, isLineBreak c = true := by
    intro c hc
    rw [List.flatten_append, List.flatten_singleton, ← List.append_assoc,
      List.getLast?_concat] at hc
    cases hc
    rfl
  have htext : lineText (key ++ ['\n']) = key := by
    rw [lineText, List.takeWhile_append_of_pos fun c hc => by rw [hkey c hc]; rfl]
    exact List.append_nil key
  have hflat : (before ++ (key ++ ['\n'] ++ (s ++ ['\n'])) :: after).flatten =
      (before ++ [key ++ ['\n']] ++ (s ++ ['\n']) :: after).flatten := by
    simp only [List.flatten_append, List.flatten_cons, List.flatten_nil, List.append_assoc,
      List.nil_append]
  rw [hflat, fileLines_inserted hnew.append.1 hnew.append.2 hclosed, List.map_append,
    List.map_singleton, htext, List.append_assoc (List.map lineText before) [key],
    List.singleton_append]

end

section
variable {list_key ln indent : Line}

theorem matchBlock_eq_some (h : matchBlock list_key ln = some indent) :
    ∃ space, ln = indent ++ (list_key ++ [':']) ++ space := by
  obtain ⟨hsuffix, -⟩ := Option.filter_eq_some_iff.1 h
  refine ⟨ln.rtakeWhile isSpace, ?_⟩
  rw [← isSuffixOf?_eq_some_iff.1 hsuffix, List.rdropWhile_append_rtakeWhile]

theorem matchInline_eq_some (h : matchInline list_key ln = some indent) :
    ∃ rest, ln = indent ++ (list_key ++ [':']) ++ rest ∧ rest ≠ [] := by
  obtain ⟨line, hsuffix, hline⟩ := Option.bind_eq_some_iff.1 h
  obtain ⟨space, rfl⟩ := matchBlock_eq_some hline
  have hln := isSuffixOf?_eq_some_iff.1 hsuffix
  refine ⟨space ++ (['[', ']'] ++ ln.rtakeWhile isSpace), ?_,
    List.append_ne_nil_of_right_ne_nil _ (List.cons_ne_nil _ _)⟩
  rw [← List.append_assoc, ← List.append_assoc, ← hln, List.rdropWhile_append_rtakeWhile]

end

/-- The lines of the block behind those that are indented more than its key: from an item at the
key's own indent on. -/
def blockRest (key_indent : Nat) (after : List Line) : List Line :=
  ((after.take (blockLength key_indent after)).drop (listBody key_indent after).length).map lineText

/-- An entry goes to its place unless the file's last line, without a newline, is before it, or a
line of the block behind it. -/
theorem onlyInserts_iff (text list_key entry : List Char) (entries : List (List Char)) :
    OnlyInserts text list_key (entry :: entries) ↔
      ∀ before ln indent after, findLine (matchBlock list_key) (keepLines (universalNewlines text)) =
          some (before, ln, indent, after) →
        (∀ c ∈ (before ++ ln :: listBody indent.length after).flatten.getLast?,
          isLineBreak c = true) ∧
        fileLines (entryTexts (entry :: entries)) ++ blockRest indent.length after =
          blockRest indent.length after ++ fileLines (entryTexts (entry :: entries)) := by
  have hkeep := areLines_keepLines (no_return_universalNewlines text)
  obtain ⟨s, hs⟩ := entryTexts_ends entry entries
  cases hblock : findLine (matchBlock list_key) (keepLines (universalNewlines text)) with
  | some found =>
    obtain ⟨before, ln, indent, after⟩ := found
    obtain ⟨hlines, -⟩ := findLine_eq_some hblock
    rw [hlines] at hkeep
    have hiff := insertedLines_block_iff hkeep indent.length s
    have hnew : appendToYamlList text list_key (entry :: entries) =
        (true, (before ++ ln :: listBody indent.length after ++ entryTexts (entry :: entries) ::
          after.drop (listBody indent.length after).length).flatten) := by
      simp only [appendToYamlList, hblock]
    have hlines (E : List Line) : insertedLines text list_key E =
        some ((before ++ ln :: after.take (blockLength indent.length after)).map lineText ++ E ++
          (after.drop (blockLength indent.length after)).map lineText) := by
      simp only [insertedLines, hblock]
    constructor
    · rintro h _ _ _ _ ⟨⟩
      have heq := h.inserted (by rw [hnew])
      rw [hnew, hlines, hs] at heq
      rw [hs]
      exact hiff.1 (Option.some.inj heq)
    · intro h
      refine ⟨fun _ => ?_, fun hfalse => ?_⟩
      · have hplace := h before ln indent after rfl
        rw [hs] at hplace
        rw [hnew, hlines, hs]
        exact congrArg some (hiff.2 hplace)
      · rw [hnew] at hfalse
        cases hfalse
  | none =>
    refine iff_of_true ?_ fun before ln indent after hfound => nomatch hfound
    cases hinline : findLine (matchInline list_key) (keepLines (universalNewlines text)) with
    | some found =>
      obtain ⟨before, ln, indent, after⟩ := found
      obtain ⟨hlines, hmatch⟩ := findLine_eq_some hinline
      obtain ⟨rest, hln, hrest⟩ := matchInline_eq_some hmatch
      rw [hlines] at hkeep
      have hmem : indent ++ (list_key ++ [':']) ++ rest ∈ before ++ ln :: after :=
        List.mem_append_right _ (hln ▸ List.mem_cons_self)
      have hkey := hkeep.unbroken hmem hrest
      have hnew : appendToYamlList text list_key (entry :: entries) =
          (true, (before ++ (indent ++ (list_key ++ [':']) ++ ['\n'] ++
            entryTexts (entry :: entries)) :: after).flatten) := by
        simp only [appendToYamlList, hblock, hinline, List.append_assoc, List.cons_append,
          List.nil_append]
      constructor
      · intro _
        rw [hnew, hs, ← insertedLines_inline hkeep hkey]
        simp only [insertedLines, hblock, hinline, Option.map_some, List.append_assoc]
      · intro hfalse
        rw [hnew] at hfalse
        cases hfalse
    | none =>
      have hnew : appendToYamlList text list_key (entry :: entries) = (false, text) := by
        simp only [appendToYamlList, hblock, hinline]
      constructor
      · intro htrue
        rw [hnew] at htrue
        cases htrue
      · intro _
        rw [hnew]

/-- The entry is glued to a last line without a newline, and goes before an item at the key's own
indent. -/
theorem not_onlyInserts :
    ¬ OnlyInserts "certs:\n  - a".toList "certs".toList ["  - b".toList] ∧
      ¬ OnlyInserts "certs:\n- a\n".toList "certs".toList ["- b".toList] := by
  constructor
  · intro h
    exact absurd (h.inserted (by decide +kernel)) (by decide +kernel)
  · intro h
    exact absurd (h.inserted (by decide +kernel)) (by decide +kernel)

end ScottyCore
