import Mathlib.Data.List.TakeWhile
import ScottyCore.Lib.Search
import ScottyCore.Lib.Text

namespace ScottyCore
open Python TextSearch
set_option autoImplicit true

/-- The name of a package: letters and digits, with `.`, `-` and `_` between them. -/
structure PackageName where
  chars : List Char
  valid : ∀ c ∈ chars, c.isAlphanum = true ∨ c = '.' ∨ c = '-' ∨ c = '_'
  last : ∃ init c, chars = init ++ [c] ∧ c.isAlphanum = true

/-- What the updates use of a brand; the names of its settings and of its flag are made of the name
of the framework. -/
structure BrandConfig where
  framework_name : PackageName

namespace AutoUpdate

/-! ## The pattern of a pin -/

/-- Whether a letter of a pattern takes a character, with `re.IGNORECASE`. -/
def sameLetter (c d : Char) : Bool :=
  c.toLower = d.toLower || (c.toLower = 'k' && d = '\u212a') || (c.toLower = 's' && d = '\u017f') ||
    (c.toLower = 'i' && (d = '\u0130' || d = '\u0131'))

/-- What one character of the name takes as a pattern, where `.` stands for all but a new line. -/
def namePiece (c : Char) : Piece Char := .one fun d => if c = '.' then d ≠ '\n' else sameLetter c d

/-- What ends a reference: white space, a quote or a semicolon. -/
def isStop (c : Char) : Bool := isSpace c || c == '"' || c == '\x27' || c == ';'

/-- `<framework_name>\s*@\s*git\+[^@]+`, of `BrandConfig.pin_pattern` -/
def pinHead (name : PackageName) : List (Piece Char) :=
  name.chars.map namePiece ++ [.star isSpace, .one (· == '@'), .star isSpace,
    .one (sameLetter 'g'), .one (sameLetter 'i'), .one (sameLetter 't'), .one (· == '+'),
    .one (· ≠ '@'), .star (· ≠ '@')]

/-- `[^\s\"';]+`, the group of the pattern -/
def pinRef : List (Piece Char) := [.one (!isStop ·), .star (!isStop ·)]

/-- A match at the beginning of a text: what is before the `@` of the reference, the reference and
what follows. -/
def pinAt (name : PackageName) (text : List Char) : Option (List Char × List Char × List Char) :=
  matchThen (pinHead name) (fun
    | '@' :: rest => matchThen pinRef some rest
    | _ => none) text

/-- `re.search`: what is before the `@` of the reference, the reference and what follows. -/
def findPin (name : PackageName) (text : List Char) :
    Option (List Char × List Char × List Char) :=
  (leftmost (pinAt name) text).map fun x => (x.1 ++ x.2.1, x.2.2)

/-- `_read_current_pin`, of the file. -/
def readCurrentPin (name : PackageName) (file : List Char) : Option (List Char) :=
  (findPin name (universalNewlines file)).map fun x => x.2.1

/-- `_bump_pin`, of the file: nothing is written where nothing changes. -/
def bumpPin (current latest file : List Char) : Option (List Char) :=
  let text := universalNewlines file
  let updated := replaceFirst ('@' :: current) ('@' :: latest) text
  if updated = text then none else some updated

/-! ## What the pattern matches -/

theorem sameLetter_self (c : Char) : sameLetter c c = true := by
  simp [sameLetter]

/-- A letter or digit takes none of the characters between the parts. -/
theorem plain_of_sameLetter {c d : Char} (hc : c.isAlphanum = true) (h : sameLetter c d = true) :
    isSpace d = false ∧ d ≠ '@' := by
  have hplain : d.isAlphanum = true → isSpace d = false ∧ d ≠ '@' := by
    intro hd
    refine ⟨isSpace_of_alphanum (by rw [hd, Bool.true_or]), ?_⟩
    rintro rfl
    cases hd
  simp only [sameLetter, Bool.or_eq_true, Bool.and_eq_true, decide_eq_true_eq] at h
  rcases h with ((hsame | ⟨-, rfl⟩) | ⟨-, rfl⟩) | ⟨-, rfl | rfl⟩
  · exact hplain (isAlphanum_of_toLower_eq hc hsame)
  · decide
  · decide
  · decide
  · decide

/-- The next character after a match of the beginning is the `@` of the reference. -/
theorem separate_pinHead (name : PackageName) : Separate (· = '@') (pinHead name) := by
  have hones : ∀ (cs : List Char) (ps : List (Piece Char)), Separate (· = '@') ps →
      Separate (· = '@') (cs.map namePiece ++ ps) := by
    intro cs ps hps
    induction cs with
    | nil => exact hps
    | cons c cs ih => exact ih
  apply hones
  refine ⟨?_, ?_, ?_, trivial⟩
  · rintro c hc hat
    rw [beq_iff_eq.1 hat] at hc
    cases hc
  · intro c hc hletter
    have hspace := (plain_of_sameLetter (by decide) hletter).1
    rw [hc] at hspace
    cases hspace
  · intro c hc hat
    exact of_decide_eq_true hc hat

def IsRef (ref : List Char) : Prop := ref ≠ [] ∧ ∀ c ∈ ref, isStop c = false

theorem matches_pinRef (h : Matches pinRef ref) : IsRef ref := by
  cases h with
  | one hc hrest =>
    cases hrest with
    | star hrun hnil =>
      cases hnil with
      | nil =>
        rw [List.append_nil]
        refine ⟨List.cons_ne_nil _ _, ?_⟩
        intro d hd
        rcases List.mem_cons.1 hd with rfl | hd
        · exact Bool.not_eq_true' _ ▸ hc
        · exact Bool.not_eq_true' _ ▸ hrun d hd

theorem IsRef.matches (h : IsRef ref) : Matches pinRef ref := by
  cases ref with
  | nil => exact (h.1 rfl).elim
  | cons c ref =>
    have hrest : Matches [Piece.star (!isStop ·)] (ref ++ []) := by
      refine .star ?_ .nil
      intro d hd
      rw [h.2 d (List.mem_cons_of_mem c hd)]
      rfl
    rw [List.append_nil] at hrest
    refine .one ?_ hrest
    rw [h.2 c List.mem_cons_self]
    rfl

theorem refAt_of_isRef (href : IsRef ref) (hstop : ∀ c ∈ after.head?, isStop c = true) :
    matchThen pinRef some (ref ++ after) = some (ref, after) := by
  have hseparate : Separate (isStop · = true) pinRef := by
    refine ⟨?_, trivial⟩
    intro c hc hstop
    have hgo : isStop c = false := Bool.not_eq_true' _ ▸ hc
    cases hgo.symm.trans hstop
  exact matchThen_of_matches hseparate href.matches hstop rfl

/-- What does not begin with a stop begins with a reference. -/
theorem exists_ref {c : Char} (hgo : isStop c = false) (s : List Char) : ∃ ref after,
    c :: s = ref ++ after ∧ IsRef ref ∧ ∀ d ∈ after.head?, isStop d = true := by
  refine ⟨(c :: s).takeWhile (!isStop ·), (c :: s).dropWhile (!isStop ·),
    List.takeWhile_append_dropWhile.symm, ⟨?_, ?_⟩, ?_⟩
  · rw [List.takeWhile_cons_of_pos (by simpa using hgo)]
    exact List.cons_ne_nil _ _
  · intro d hd
    have hkept := List.mem_takeWhile_imp hd
    simpa using hkept
  · intro d hd
    simpa using head_dropWhile (!isStop ·) (c :: s) d hd

/-- The reference goes on to the next character that ends it. -/
theorem refAt_iff : matchThen pinRef some text = some (ref, after) ↔
    text = ref ++ after ∧ IsRef ref ∧ ∀ c ∈ after.head?, isStop c = true := by
  constructor
  · intro h
    obtain ⟨rest, rfl, hmatch, hrest⟩ := matches_of_matchThen h
    obtain rfl := Option.some.inj hrest
    have href := matches_pinRef hmatch
    refine ⟨rfl, href, ?_⟩
    -- What goes on the reference is part of it.
    intro c hc
    by_contra hgo
    cases rest with
    | nil => cases hc
    | cons d more =>
      obtain rfl := Option.some.inj hc
      obtain ⟨ref', after', heq, href', hstop⟩ := exists_ref (Bool.eq_false_iff.2 hgo) more
      have hlonger : IsRef (ref ++ ref') := by
        refine ⟨List.append_ne_nil_of_left_ne_nil href.1 _, ?_⟩
        intro e he
        exact (List.mem_append.1 he).elim (href.2 e) (href'.2 e)
      have hlongest := refAt_of_isRef hlonger hstop
      rw [List.append_assoc, ← heq, h] at hlongest
      have hlen := congrArg List.length (Prod.mk.inj (Option.some.inj hlongest)).1
      rw [List.length_append] at hlen
      have hpos := List.length_pos_of_ne_nil href'.1
      omega
  · rintro ⟨rfl, href, hstop⟩
    exact refAt_of_isRef href hstop

/-- A match of the pattern: the beginning, `@`, and a reference that ends there. -/
theorem pinAt_iff {name : PackageName} {text head ref after : List Char} :
    pinAt name text = some (head, ref, after) ↔
      text = head ++ '@' :: (ref ++ after) ∧ Matches (pinHead name) head ∧ IsRef ref ∧
        ∀ c ∈ after.head?, isStop c = true := by
  rw [pinAt]
  constructor
  · intro h
    obtain ⟨rest, rfl, hmatch, hrest⟩ := matches_of_matchThen h
    split at hrest
    · rename_i rest
      obtain ⟨rfl, hpin⟩ := refAt_iff.1 hrest
      exact ⟨rfl, hmatch, hpin⟩
    · cases hrest
  · rintro ⟨rfl, hmatch, hpin⟩
    apply matchThen_of_matches (separate_pinHead name) hmatch
    · intro c hc
      exact (Option.some.inj hc).symm
    · exact refAt_iff.2 ⟨rfl, hpin⟩

/-! ## The first match -/

theorem exists_of_matches_one {p : Char → Bool} {t : List Char} (h : Matches [.one p] t) :
    ∃ c, t = [c] ∧ p c = true := by
  cases h with
  | one hc hrest =>
    cases hrest with
    | nil => exact ⟨_, rfl, hc⟩

theorem length_of_name {cs t : List Char} (h : Matches (cs.map namePiece) t) :
    t.length = cs.length := by
  induction cs generalizing t with
  | nil =>
    cases h with
    | nil => rfl
  | cons c cs ih =>
    cases h with
    | one _ hrest => rw [List.length_cons, List.length_cons, ih hrest]

/-- The parts of a match: the name up to its last letter, blanks, `@`, and no other `@`. -/
theorem parts_of_pinHead {name : PackageName} (h : Matches (pinHead name) head) :
    ∃ n letter blanks rest, head = n ++ letter :: (blanks ++ '@' :: rest) ∧
      n.length + 1 = name.chars.length ∧ isSpace letter = false ∧ letter ≠ '@' ∧
      (∀ c ∈ blanks, isSpace c = true) ∧ '@' ∉ rest ∧ rest ≠ [] := by
  obtain ⟨init, last, hchars, hlast⟩ := name.last
  obtain ⟨named, tail, rfl, hnamed, htail⟩ := exists_of_matches_append h
  rw [hchars, List.map_append] at hnamed
  obtain ⟨n, t, rfl, hn, ht⟩ := exists_of_matches_append hnamed
  obtain ⟨letter, rfl, hletter⟩ := exists_of_matches_one ht
  have hdot : last ≠ '.' := by
    rintro rfl
    cases hlast
  rw [if_neg hdot] at hletter
  obtain ⟨hspace, hat⟩ := plain_of_sameLetter hlast hletter
  cases htail with
  | @star blanks _ _ _ hblanks htail =>
  cases htail with
  | one hsign htail =>
  obtain rfl := beq_iff_eq.1 hsign
  refine ⟨n, letter, blanks, _, (List.append_assoc _ _ _), ?_, hspace, hat, hblanks, ?_, ?_⟩
  · rw [hchars, List.length_append, length_of_name hn, List.length_singleton]
  · cases htail with
    | star hblanks' htail =>
    cases htail with
    | one hg htail =>
    cases htail with
    | one hi htail =>
    cases htail with
    | one ht htail =>
    cases htail with
    | one hplus htail =>
    cases htail with
    | one hurl htail =>
    cases htail with
    | star hurls htail =>
    cases htail with
    | nil =>
    intro hmem
    simp only [List.mem_append, List.mem_cons, List.append_nil] at hmem
    rcases hmem with hmem | hmem | hmem | hmem | hmem | hmem | hmem
    · cases hblanks' _ hmem
    · exact (plain_of_sameLetter (by decide) hg).2 hmem.symm
    · exact (plain_of_sameLetter (by decide) hi).2 hmem.symm
    · exact (plain_of_sameLetter (by decide) ht).2 hmem.symm
    · rw [← hmem] at hplus
      cases hplus
    · exact of_decide_eq_true hurl hmem.symm
    · exact of_decide_eq_true (hurls _ hmem) rfl
  · cases htail with
    | star hblanks' htail =>
    cases htail with
    | one hg htail => exact List.append_ne_nil_of_right_ne_nil _ (List.cons_ne_nil _ _)

/-- What has no `@` ends before the first one. -/
theorem exists_of_no_at {v t a w : List Char} (hv : '@' ∉ v) (h : v ++ '@' :: t = a ++ '@' :: w) :
    ∃ z, a ++ ['@'] = v ++ '@' :: z := by
  rcases List.append_eq_append_iff.1 h with ⟨y, rfl, hy⟩ | ⟨y, rfl, hy⟩
  · cases y with
    | nil => exact ⟨[], by rw [List.append_nil]⟩
    | cons c y =>
      obtain rfl := (List.cons.inj hy).1
      exact ⟨y ++ ['@'], by rw [List.append_assoc, List.cons_append]⟩
  · cases y with
    | nil => exact ⟨[], by rw [List.append_nil]⟩
    | cons c y =>
      obtain rfl := (List.cons.inj hy).1
      exact (hv (List.mem_append_right a List.mem_cons_self)).elim

/-- A match that begins before a name takes the `@` after that name, or one before it, for the
`@` of its reference. -/
theorem at_before_name {name : PackageName} {n mid w t next : List Char}
    (hmatch : Matches (pinHead name) head) (hlen : n.length + 1 = name.chars.length)
    (hletter : isSpace letter = false) (hat : letter ≠ '@') (hnext : next ≠ [])
    (h : next ++ (n ++ letter :: (mid ++ '@' :: w)) = head ++ '@' :: t) :
    ∃ z, next ++ (n ++ letter :: (mid ++ ['@'])) = head ++ '@' :: z := by
  obtain ⟨n', letter', blanks, rest, rfl, hlen', -, -, hblanks, hrest, -⟩ := parts_of_pinHead hmatch
  have hpos := List.length_pos_of_ne_nil hnext
  -- The name of the match ends before the last letter of the other name.
  have hsplit : (n' ++ [letter']) ++ (blanks ++ '@' :: (rest ++ '@' :: t)) =
      (next ++ n) ++ letter :: (mid ++ '@' :: w) := by
    simp only [List.append_assoc, List.cons_append] at h ⊢
    exact h.symm
  have hshort : (n' ++ [letter']).length ≤ (next ++ n).length := by
    rw [List.length_append, List.length_append, List.length_singleton]
    omega
  obtain ⟨y, hy⟩ := List.prefix_of_prefix_length_le (List.prefix_append _ _)
    (hsplit ▸ List.prefix_append (next ++ n) _) hshort
  rw [← hy, List.append_assoc (n' ++ [letter']) y] at hsplit
  have htail := List.append_cancel_left hsplit
  rcases List.append_eq_append_iff.1 htail with ⟨y', rfl, hy'⟩ | ⟨y', rfl, hy'⟩
  · cases y' with
    | nil => exact (hat (List.cons.inj hy').1.symm).elim
    | cons c y' =>
      obtain ⟨rfl, hmid⟩ := List.cons.inj hy'
      have hmid' : rest ++ '@' :: t = (y' ++ letter :: mid) ++ '@' :: w := by
        rw [List.append_assoc, List.cons_append]
        exact hmid
      obtain ⟨z, hz⟩ := exists_of_no_at hrest hmid'
      refine ⟨z, ?_⟩
      rw [List.append_assoc, List.cons_append] at hz
      rw [← List.append_assoc next, ← hy]
      simp only [List.append_assoc, List.cons_append, List.nil_append, hz]
  · cases y' with
    | nil => exact (hat (List.cons.inj hy').1).elim
    | cons c y' =>
      obtain ⟨rfl, -⟩ := List.cons.inj hy'
      have hspace := hblanks letter (List.mem_append_right y List.mem_cons_self)
      rw [hletter] at hspace
      cases hspace

theorem findPin_eq_some_iff {name : PackageName} {text before ref after : List Char} :
    findPin name text = some (before, ref, after) ↔
      ∃ begun head, before = begun ++ head ∧ text = before ++ '@' :: (ref ++ after) ∧
        Matches (pinHead name) head ∧ IsRef ref ∧ (∀ c ∈ after.head?, isStop c = true) ∧
        Unfound (pinAt name) begun (head ++ '@' :: (ref ++ after)) := by
  rw [findPin, Option.map_eq_some_iff]
  constructor
  · rintro ⟨⟨begun, head, ref', after'⟩, h, heq⟩
    obtain ⟨rfl, hpin⟩ := Prod.mk.inj heq
    obtain ⟨rfl, rfl⟩ := Prod.mk.inj hpin
    obtain ⟨found, rfl, hfound, hunfound⟩ := leftmost_eq_some_iff.1 h
    obtain ⟨rfl, hmatch, href, hstop⟩ := pinAt_iff.1 hfound
    exact ⟨begun, head, rfl, (List.append_assoc _ _ _).symm, hmatch, href, hstop, hunfound⟩
  · rintro ⟨begun, head, rfl, rfl, hmatch, href, hstop, hunfound⟩
    refine ⟨(begun, head, ref, after), ?_, rfl⟩
    rw [List.append_assoc, leftmost_eq_some_iff]
    exact ⟨_, rfl, pinAt_iff.2 ⟨rfl, hmatch, href, hstop⟩, hunfound⟩

/-- With another reference in its place, the pin is found at the same place. -/
theorem findPin_replace {name : PackageName} {text before ref after : List Char}
    (h : findPin name text = some (before, ref, after)) (href' : IsRef ref') :
    findPin name (before ++ '@' :: (ref' ++ after)) = some (before, ref', after) := by
  obtain ⟨begun, head, rfl, -, hmatch, -, hstop, hunfound⟩ := findPin_eq_some_iff.1 h
  refine findPin_eq_some_iff.2 ⟨begun, head, rfl, rfl, hmatch, href', hstop, ?_⟩
  intro begun' next hbegun hne
  by_contra hfound
  obtain ⟨⟨head', ref₁, after₁⟩, hpin⟩ := Option.ne_none_iff_exists'.1 hfound
  obtain ⟨heq, hmatch', href₁, -⟩ := pinAt_iff.1 hpin
  obtain ⟨n, letter, blanks, rest, rfl, hlen, hletter, hat, -, -, hrest⟩ := parts_of_pinHead hmatch
  have hsplit : next ++ (n ++ letter :: (blanks ++ '@' :: (rest ++ '@' :: (ref' ++ after)))) =
      head' ++ '@' :: (ref₁ ++ after₁) := by
    rw [← heq]
    simp only [List.append_assoc, List.cons_append]
  obtain ⟨z, hz⟩ := at_before_name hmatch' hlen hletter hat hne hsplit
  have htext : ∀ t, next ++ (n ++ letter :: (blanks ++ '@' :: rest) ++ '@' :: t) =
      head' ++ '@' :: ((z ++ rest) ++ '@' :: t) := by
    intro t
    have hz' := congrArg (· ++ (rest ++ '@' :: t)) hz
    simpa only [List.append_assoc, List.cons_append, List.nil_append] using hz'
  -- What the match would take for its reference begins before the change.
  cases hv : z ++ rest with
  | nil => exact hrest (List.append_eq_nil_iff.1 hv).2
  | cons c v =>
    simp only [hv, List.cons_append] at htext
    rw [htext] at heq
    have hgo : isStop c = false := by
      have htail := (List.cons.inj (List.append_cancel_left heq)).2
      cases ref₁ with
      | nil => exact (href₁.1 rfl).elim
      | cons d ref₁ =>
        obtain ⟨rfl, -⟩ := List.cons.inj htail
        exact href₁.2 _ List.mem_cons_self
    obtain ⟨ref₂, after₂, hold, href₂, hstop₂⟩ := exists_ref hgo (v ++ '@' :: (ref ++ after))
    have hfirst := hunfound begun' next hbegun hne
    rw [htext, pinAt_iff.2 ⟨congrArg (head' ++ '@' :: ·) hold, hmatch', href₂, hstop₂⟩] at hfirst
    cases hfirst

/-! ## The bump -/

theorem not_mem_replace {c d : Char} {before current latest after : List Char}
    (h : c ∉ before ++ d :: (current ++ after)) (hlatest : c ∉ latest) :
    c ∉ before ++ d :: (latest ++ after) := by
  simp only [List.mem_append, List.mem_cons, not_or] at h ⊢
  exact ⟨h.1, h.2.1, hlatest, h.2.2.2⟩

theorem bumpPin_universalNewlines (current latest file : List Char) :
    bumpPin current latest (universalNewlines file) = bumpPin current latest file := by
  rw [bumpPin, universalNewlines_of_plain (no_return_universalNewlines file)]
  rfl

theorem bumpPin_of_unfound {before current latest after : List Char}
    (hfile : '\r' ∉ before ++ '@' :: (current ++ after))
    (hfirst : Unfound (stripPrefix ('@' :: current)) before ('@' :: (current ++ after)))
    (hnew : latest ≠ current) :
    bumpPin current latest (before ++ '@' :: (current ++ after)) =
      some (before ++ '@' :: (latest ++ after)) := by
  have hreplaced : replaceFirst ('@' :: current) ('@' :: latest)
      (before ++ '@' :: (current ++ after)) = before ++ '@' :: (latest ++ after) := by
    have h : replaceFirst ('@' :: current) ('@' :: latest) (before ++ (('@' :: current) ++ after)) =
        before ++ ('@' :: latest) ++ after := replaceFirst_of_unfound hfirst
    rwa [List.append_assoc] at h
  rw [bumpPin, universalNewlines_of_plain hfile, hreplaced]
  apply if_neg
  intro hsame
  have htail := (List.cons.inj (List.append_cancel_left hsame)).2
  exact hnew (List.append_cancel_right htail)

/-- A bump puts the tag in the place of the first text that reads as the reference. -/
theorem exists_of_bumpPin {current latest file updated : List Char}
    (h : bumpPin current latest file = some updated) : ∃ before after,
      universalNewlines file = before ++ '@' :: (current ++ after) ∧
      updated = before ++ '@' :: (latest ++ after) ∧
      Unfound (stripPrefix ('@' :: current)) before ('@' :: (current ++ after)) := by
  rw [bumpPin] at h
  split at h
  · cases h
  rename_i hchanged
  obtain rfl := Option.some.inj h
  rw [replaceFirst] at hchanged ⊢
  split at hchanged
  · rename_i before after hfirst
    obtain ⟨found, htext, hfound, hunfound⟩ := leftmost_eq_some_iff.1 hfirst
    obtain rfl := stripPrefix_eq_some_iff.1 hfound
    exact ⟨before, after, htext, List.append_assoc _ _ _, hunfound⟩
  · exact (hchanged rfl).elim

end AutoUpdate

end ScottyCore
