import ScottyCore.AutoUpdate.Pins

namespace ScottyCore.AutoUpdate
open Python TextSearch
set_option autoImplicit true

def gitPlus : List Char := ['g', 'i', 't', '+']

/-- A dependency of the file named as the framework and pinned by a git URL. -/
structure PinnedDependency (name : PackageName) where
  before : List Char
  quoted : ∃ init q, before = init ++ [q] ∧ (q = '"' ∨ q = '\x27')
  extras : List Char
  extras_eq : extras = [] ∨ ∃ blanks inner, extras = blanks ++ '[' :: (inner ++ [']']) ∧
    (∀ c ∈ blanks, c = ' ' ∨ c = '\t') ∧
    ∀ c ∈ inner, c.isAlphanum = true ∨ c = '.' ∨ c = '-' ∨ c = '_' ∨ c = ',' ∨ c = ' ' ∨ c = '\t'
  blanks : List Char
  blanks_eq : ∀ c ∈ blanks, c = ' ' ∨ c = '\t'
  blanks' : List Char
  blanks'_eq : ∀ c ∈ blanks', c = ' ' ∨ c = '\t'
  url : List Char
  url_ne : url ≠ []
  url_plain : ∀ c ∈ url, isSpace c = false ∧ c ≠ '"' ∧ c ≠ '\x27'
  ref : List Char
  ref_ne : ref ≠ []
  ref_plain : ∀ c ∈ ref, isSpace c = false ∧ c ≠ '"' ∧ c ≠ '\x27' ∧ c ≠ '@' ∧ c ≠ '#'
  fragment : List Char
  fragment_eq : fragment = [] ∨ ∃ rest, fragment = '#' :: rest ∧
    ∀ c ∈ rest, isSpace c = false ∧ c ≠ '"' ∧ c ≠ '\x27'
  after : List Char
  ended : ∃ c rest, after = c :: rest ∧ (isSpace c = true ∨ c = '"' ∨ c = '\x27')

/-- A tag without whitespace or quotes. -/
def IsTag (tag : List Char) : Prop :=
  tag ≠ [] ∧ ∀ c ∈ tag, isSpace c = false ∧ c ≠ '"' ∧ c ≠ '\x27'

namespace PinnedDependency

variable {name : PackageName}

/-- The dependency up to the `@` of its reference. -/
def requirement (d : PinnedDependency name) : List Char :=
  name.chars ++ (d.extras ++ d.blanks) ++ '@' :: (d.blanks' ++ gitPlus ++ d.url)

/-- The file with the dependency pinned at a reference. -/
def pinnedAt (d : PinnedDependency name) (ref : List Char) : List Char :=
  d.before ++ d.requirement ++ '@' :: (ref ++ (d.fragment ++ d.after))

def file (d : PinnedDependency name) : List Char := d.pinnedAt d.ref

theorem file_eq (d : PinnedDependency name) :
    d.file = d.before ++ d.requirement ++ '@' :: (d.ref ++ (d.fragment ++ d.after)) :=
  rfl

/-- The bump to a tag edits just the reference of the dependency. -/
structure EditsOnlyPin (d : PinnedDependency name) (tag : List Char) : Prop where
  reads : readCurrentPin name d.file = some d.ref
  edits : bumpPin d.ref tag d.file = some (d.pinnedAt tag)
  readsBack : readCurrentPin name (d.pinnedAt tag) = some tag

/-- The pattern and the replaced text come first where the dependency is. -/
structure PinReached (d : PinnedDependency name) : Prop where
  newlines : '\r' ∉ d.file
  matched : ∃ begun head, d.requirement = begun ++ head ∧ Matches (pinHead name) head ∧
    Unfound (pinAt name) (d.before ++ begun) (head ++ '@' :: (d.ref ++ d.after))
  fragment : d.fragment = []
  reference : ';' ∉ d.ref
  replaced : Unfound (stripPrefix ('@' :: d.ref)) (d.before ++ d.requirement)
    ('@' :: (d.ref ++ d.after))

/-- A requirement without extras whose URL has no `@` begins as the pattern does. -/
theorem matches_requirement (d : PinnedDependency name) (hextras : d.extras = [])
    (hurl : '@' ∉ d.url) : Matches (pinHead name) d.requirement := by
  have hblank : ∀ c : Char, c = ' ' ∨ c = '\t' → isSpace c = true := by
    rintro c (rfl | rfl)
    · decide
    · decide
  have hname : ∀ cs : List Char, (∀ c ∈ cs, c ∈ name.chars) → Matches (cs.map namePiece) cs := by
    intro cs hcs
    induction cs with
    | nil => exact .nil
    | cons c cs ih =>
      apply Matches.one _ (ih fun d hd => hcs d (List.mem_cons_of_mem c hd))
      split
      · rename_i hdot
        rw [hdot]
        rfl
      · exact sameLetter_self c
  have hat : ∀ c ∈ d.url, decide (c ≠ '@') = true := by
    intro c hc
    apply decide_eq_true
    rintro rfl
    exact hurl hc
  rw [requirement, hextras, List.nil_append, List.append_assoc]
  apply matches_append (hname _ fun _ h => h)
  apply Matches.star fun c hc => hblank c (d.blanks_eq c hc)
  apply Matches.one rfl
  rw [List.append_assoc]
  apply Matches.star fun c hc => hblank c (d.blanks'_eq c hc)
  apply Matches.one (sameLetter_self 'g')
  apply Matches.one (sameLetter_self 'i')
  apply Matches.one (sameLetter_self 't')
  apply Matches.one rfl
  cases hd : d.url with
  | nil => exact (d.url_ne hd).elim
  | cons c rest =>
    rw [hd] at hat
    have hrest : Matches [Piece.star fun e => decide (e ≠ '@')] (rest ++ []) :=
      .star (fun e he => hat e (List.mem_cons_of_mem c he)) .nil
    rw [List.append_nil] at hrest
    exact .one (hat c List.mem_cons_self) hrest

variable {d : PinnedDependency name} {tag : List Char}

theorem stop_after (d : PinnedDependency name) : ∀ c ∈ d.after.head?, isStop c = true := by
  obtain ⟨c, rest, hafter, hstop⟩ := d.ended
  rw [hafter]
  intro e he
  obtain rfl := Option.some.inj he
  rcases hstop with h | rfl | rfl
  · rw [isStop, h]
    rfl
  · decide
  · decide

theorem isRef_of_plain {ref : List Char} (hne : ref ≠ [])
    (hplain : ∀ c ∈ ref, isSpace c = false ∧ c ≠ '"' ∧ c ≠ '\x27') (hsemi : ';' ∉ ref) :
    IsRef ref := by
  refine ⟨hne, ?_⟩
  intro c hc
  obtain ⟨hspace, hdouble, hsingle⟩ := hplain c hc
  have hne : c ≠ ';' := by
    rintro rfl
    exact hsemi hc
  simp [isStop, hspace, hdouble, hsingle, hne]

theorem no_return_of_plain {s : List Char} (h : ∀ c ∈ s, isSpace c = false ∧ c ≠ '"' ∧ c ≠ '\x27') :
    '\r' ∉ s := by
  intro hmem
  exact absurd (h '\r' hmem).1 (by decide)

theorem isRef_ref (d : PinnedDependency name) (hsemi : ';' ∉ d.ref) : IsRef d.ref :=
  isRef_of_plain d.ref_ne (fun c hc => ⟨(d.ref_plain c hc).1, (d.ref_plain c hc).2.1,
    (d.ref_plain c hc).2.2.1⟩) hsemi

theorem no_return_pinnedAt {ref ref' : List Char} (h : '\r' ∉ d.pinnedAt ref) (href : '\r' ∉ ref') :
    '\r' ∉ d.pinnedAt ref' :=
  not_mem_replace h href

theorem PinReached.findPin (h : d.PinReached) : findPin name d.file =
    some (d.before ++ d.requirement, d.ref, d.after) := by
  obtain ⟨begun, head, hreq, hmatch, hunfound⟩ := h.matched
  apply findPin_eq_some_iff.2
  refine ⟨d.before ++ begun, head, ?_, ?_, hmatch, d.isRef_ref h.reference, d.stop_after, hunfound⟩
  · rw [hreq, List.append_assoc]
  · rw [file, pinnedAt, h.fragment, List.nil_append]

theorem PinReached.editsOnlyPin (h : d.PinReached) (htag : IsTag tag) (hsemi : ';' ∉ tag)
    (hnew : tag ≠ d.ref) : d.EditsOnlyPin tag where
  reads := by rw [readCurrentPin, universalNewlines_of_plain h.newlines, h.findPin, Option.map_some]
  edits := by
    have hfile := h.newlines
    rw [file, pinnedAt, h.fragment, List.nil_append] at hfile
    rw [file, pinnedAt, pinnedAt, h.fragment, List.nil_append]
    exact bumpPin_of_unfound hfile h.replaced hnew
  readsBack := by
    have hreturn := no_return_pinnedAt h.newlines (no_return_of_plain htag.2)
    have hfound := findPin_replace h.findPin (isRef_of_plain htag.1 htag.2 hsemi)
    rw [readCurrentPin, universalNewlines_of_plain hreturn, pinnedAt, h.fragment, List.nil_append,
      hfound, Option.map_some]

/-! ## What the law says of the places -/

theorem length_le_of_no_at {t b y w : List Char} (ht : '@' ∉ t) (h : t ++ b = y ++ '@' :: w) :
    t.length ≤ y.length := by
  rcases List.append_eq_append_iff.1 h with ⟨z, rfl, -⟩ | ⟨z, rfl, hz⟩
  · rw [List.length_append]
    omega
  · cases z with
    | nil => rw [List.append_nil]
    | cons c z =>
      obtain rfl := (List.cons.inj hz).1
      exact (ht (List.mem_append_right y List.mem_cons_self)).elim

/-- A long text without `@` tells its place. -/
theorem same_place {a b c w t : List Char} (ht : '@' ∉ t)
    (h : a ++ '@' :: (t ++ b) = c ++ '@' :: (t ++ w)) (hac : a.length ≤ c.length + t.length)
    (hca : c.length ≤ a.length + t.length) : a = c := by
  rcases List.append_eq_append_iff.1 h with ⟨z, rfl, hz⟩ | ⟨z, rfl, hz⟩
  · cases z with
    | nil => rw [List.append_nil]
    | cons e z =>
      have hlen := length_le_of_no_at ht (List.cons.inj hz).2
      rw [List.length_append, List.length_cons] at hca
      omega
  · cases z with
    | nil => rw [List.append_nil]
    | cons e z =>
      have hlen := length_le_of_no_at ht (List.cons.inj hz).2
      rw [List.length_append, List.length_cons] at hac
      omega

theorem EditsOnlyPin.newlines (h : d.EditsOnlyPin tag) (htag : IsTag tag) : '\r' ∉ d.file := by
  obtain ⟨before, after, htext, hupdated, -⟩ := exists_of_bumpPin h.edits
  have hclean := no_return_universalNewlines d.file
  rw [htext] at hclean
  have hnew : '\r' ∉ d.pinnedAt tag := by
    rw [hupdated]
    exact not_mem_replace hclean (no_return_of_plain htag.2)
  apply no_return_pinnedAt hnew
  intro hmem
  exact absurd (d.ref_plain '\r' hmem).1 (by decide)

section Long

variable (hlong : d.file.length < tag.length) (hat : '@' ∉ tag)
include hlong hat

/-- The text of the reference is replaced at its own place. -/
theorem EditsOnlyPin.replaced (h : d.EditsOnlyPin tag) (htag : IsTag tag) :
    Unfound (stripPrefix ('@' :: d.ref)) (d.before ++ d.requirement)
      ('@' :: (d.ref ++ (d.fragment ++ d.after))) := by
  obtain ⟨before, after, htext, hupdated, hunfound⟩ := exists_of_bumpPin h.edits
  rw [universalNewlines_of_plain (h.newlines htag)] at htext
  have hfile := congrArg List.length htext
  have hdep := congrArg List.length d.file_eq
  rw [List.length_append] at hfile hdep
  obtain rfl : d.before ++ d.requirement = before := by
    apply same_place hat hupdated
    · omega
    · omega
  have htail := List.append_cancel_left (d.file_eq.symm.trans htext)
  rw [htail]
  exact hunfound

/-- The tag is read back at the place of the reference. -/
theorem EditsOnlyPin.findPin_tag (h : d.EditsOnlyPin tag) (htag : IsTag tag) :
    findPin name (d.pinnedAt tag) =
      some (d.before ++ d.requirement, tag, d.fragment ++ d.after) := by
  have hback := h.readsBack
  rw [readCurrentPin, universalNewlines_of_plain (no_return_pinnedAt (h.newlines htag)
    (no_return_of_plain htag.2)), Option.map_eq_some_iff] at hback
  obtain ⟨⟨before, ref, after⟩, hfound, heq⟩ := hback
  obtain rfl : tag = ref := heq.symm
  obtain ⟨-, -, -, htext, -⟩ := findPin_eq_some_iff.1 hfound
  have hdep := congrArg List.length d.file_eq
  have hlen := congrArg List.length htext
  rw [pinnedAt] at htext hlen
  simp only [List.length_append, List.length_cons] at hdep hlen
  obtain rfl : d.before ++ d.requirement = before := by
    apply same_place hat htext
    · simp only [List.length_append]
      omega
    · simp only [List.length_append]
      omega
  have htail := (List.cons.inj (List.append_cancel_left htext)).2
  rw [hfound, List.append_cancel_left htail]

theorem EditsOnlyPin.pinReached (h : d.EditsOnlyPin tag) (htag : IsTag tag) : d.PinReached := by
  have hstopped := h.findPin_tag hlong hat htag
  obtain ⟨-, -, -, -, -, -, hstop, -⟩ := findPin_eq_some_iff.1 hstopped
  have hfragment : d.fragment = [] := by
    rcases d.fragment_eq with hnone | ⟨rest, hrest, -⟩
    · exact hnone
    · rw [hrest] at hstop
      exact absurd (hstop '#' rfl) (by decide)
  rw [hfragment, List.nil_append] at hstopped
  have hread := h.reads
  rw [readCurrentPin, Option.map_eq_some_iff] at hread
  obtain ⟨⟨before₁, ref₁, after₁⟩, hfound₁, heq₁⟩ := hread
  obtain rfl : d.ref = ref₁ := heq₁.symm
  obtain ⟨-, -, -, -, -, href, -, -⟩ := findPin_eq_some_iff.1 hfound₁
  -- The pin of the file is where the tag is read back.
  have hfound := findPin_replace hstopped href
  obtain ⟨begun, head, hplace, -, hmatch, -, -, hunfound⟩ := findPin_eq_some_iff.1 hfound
  have hreplaced := h.replaced hlong hat htag
  rw [hfragment, List.nil_append] at hreplaced
  refine ⟨h.newlines htag, ?_, hfragment, fun hsemi => ?_, hreplaced⟩
  · rcases List.append_eq_append_iff.1 hplace with ⟨begun', rfl, hreq⟩ | ⟨next, hbefore, rfl⟩
    · exact ⟨begun', head, hreq, hmatch, hunfound⟩
    · cases next with
      | nil =>
        rw [List.append_nil] at hbefore
        subst hbefore
        refine ⟨[], d.requirement, rfl, hmatch, ?_⟩
        rwa [List.append_nil]
      | cons q next =>
        -- A match that begins before the dependency ends before the `@` of its URL.
        obtain ⟨init, last, hname, hlast⟩ := name.last
        have hletter := plain_of_sameLetter hlast (sameLetter_self last)
        have hsplit : q :: next ++ (init ++ last :: ((d.extras ++ d.blanks) ++
            '@' :: (d.blanks' ++ gitPlus ++ d.url ++ '@' :: []))) =
            q :: next ++ d.requirement ++ '@' :: [] := by
          rw [requirement, hname]
          simp only [List.append_assoc, List.cons_append, List.nil_append]
        obtain ⟨z, hz⟩ := at_before_name hmatch (by rw [hname, List.length_append]; rfl) hletter.1
          hletter.2 (List.cons_ne_nil q next) hsplit
        have hlen := congrArg List.length hz
        rw [requirement, hname] at hlen
        simp only [List.length_append, List.length_cons, List.length_nil] at hlen
        omega
  · exact absurd (href.2 ';' hsemi) (by decide)

end Long

/-- A tag with a semicolon is never read back. -/
theorem EditsOnlyPin.no_semicolon (h : d.EditsOnlyPin tag) : ';' ∉ tag := by
  intro hsemi
  have hback := h.readsBack
  rw [readCurrentPin, Option.map_eq_some_iff] at hback
  obtain ⟨⟨before, ref, after⟩, hfound, rfl⟩ := hback
  obtain ⟨-, -, -, -, -, href, -⟩ := findPin_eq_some_iff.1 hfound
  exact absurd (href.2 ';' hsemi) (by decide)

/-- The bumps edit only the pin exactly where the pattern and the text of the reference are found
there first. -/
theorem edits_only_pin_iff (name : PackageName) (d : PinnedDependency name) :
    ((∀ tag, IsTag tag → ';' ∉ tag → tag ≠ d.ref → d.EditsOnlyPin tag) ↔ d.PinReached) ∧
      ∀ tag, IsTag tag → ';' ∈ tag → ¬ d.EditsOnlyPin tag := by
  refine ⟨⟨?_, ?_⟩, ?_⟩
  · intro h
    have hzero : ∀ c ∈ List.replicate (d.file.length + 1) '0', c = '0' :=
      fun c hc => List.eq_of_mem_replicate hc
    have htag : IsTag (List.replicate (d.file.length + 1) '0') := by
      refine ⟨List.cons_ne_nil _ _, ?_⟩
      intro c hc
      rw [hzero c hc]
      decide
    have hlong : d.file.length < (List.replicate (d.file.length + 1) '0').length := by
      rw [List.length_replicate]
      exact Nat.lt_succ_self _
    have hsemi : ';' ∉ List.replicate (d.file.length + 1) '0' :=
      fun hmem => absurd (hzero ';' hmem) (by decide)
    have hat : '@' ∉ List.replicate (d.file.length + 1) '0' :=
      fun hmem => absurd (hzero '@' hmem) (by decide)
    refine (h _ htag hsemi ?_).pinReached hlong hat htag
    intro heq
    have hlen := congrArg List.length heq
    rw [List.length_replicate, file, pinnedAt] at hlen
    simp only [List.length_append, List.length_cons] at hlen
    omega
  · intro h tag htag hsemi hnew
    exact h.editsOnlyPin htag hsemi hnew
  · intro tag _ hsemi h
    exact h.no_semicolon hsemi

end PinnedDependency

def frameworkName : PackageName where
  chars := "scottycore".toList
  valid := forall_mem_of_all (by decide +kernel)
  last := ⟨"scottycor".toList, 'e', by decide +kernel⟩

/-- A list of dependencies that ends with the framework, after another one. -/
def pinnedAfter (other ref : List Char) (href_ne : ref ≠ [])
    (href : ∀ c ∈ ref, isSpace c = false ∧ c ≠ '"' ∧ c ≠ '\x27' ∧ c ≠ '@' ∧ c ≠ '#') :
    PinnedDependency frameworkName where
  before := other ++ ['"']
  quoted := ⟨other, '"', rfl, .inl rfl⟩
  extras := []
  extras_eq := .inl rfl
  blanks := [' ']
  blanks_eq := forall_mem_of_all (by decide)
  blanks' := [' ']
  blanks'_eq := forall_mem_of_all (by decide)
  url := "https://github.com/scrampker/scottycore.git".toList
  url_ne := by decide +kernel
  url_plain := forall_mem_of_all (by decide +kernel)
  ref := ref
  ref_ne := href_ne
  ref_plain := href
  fragment := []
  fragment_eq := .inl rfl
  after := "\"]\n".toList
  ended := ⟨'"', [']', '\n'], by decide +kernel, .inr (.inl rfl)⟩

/-- A file whose only pin is that of the framework. -/
def plainPin : PinnedDependency frameworkName :=
  pinnedAfter "dependencies = [\"httpx\", ".toList "v1.2.3".toList (by decide +kernel)
    (forall_mem_of_all (by decide +kernel))

/-- A file where another dependency is pinned at a reference that begins with that of the
framework. -/
def sharedPin : PinnedDependency frameworkName :=
  pinnedAfter "dependencies = [\"kit @ git+https://github.com/scrampker/kit.git@v1.0.5\", ".toList
    "v1.0".toList (by decide +kernel) (forall_mem_of_all (by decide +kernel))

theorem plainPin_reached : plainPin.PinReached := by
  have hfound : leftmost (pinAt frameworkName) plainPin.file =
      some (plainPin.before, plainPin.requirement, plainPin.ref, plainPin.after) := by
    decide +kernel
  have hreplaced : leftmost (stripPrefix ('@' :: plainPin.ref)) plainPin.file =
      some (plainPin.before ++ plainPin.requirement, plainPin.after) := by
    decide +kernel
  obtain ⟨found, -, hpin, hunfound⟩ := leftmost_eq_some_iff.1 hfound
  obtain ⟨rfl, hmatch, -⟩ := pinAt_iff.1 hpin
  obtain ⟨rest, -, hrest, hfirst⟩ := leftmost_eq_some_iff.1 hreplaced
  obtain rfl := stripPrefix_eq_some_iff.1 hrest
  have hmatched : Unfound (pinAt frameworkName) (plainPin.before ++ [])
      (plainPin.requirement ++ '@' :: (plainPin.ref ++ plainPin.after)) := by
    rw [List.append_nil]
    exact hunfound
  exact ⟨by decide +kernel, ⟨[], _, rfl, hmatch, hmatched⟩, rfl, by decide +kernel, hfirst⟩

theorem plain_pin_edited : ∀ tag, IsTag tag → ';' ∉ tag → tag ≠ plainPin.ref →
    plainPin.EditsOnlyPin tag :=
  (PinnedDependency.edits_only_pin_iff frameworkName plainPin).1.2 plainPin_reached

/-- The bump edits the other dependency. -/
theorem other_pin_edited : readCurrentPin frameworkName sharedPin.file = some "v1.0".toList ∧
    bumpPin "v1.0".toList "v1.1".toList sharedPin.file = some ("dependencies = [".toList ++
      "\"kit @ git+https://github.com/scrampker/kit.git@v1.1.5\", ".toList ++
      "\"scottycore @ git+https://github.com/scrampker/scottycore.git@v1.0\"]\n".toList) ∧
    ¬ sharedPin.EditsOnlyPin "v1.1".toList := by
  refine ⟨by decide +kernel, by decide +kernel, ?_⟩
  intro h
  have hedits := h.edits
  revert hedits
  decide +kernel

end ScottyCore.AutoUpdate
