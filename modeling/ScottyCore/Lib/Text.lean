import Mathlib.Algebra.Group.Nat.Defs
import Mathlib.Data.List.TakeWhile

namespace Python
set_option autoImplicit true

/-- `str.isspace` of one character. -/
def isSpace (c : Char) : Bool :=
  (9 ≤ c.toNat ∧ c.toNat ≤ 13) ∨ (28 ≤ c.toNat ∧ c.toNat ≤ 32) ∨ c.toNat = 0x85 ∨
    c.toNat = 0xa0 ∨ c.toNat = 0x1680 ∨ (0x2000 ≤ c.toNat ∧ c.toNat ≤ 0x200a) ∨
    c.toNat = 0x2028 ∨ c.toNat = 0x2029 ∨ c.toNat = 0x202f ∨ c.toNat = 0x205f ∨ c.toNat = 0x3000

theorem isSpace_of_alphanum (h : (c.isAlphanum || c == '_') = true) : isSpace c = false := by
  have hrange : 33 ≤ c.toNat ∧ c.toNat < 127 := by
    rw [Bool.or_eq_true, beq_iff_eq] at h
    rcases h with h | rfl
    · have hval : c.val.toNat = c.toNat := rfl
      have hranges : c.isAlphanum = ((decide (c.val ≥ 'A'.val ∧ c.val ≤ 'Z'.val) ||
          (decide (c.val ≥ 'a'.val) && decide (c.val ≤ 'z'.val))) ||
          (decide (c.val ≥ '0'.val) && decide (c.val ≤ '9'.val))) := rfl
      rw [hranges] at h
      simp only [Bool.or_eq_true, Bool.and_eq_true, decide_eq_true_eq, UInt32.le_iff_toNat_le,
        ge_iff_le, hval, Char.reduceVal, UInt32.reduceToNat] at h
      omega
    · decide
  rw [isSpace, decide_eq_false_iff_not]
  omega

theorem toLower_cases (c : Char) :
    (c.isUpper = true ∧ c.toLower.isLower = true) ∨ c.toLower = c := by
  by_cases h : c.val ≥ 'A'.val ∧ c.val ≤ 'Z'.val
  · have hval : c.toLower.val = c.val + ('a'.val - 'A'.val) := congrArg Char.val (dif_pos h)
    have hlower : c.toLower.isLower =
        (decide (c.toLower.val ≥ 'a'.val) && decide (c.toLower.val ≤ 'z'.val)) := rfl
    refine .inl ⟨decide_eq_true h, ?_⟩
    rw [hlower, hval, Bool.and_eq_true, decide_eq_true_iff, decide_eq_true_iff]
    simp only [ge_iff_le, UInt32.le_iff_toNat_le, UInt32.toNat_add, UInt32.toNat_sub,
      Char.reduceVal, UInt32.reduceToNat] at h ⊢
    omega
  · exact .inr (dif_neg h)

theorem not_isUpper_of_isLower {c : Char} (h : c.isLower = true) : c.isUpper = false := by
  have hlower : c.isLower = (decide (c.val ≥ 'a'.val) && decide (c.val ≤ 'z'.val)) := rfl
  rw [hlower, Bool.and_eq_true, decide_eq_true_iff, decide_eq_true_iff] at h
  apply decide_eq_false
  rintro ⟨-, hz⟩
  simp only [ge_iff_le, UInt32.le_iff_toNat_le, Char.reduceVal, UInt32.reduceToNat] at h hz
  omega

theorem toLower_toLower (c : Char) : c.toLower.toLower = c.toLower := by
  rcases toLower_cases c with ⟨-, hlower⟩ | hsame
  · rcases toLower_cases c.toLower with ⟨hupper, -⟩ | hsame
    · rw [not_isUpper_of_isLower hlower] at hupper
      cases hupper
    · exact hsame
  · rw [hsame, hsame]

/-- The characters that differ in their case only are alike. -/
theorem isAlphanum_of_toLower_eq {c d : Char} (hc : c.isAlphanum = true)
    (h : c.toLower = d.toLower) : d.isAlphanum = true := by
  have hranges : ∀ c : Char, c.isAlphanum = ((c.isUpper || c.isLower) || c.isDigit) := fun _ => rfl
  rcases toLower_cases d with ⟨hupper, -⟩ | hd
  · rw [hranges, hupper]
    rfl
  · rcases toLower_cases c with ⟨-, hlower⟩ | hsame
    · rw [h, hd] at hlower
      rw [hranges, hlower, Bool.or_true]
      rfl
    · rwa [← hd, ← h, hsame]

def strip (s : String) : String :=
  String.ofList ((s.toList.dropWhile isSpace).reverse.dropWhile isSpace).reverse

/-- A 128-bit UUID. -/
structure Uuid where
  value : BitVec 128
  deriving DecidableEq

namespace Uuid

def hexDigits (n : Nat) : Nat → List Char
  | 0 => []
  | count + 1 => Nat.digitChar (n / 16 ^ count % 16) :: hexDigits n count

/-- `str(u)` -/
def str (u : Uuid) : String :=
  let d := hexDigits u.value.toNat 32
  String.ofList (d.take 8 ++ '-' :: (d.drop 8).take 4 ++ '-' :: (d.drop 12).take 4 ++
    '-' :: (d.drop 16).take 4 ++ '-' :: d.drop 20)

/-- `u.version` -/
def version (u : Uuid) : Nat := u.value.toNat / 16 ^ 19 % 16

/-! ### Reading a UUID -/

/-- `s.replace(pattern, "")`, after skipping what is left of a removed occurrence. -/
def removeText (pattern : List Char) : Nat → List Char → List Char
  | _, [] => []
  | k + 1, _ :: s => removeText pattern k s
  | 0, c :: s =>
    if pattern.isPrefixOf (c :: s) then removeText pattern (pattern.length - 1) s
    else c :: removeText pattern 0 s

def trim (p : Char → Bool) (s : List Char) : List Char :=
  ((s.dropWhile p).reverse.dropWhile p).reverse

/-- The decimal zeros above ASCII. -/
def decimalZeros : List Nat :=
  [0x660, 0x6f0, 0x7c0, 0x966, 0x9e6, 0xa66, 0xae6, 0xb66, 0xbe6, 0xc66, 0xce6, 0xd66, 0xde6,
    0xe50, 0xed0, 0xf20, 0x1040, 0x1090, 0x17e0, 0x1810, 0x1946, 0x19d0, 0x1a80, 0x1a90, 0x1b50,
    0x1bb0, 0x1c40, 0x1c50, 0xa620, 0xa8d0, 0xa900, 0xa9d0, 0xa9f0, 0xaa50, 0xabf0, 0xff10,
    0x104a0, 0x10d30, 0x11066, 0x110f0, 0x11136, 0x111d0, 0x112f0, 0x11450, 0x114d0, 0x11650,
    0x116c0, 0x11730, 0x118e0, 0x11950, 0x11c50, 0x11d50, 0x11da0, 0x11f50, 0x16a60, 0x16ac0,
    0x16b50, 0x1d7ce, 0x1d7d8, 0x1d7e2, 0x1d7ec, 0x1d7f6, 0x1e140, 0x1e2f0, 0x1e4f0, 0x1e950,
    0x1fbf0]

/-- The value of a digit in base 16. -/
def digitValue (c : Char) : Option Nat :=
  if '0' ≤ c ∧ c ≤ '9' then some (c.toNat - '0'.toNat)
  else if 'a' ≤ c ∧ c ≤ 'f' then some (c.toNat - 'a'.toNat + 10)
  else if 'A' ≤ c ∧ c ≤ 'F' then some (c.toNat - 'A'.toNat + 10)
  else decimalZeros.findSome? fun z =>
    if z ≤ c.toNat ∧ c.toNat < z + 10 then some (c.toNat - z) else none

def digitsValue : (acc : Nat) → (after_digit : Bool) → List Char → Option Nat
  | acc, after_digit, [] => if after_digit then some acc else none
  | acc, after_digit, c :: s =>
    if c = '_' then if after_digit then digitsValue acc false s else none
    else (digitValue c).bind fun d => digitsValue (16 * acc + d) true s

/-- `int(s, 16)` of a text without a minus sign. -/
def parseHex (s : List Char) : Option Nat :=
  let s := trim (fun c => (9 ≤ c.toNat ∧ c.toNat ≤ 13) ∨ c = ' ' ∨ (127 < c.toNat ∧ isSpace c)) s
  match if s.head? = some '+' then s.tail else s with
  | '0' :: 'x' :: s | '0' :: 'X' :: s =>
    digitsValue 0 false (if s.head? = some '_' then s.tail else s)
  | s => digitsValue 0 false s

/-- `UUID(s)`, where it does not raise. -/
def parse (s : String) : Option Uuid :=
  let hex := removeText "uuid:".toList 0 (removeText "urn:".toList 0 s.toList)
  let hex := (trim (fun c => c = '{' ∨ c = '}') hex).filter (· ≠ '-')
  if hex.length = 32 then (parseHex hex).map fun n => ⟨BitVec.ofNat 128 n⟩ else none

end Uuid

/-! ## What is cut off at both ends -/

section
variable {p : Char → Bool} {c : Char} {cs : List Char}

theorem head_dropWhile (p : Char → Bool) (cs : List Char) :
    ∀ c ∈ (cs.dropWhile p).head?, p c = false := by
  intro c hc
  have h := List.head?_dropWhile_not p cs
  rw [Option.mem_def.1 hc] at h
  exact h

theorem trim_begins (p : Char → Bool) (cs : List Char) : Uuid.trim p cs <+: cs.dropWhile p := by
  have hback := List.reverse_prefix.2 (List.dropWhile_suffix p (l := (cs.dropWhile p).reverse))
  rwa [List.reverse_reverse] at hback

theorem isInfix_trim (p : Char → Bool) (cs : List Char) : Uuid.trim p cs <:+: cs :=
  (trim_begins p cs).isInfix.trans (List.dropWhile_suffix p).isInfix

theorem head_of_begins {as bs : List Char} (h : as <+: bs) : ∀ c ∈ as.head?, c ∈ bs.head? := by
  intro c hc
  obtain ⟨rest, rfl⟩ := h
  rw [List.head?_append, Option.mem_def.1 hc]
  rfl

theorem head_trim (p : Char → Bool) (cs : List Char) :
    ∀ c ∈ (Uuid.trim p cs).head?, p c = false :=
  fun c hc => head_dropWhile p cs c (head_of_begins (trim_begins p cs) c hc)

theorem last_trim (p : Char → Bool) (cs : List Char) :
    ∀ c ∈ (Uuid.trim p cs).getLast?, p c = false := by
  intro c hc
  rw [Uuid.trim, List.getLast?_reverse] at hc
  exact head_dropWhile p _ c hc

theorem dropWhile_eq_self_of_head (h : ∀ c ∈ cs.head?, p c = false) : cs.dropWhile p = cs := by
  cases cs with
  | nil => rfl
  | cons d cs =>
    rw [List.dropWhile_cons_of_neg]
    rw [h d rfl]
    exact Bool.false_ne_true

theorem trim_eq_self (hhead : ∀ c ∈ cs.head?, p c = false)
    (hlast : ∀ c ∈ cs.getLast?, p c = false) : Uuid.trim p cs = cs := by
  rw [Uuid.trim, dropWhile_eq_self_of_head hhead, dropWhile_eq_self_of_head, List.reverse_reverse]
  intro c hc
  rw [List.head?_reverse] at hc
  exact hlast c hc

theorem mem_dropWhile (h : c ∈ cs) (hc : p c = false) : c ∈ cs.dropWhile p := by
  rw [← List.takeWhile_append_dropWhile (p := p) (l := cs)] at h
  rcases List.mem_append.1 h with h | h
  · rw [List.mem_takeWhile_imp h] at hc
    cases hc
  · exact h

theorem forall_mem_of_all {p : Char → Prop} [DecidablePred p] {cs : List Char}
    (h : (cs.all fun c => decide (p c)) = true) : ∀ c ∈ cs, p c := by
  intro c hc
  exact of_decide_eq_true (List.all_eq_true.1 h c hc)

theorem dropWhile_suffix_append (p : Char → Bool) (begun s : List Char) :
    s.dropWhile p <:+ (begun ++ s).dropWhile p := by
  induction begun with
  | nil => exact List.suffix_refl _
  | cons c begun ih =>
    rw [List.cons_append, List.dropWhile_cons]
    split
    · exact ih
    · exact (List.dropWhile_suffix p).trans (List.suffix_append (c :: begun) s)

theorem length_lt_dropWhile {begun : List Char} (h : c ∈ begun) (hc : p c = false)
    (s : List Char) : s.length < ((begun ++ s).dropWhile p).length := by
  induction begun with
  | nil => cases h
  | cons d begun ih =>
    rw [List.cons_append, List.dropWhile_cons]
    split
    · rename_i hd
      rcases List.mem_cons.1 h with rfl | h
      · cases hd.symm.trans hc
      · exact ih h
    · rw [List.length_cons, List.length_append]
      omega

/-- A prefix without a character ends before it. -/
theorem prefix_append_cons_iff {word : List Char} (h : c ∉ word) :
    word <+: cs ++ c :: s ↔ word <+: cs := by
  constructor
  · intro hbegins
    rcases Nat.le_total word.length cs.length with hle | hle
    · exact (List.prefix_of_prefix_length_le hbegins (List.prefix_append cs _) hle)
    · obtain ⟨rest, rfl⟩ := List.prefix_of_prefix_length_le (List.prefix_append cs _) hbegins hle
      cases rest with
      | nil => exact ⟨[], by rw [List.append_nil, List.append_nil]⟩
      | cons d rest =>
        rw [List.prefix_append_right_inj, List.cons_prefix_cons] at hbegins
        exact (h (hbegins.1 ▸ List.mem_append_right cs List.mem_cons_self)).elim
  · exact fun hbegins => hbegins.trans (List.prefix_append cs _)

theorem mem_trim (h : c ∈ cs) (hc : p c = false) : c ∈ Uuid.trim p cs := by
  rw [Uuid.trim, List.mem_reverse]
  apply mem_dropWhile _ hc
  rw [List.mem_reverse]
  exact mem_dropWhile h hc

/-- What is cut at both ends begins like what is cut at the front. -/
theorem head_trim_eq (p : Char → Bool) (cs : List Char) :
    (Uuid.trim p cs).head? = (cs.dropWhile p).head? := by
  cases hcut : (Uuid.trim p cs).head? with
  | some c => exact (Option.mem_def.1 (head_of_begins (trim_begins p cs) c hcut)).symm
  | none =>
    cases hfront : cs.dropWhile p with
    | nil => rfl
    | cons d rest =>
      have hd : p d = false := by
        apply head_dropWhile p cs
        rw [hfront]
        rfl
      have hmem : d ∈ cs := by
        apply (List.dropWhile_suffix p).subset
        rw [hfront]
        exact List.mem_cons_self
      have hin := mem_trim hmem hd
      rw [List.head?_eq_none_iff.1 hcut] at hin
      cases hin

theorem trim_cons_space (s : List Char) : Uuid.trim isSpace (' ' :: s) = Uuid.trim isSpace s := by
  rw [Uuid.trim, Uuid.trim, List.dropWhile_cons_of_pos (by decide)]

theorem length_trim_le (p : Char → Bool) (s : List Char) : (Uuid.trim p s).length ≤ s.length :=
  (isInfix_trim p s).length_le

end

/-! ## Lines of a file -/

/-- `"\r\n"` and `"\r"` are read as `"\n"`. -/
def universalNewlines : List Char → List Char
  | [] => []
  | '\r' :: '\n' :: s => '\n' :: universalNewlines s
  | '\r' :: s => '\n' :: universalNewlines s
  | c :: s => c :: universalNewlines s

theorem universalNewlines_of_plain {s : List Char} (h : '\r' ∉ s) : universalNewlines s = s := by
  induction s with
  | nil => rfl
  | cons c s ih =>
    rw [List.mem_cons, not_or] at h
    rw [universalNewlines.eq_def]
    split
    · rename_i he
      cases he
    · rename_i he
      cases he
      exact (h.1 rfl).elim
    · rename_i he
      cases he
      exact (h.1 rfl).elim
    · rename_i he
      cases he
      rw [ih h.2]

theorem no_return_universalNewlines (s : List Char) : '\r' ∉ universalNewlines s := by
  fun_induction universalNewlines s with
  | case1 => exact List.not_mem_nil
  | case2 s ih => exact List.not_mem_cons_of_ne_of_not_mem (by decide) ih
  | case3 s _ ih => exact List.not_mem_cons_of_ne_of_not_mem (by decide) ih
  | case4 c s hpair hlone ih =>
    apply List.not_mem_cons_of_ne_of_not_mem _ ih
    rintro rfl
    exact hlone rfl

theorem universalNewlines_cons {c : Char} (h : c ≠ '\r') (s : List Char) :
    universalNewlines (c :: s) = c :: universalNewlines s := by
  rw [universalNewlines.eq_def]
  split
  · rename_i he
    cases he
  · rename_i he
    cases he
    exact (h rfl).elim
  · rename_i he
    cases he
    exact (h rfl).elim
  · rename_i he
    cases he
    rfl

theorem universalNewlines_lone {c : Char} (h : c ≠ '\n') (s : List Char) :
    universalNewlines ('\r' :: c :: s) = '\n' :: universalNewlines (c :: s) := by
  rw [universalNewlines]
  intro _ he
  exact h (List.cons.inj he).1

/-- A character that is no newline does not complete one. -/
theorem universalNewlines_append_cons {c : Char} (h : c ≠ '\n') (s t : List Char) :
    universalNewlines (s ++ c :: t) = universalNewlines s ++ universalNewlines (c :: t) := by
  fun_induction universalNewlines s with
  | case1 => rfl
  | case2 s ih => exact congrArg ('\n' :: ·) ih
  | case3 s hpair ih =>
    cases s with
    | nil => exact universalNewlines_lone h t
    | cons d s =>
      have hd : d ≠ '\n' := fun hd => hpair s (hd ▸ rfl)
      rw [List.cons_append, List.cons_append, universalNewlines_lone hd, ← List.cons_append, ih]
      rfl
  | case4 d s hpair hlone ih =>
    rw [List.cons_append, universalNewlines_cons fun hd => hlone hd, ih]
    rfl

/-- A text begins as before where no line ends. -/
theorem prefix_universalNewlines_iff {word : List Char} (h : ∀ c ∈ word, c ≠ '\n' ∧ c ≠ '\r')
    (s : List Char) : word <+: universalNewlines s ↔ word <+: s := by
  induction word generalizing s with
  | nil => exact iff_of_true List.nil_prefix List.nil_prefix
  | cons d word ih =>
    obtain ⟨hnewline, hreturn⟩ := h d List.mem_cons_self
    cases s with
    | nil => exact Iff.rfl
    | cons c s =>
      by_cases hc : c = '\r'
      · obtain rfl := hc
        obtain ⟨u, hu⟩ : ∃ u, universalNewlines ('\r' :: s) = '\n' :: u := by
          rw [universalNewlines.eq_def]
          split
          · rename_i heq
            cases heq
          · exact ⟨_, rfl⟩
          · exact ⟨_, rfl⟩
          · rename_i hlone heq
            cases heq
            exact (hlone rfl).elim
        rw [hu, List.cons_prefix_cons, List.cons_prefix_cons]
        exact iff_of_false (fun hword => hnewline hword.1) fun hword => hreturn hword.1
      · rw [universalNewlines_cons hc, List.cons_prefix_cons, List.cons_prefix_cons,
          ih fun e he => h e (List.mem_cons_of_mem _ he)]

/-- A text whose end is a line's end is read apart from what follows. -/
theorem universalNewlines_append (s t : List Char) :
    universalNewlines (s ++ '\n' :: t) = universalNewlines (s ++ ['\n']) ++ universalNewlines t := by
  fun_induction universalNewlines s with
  | case1 => rfl
  | case2 s ih => exact congrArg ('\n' :: ·) ih
  | case3 s hpair ih =>
    cases s with
    | nil => rfl
    | cons c s =>
      have hc : c ≠ '\n' := fun hc => hpair s (hc ▸ rfl)
      rw [List.cons_append, List.cons_append, universalNewlines_lone hc, List.cons_append,
        List.cons_append, universalNewlines_lone hc]
      exact congrArg ('\n' :: ·) ih
  | case4 c s hpair hlone ih =>
    have hc : c ≠ '\r' := fun hc => hlone hc
    rw [List.cons_append, universalNewlines_cons hc, List.cons_append, universalNewlines_cons hc, ih,
      List.cons_append]

/-- The characters that `str.splitlines` splits at. -/
def isLineBreak (c : Char) : Bool :=
  (10 ≤ c.toNat ∧ c.toNat ≤ 13) ∨ (28 ≤ c.toNat ∧ c.toNat ≤ 30) ∨ c.toNat = 0x85 ∨
    c.toNat = 0x2028 ∨ c.toNat = 0x2029

theorem isSpace_of_isLineBreak (h : isLineBreak c = true) : isSpace c = true := by
  rw [isLineBreak, decide_eq_true_eq] at h
  rw [isSpace, decide_eq_true_eq]
  omega

def consLine (c : Char) : List (List Char) → List (List Char)
  | [] => [[c]]
  | line :: lines => (c :: line) :: lines

/-- `s.splitlines(keepends=True)` -/
def keepLines : List Char → List (List Char)
  | [] => []
  | '\r' :: '\n' :: s => ['\r', '\n'] :: keepLines s
  | c :: s => if isLineBreak c then [c] :: keepLines s else consLine c (keepLines s)

/-- `s.splitlines()` -/
def splitLines (s : List Char) : List (List Char) :=
  (keepLines s).map (List.takeWhile fun c => !isLineBreak c)

theorem keepLines_cons {c : Char} (h : c ≠ '\r') (s : List Char) : keepLines (c :: s) =
    if isLineBreak c then [c] :: keepLines s else consLine c (keepLines s) := by
  rw [keepLines]
  rintro _ rfl _
  exact h rfl

theorem consLine_ne_nil (c : Char) (lines : List (List Char)) : consLine c lines ≠ [] := by
  cases lines with
  | nil => exact List.cons_ne_nil _ _
  | cons line lines => exact List.cons_ne_nil _ _

theorem keepLines_ne_nil (c : Char) (s : List Char) : keepLines (c :: s) ≠ [] := by
  rw [keepLines.eq_def]
  split
  · rename_i he
    cases he
  · exact List.cons_ne_nil _ _
  · rename_i he
    cases he
    split
    · exact List.cons_ne_nil _ _
    · exact consLine_ne_nil _ _

/-- Whole lines are split apart from what follows them. -/
theorem keepLines_append {s : List Char} (hs : '\r' ∉ s)
    (hlast : ∀ c ∈ s.getLast?, isLineBreak c = true) (t : List Char) :
    keepLines (s ++ t) = keepLines s ++ keepLines t := by
  induction s with
  | nil => rfl
  | cons c s ih =>
    rw [List.mem_cons, not_or] at hs
    rw [List.cons_append, keepLines_cons (Ne.symm hs.1), keepLines_cons (Ne.symm hs.1)]
    cases s with
    | nil =>
      rw [if_pos (hlast c rfl), if_pos (hlast c rfl)]
      rfl
    | cons d s =>
      have hrest := ih hs.2 fun b hb => hlast b (by rwa [List.getLast?_cons_cons])
      rw [hrest]
      split
      · rfl
      · cases hlines : keepLines (d :: s) with
        | nil => exact (keepLines_ne_nil d s hlines).elim
        | cons line lines => rfl

theorem splitLines_cons {c : Char} (h : c ≠ '\r') (s : List Char) : splitLines (c :: s) =
    if isLineBreak c then [] :: splitLines s else consLine c (splitLines s) := by
  rw [splitLines, keepLines_cons h]
  split
  · rename_i hc
    rw [List.map_cons, List.takeWhile_cons_of_neg (by rw [hc]; decide)]
    rfl
  · rename_i hc
    have hkeep : (!isLineBreak c) = true := by rwa [Bool.not_eq_true', ← Bool.not_eq_true]
    rw [splitLines]
    cases keepLines s with
    | nil =>
      rw [consLine, List.map_cons, List.takeWhile_cons_of_pos (p := fun c => !isLineBreak c) hkeep]
      rfl
    | cons line lines =>
      rw [consLine, List.map_cons, List.takeWhile_cons_of_pos (p := fun c => !isLineBreak c) hkeep]
      rfl

/-- A newline at the end of a text adds an empty line at most. -/
theorem splitLines_newline {s : List Char} (hs : '\r' ∉ s) :
    splitLines (s ++ ['\n']) = splitLines s ∨ splitLines (s ++ ['\n']) = splitLines s ++ [[]] := by
  induction s with
  | nil => exact .inr rfl
  | cons c s ih =>
    rw [List.mem_cons, not_or] at hs
    rw [List.cons_append, splitLines_cons (Ne.symm hs.1), splitLines_cons (Ne.symm hs.1)]
    by_cases hc : isLineBreak c = true
    · rw [if_pos hc, if_pos hc]
      exact (ih hs.2).imp (congrArg _) (congrArg _)
    · rw [if_neg hc, if_neg hc]
      rcases ih hs.2 with h | h
      · exact .inl (congrArg _ h)
      · rw [h]
        cases splitLines s with
        | nil => exact .inl rfl
        | cons line lines => exact .inr rfl

/-- The newline is the end of a line, or of a lone carriage return before it. -/
theorem universalNewlines_newline (s : List Char) :
    ∃ u, universalNewlines (s ++ ['\n']) = u ++ ['\n'] ∧
      (universalNewlines s = u ∨ universalNewlines s = u ++ ['\n']) := by
  fun_induction universalNewlines s with
  | case1 => exact ⟨[], rfl, .inl rfl⟩
  | case2 s ih =>
    obtain ⟨u, hu, hs⟩ := ih
    exact ⟨'\n' :: u, congrArg ('\n' :: ·) hu, hs.imp (congrArg ('\n' :: ·)) (congrArg ('\n' :: ·))⟩
  | case3 s hpair ih =>
    cases s with
    | nil => exact ⟨[], rfl, .inr rfl⟩
    | cons c s =>
      have hc : c ≠ '\n' := fun hc => hpair s (hc ▸ rfl)
      obtain ⟨u, hu, hs⟩ := ih
      refine ⟨'\n' :: u, ?_, hs.imp (congrArg ('\n' :: ·)) (congrArg ('\n' :: ·))⟩
      rw [List.cons_append, List.cons_append, universalNewlines_lone hc]
      exact congrArg ('\n' :: ·) hu
  | case4 c s hpair hlone ih =>
    obtain ⟨u, hu, hs⟩ := ih
    refine ⟨c :: u, ?_, hs.imp (congrArg (c :: ·)) (congrArg (c :: ·))⟩
    rw [List.cons_append, universalNewlines_cons fun hc => hlone hc]
    exact congrArg (c :: ·) hu

/-- The lines of a file that something was appended to. -/
theorem fileLines_append (s t : List Char) :
    ∃ pad, (pad = [] ∨ pad = [[]]) ∧ splitLines (universalNewlines (s ++ '\n' :: t)) =
      splitLines (universalNewlines s) ++ pad ++ splitLines (universalNewlines t) := by
  obtain ⟨u, hu, hs⟩ := universalNewlines_newline s
  have hreturn : '\r' ∉ u ++ ['\n'] := hu ▸ no_return_universalNewlines (s ++ ['\n'])
  have hparts : splitLines (universalNewlines (s ++ '\n' :: t)) =
      splitLines (u ++ ['\n']) ++ splitLines (universalNewlines t) := by
    have hlast : ∀ c ∈ (u ++ ['\n']).getLast?, isLineBreak c = true := by
      intro c hc
      rw [List.getLast?_concat] at hc
      cases hc
      rfl
    rw [universalNewlines_append, hu, splitLines, keepLines_append hreturn hlast, List.map_append]
    rfl
  rw [hparts]
  rcases hs with hs | hs
  · rw [hs]
    rcases splitLines_newline fun h => hreturn (List.mem_append_left _ h) with h | h
    · exact ⟨[], .inl rfl, by rw [h, List.append_nil]⟩
    · exact ⟨[[]], .inr rfl, by rw [h]⟩
  · exact ⟨[], .inl rfl, by rw [hs, List.append_nil]⟩

/-- A line of a text is read apart from what follows. -/
theorem splitLines_line {line : List Char} (h : ∀ c ∈ line, isLineBreak c = false) (s : List Char) :
    splitLines (line ++ '\n' :: s) = line :: splitLines s := by
  induction line with
  | nil => exact splitLines_cons (by decide) s
  | cons c line ih =>
    have hc := h c List.mem_cons_self
    have hreturn : c ≠ '\r' := by
      rintro rfl
      cases hc
    rw [List.cons_append, splitLines_cons hreturn, if_neg (by rw [hc]; decide),
      ih fun d hd => h d (List.mem_cons_of_mem _ hd)]
    rfl

theorem splitLines_lines {lines : List (List Char)}
    (h : ∀ line ∈ lines, ∀ c ∈ line, isLineBreak c = false) :
    splitLines (lines.flatMap (· ++ ['\n'])) = lines := by
  induction lines with
  | nil => rfl
  | cons line lines ih =>
    have hsplit : (line :: lines).flatMap (· ++ ['\n']) =
        line ++ '\n' :: lines.flatMap (· ++ ['\n']) := by
      rw [List.flatMap_cons, List.append_assoc]
      rfl
    rw [hsplit, splitLines_line (h line List.mem_cons_self),
      ih fun line' hline' => h line' (List.mem_cons_of_mem _ hline')]

theorem universalNewlines_lines {lines : List (List Char)}
    (h : ∀ line ∈ lines, ∀ c ∈ line, isLineBreak c = false) :
    universalNewlines (lines.flatMap (· ++ ['\n'])) = lines.flatMap (· ++ ['\n']) := by
  apply universalNewlines_of_plain
  intro hc
  obtain ⟨line, hline, hc⟩ := List.mem_flatMap.1 hc
  rcases List.mem_append.1 hc with hc | hc
  · cases h line hline _ hc
  · cases List.mem_singleton.1 hc

/-! ## The lines of a text as a list -/

/-- Lines as `splitlines(keepends=True)` gives them, where no carriage return is left. -/
inductive AreLines : List (List Char) → Prop
  | nil : AreLines []
  | last (hne : body ≠ []) (hbody : ∀ c ∈ body, isLineBreak c = false) : AreLines [body]
  | cons (hbody : ∀ c ∈ body, isLineBreak c = false) (hb : isLineBreak b = true) (hr : b ≠ '\r')
      (h : AreLines lines) : AreLines ((body ++ [b]) :: lines)

theorem ne_return_of_unbroken {c : Char} (h : isLineBreak c = false) : c ≠ '\r' := by
  rintro rfl
  cases h

theorem keepLines_line {body : List Char} (hbody : ∀ c ∈ body, isLineBreak c = false)
    (hb : isLineBreak b = true) (hr : b ≠ '\r') (s : List Char) :
    keepLines (body ++ b :: s) = (body ++ [b]) :: keepLines s := by
  induction body with
  | nil =>
    rw [List.nil_append, keepLines_cons hr, if_pos hb]
    rfl
  | cons c body ih =>
    have hc := hbody c List.mem_cons_self
    rw [List.cons_append, keepLines_cons (ne_return_of_unbroken hc), if_neg (by rw [hc]; decide),
      ih fun d hd => hbody d (List.mem_cons_of_mem _ hd)]
    rfl

theorem keepLines_last {body : List Char} (hne : body ≠ [])
    (hbody : ∀ c ∈ body, isLineBreak c = false) : keepLines body = [body] := by
  induction body with
  | nil => exact (hne rfl).elim
  | cons c body ih =>
    have hc := hbody c List.mem_cons_self
    rw [keepLines_cons (ne_return_of_unbroken hc), if_neg (by rw [hc]; decide)]
    cases body with
    | nil => rfl
    | cons d body =>
      rw [ih (List.cons_ne_nil d body) fun e he => hbody e (List.mem_cons_of_mem _ he)]
      rfl

theorem AreLines.keepLines_flatten (h : AreLines lines) : keepLines lines.flatten = lines := by
  induction h with
  | nil => rfl
  | last hne hbody =>
    rw [List.flatten_singleton]
    exact keepLines_last hne hbody
  | cons hbody hb hr h ih =>
    rw [List.flatten_cons, List.append_assoc, List.singleton_append, keepLines_line hbody hb hr, ih]

theorem AreLines.consLine (h : AreLines lines) (hc : isLineBreak c = false) :
    AreLines (consLine c lines) := by
  have hcons : ∀ body : List Char, (∀ d ∈ body, isLineBreak d = false) →
      ∀ d ∈ c :: body, isLineBreak d = false := by
    intro body hbody d hd
    rcases List.mem_cons.1 hd with rfl | hd
    · exact hc
    · exact hbody d hd
  cases h with
  | nil => exact .last (List.cons_ne_nil c []) (hcons [] fun _ hd => nomatch hd)
  | last hne hbody => exact .last (List.cons_ne_nil c _) (hcons _ hbody)
  | cons hbody hb hr h => exact .cons (hcons _ hbody) hb hr h

theorem areLines_keepLines {s : List Char} (hs : '\r' ∉ s) : AreLines (keepLines s) := by
  induction s with
  | nil => exact .nil
  | cons c s ih =>
    rw [List.mem_cons, not_or] at hs
    rw [keepLines_cons (Ne.symm hs.1)]
    split
    · rename_i hc
      have hlines : AreLines (([] ++ [c]) :: keepLines s) :=
        .cons (fun _ hd => nomatch hd) hc (Ne.symm hs.1) (ih hs.2)
      exact hlines
    · rename_i hc
      exact (ih hs.2).consLine (Bool.eq_false_iff.2 hc)

theorem flatten_consLine (c : Char) (lines : List (List Char)) :
    (consLine c lines).flatten = c :: lines.flatten := by
  cases lines with
  | nil => rfl
  | cons line lines => rfl

theorem flatten_keepLines {s : List Char} (hs : '\r' ∉ s) : (keepLines s).flatten = s := by
  induction s with
  | nil => rfl
  | cons c s ih =>
    rw [List.mem_cons, not_or] at hs
    rw [keepLines_cons (Ne.symm hs.1)]
    split
    · rw [List.flatten_cons, ih hs.2]
      rfl
    · rw [flatten_consLine, ih hs.2]

theorem AreLines.append (h : AreLines (pre ++ post)) : AreLines pre ∧ AreLines post := by
  induction pre with
  | nil => exact ⟨.nil, h⟩
  | cons line pre ih =>
    generalize hlines : line :: pre ++ post = lines at h
    cases h with
    | nil => cases hlines
    | last hne hbody =>
      obtain ⟨rfl, hrest⟩ := List.cons.inj hlines
      obtain ⟨rfl, rfl⟩ := List.append_eq_nil_iff.1 hrest
      exact ⟨.last hne hbody, .nil⟩
    | cons hbody hb hr h =>
      obtain ⟨rfl, rfl⟩ := List.cons.inj hlines
      exact ⟨.cons hbody hb hr (ih h).1, (ih h).2⟩

theorem AreLines.no_return (h : AreLines lines) : '\r' ∉ lines.flatten := by
  have hbody : ∀ body : List Char, (∀ c ∈ body, isLineBreak c = false) → '\r' ∉ body :=
    fun body hbody hmem => ne_return_of_unbroken (hbody _ hmem) rfl
  induction h with
  | nil => exact List.not_mem_nil
  | last hne hunbroken =>
    rw [List.flatten_singleton]
    exact hbody _ hunbroken
  | cons hunbroken hb hr h ih =>
    rw [List.flatten_cons, List.mem_append, List.mem_append, List.mem_singleton]
    rintro ((hmem | rfl) | hmem)
    · exact hbody _ hunbroken hmem
    · exact hr rfl
    · exact ih hmem

theorem AreLines.ne_nil (h : AreLines lines) (hline : line ∈ lines) : line ≠ [] := by
  induction h with
  | nil => cases hline
  | last hne hbody =>
    rw [List.mem_singleton.1 hline]
    exact hne
  | cons hbody hb hr h ih =>
    rcases List.mem_cons.1 hline with rfl | hline
    · exact List.append_ne_nil_of_right_ne_nil _ (List.cons_ne_nil _ _)
    · exact ih hline

/-- A whole line in the place of another. -/
theorem AreLines.replace (h : AreLines (pre ++ line :: post))
    (hbody : ∀ c ∈ body, isLineBreak c = false) :
    AreLines (pre ++ (body ++ ['\n']) :: post) := by
  induction pre with
  | nil =>
    have hparts : AreLines [line] ∧ AreLines post := AreLines.append h
    exact .cons hbody rfl (by decide) hparts.2
  | cons line' pre ih =>
    generalize hlines : line' :: pre ++ line :: post = lines at h
    cases h with
    | nil => cases hlines
    | last hne hlast =>
      obtain ⟨-, hrest⟩ := List.cons.inj hlines
      exact (List.append_ne_nil_of_right_ne_nil _ (List.cons_ne_nil _ _) hrest).elim
    | cons hbody' hb hr h =>
      obtain ⟨rfl, rfl⟩ := List.cons.inj hlines
      exact .cons hbody' hb hr (ih h)

/-- Only the last line may lack its end. -/
theorem AreLines.closed (h : AreLines (pre ++ post)) (hpost : post ≠ []) :
    ∀ c ∈ pre.flatten.getLast?, isLineBreak c = true := by
  induction pre with
  | nil => exact fun c hc => nomatch hc
  | cons line pre ih =>
    generalize hlines : line :: pre ++ post = lines at h
    cases h with
    | nil => cases hlines
    | last hne hbody =>
      obtain ⟨-, hrest⟩ := List.cons.inj hlines
      exact (List.append_ne_nil_of_right_ne_nil _ hpost hrest).elim
    | cons hbody hb hr h =>
      obtain ⟨rfl, rfl⟩ := List.cons.inj hlines
      intro c hc
      rw [List.flatten_cons, List.getLast?_append, List.getLast?_concat] at hc
      cases hlast : pre.flatten.getLast? with
      | none =>
        rw [hlast] at hc
        cases hc
        exact hb
      | some d =>
        rw [hlast] at hc
        cases hc
        exact ih h c hlast

/-- A line's end comes at its end. -/
theorem AreLines.unbroken (h : AreLines lines) (hline : as ++ bs ∈ lines) (hbs : bs ≠ []) :
    ∀ c ∈ as, isLineBreak c = false := by
  induction h with
  | nil => cases hline
  | last hne hbody =>
    have heq := List.mem_singleton.1 hline
    exact fun c hc => hbody c (heq ▸ List.mem_append_left _ hc)
  | cons hbody hb hr h ih =>
    rcases List.mem_cons.1 hline with heq | hline
    · obtain rfl | ⟨bs, b, rfl⟩ := List.eq_nil_or_concat bs
      · exact (hbs rfl).elim
      · rw [List.concat_eq_append, ← List.append_assoc] at heq
        have hbody_eq := (List.append_inj' heq rfl).1
        exact fun c hc => hbody c (hbody_eq ▸ List.mem_append_left _ hc)
    · exact ih hline

theorem universalNewlines_plain_append {s : List Char} (h : '\r' ∉ s) (t : List Char) :
    universalNewlines (s ++ t) = s ++ universalNewlines t := by
  induction s with
  | nil => rfl
  | cons c s ih =>
    rw [List.mem_cons, not_or] at h
    rw [List.cons_append, universalNewlines_cons (Ne.symm h.1), ih h.2, List.cons_append]

/-- A word in a text stays as it is. -/
theorem universalNewlines_around {word : List Char} (hword : word ≠ [])
    (h : ∀ c ∈ word, c ≠ '\n' ∧ c ≠ '\r') (s t : List Char) :
    universalNewlines (s ++ (word ++ t)) =
      universalNewlines s ++ (word ++ universalNewlines t) := by
  cases word with
  | nil => exact (hword rfl).elim
  | cons c word =>
    have hreturn : '\r' ∉ c :: word := fun hmem => (h _ hmem).2 rfl
    rw [List.cons_append, universalNewlines_append_cons (h c List.mem_cons_self).1,
      ← List.cons_append, universalNewlines_plain_append hreturn]

theorem infix_universalNewlines {word s : List Char} (hword : word ≠ [])
    (h : ∀ c ∈ word, c ≠ '\n' ∧ c ≠ '\r') (hs : word <:+: s) : word <:+: universalNewlines s := by
  obtain ⟨before, after, rfl⟩ := hs
  rw [List.append_assoc, universalNewlines_around hword h, ← List.append_assoc]
  exact ⟨_, _, rfl⟩

/-- An unfinished line takes in the first line of what follows. -/
theorem length_keepLines_append {body s : List Char} (hbody : ∀ c ∈ body, isLineBreak c = false)
    (hs : s ≠ []) : (keepLines (body ++ s)).length = (keepLines s).length := by
  induction body with
  | nil => rfl
  | cons c body ih =>
    have hc := hbody c List.mem_cons_self
    have hlength := ih fun d hd => hbody d (List.mem_cons_of_mem _ hd)
    rw [List.cons_append, keepLines_cons (ne_return_of_unbroken hc), if_neg (by rw [hc]; decide)]
    cases hlines : keepLines (body ++ s) with
    | nil =>
      cases hrest : body ++ s with
      | nil => exact (hs (List.append_eq_nil_iff.1 hrest).2).elim
      | cons d t => exact (keepLines_ne_nil d t (hrest ▸ hlines)).elim
    | cons line lines =>
      rw [hlines] at hlength
      exact hlength

/-! ## JSON text -/

def hex4 (n : Nat) : List Char := Uuid.hexDigits n 4

/-- A character of a string in `json.dumps`. -/
def escapeChar (c : Char) : List Char :=
  if c = '"' then ['\\', '"']
  else if c = '\\' then ['\\', '\\']
  else if c = '\n' then ['\\', 'n']
  else if c = '\r' then ['\\', 'r']
  else if c = '\t' then ['\\', 't']
  else if c.toNat = 8 then ['\\', 'b']
  else if c.toNat = 12 then ['\\', 'f']
  else if 32 ≤ c.toNat ∧ c.toNat < 127 then [c]
  else if c.toNat < 0x10000 then '\\' :: 'u' :: hex4 c.toNat
  else '\\' :: 'u' :: hex4 (0xd800 + (c.toNat - 0x10000) / 0x400) ++
    '\\' :: 'u' :: hex4 (0xdc00 + (c.toNat - 0x10000) % 0x400)

/-- `json.dumps` of a string. -/
def quote (s : String) : String := String.ofList ('"' :: s.toList.flatMap escapeChar ++ ['"'])

/-- What ASCII prints. -/
def IsPrintable (c : Char) : Prop := 32 ≤ c.toNat ∧ c.toNat < 127

theorem printable_hexDigits (n count : Nat) : ∀ c ∈ Uuid.hexDigits n count, IsPrintable c := by
  have hdigit : ∀ d < 16, 32 ≤ (Nat.digitChar d).toNat ∧ (Nat.digitChar d).toNat < 127 := by decide
  induction count with
  | zero => exact nofun
  | succ count ih =>
    rw [Uuid.hexDigits, List.forall_mem_cons]
    exact ⟨hdigit _ (Nat.mod_lt _ (by decide)), ih⟩

/-- The text of a string in JSON is printable, whatever the string is. -/
theorem printable_escapeChar (c : Char) : ∀ d ∈ escapeChar c, IsPrintable d := by
  have hescape : ∀ d ∈ ['\\', '"', 'n', 'r', 't', 'b', 'f', 'u'], IsPrintable d := by
    simp only [List.forall_mem_cons, IsPrintable]
    exact ⟨by decide, by decide, by decide, by decide, by decide, by decide, by decide, by decide,
      nofun⟩
  have hpair : ∀ d ∈ ['\\', '"', 'n', 'r', 't', 'b', 'f', 'u'], ∀ e ∈ ['\\', d], IsPrintable e := by
    intro d hd e he
    rcases List.mem_cons.1 he with rfl | he
    · exact hescape _ List.mem_cons_self
    · rw [List.mem_singleton.1 he]
      exact hescape d hd
  have hunicode : ∀ n, ∀ d ∈ '\\' :: 'u' :: hex4 n, IsPrintable d := by
    intro n d hd
    rcases List.mem_append.1 (show d ∈ ['\\', 'u'] ++ hex4 n from hd) with hd | hd
    · exact hpair 'u' (by decide) d hd
    · exact printable_hexDigits n 4 d hd
  rw [escapeChar]
  split
  · exact hpair '"' (by decide)
  split
  · exact hpair '\\' (by decide)
  split
  · exact hpair 'n' (by decide)
  split
  · exact hpair 'r' (by decide)
  split
  · exact hpair 't' (by decide)
  split
  · exact hpair 'b' (by decide)
  split
  · exact hpair 'f' (by decide)
  split
  · rename_i hprintable
    intro d hd
    rw [List.mem_singleton.1 hd]
    exact hprintable
  split
  · exact hunicode _
  · intro d hd
    rcases List.mem_append.1 hd with hd | hd
    · exact hunicode _ d hd
    · exact hunicode _ d hd

theorem printable_quote (s : String) : ∀ c ∈ (quote s).toList, IsPrintable c := by
  have hquote : IsPrintable '"' := by
    rw [IsPrintable]
    decide
  rw [quote, String.toList_ofList]
  intro c hc
  rcases List.mem_append.1 hc with hc | hc
  · rcases List.mem_cons.1 hc with rfl | hc
    · exact hquote
    · obtain ⟨d, -, hd⟩ := List.mem_flatMap.1 hc
      exact printable_escapeChar d c hd
  · rw [List.mem_singleton.1 hc]
    exact hquote

/-- `json.dumps` of a list of strings. -/
def quoteList (ss : List String) : String := "[" ++ String.intercalate ", " (ss.map quote) ++ "]"

example : (Uuid.mk 0xffffffffffff).str = "00000000-0000-0000-0000-ffffffffffff" := by decide

example : Uuid.parse "\x7b00000000-0000-0000-0000-FFFFFFFFFFFF\x7d" = some ⟨0xffffffffffff⟩ := by
  decide +kernel

end Python
