import ScottyCore.Lib.DateTime

namespace Python
set_option autoImplicit true

/-! ## Printing -/

def fractionChars (microsecond : Nat) : List Char :=
  if microsecond = 0 then [] else '.' :: digits 6 microsecond

/-- A UTC offset as `+HH:MM`, with the seconds only when there are any. -/
def offsetChars : Option Int → List Char
  | none => []
  | some o =>
    (if o < 0 then '-' else '+') :: digits 2 (o.natAbs / 3600) ++
      ':' :: digits 2 (o.natAbs / 60 % 60) ++
      if o.natAbs % 60 = 0 then [] else ':' :: digits 2 (o.natAbs % 60)

def DateTime.isoChars (d : DateTime) : List Char :=
  digits 4 d.year ++ '-' :: (digits 2 d.month ++ '-' :: (digits 2 d.day ++ 'T' ::
    (digits 2 d.hour ++ ':' :: (digits 2 d.minute ++ ':' :: (digits 2 d.second ++
      (fractionChars d.microsecond ++ offsetChars d.utcoffset))))))

/-- `d.isoformat()` -/
def DateTime.isoformat (d : DateTime) : String := String.ofList d.isoChars

/-! ## Reading -/

def readChar (c : Char) : List Char → Option (List Char)
  | x :: cs => if x = c then some cs else none
  | [] => none

/-- Three or six digits after a dot, or nothing. -/
def readFraction : List Char → Option (Nat × List Char)
  | '.' :: cs =>
    match readDigits 6 0 cs with
    | some r => some r
    | none => (readDigits 3 0 cs).map fun r => (r.1 * 1000, r.2)
  | cs => some (0, cs)

/-- `HH[:MM[:SS[.fff[fff]]]]` -/
def readTime (cs : List Char) : Option ((Nat × Nat × Nat × Nat) × List Char) := do
  let (h, cs) ← readDigits 2 0 cs
  match cs with
  | ':' :: cs => do
    let (m, cs) ← readDigits 2 0 cs
    match cs with
    | ':' :: cs => do
      let (s, cs) ← readDigits 2 0 cs
      let (us, cs) ← readFraction cs
      some ((h, m, s, us), cs)
    | cs => some ((h, m, 0, 0), cs)
  | cs => some ((h, 0, 0, 0), cs)

def readSign (c : Char) : Option Int :=
  if c = '+' then some 1 else if c = '-' then some (-1) else none

/-- Nothing, or a sign and `HH:MM[:SS]`, up to the end of the text. -/
def readOffset : List Char → Option (Option Int)
  | [] => some none
  | c :: cs => do
    let sign ← readSign c
    let (h, cs) ← readDigits 2 0 cs
    let cs ← readChar ':' cs
    let (m, cs) ← readDigits 2 0 cs
    match cs with
    | [] => some (some (sign * (h * 3600 + m * 60 : Nat)))
    | cs => do
      let cs ← readChar ':' cs
      let (s, cs) ← readDigits 2 0 cs
      if cs = [] then some (some (sign * (h * 3600 + m * 60 + s : Nat))) else none

def readIso (cs : List Char) : Option DateTime := do
  let (year, cs) ← readDigits 4 0 cs
  let cs ← readChar '-' cs
  let (month, cs) ← readDigits 2 0 cs
  let cs ← readChar '-' cs
  let (day, cs) ← readDigits 2 0 cs
  match cs with
  | [] => DateTime.mk? year month day 0 0 0 0 none
  | _ :: cs => do
    let ((h, m, s, us), cs) ← readTime cs
    let o ← readOffset cs
    DateTime.mk? year month day h m s us o

/-- `datetime.fromisoformat(s)` on the formats that `isoformat` emits, which every supported
version of Python reads. Anything else is a `ValueError`. -/
def fromisoformat (s : String) : Except Error DateTime :=
  match readIso s.toList with
  | some d => .ok d
  | none => .error (.valueError ("Invalid isoformat string: '" ++ s ++ "'"))

/-- `s.replace(c, by)` for a single character `c`. -/
def replaceChar (c : Char) (new : String) (s : String) : String :=
  String.ofList (s.toList.flatMap fun x => if x = c then new.toList else [x])

/-! ## Reading back what was printed -/

theorem readChar_cons (c : Char) (cs : List Char) : readChar c (c :: cs) = some cs :=
  if_pos rfl

theorem offsetChars_head (o : Option Int) (cs : List Char) :
    offsetChars o ≠ '.' :: cs := by
  cases o with
  | none => simp [offsetChars]
  | some o =>
    simp only [offsetChars, List.cons_append, ne_eq, List.cons.injEq, not_and]
    split <;> simp

theorem readFraction_fractionChars (h : us < 1000000) (o : Option Int) :
    readFraction (fractionChars us ++ offsetChars o) = some (us, offsetChars o) := by
  unfold fractionChars
  split
  · rename_i hz
    rw [List.nil_append, hz]
    unfold readFraction
    split
    · rename_i cs he
      exact (offsetChars_head o cs he).elim
    · rfl
  · simp only [List.cons_append, readFraction]
    rw [readDigits_digits_of_lt (by omega)]

theorem readTime_print (hh : h < 24) (hm : m < 60) (hs : s < 60) (hus : us < 1000000)
    (o : Option Int) :
    readTime (digits 2 h ++ ':' :: (digits 2 m ++ ':' :: (digits 2 s ++
      (fractionChars us ++ offsetChars o)))) = some ((h, m, s, us), offsetChars o) := by
  simp only [readTime, readDigits_digits_of_lt (show h < 10 ^ 2 by omega),
    readDigits_digits_of_lt (show m < 10 ^ 2 by omega),
    readDigits_digits_of_lt (show s < 10 ^ 2 by omega), Option.bind_eq_bind,
    Option.bind_some, readFraction_fractionChars hus]

theorem sign_mul_natAbs (o : Int) :
    (if o < 0 then (-1 : Int) else 1) * (o.natAbs : Int) = o := by
  split <;> omega

theorem readOffset_offsetChars (h : ∀ x ∈ o, x.natAbs < 86400) :
    readOffset (offsetChars o) = some o := by
  cases o with
  | none => rfl
  | some o =>
    have hb : o.natAbs < 86400 := h o rfl
    have hsign : readSign (if o < 0 then '-' else '+') =
        some (if o < 0 then (-1 : Int) else 1) := by
      split <;> rfl
    have hh := readDigits_digits_of_lt (show o.natAbs / 3600 < 10 ^ 2 by omega)
    have hm := readDigits_digits_of_lt (show o.natAbs / 60 % 60 < 10 ^ 2 by omega)
    have hs := readDigits_digits_of_lt (show o.natAbs % 60 < 10 ^ 2 by omega)
    simp only [offsetChars, readOffset, List.cons_append, List.append_assoc, hsign, hh,
      readChar_cons, hm, Option.bind_eq_bind, Option.bind_some]
    by_cases hz : o.natAbs % 60 = 0
    · have he : o.natAbs / 3600 * 3600 + o.natAbs / 60 % 60 * 60 = o.natAbs := by omega
      simp only [if_pos hz, he, sign_mul_natAbs]
    · have he : o.natAbs / 3600 * 3600 + o.natAbs / 60 % 60 * 60 + o.natAbs % 60 =
          o.natAbs := by omega
      have hs' := hs []
      rw [List.append_nil] at hs'
      simp only [if_neg hz, readChar_cons, Option.bind_some, hs', he, sign_mul_natAbs,
        if_true]

theorem readIso_isoChars (d : DateTime) : readIso d.isoChars = some d := by
  obtain ⟨⟨_, hy⟩, ⟨_, hmo⟩, ⟨_, hd⟩, hh, hmi, hs, hus, ho⟩ := d.valid
  have hd' : d.day < 10 ^ 2 := by
    have : daysInMonth d.year d.month ≤ 31 := by
      unfold daysInMonth
      split_ifs <;> omega
    omega
  simp only [readIso, DateTime.isoChars,
    readDigits_digits_of_lt (show d.year < 10 ^ 4 by omega),
    readDigits_digits_of_lt (show d.month < 10 ^ 2 by omega),
    readDigits_digits_of_lt hd', readChar_cons, Option.bind_eq_bind, Option.bind_some,
    readTime_print hh hmi hs hus, readOffset_offsetChars ho, DateTime.mk?_self]

/-- Reading what `isoformat` printed gives the datetime back. -/
theorem fromisoformat_isoformat (d : DateTime) : fromisoformat d.isoformat = .ok d := by
  simp only [fromisoformat, DateTime.isoformat, String.toList_ofList, readIso_isoChars]

theorem ne_Z_of_mem_isoChars {d : DateTime} (h : c ∈ d.isoChars) : c ≠ 'Z' := by
  have hdig : ∀ {k n : Nat}, c ∈ digits k n → c ≠ 'Z' := by
    intro k n hc he
    have := (toNat_of_mem_digits hc).2
    subst he
    exact absurd this (by decide)
  have hoff : c ∈ offsetChars d.utcoffset → c ≠ 'Z' := by
    cases d.utcoffset with
    | none => intro hc; cases hc
    | some o =>
      simp only [offsetChars, List.mem_append, List.mem_cons]
      rintro ((hc | hc) | hc)
      · rcases hc with rfl | hc
        · split <;> decide
        · exact hdig hc
      · rcases hc with rfl | hc
        · decide
        · exact hdig hc
      · split at hc
        · cases hc
        · rcases List.mem_cons.1 hc with rfl | hc
          · decide
          · exact hdig hc
  have hfrac : c ∈ fractionChars d.microsecond → c ≠ 'Z' := by
    unfold fractionChars
    split
    · intro hc; cases hc
    · intro hc
      rcases List.mem_cons.1 hc with rfl | hc
      · decide
      · exact hdig hc
  simp only [DateTime.isoChars, List.mem_append, List.mem_cons] at h
  rcases h with h | rfl | h | rfl | h | rfl | h | rfl | h | rfl | h | h | h
  all_goals first | exact hdig h | exact hfrac h | exact hoff h | decide

theorem flatMap_replace_of_not_mem {cs new : List Char} (h : ∀ x ∈ cs, x ≠ c) :
    (cs.flatMap fun x => if x = c then new else [x]) = cs := by
  induction cs with
  | nil => rfl
  | cons x cs ih =>
    rw [List.flatMap_cons, if_neg (h x List.mem_cons_self),
      ih fun y hy => h y (List.mem_cons_of_mem _ hy)]
    rfl

theorem replaceChar_of_not_mem {s : String} (h : ∀ x ∈ s.toList, x ≠ c) :
    replaceChar c new s = s := by
  rw [replaceChar, flatMap_replace_of_not_mem h, String.ofList_toList]

theorem replaceChar_isoformat (d : DateTime) (new : String) :
    replaceChar 'Z' new d.isoformat = d.isoformat := by
  apply replaceChar_of_not_mem
  intro x hx
  rw [DateTime.isoformat, String.toList_ofList] at hx
  exact ne_Z_of_mem_isoChars hx

end Python
