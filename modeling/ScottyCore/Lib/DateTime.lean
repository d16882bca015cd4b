import Mathlib.Data.Nat.Basic
import Mathlib.Tactic.IntervalCases
import Mathlib.Tactic.Ring

namespace Python
set_option autoImplicit true

/-- The exceptions of the language itself, with their messages. -/
inductive Error where
  | typeError (msg : String)
  | valueError (msg : String)
  | attributeError (msg : String)
  | keyError (msg : String)
  | overflowError (msg : String)
  deriving DecidableEq, Repr

def isLeap (year : Nat) : Bool :=
  year % 4 = 0 ∧ (year % 100 ≠ 0 ∨ year % 400 = 0)

def daysInMonth (year month : Nat) : Nat :=
  if month = 2 then (if isLeap year then 29 else 28)
  else if month = 4 ∨ month = 6 ∨ month = 9 ∨ month = 11 then 30 else 31

def daysBeforeYear (year : Nat) : Nat :=
  (year - 1) * 365 + (year - 1) / 4 - (year - 1) / 100 + (year - 1) / 400

def daysBeforeMonth (year : Nat) : Nat → Nat
  | 0 => 0
  | 1 => 0
  | month + 2 => daysBeforeMonth year (month + 1) + daysInMonth year (month + 1)

def toOrdinal (year month day : Nat) : Nat :=
  daysBeforeYear year + daysBeforeMonth year month + day

def ofOrdinal (n : Nat) : Nat × Nat × Nat :=
  let n := n - 1
  let n400 := n / 146097
  let n := n % 146097
  let n100 := n / 36524
  let n := n % 36524
  let n4 := n / 1461
  let n := n % 1461
  let n1 := n / 365
  let n := n % 365
  let year := n400 * 400 + 1 + n100 * 100 + n4 * 4 + n1
  if n1 = 4 ∨ n100 = 4 then (year - 1, 12, 31)
  else
    let month := (n + 50) / 32
    let month := if daysBeforeMonth year month > n then month - 1 else month
    (year, month, n - daysBeforeMonth year month + 1)

theorem yearLength_eq (year : Nat) : (if isLeap year then 366 else 365) =
    365 + (if year % 4 = 0 then 1 else 0) - (if year % 100 = 0 then 1 else 0) +
      (if year % 400 = 0 then 1 else 0) := by
  have h₁ : year % 100 = 0 → year % 4 = 0 := by omega
  have h₂ : year % 400 = 0 → year % 100 = 0 := by omega
  by_cases h₄ : year % 4 = 0 <;> by_cases h₁₀₀ : year % 100 = 0 <;>
    by_cases h₄₀₀ : year % 400 = 0 <;> simp_all [isLeap]

theorem succ_div_eq (a k : Nat) :
    (a + 1) / k = a / k + if (a + 1) % k = 0 then 1 else 0 := by
  rw [Nat.succ_div]
  simp only [Nat.dvd_iff_mod_eq_zero]

theorem daysBeforeYear_succ (h : 1 ≤ year) :
    daysBeforeYear (year + 1) = daysBeforeYear year + if isLeap year then 366 else 365 := by
  obtain ⟨a, rfl⟩ : ∃ a, year = a + 1 := ⟨year - 1, by omega⟩
  have hle : a / 100 ≤ a / 4 := Nat.div_le_div_left (by decide) (by decide)
  simp only [daysBeforeYear, yearLength_eq, Nat.add_sub_cancel, succ_div_eq]
  generalize a / 4 = q at hle ⊢
  generalize a / 100 = q' at hle ⊢
  generalize a / 400 = q''
  split_ifs <;> omega

theorem daysBeforeMonth_le (year : Nat) (h : m < m') :
    daysBeforeMonth year (m + 1) ≤ daysBeforeMonth year m' := by
  induction m', h using Nat.le_induction with
  | base => exact Nat.le_refl _
  | succ k hk ih =>
    obtain ⟨j, rfl⟩ : ∃ j, k = j + 1 := ⟨k - 1, by omega⟩
    have hstep : daysBeforeMonth year (j + 1 + 1) =
        daysBeforeMonth year (j + 1) + daysInMonth year (j + 1) := rfl
    omega

theorem daysBeforeMonth_end (year : Nat) :
    daysBeforeMonth year 13 = if isLeap year then 366 else 365 := by
  simp only [daysBeforeMonth, daysInMonth]
  cases isLeap year <;> rfl

theorem daysBeforeYear_le (h₁ : 1 ≤ y) (h : y < y') :
    daysBeforeYear (y + 1) ≤ daysBeforeYear y' := by
  induction y', h using Nat.le_induction with
  | base => exact Nat.le_refl _
  | succ k hk ih =>
    rw [daysBeforeYear_succ (show 1 ≤ k by omega)]
    omega

theorem day_le_daysBeforeMonth (hm : 1 ≤ m) (hd : d ≤ daysInMonth y m) :
    daysBeforeMonth y m + d ≤ daysBeforeMonth y (m + 1) := by
  obtain ⟨j, rfl⟩ : ∃ j, m = j + 1 := ⟨m - 1, by omega⟩
  exact Nat.add_le_add_left hd _

theorem toOrdinal_le (hy : 1 ≤ y) (hm : 1 ≤ m ∧ m ≤ 12) (hd : d ≤ daysInMonth y m) :
    toOrdinal y m d ≤ daysBeforeYear (y + 1) := by
  have h₁ := day_le_daysBeforeMonth hm.1 hd
  have h₂ : daysBeforeMonth y (m + 1) ≤ daysBeforeMonth y 13 :=
    daysBeforeMonth_le y (by omega)
  rw [daysBeforeYear_succ hy, ← daysBeforeMonth_end]
  unfold toOrdinal
  omega

theorem toOrdinal_injective (hy : 1 ≤ y) (hm : 1 ≤ m ∧ m ≤ 12)
    (hd : 1 ≤ d ∧ d ≤ daysInMonth y m) (hy' : 1 ≤ y') (hm' : 1 ≤ m' ∧ m' ≤ 12)
    (hd' : 1 ≤ d' ∧ d' ≤ daysInMonth y' m') (h : toOrdinal y m d = toOrdinal y' m' d') :
    y = y' ∧ m = m' ∧ d = d' := by
  have hle := toOrdinal_le hy hm hd.2
  have hle' := toOrdinal_le hy' hm' hd'.2
  have heq : y = y' := by
    rcases Nat.lt_trichotomy y y' with hlt | heq | hlt
    · have := daysBeforeYear_le hy hlt
      unfold toOrdinal at h hle
      omega
    · exact heq
    · have := daysBeforeYear_le hy' hlt
      unfold toOrdinal at h hle'
      omega
  subst y'
  have hmle := day_le_daysBeforeMonth hm.1 hd.2
  have hmle' := day_le_daysBeforeMonth hm'.1 hd'.2
  unfold toOrdinal at h
  rcases Nat.lt_trichotomy m m' with hlt | heq | hlt
  · have := daysBeforeMonth_le y hlt
    omega
  · subst m'
    exact ⟨rfl, rfl, by omega⟩
  · have := daysBeforeMonth_le y hlt
    omega

theorem daysBeforeMonth_congr {year year' : Nat} (h : isLeap year = isLeap year') (month : Nat) :
    daysBeforeMonth year month = daysBeforeMonth year' month := by
  induction month using daysBeforeMonth.induct with
  | case1 => rfl
  | case2 => rfl
  | case3 month ih =>
    rw [daysBeforeMonth, daysBeforeMonth, ih, daysInMonth, daysInMonth, h]

/-- The month of a day of the year is guessed at most one too late. -/
theorem daysBeforeMonth_guess (year : Nat) (h : n < 365) :
    let month := (n + 50) / 32
    daysBeforeMonth year (if daysBeforeMonth year month > n then month - 1 else month) ≤ n := by
  have hall : ∀ y ∈ [1, 4], ∀ n < 365,
      daysBeforeMonth y (if daysBeforeMonth y ((n + 50) / 32) > n then (n + 50) / 32 - 1
        else (n + 50) / 32) ≤ n := by decide +kernel
  cases hleap : isLeap year with
  | true =>
    have hy : isLeap year = isLeap 4 := hleap
    simp only [daysBeforeMonth_congr hy]
    exact hall 4 (by decide) n h
  | false =>
    have hy : isLeap year = isLeap 1 := hleap
    simp only [daysBeforeMonth_congr hy]
    exact hall 1 (by decide) n h

theorem toOrdinal_last (hy : 1 ≤ year) :
    toOrdinal year 12 31 = daysBeforeYear (year + 1) := by
  have hend := daysBeforeMonth_end year
  have hstep : daysBeforeMonth year 13 = daysBeforeMonth year 12 + daysInMonth year 12 := rfl
  have hdec : daysInMonth year 12 = 31 := rfl
  rw [daysBeforeYear_succ hy, toOrdinal]
  omega

/-- The days before a year, by its place in the 400-, 100- and 4-year cycles. -/
theorem daysBeforeYear_cycles (h₁₀₀ : b < 4) (h₄ : c < 25) (h₁ : d < 4) :
    daysBeforeYear (a * 400 + 1 + b * 100 + c * 4 + d) =
      a * 146097 + b * 36524 + c * 1461 + d * 365 := by
  unfold daysBeforeYear
  omega

theorem toOrdinal_ofOrdinal (h : 1 ≤ n) :
    toOrdinal (ofOrdinal n).1 (ofOrdinal n).2.1 (ofOrdinal n).2.2 = n := by
  unfold ofOrdinal
  simp only
  generalize hN : n - 1 = N
  generalize ha : N / 146097 = a
  generalize hr₁ : N % 146097 = r₁
  generalize hb : r₁ / 36524 = b
  generalize hr₂ : r₁ % 36524 = r₂
  generalize hc : r₂ / 1461 = c
  generalize hr₃ : r₂ % 1461 = r₃
  generalize hd : r₃ / 365 = d
  generalize hr₄ : r₃ % 365 = r₄
  split
  · rename_i hlast
    have hyear : 1 ≤ a * 400 + 1 + b * 100 + c * 4 + d - 1 := by omega
    rw [toOrdinal_last hyear]
    rcases hlast with rfl | rfl
    · have hcycle := daysBeforeYear_cycles (a := a) (b := b) (c := c + 1) (d := 0)
        (by omega) (by omega) (by omega)
      rw [show a * 400 + 1 + b * 100 + c * 4 + 4 - 1 + 1 =
        a * 400 + 1 + b * 100 + (c + 1) * 4 + 0 by omega, hcycle]
      omega
    · have hcycle := daysBeforeYear_cycles (a := a + 1) (b := 0) (c := 0) (d := 0)
        (by omega) (by omega) (by omega)
      rw [show a * 400 + 1 + 4 * 100 + c * 4 + d - 1 + 1 =
        (a + 1) * 400 + 1 + 0 * 100 + 0 * 4 + 0 by omega, hcycle]
      omega
  · rename_i hmid
    obtain ⟨hd', hb'⟩ := not_or.1 hmid
    have hguess := daysBeforeMonth_guess (a * 400 + 1 + b * 100 + c * 4 + d)
      (n := r₄) (by omega)
    simp only at hguess
    rw [toOrdinal, daysBeforeYear_cycles (by omega) (by omega) (by omega)]
    dsimp only
    omega

/-- A `datetime.datetime`, naive when it has no UTC offset. Offsets are in seconds. -/
structure DateTime where
  year : Nat
  month : Nat
  day : Nat
  hour : Nat
  minute : Nat
  second : Nat
  microsecond : Nat
  utcoffset : Option Int
  valid : (1 ≤ year ∧ year ≤ 9999) ∧ (1 ≤ month ∧ month ≤ 12) ∧
    (1 ≤ day ∧ day ≤ daysInMonth year month) ∧ hour < 24 ∧ minute < 60 ∧ second < 60 ∧
    microsecond < 1000000 ∧ ∀ o ∈ utcoffset, o.natAbs < 86400
  deriving DecidableEq

namespace DateTime

def mk? (year month day hour minute second microsecond : Nat) (utcoffset : Option Int) :
    Option DateTime :=
  if h : (1 ≤ year ∧ year ≤ 9999) ∧ (1 ≤ month ∧ month ≤ 12) ∧
      (1 ≤ day ∧ day ≤ daysInMonth year month) ∧ hour < 24 ∧ minute < 60 ∧ second < 60 ∧
      microsecond < 1000000 ∧ ∀ o ∈ utcoffset, o.natAbs < 86400 then
    some ⟨year, month, day, hour, minute, second, microsecond, utcoffset, h⟩
  else none

theorem mk?_self (d : DateTime) :
    mk? d.year d.month d.day d.hour d.minute d.second d.microsecond d.utcoffset = some d :=
  dif_pos d.valid

/-- Microseconds of the wall clock since the day before year 1. -/
def wallMicros (d : DateTime) : Int :=
  (((toOrdinal d.year d.month d.day * 24 + d.hour) * 60 + d.minute) * 60 + d.second : Nat)
    * 1000000 + d.microsecond

/-- The moment a datetime names, a naive one being read as UTC. -/
def instant (d : DateTime) : Int :=
  d.wallMicros - d.utcoffset.getD 0 * 1000000

def isNaive (d : DateTime) : Bool := d.utcoffset.isNone

/-- The datetime with given wall-clock microseconds, if the calendar has one. -/
def ofWallMicros (micros : Int) (utcoffset : Option Int) : Option DateTime :=
  let n := micros.toNat
  let s := n / 1000000
  let day := s / 86400
  if day = 0 then none
  else mk? (ofOrdinal day).1 (ofOrdinal day).2.1 (ofOrdinal day).2.2
    (s / 3600 % 24) (s / 60 % 60) (s % 60) (n % 1000000) utcoffset

/-- `d + timedelta(microseconds=delta)`, an `OverflowError` outside the calendar. -/
def add (d : DateTime) (delta : Int) : Except Error DateTime :=
  match ofWallMicros (d.wallMicros + delta) d.utcoffset with
  | some d => .ok d
  | none => .error (.overflowError "date value out of range")

theorem mk?_eq_some (h : mk? y mo da hh mi se us o = some d) :
    d.wallMicros = (((toOrdinal y mo da * 24 + hh) * 60 + mi) * 60 + se : Nat) * 1000000 + us ∧
      d.utcoffset = o := by
  unfold mk? at h
  split at h
  · cases h
    exact ⟨rfl, rfl⟩
  · cases h

theorem wallMicros_ofWallMicros (h : ofWallMicros micros o = some d) :
    d.wallMicros = micros ∧ d.utcoffset = o := by
  unfold ofWallMicros at h
  simp only at h
  split at h
  · cases h
  · rename_i hday
    obtain ⟨hwall, ho⟩ := mk?_eq_some h
    rw [toOrdinal_ofOrdinal (by omega)] at hwall
    refine ⟨?_, ho⟩
    rw [hwall]
    omega

theorem instant_add {d e : DateTime} (h : d.add delta = .ok e) :
    e.instant = d.instant + delta := by
  unfold add at h
  split at h
  · rename_i e' he
    cases h
    obtain ⟨hwall, ho⟩ := wallMicros_ofWallMicros he
    unfold instant
    rw [hwall, ho]
    omega
  · cases h

theorem ext_of_wallMicros {a b : DateTime} (h : a.wallMicros = b.wallMicros)
    (ho : a.utcoffset = b.utcoffset) : a = b := by
  obtain ⟨hya, hma, hda, hha, hmia, hsa, hua, -⟩ := a.valid
  obtain ⟨hyb, hmb, hdb, hhb, hmib, hsb, hub, -⟩ := b.valid
  unfold wallMicros at h
  have hord : toOrdinal a.year a.month a.day = toOrdinal b.year b.month b.day := by omega
  obtain ⟨hy, hm, hd⟩ := toOrdinal_injective hya.1 hma hda hyb.1 hmb hdb hord
  have hh : a.hour = b.hour := by omega
  have hmi : a.minute = b.minute := by omega
  have hs : a.second = b.second := by omega
  have hu : a.microsecond = b.microsecond := by omega
  cases a
  cases b
  congr

/-- `a < b`: naive and aware datetimes have no order. -/
def lt (a b : DateTime) : Except Error Bool :=
  if a.isNaive = b.isNaive then .ok (a.instant < b.instant)
  else .error (.typeError "can't compare offset-naive and offset-aware datetimes")

/-- `a == b`: a naive datetime never equals an aware one. -/
def eq (a b : DateTime) : Bool :=
  a.isNaive = b.isNaive ∧ a.instant = b.instant

@[simp] theorem eq_self (a : DateTime) : a.eq a = true := by simp [eq]

theorem eq_of_eq {a b : DateTime} (h : a.eq b = true) (ho : a.utcoffset = b.utcoffset) :
    a = b := by
  have hi : a.instant = b.instant := (of_decide_eq_true h).2
  unfold instant at hi
  rw [ho] at hi
  exact ext_of_wallMicros (by omega) ho

theorem lt_ok_iff {a b : DateTime} :
    a.lt b = .ok r ↔ a.isNaive = b.isNaive ∧ r = decide (a.instant < b.instant) := by
  unfold lt
  split
  · rename_i h
    constructor
    · intro he; exact ⟨h, (Except.ok.inj he).symm⟩
    · rintro ⟨-, rfl⟩; rfl
  · rename_i h
    constructor
    · intro he; cases he
    · rintro ⟨he, -⟩; exact (h he).elim

/-- `d.replace(tzinfo=None)`, and with an offset for a naive datetime. -/
def withOffset (d : DateTime) (o : Option Int) (h : ∀ x ∈ o, x.natAbs < 86400) : DateTime :=
  { d with
    utcoffset := o
    valid := ⟨d.valid.1, d.valid.2.1, d.valid.2.2.1, d.valid.2.2.2.1, d.valid.2.2.2.2.1,
      d.valid.2.2.2.2.2.1, d.valid.2.2.2.2.2.2.1, h⟩ }

end DateTime

/-! ## Decimal digits -/

/-- The last `k` decimal digits of a number, most significant first (`%0kd`). -/
def digits : Nat → Nat → List Char
  | 0, _ => []
  | k + 1, n => Char.ofNat (48 + n / 10 ^ k % 10) :: digits k n

def digitVal (c : Char) : Option Nat :=
  if 48 ≤ c.toNat ∧ c.toNat ≤ 57 then some (c.toNat - 48) else none

/-- Read exactly `k` decimal digits after those already read. -/
def readDigits : Nat → Nat → List Char → Option (Nat × List Char)
  | 0, acc, cs => some (acc, cs)
  | _ + 1, _, [] => none
  | k + 1, acc, c :: cs =>
    match digitVal c with
    | some v => readDigits k (acc * 10 + v) cs
    | none => none

theorem toNat_digit (n : Nat) : (Char.ofNat (48 + n % 10)).toNat = 48 + n % 10 := by
  have h : n % 10 < 10 := Nat.mod_lt _ (by decide)
  generalize n % 10 = m at h
  interval_cases m <;> rfl

theorem digitVal_digit (n : Nat) : digitVal (Char.ofNat (48 + n % 10)) = some (n % 10) := by
  have h : n % 10 < 10 := Nat.mod_lt _ (by decide)
  simp only [digitVal, toNat_digit]
  rw [if_pos (by omega)]
  congr 1
  omega

theorem readDigits_digits (k acc n : Nat) (rest : List Char) :
    readDigits k acc (digits k n ++ rest) = some (acc * 10 ^ k + n % 10 ^ k, rest) := by
  induction k generalizing acc with
  | zero => simp [readDigits, digits, Nat.mod_one]
  | succ k ih =>
    simp only [digits, List.cons_append, readDigits, digitVal_digit, ih]
    congr 2
    have hn : n % 10 ^ (k + 1) = n % 10 ^ k + 10 ^ k * (n / 10 ^ k % 10) := by
      rw [pow_succ, Nat.mod_mul]
    rw [hn, pow_succ]
    ring

theorem readDigits_digits_of_lt (h : n < 10 ^ k) (rest : List Char) :
    readDigits k 0 (digits k n ++ rest) = some (n, rest) := by
  rw [readDigits_digits, Nat.zero_mul, Nat.zero_add, Nat.mod_eq_of_lt h]

theorem toNat_of_mem_digits (h : c ∈ digits k n) : 48 ≤ c.toNat ∧ c.toNat ≤ 57 := by
  induction k with
  | zero => cases h
  | succ k ih =>
    rcases List.mem_cons.1 h with rfl | h
    · rw [toNat_digit]
      have := Nat.mod_lt (n / 10 ^ k) (show 10 > 0 by decide)
      omega
    · exact ih h

end Python
