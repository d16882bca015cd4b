import ScottyCore.Lib.Text

namespace Python
set_option autoImplicit true

/-! ## Texts -/

/-- `s.startswith(text)` -/
def startsWith (s text : String) : Bool := text.toList.isPrefixOf s.toList

/-- `s[:n]` -/
def sliceTo (n : Nat) (s : String) : String := String.ofList (s.toList.take n)

/-- `s.split(sep, 1)` where it gives two parts. -/
def splitOnce (sep : Char) (s : List Char) : Option (List Char × List Char) :=
  match s.dropWhile (· ≠ sep) with
  | [] => none
  | _ :: rest => some (s.takeWhile (· ≠ sep), rest)

theorem startsWith_append (s t : String) : startsWith (s ++ t) s = true := by
  rw [startsWith, List.isPrefixOf_iff_prefix, String.toList_append]
  exact List.prefix_append _ _

theorem isPrefixOf?_eq_some_iff [DecidableEq α] {l₁ l₂ : List α} :
    l₁.isPrefixOf? l₂ = some t ↔ l₂ = l₁ ++ t := by
  induction l₁ generalizing l₂ with
  | nil => exact ⟨Option.some.inj, congrArg some⟩
  | cons x l₁ ih =>
    cases l₂ with
    | nil =>
      constructor
      · intro h
        cases h
      · intro h
        cases h
    | cons y l₂ =>
      change (if x == y then l₁.isPrefixOf? l₂ else none) = some t ↔ _
      rw [List.cons_append, List.cons.injEq, ← ih]
      by_cases hxy : x = y
      · rw [if_pos (beq_iff_eq.2 hxy)]
        exact (and_iff_right hxy.symm).symm
      · rw [if_neg fun h => hxy (beq_iff_eq.1 h)]
        constructor
        · intro h
          cases h
        · intro h
          exact (hxy h.1.symm).elim

theorem isSuffixOf?_eq_some_iff [DecidableEq α] {l₁ l₂ : List α} :
    l₁.isSuffixOf? l₂ = some t ↔ l₂ = t ++ l₁ := by
  change (l₁.reverse.isPrefixOf? l₂.reverse).map List.reverse = some t ↔ _
  rw [Option.map_eq_some_iff]
  constructor
  · rintro ⟨u, hu, rfl⟩
    rw [isPrefixOf?_eq_some_iff] at hu
    rw [← List.reverse_reverse l₂, hu, List.reverse_append, List.reverse_reverse]
  · rintro rfl
    exact ⟨t.reverse, isPrefixOf?_eq_some_iff.2 List.reverse_append, List.reverse_reverse t⟩

theorem length_sliceTo (n : Nat) (s : String) : (sliceTo n s).length = min n s.length := by
  rw [sliceTo, String.length_ofList, List.length_take, String.length_toList]

theorem splitOnce_append {sep : Char} {s : List Char} (h : ∀ c ∈ s, c ≠ sep) (t : List Char) :
    splitOnce sep (s ++ sep :: t) = some (s, t) := by
  have hall : ∀ c ∈ s, decide (c ≠ sep) = true := fun c hc => decide_eq_true (h c hc)
  rw [splitOnce, List.dropWhile_append_of_pos hall, List.takeWhile_append_of_pos hall]
  simp

/-! ## Bytes in hexadecimal -/

/-- `data.hex()` -/
def hex (data : List UInt8) : List Char := data.flatMap fun byte => Uuid.hexDigits byte.toNat 2

def hexValue (c : Char) : Option Nat :=
  if '0' ≤ c ∧ c ≤ '9' then some (c.toNat - '0'.toNat)
  else if 'a' ≤ c ∧ c ≤ 'f' then some (c.toNat - 'a'.toNat + 10)
  else if 'A' ≤ c ∧ c ≤ 'F' then some (c.toNat - 'A'.toNat + 10)
  else none

def isAsciiSpace (c : Char) : Bool := c = ' ' ∨ (9 ≤ c.toNat ∧ c.toNat ≤ 13)

/-- `bytes.fromhex(s)`, where it does not raise. It skips blanks between two bytes. -/
def fromHex : List Char → Option (List UInt8)
  | [] => some []
  | [c] => if isAsciiSpace c then some [] else none
  | c :: d :: s =>
    if isAsciiSpace c then fromHex (d :: s)
    else
      match hexValue c, hexValue d with
      | some high, some low => (fromHex s).map (UInt8.ofNat (16 * high + low) :: ·)
      | _, _ => none

/-- The two digits of a byte, read back. -/
theorem hexDigits_byte (byte : UInt8) : ∃ c d high low,
    Uuid.hexDigits byte.toNat 2 = [c, d] ∧ hexValue c = some high ∧ hexValue d = some low ∧
      isAsciiSpace c = false ∧ c ≠ ':' ∧ d ≠ ':' ∧ UInt8.ofNat (16 * high + low) = byte := by
  have hall : ∀ n < 256,
      (hexValue (Nat.digitChar (n / 16 % 16))).map (fun high =>
        (hexValue (Nat.digitChar (n % 16))).map fun low => 16 * high + low) = some (some n) ∧
      isAsciiSpace (Nat.digitChar (n / 16 % 16)) = false ∧
      Nat.digitChar (n / 16 % 16) ≠ ':' ∧ Nat.digitChar (n % 16) ≠ ':' := by
    decide +kernel
  obtain ⟨hvalue, hspace, hc, hd⟩ := hall byte.toNat byte.toNat_lt
  obtain ⟨high, hhigh, hvalue⟩ := Option.map_eq_some_iff.1 hvalue
  obtain ⟨low, hlow, hvalue⟩ := Option.map_eq_some_iff.1 hvalue
  refine ⟨_, _, high, low, ?_, hhigh, hlow, hspace, hc, hd, ?_⟩
  · simp [Uuid.hexDigits]
  · rw [hvalue]
    exact UInt8.ofNat_toNat

theorem fromHex_hex (data : List UInt8) : fromHex (hex data) = some data := by
  induction data with
  | nil => rfl
  | cons byte data ih =>
    obtain ⟨c, d, high, low, hdigits, hhigh, hlow, hspace, _, _, hbyte⟩ := hexDigits_byte byte
    rw [hex, List.flatMap_cons, hdigits, ← hex]
    change fromHex (c :: d :: hex data) = _
    rw [fromHex, hspace, hhigh, hlow]
    simp only [ih, hbyte]
    rfl

theorem hex_ne_colon {data : List UInt8} (h : c ∈ hex data) : c ≠ ':' := by
  obtain ⟨byte, _, hc⟩ := List.mem_flatMap.1 h
  obtain ⟨c', d', _, _, hdigits, _, _, _, hc', hd', _⟩ := hexDigits_byte byte
  rw [hdigits] at hc
  rcases List.mem_cons.1 hc with rfl | hc
  · exact hc'
  · rw [List.mem_singleton.1 hc]
    exact hd'

/-! ## Text in UTF-8 -/

/-- `s.encode()` -/
def encodeUtf8 (s : String) : List UInt8 := s.toUTF8.data.toList

/-- `data.decode()`, where it does not raise. -/
def decodeUtf8 (data : List UInt8) : Option String := String.fromUTF8? ⟨data.toArray⟩

theorem decodeUtf8_encodeUtf8 (s : String) : decodeUtf8 (encodeUtf8 s) = some s := by
  rw [decodeUtf8, encodeUtf8, Array.toArray_toList, String.fromUTF8?]
  exact dif_pos s.isValidUTF8

end Python
