import ScottyCore.Lib.Bytes

namespace Python
set_option autoImplicit true

/-! ## Bytes that need not be text -/

/-- A character whose first bytes were read: its bits so far, the number of bytes to come and the
range of the next one. -/
structure Utf8Rest where
  bits : Nat
  left : Nat
  low : Nat
  high : Nat

/-- A byte that begins a character of several bytes. -/
def utf8Start (b : Nat) : Option Utf8Rest :=
  if 0xc2 ≤ b ∧ b ≤ 0xdf then some ⟨b % 32, 1, 0x80, 0xbf⟩
  else if b = 0xe0 then some ⟨b % 16, 2, 0xa0, 0xbf⟩
  else if b = 0xed then some ⟨b % 16, 2, 0x80, 0x9f⟩
  else if 0xe1 ≤ b ∧ b ≤ 0xef then some ⟨b % 16, 2, 0x80, 0xbf⟩
  else if b = 0xf0 then some ⟨b % 8, 3, 0x90, 0xbf⟩
  else if 0xf1 ≤ b ∧ b ≤ 0xf3 then some ⟨b % 8, 3, 0x80, 0xbf⟩
  else if b = 0xf4 then some ⟨b % 8, 3, 0x80, 0x8f⟩
  else none

/-- A byte where no character is begun. -/
def utf8First (b : Nat) : List Char × Option Utf8Rest :=
  if b < 0x80 then ([Char.ofNat b], none)
  else
    match utf8Start b with
    | some rest => ([], some rest)
    | none => (['\ufffd'], none)

/-- A byte after a begun character. -/
def utf8Next (rest : Utf8Rest) (b : Nat) : List Char × Option Utf8Rest :=
  if rest.low ≤ b ∧ b ≤ rest.high then
    let bits := rest.bits * 64 + b % 64
    if rest.left = 1 then ([Char.ofNat bits], none)
    else ([], some ⟨bits, rest.left - 1, 0x80, 0xbf⟩)
  else ('\ufffd' :: (utf8First b).1, (utf8First b).2)

def decodeFrom : Option Utf8Rest → List UInt8 → List Char
  | none, [] => []
  | some _, [] => ['\ufffd']
  | rest, b :: data =>
    let step := match rest with
      | none => utf8First b.toNat
      | some rest => utf8Next rest b.toNat
    step.1 ++ decodeFrom step.2 data

/-- `data.decode("utf-8", errors="replace")` -/
def decodeReplace (data : List UInt8) : String :=
  String.ofList (decodeFrom none data)

/-! ### Reading back what was encoded -/

theorem decodeFrom_none_cons (b : UInt8) (data : List UInt8) :
    decodeFrom none (b :: data) =
      (utf8First b.toNat).1 ++ decodeFrom (utf8First b.toNat).2 data := rfl

theorem decodeFrom_some_cons (rest : Utf8Rest) (b : UInt8) (data : List UInt8) :
    decodeFrom (some rest) (b :: data) =
      (utf8Next rest b.toNat).1 ++ decodeFrom (utf8Next rest b.toNat).2 data := rfl

/-- The first byte of a character of several bytes. -/
theorem decodeFrom_start {b : Nat} (hb : 0x80 ≤ b) (hlt : b < 0x100) (h : utf8Start b = some rest)
    (data : List UInt8) :
    decodeFrom none (UInt8.ofNat b :: data) = decodeFrom (some rest) data := by
  have hnat : (UInt8.ofNat b).toNat = b := by
    rw [UInt8.toNat_ofNat']
    exact Nat.mod_eq_of_lt hlt
  rw [decodeFrom_none_cons, hnat, utf8First, if_neg (Nat.not_lt.2 hb), h]
  rfl

/-- A byte that continues a character. -/
theorem decodeFrom_more {n b : Nat} (hn : 1 < n) (hrange : low ≤ b ∧ b ≤ high) (hlt : b < 0x100)
    (data : List UInt8) : decodeFrom (some ⟨bits, n, low, high⟩) (UInt8.ofNat b :: data) =
      decodeFrom (some ⟨bits * 64 + b % 64, n - 1, 0x80, 0xbf⟩) data := by
  have hnat : (UInt8.ofNat b).toNat = b := by
    rw [UInt8.toNat_ofNat']
    exact Nat.mod_eq_of_lt hlt
  rw [decodeFrom_some_cons, hnat, utf8Next, if_pos hrange]
  dsimp only
  rw [if_neg (Nat.ne_of_gt hn)]
  rfl

/-- The last byte of a character. -/
theorem decodeFrom_last {b : Nat} (hrange : low ≤ b ∧ b ≤ high) (hlt : b < 0x100)
    (data : List UInt8) : decodeFrom (some ⟨bits, 1, low, high⟩) (UInt8.ofNat b :: data) =
      Char.ofNat (bits * 64 + b % 64) :: decodeFrom none data := by
  have hnat : (UInt8.ofNat b).toNat = b := by
    rw [UInt8.toNat_ofNat']
    exact Nat.mod_eq_of_lt hlt
  rw [decodeFrom_some_cons, hnat, utf8Next, if_pos hrange]
  rfl

/-- The first two bytes of a character of three bytes. -/
theorem utf8Start_three {v : Nat} (hlow : 0x7ff < v) (hhigh : v ≤ 0xffff)
    (hvalid : v < 0xd800 ∨ 0xdfff < v) :
    ∃ low high, utf8Start (v / 4096 % 0x10 + 0xe0) =
        some ⟨(v / 4096 % 0x10 + 0xe0) % 16, 2, low, high⟩ ∧
      low ≤ v / 64 % 0x40 + 0x80 ∧ v / 64 % 0x40 + 0x80 ≤ high := by
  rw [utf8Start]
  split
  · omega
  · split
    · exact ⟨_, _, rfl, by omega, by omega⟩
    · split
      · exact ⟨_, _, rfl, by omega, by omega⟩
      · rw [if_pos (by omega)]
        exact ⟨_, _, rfl, by omega, by omega⟩

/-- The first two bytes of a character of four bytes. -/
theorem utf8Start_four {v : Nat} (hlow : 0xffff < v) (hhigh : v < 0x110000) :
    ∃ low high, utf8Start (v / 262144 % 0x08 + 0xf0) =
        some ⟨(v / 262144 % 0x08 + 0xf0) % 8, 3, low, high⟩ ∧
      low ≤ v / 4096 % 0x40 + 0x80 ∧ v / 4096 % 0x40 + 0x80 ≤ high := by
  rw [utf8Start, if_neg (by omega), if_neg (by omega), if_neg (by omega), if_neg (by omega)]
  split
  · exact ⟨_, _, rfl, by omega, by omega⟩
  · split
    · exact ⟨_, _, rfl, by omega, by omega⟩
    · rw [if_pos (by omega)]
      exact ⟨_, _, rfl, by omega, by omega⟩

theorem decodeFrom_utf8EncodeChar (c : Char) (data : List UInt8) :
    decodeFrom none (String.utf8EncodeChar c ++ data) = c :: decodeFrom none data := by
  have hvalid : c.val.toNat < 0xd800 ∨ 0xdfff < c.val.toNat ∧ c.val.toNat < 0x110000 := c.valid
  have hchar : ∀ v, v = c.val.toNat → Char.ofNat v = c := by
    rintro v rfl
    exact Char.ofNat_toNat c
  rw [String.utf8EncodeChar]
  generalize c.val.toNat = v at hvalid hchar
  split
  · rename_i hone
    have hnat : (UInt8.ofNat v).toNat = v := by
      rw [UInt8.toNat_ofNat']
      omega
    rw [List.cons_append, decodeFrom_none_cons, hnat, utf8First, if_pos (by omega), hchar v rfl]
    rfl
  · split
    · rename_i hone htwo
      have hstart : utf8Start (v / 64 % 0x20 + 0xc0) =
          some ⟨(v / 64 % 0x20 + 0xc0) % 32, 1, 0x80, 0xbf⟩ := if_pos (by omega)
      rw [List.cons_append, decodeFrom_start (by omega) (by omega) hstart, List.cons_append,
        decodeFrom_last (by omega) (by omega), hchar _ (by omega)]
      rfl
    · split
      · rename_i hone htwo hthree
        obtain ⟨low, high, hstart, hrange⟩ := utf8Start_three (by omega) hthree (by omega)
        rw [List.cons_append, decodeFrom_start (by omega) (by omega) hstart, List.cons_append,
          decodeFrom_more (by omega) hrange (by omega), List.cons_append,
          decodeFrom_last (by omega) (by omega), hchar _ (by omega)]
        rfl
      · rename_i hone htwo hthree
        obtain ⟨low, high, hstart, hrange⟩ := utf8Start_four (v := v) (by omega) (by omega)
        rw [List.cons_append, decodeFrom_start (by omega) (by omega) hstart, List.cons_append,
          decodeFrom_more (by omega) hrange (by omega), List.cons_append,
          decodeFrom_more (by omega) (by omega) (by omega), List.cons_append,
          decodeFrom_last (by omega) (by omega), hchar _ (by omega)]
        rfl

theorem encodeUtf8_eq (s : String) : encodeUtf8 s = s.toList.flatMap String.utf8EncodeChar := by
  rw [encodeUtf8, String.toUTF8_eq_toByteArray, ← String.utf8Encode_toList, List.utf8Encode,
    List.data_toByteArray]

theorem decodeReplace_encodeUtf8 (s : String) : decodeReplace (encodeUtf8 s) = s := by
  have hdecode : ∀ cs : List Char, decodeFrom none (cs.flatMap String.utf8EncodeChar) = cs := by
    intro cs
    induction cs with
    | nil => rfl
    | cons c cs ih => rw [List.flatMap_cons, decodeFrom_utf8EncodeChar, ih]
  rw [decodeReplace, encodeUtf8_eq, hdecode, String.ofList_toList]

end Python
