import Mathlib.Data.List.TakeWhile
import ScottyCore.Backup.Sinks

namespace ScottyCore
open Python
set_option autoImplicit true

variable {Data : Type} {libs : BackupLibraries Data}
variable {gpgDecrypt : Data → String → Except Exc Data} {p q passphrase : String}

/-! ## `crypto.py` and gpg -/

/-- `decrypt_bundle`, with what gpg does with the data and the text of the passphrase file. -/
def decryptBundle (gpgDecrypt : Data → String → Except Exc Data) (data : Data)
    (passphrase : String) : Except Exc Data :=
  if normalisePassphrase passphrase = "" then
    .error (.runtimeError "empty passphrase is not allowed")
  else gpgDecrypt data (normalisePassphrase passphrase)

def firstLine (text : String) : String := String.ofList (text.toList.takeWhile (· ≠ '\n'))

/-- The key that gpg takes from the passphrase file. -/
def gpgKey (passphrase : String) : String := firstLine (normalisePassphrase passphrase)

/-- What `crypto.py` states of gpg: it reads its passphrase file up to the first newline. It takes
every key but the empty one, and decrypts what it encrypted with the same file. -/
structure ReadsFirstLine (libs : BackupLibraries Data)
    (gpgDecrypt : Data → String → Except Exc Data) : Prop where
  encrypt : ∀ data file, libs.gpg data file = libs.gpg data (firstLine file)
  decrypt : ∀ data file, gpgDecrypt data file = gpgDecrypt data (firstLine file)
  takes : ∀ file, firstLine file ≠ "" → ∃ data out, libs.gpg data file = .ok out
  inverse : ∀ data file out, libs.gpg data file = .ok out → gpgDecrypt out file = .ok data

def Accepts (libs : BackupLibraries Data) (passphrase : String) : Prop :=
  ∃ data out, encryptBundle libs data passphrase = .ok out

/-- Both functions raise, whatever gpg would do. -/
def Rejects (libs : BackupLibraries Data) (passphrase : String) : Prop :=
  ∀ (gpg gpgDecrypt : Data → String → Except Exc Data) (data : Data),
    (∃ e, encryptBundle { libs with gpg := gpg } data passphrase = .error e) ∧
      ∃ e, decryptBundle gpgDecrypt data passphrase = .error e

/-- What is encrypted with the one passphrase is decrypted with the other. -/
def Decrypts (libs : BackupLibraries Data) (gpgDecrypt : Data → String → Except Exc Data)
    (p q : String) : Prop :=
  ∀ data out, encryptBundle libs data p = .ok out → decryptBundle gpgDecrypt out q = .ok data

/-- The fingerprint tells the key, and an empty key is rejected. -/
structure KeyLaw (libs : BackupLibraries Data) (gpgDecrypt : Data → String → Except Exc Data)
    (p q : String) : Prop where
  same : Accepts libs p → Accepts libs q → gpgKey p = gpgKey q →
    fingerprint libs p = fingerprint libs q ∧
      Decrypts libs gpgDecrypt p q ∧ Decrypts libs gpgDecrypt q p
  empty : ∀ passphrase ∈ [p, q], gpgKey passphrase = "" → Rejects libs passphrase

/-- The first lines of the normalised passphrases agree only where the whole texts do, and neither
text begins with a newline. -/
structure ToldByFirstLine (p q : String) : Prop where
  same : gpgKey p = gpgKey q → normalisePassphrase p = normalisePassphrase q
  empty : ∀ passphrase ∈ [p, q], gpgKey passphrase = "" → normalisePassphrase passphrase = ""

/-- Two texts of one digest. -/
def Collides (libs : BackupLibraries Data) (text text' : String) : Prop :=
  text ≠ text' ∧ libs.shortDigest text = libs.shortDigest text'

/-! ## First lines -/

theorem firstLine_eq_self {text : String} (h : '\n' ∉ text.toList) : firstLine text = text := by
  have hall : text.toList.takeWhile (· ≠ '\n') = text.toList := by
    rw [List.takeWhile_eq_self_iff]
    intro c hc
    rw [decide_eq_true_iff]
    intro he
    exact h (he ▸ hc)
  rw [firstLine, hall, String.ofList_toList]

/-- Passphrases of one line, whatever newlines follow it, are told by it. -/
theorem toldByFirstLine_of_oneLine (hp : '\n' ∉ (normalisePassphrase p).toList)
    (hq : '\n' ∉ (normalisePassphrase q).toList) : ToldByFirstLine p q := by
  have hp' : gpgKey p = normalisePassphrase p := firstLine_eq_self hp
  have hq' : gpgKey q = normalisePassphrase q := firstLine_eq_self hq
  constructor
  · rw [hp', hq']
    exact id
  · intro passphrase hmem hempty
    rcases List.mem_pair.1 hmem with rfl | rfl
    · rw [← hp', hempty]
    · rw [← hq', hempty]

/-! ## The two functions -/

theorem encryptBundle_eq_ok {data out : Data} :
    encryptBundle libs data passphrase = .ok out ↔
      normalisePassphrase passphrase ≠ "" ∧
        libs.gpg data (normalisePassphrase passphrase) = .ok out := by
  rw [encryptBundle]
  split
  · rename_i hempty
    constructor
    · intro h
      cases h
    · intro h
      exact (h.1 hempty).elim
  · rename_i hne
    exact ⟨fun h => ⟨hne, h⟩, And.right⟩

theorem ReadsFirstLine.accepts (h : ReadsFirstLine libs gpgDecrypt)
    (hkey : gpgKey passphrase ≠ "") : Accepts libs passphrase := by
  obtain ⟨data, out, hout⟩ := h.takes _ hkey
  refine ⟨data, out, encryptBundle_eq_ok.2 ⟨?_, hout⟩⟩
  intro hempty
  rw [gpgKey, hempty] at hkey
  exact hkey rfl

theorem ReadsFirstLine.rejects_iff (h : ReadsFirstLine libs gpgDecrypt) :
    Rejects libs passphrase ↔ normalisePassphrase passphrase = "" := by
  constructor
  · intro hrejects
    obtain ⟨data, -⟩ := h.takes "a" (by decide)
    by_contra hne
    obtain ⟨⟨e, he⟩, -⟩ := hrejects (fun data _ => .ok data) gpgDecrypt data
    rw [encryptBundle, if_neg hne] at he
    cases he
  · intro hempty gpg gpgDecrypt' data
    rw [encryptBundle, decryptBundle, if_pos hempty, if_pos hempty]
    exact ⟨⟨_, rfl⟩, ⟨_, rfl⟩⟩

theorem normalise_ne_empty_of_accepts (h : Accepts libs passphrase) :
    normalisePassphrase passphrase ≠ "" := by
  obtain ⟨data, out, hout⟩ := h
  exact (encryptBundle_eq_ok.1 hout).1

/-- One key decrypts what it encrypted, from whatever passphrases it was taken. -/
theorem ReadsFirstLine.decrypts (h : ReadsFirstLine libs gpgDecrypt) (hq : Accepts libs q)
    (hkey : gpgKey p = gpgKey q) : Decrypts libs gpgDecrypt p q := by
  intro data out hout
  have hgpg := (encryptBundle_eq_ok.1 hout).2
  rw [h.encrypt, ← gpgKey, hkey, gpgKey, ← h.encrypt] at hgpg
  rw [decryptBundle, if_neg (normalise_ne_empty_of_accepts hq)]
  exact h.inverse _ _ _ hgpg

/-- The fingerprint tells the key where the first line tells the passphrase, and else only where
two digests collide. -/
theorem keyLaw_iff (h : ReadsFirstLine libs gpgDecrypt) :
    (ToldByFirstLine p q → KeyLaw libs gpgDecrypt p q) ∧
      (KeyLaw libs gpgDecrypt p q → ToldByFirstLine p q ∨
        Collides libs (normalisePassphrase p) (normalisePassphrase q)) := by
  constructor
  · intro htold
    constructor
    · intro hp hq hkey
      refine ⟨?_, h.decrypts hq hkey, h.decrypts hp hkey.symm⟩
      rw [fingerprint, fingerprint, htold.same hkey]
    · intro passphrase hmem hempty
      exact h.rejects_iff.2 (htold.empty passphrase hmem hempty)
  · intro hlaw
    by_cases hcollides : Collides libs (normalisePassphrase p) (normalisePassphrase q)
    · exact .inr hcollides
    · left
      have hempty : ∀ passphrase ∈ [p, q], gpgKey passphrase = "" →
          normalisePassphrase passphrase = "" := fun passphrase hmem hkey =>
        h.rejects_iff.1 (hlaw.empty passphrase hmem hkey)
      refine ⟨fun hkey => ?_, hempty⟩
      by_cases hp : gpgKey p = ""
      · rw [hempty p (List.mem_pair.2 (.inl rfl)) hp,
          hempty q (List.mem_pair.2 (.inr rfl)) (hkey ▸ hp)]
      · have hdigest := (hlaw.same (h.accepts hp) (h.accepts (hkey ▸ hp)) hkey).1
        by_contra hne
        exact hcollides ⟨hne, hdigest⟩

/-! ## Example -/

/-- The data show under which keys they were encrypted. -/
def keyedGpg (data : List String) (file : String) : Except Exc (List String) :=
  if firstLine file = "" then .error (.runtimeError "gpg encrypt failed (2)")
  else .ok (firstLine file :: data)

def keyedDecrypt : List String → String → Except Exc (List String)
  | key :: data, file =>
    if firstLine file = key then .ok data else .error (.runtimeError "gpg decrypt failed (2)")
  | [], _ => .error (.runtimeError "gpg decrypt failed (2)")

/-- The libraries with this gpg and the digests of three texts. -/
def BackupLibraries.keyed : BackupLibraries (List String) where
  encode _ := []
  size data := data.length
  sha256 _ := ""
  gpg := keyedGpg
  shortDigest
    | "pw" => "30c952fa"
    | "line1" => "815750a4"
    | "line1\nline2" => "683376e2"
    | _ => ""
  croniter _ base := .ok base
  resolveUnder root locator := resolveParts (splitPath root ++ splitPath locator)
  format template _ := .ok template

theorem firstLine_firstLine (text : String) : firstLine (firstLine text) = firstLine text := by
  apply firstLine_eq_self
  rw [firstLine, String.toList_ofList]
  intro hmem
  exact absurd (List.mem_takeWhile_imp hmem) (by decide)

theorem readsFirstLine_keyed : ReadsFirstLine .keyed keyedDecrypt where
  encrypt data file := by
    simp only [BackupLibraries.keyed, keyedGpg, firstLine_firstLine]
  decrypt data file := by
    cases data with
    | nil => rfl
    | cons key data => simp only [keyedDecrypt, firstLine_firstLine]
  takes file hfile := ⟨[], [firstLine file], if_neg hfile⟩
  inverse data file out hout := by
    have hgpg : keyedGpg data file = .ok out := hout
    rw [keyedGpg] at hgpg
    split at hgpg
    · cases hgpg
    · cases hgpg
      exact if_pos rfl

theorem keyLaw_pw : KeyLaw .keyed keyedDecrypt "pw\n" "pw" := by
  apply (keyLaw_iff readsFirstLine_keyed).1
  exact toldByFirstLine_of_oneLine (by decide) (by decide)

/-- The digest is taken of the lines that gpg does not read, too. -/
theorem fingerprint_of_unread_line : ¬ KeyLaw .keyed keyedDecrypt "line1\nline2" "line1" := by
  intro h
  have haccepts : Accepts .keyed "line1\nline2" := ⟨[], ["line1"], by decide⟩
  have haccepts' : Accepts .keyed "line1" := ⟨[], ["line1"], by decide⟩
  exact absurd (h.same haccepts haccepts' (by decide)).1 (by decide)

end ScottyCore
