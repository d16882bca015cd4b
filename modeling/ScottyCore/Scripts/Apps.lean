import ScottyCore.Lib.Bytes
import ScottyCore.Lib.Json

namespace Python
set_option autoImplicit true

/-- The value of a decimal digit. -/
def decimalValue (c : Char) : Option Nat :=
  ('0'.toNat :: Uuid.decimalZeros).findSome? fun z =>
    if z ≤ c.toNat ∧ c.toNat < z + 10 then some (c.toNat - z) else none

/-- The ranges of the digits that are not decimal, such as superscripts. -/
def otherDigits : List (Nat × Nat) :=
  [(0xb2, 0xb3), (0xb9, 0xb9), (0x1369, 0x1371), (0x19da, 0x19da), (0x2070, 0x2070),
    (0x2074, 0x2079), (0x2080, 0x2089), (0x2460, 0x2468), (0x2474, 0x247c), (0x2488, 0x2490),
    (0x24ea, 0x24ea), (0x24f5, 0x24fd), (0x24ff, 0x24ff), (0x2776, 0x277e), (0x2780, 0x2788),
    (0x278a, 0x2792), (0x10a40, 0x10a43), (0x10e60, 0x10e68), (0x11052, 0x1105a),
    (0x1f100, 0x1f10a)]

/-- `s.isdigit()` -/
def isDigits (s : List Char) : Bool :=
  !s.isEmpty && s.all fun c => (decimalValue c).isSome ||
    otherDigits.any fun r => r.1 ≤ c.toNat ∧ c.toNat ≤ r.2

/-- `int(s)` of such a text, where it does not raise. -/
def readInt (s : List Char) : Option Nat :=
  if 4300 < s.length then none
  else s.foldlM (fun acc c => (decimalValue c).map fun d => 10 * acc + d) 0

end Python

namespace ScottyCore
open Python
set_option autoImplicit true

/-! ## `config_loader.py` -/

/-- What the lines so far have given: the apps, and the one that is being read. -/
structure AppsReading where
  apps : JsonDict
  current_app : Option String

/-- `value.split("#", 1)[0].strip()` -/
def stripComment (value : List Char) : List Char :=
  Uuid.trim isSpace (value.takeWhile (· ≠ '#'))

def coerceValue (value : List Char) : Json :=
  if value.map Char.toLower = "true".toList then .bool true
  else if value.map Char.toLower = "false".toList then .bool false
  else .str (String.ofList value)

/-- `apps[app]` -/
def appConfig (apps : JsonDict) (app : String) : JsonDict :=
  match apps.lookup app with
  | some (.obj cfg) => cfg
  | _ => [] -- an app that is being read is there

/-- The body of the loop of `load_apps_config`. -/
def readLine (state : AppsReading) (line : List Char) : AppsReading :=
  let stripped := Uuid.trim isSpace line
  if stripped = [] ∨ stripped.head? = some '#' then state
  else if line.head?.any isSpace = false ∧ stripped.getLast? = some ':' then
    let app := String.ofList stripped.dropLast
    ⟨state.apps.set app (.obj []), some app⟩
  else
    match state.current_app, splitOnce ':' stripped with
    | some app, some (key, value) =>
      if app = "" then state
      else
        let cfg := (appConfig state.apps app).set (String.ofList (Uuid.trim isSpace key))
          (coerceValue (stripComment value))
        ⟨state.apps.set app (.obj cfg), some app⟩
    | _, _ => state

def loadAppsConfig (text : String) : JsonDict :=
  ((splitLines (universalNewlines text.toList)).foldl readLine ⟨[], none⟩).apps

/-! ## The registry in `scottycore-init.py` -/

def portBase : Nat := 8100

/-- `str(cfg.get("port", ""))`. The text of a flag is no number either. -/
def portText : Json → List Char
  | .obj cfg =>
    match cfg.lookup "port" with
    | some (.str s) => s.toList
    | _ => []
  | _ => []

/-- The loop of `pick_next_port`, which is over after `used.length` rounds. -/
def nextFree (used : List Nat) : (rounds port : Nat) → Nat
  | 0, port => port
  | rounds + 1, port => if port ∈ used then nextFree used rounds (port + 1) else port

/-- `pick_next_port`, where it does not raise. -/
def pickNextPort (existing : JsonDict) : Option Nat := do
  let recorded := (existing.map fun app => portText app.2).filter isDigits
  let used ← recorded.mapM readInt
  return nextFree used used.length portBase

/-- `f"  {key}: {value}\n"` -/
def entryField (key value : String) : String :=
  "  " ++ key ++ ": " ++ value ++ "\n"

/-- The text that `register_app` appends. -/
def registryEntry (app_name app_path stack branch : String) (port : Nat) (fqdn : String) : String :=
  "\n" ++ app_name ++ ":\n" ++ entryField "path" app_path ++ entryField "stack" stack ++
    entryField "branch" branch ++ entryField "port" (toString port) ++ entryField "fqdn" fqdn

/-- `register_app` on the text of the registry. -/
def registerApp (text app_name app_path stack branch : String) (port : Nat) (fqdn : String) :
    Bool × String :=
  if app_name ∈ (loadAppsConfig text).map Prod.fst then (false, text)
  else (true, text ++ registryEntry app_name app_path stack branch port fqdn)

/-! ## What the reader makes of a written value -/

/-- A text that can stand at the end of a line. -/
structure LineText (s : String) : Prop where
  nonempty : s ≠ ""
  unbroken : ∀ c ∈ s.toList, isLineBreak c = false
  stripped : strip s = s

/-- A value that the reader neither cuts nor takes for a flag. -/
def Readable (s : String) : Prop :=
  '#' ∉ s.toList ∧ s.toList.map Char.toLower ≠ "true".toList ∧
    s.toList.map Char.toLower ≠ "false".toList

instance (s : String) : Decidable (Readable s) := inferInstanceAs (Decidable (_ ∧ _ ∧ _))

/-- The value after a key and its colon. -/
def readValue (s : String) : Json :=
  coerceValue (stripComment (' ' :: s.toList))

namespace LineText

variable {s : String} (h : LineText s)
include h

theorem toList_ne_nil : s.toList ≠ [] :=
  fun hs => h.nonempty (String.toList_eq_nil_iff.1 hs)

theorem trim_eq : Uuid.trim isSpace s.toList = s.toList := by
  have hs := congrArg String.toList h.stripped
  rwa [strip, String.toList_ofList] at hs

theorem head_ne_space : ∀ c ∈ s.toList.head?, isSpace c = false := by
  rw [← h.trim_eq]
  exact head_trim isSpace s.toList

theorem last_ne_space : ∀ c ∈ s.toList.getLast?, isSpace c = false := by
  rw [← h.trim_eq]
  exact last_trim isSpace s.toList

end LineText

theorem coerceValue_eq_str {value : List Char} : coerceValue value = .str s ↔
    value = s.toList ∧ s.toList.map Char.toLower ≠ "true".toList ∧
      s.toList.map Char.toLower ≠ "false".toList := by
  rw [coerceValue]
  constructor
  · intro h
    split at h
    · cases h
    · rename_i htrue
      split at h
      · cases h
      · rename_i hfalse
        cases h
        rw [String.toList_ofList]
        exact ⟨rfl, htrue, hfalse⟩
  · rintro ⟨rfl, htrue, hfalse⟩
    rw [if_neg htrue, if_neg hfalse, String.ofList_toList]

theorem stripComment_eq (h : LineText s) :
    stripComment (' ' :: s.toList) = s.toList ↔ '#' ∉ s.toList := by
  have hcut : stripComment (' ' :: s.toList) =
      Uuid.trim isSpace (s.toList.takeWhile (· ≠ '#')) := by
    rw [stripComment, List.takeWhile_cons_of_pos (by decide), trim_cons_space]
  rw [hcut]
  constructor
  · intro heq hhash
    have hall : ∀ c ∈ s.toList, decide (c ≠ '#') = true := by
      have hlen := length_trim_le isSpace (s.toList.takeWhile (· ≠ '#'))
      rw [heq] at hlen
      have hprefix := List.takeWhile_prefix (l := s.toList) (· ≠ '#')
      rw [← List.takeWhile_eq_self_iff]
      exact hprefix.eq_of_length_le hlen
    exact of_decide_eq_true (hall '#' hhash) rfl
  · intro hhash
    have hall : s.toList.takeWhile (· ≠ '#') = s.toList := by
      rw [List.takeWhile_eq_self_iff]
      intro c hc
      apply decide_eq_true
      rintro rfl
      exact hhash hc
    rw [hall, h.trim_eq]

theorem readValue_eq_str (h : LineText s) : readValue s = .str s ↔ Readable s := by
  rw [readValue, coerceValue_eq_str, stripComment_eq h, Readable]

/-! ## The lines of an entry -/

theorem trim_append_of_ends {as bs : List Char} (hhead : ∀ c ∈ as.head?, isSpace c = false)
    (hlast : ∀ c ∈ bs.getLast?, isSpace c = false) (has : as ≠ []) (hbs : bs ≠ []) :
    Uuid.trim isSpace (as ++ bs) = as ++ bs := by
  apply trim_eq_self
  · intro c hc
    rw [List.head?_append_of_ne_nil _ has] at hc
    exact hhead c hc
  · intro c hc
    rw [List.getLast?_append_of_ne_nil _ hbs] at hc
    exact hlast c hc

/-- The line of the name starts an entry. -/
theorem readLine_name (h : LineText name) (hhash : name.toList.head? ≠ some '#')
    (state : AppsReading) :
    readLine state (name.toList ++ [':']) = ⟨state.apps.set name (.obj []), some name⟩ := by
  have hstripped : Uuid.trim isSpace (name.toList ++ [':']) = name.toList ++ [':'] := by
    apply trim_append_of_ends h.head_ne_space _ h.toList_ne_nil (List.cons_ne_nil _ _)
    rintro c ⟨⟩
    rfl
  have hhead : (name.toList ++ [':']).head? = name.toList.head? :=
    List.head?_append_of_ne_nil _ h.toList_ne_nil
  have hskip : ¬ (name.toList ++ [':'] = [] ∨ (name.toList ++ [':']).head? = some '#') := by
    rw [hhead]
    rintro (he | he)
    · exact List.append_ne_nil_of_right_ne_nil _ (List.cons_ne_nil _ _) he
    · exact hhash he
  have hstart : (name.toList ++ [':']).head?.any isSpace = false := by
    rw [hhead]
    cases hc : name.toList.head? with
    | none => rfl
    | some c => exact h.head_ne_space c hc
  rw [readLine, hstripped]
  dsimp only
  rw [if_neg hskip, if_pos ⟨hstart, List.getLast?_concat⟩, List.dropLast_concat,
    String.ofList_toList]

def fieldLine (key value : String) : List Char :=
  ' ' :: ' ' :: (key.toList ++ ':' :: ' ' :: value.toList)

/-- A word that is read back as a key. -/
def FieldKey (key : String) : Prop :=
  key.toList ≠ [] ∧ Uuid.trim isSpace key.toList = key.toList ∧ ':' ∉ key.toList ∧
    key.toList.head? ≠ some '#' ∧ ∀ c ∈ key.toList, isLineBreak c = false

theorem fieldKey_of_all {key : String}
    (h : key.toList ≠ [] ∧ Uuid.trim isSpace key.toList = key.toList ∧ ':' ∉ key.toList ∧
      key.toList.head? ≠ some '#')
    (hbreak : (key.toList.all fun c => decide (isLineBreak c = false)) = true) : FieldKey key :=
  ⟨h.1, h.2.1, h.2.2.1, h.2.2.2, forall_mem_of_all hbreak⟩

theorem fieldKey_path : FieldKey "path" := fieldKey_of_all ⟨by decide, rfl, by decide, by decide⟩ rfl

theorem fieldKey_stack : FieldKey "stack" :=
  fieldKey_of_all ⟨by decide, rfl, by decide, by decide⟩ rfl

theorem fieldKey_branch : FieldKey "branch" :=
  fieldKey_of_all ⟨by decide, rfl, by decide, by decide⟩ rfl

theorem fieldKey_port : FieldKey "port" := fieldKey_of_all ⟨by decide, rfl, by decide, by decide⟩ rfl

theorem fieldKey_fqdn : FieldKey "fqdn" := fieldKey_of_all ⟨by decide, rfl, by decide, by decide⟩ rfl

theorem readLine_field (hkey : FieldKey key) (h : LineText value) (happ : app ≠ "")
    (apps : JsonDict) :
    readLine ⟨apps, some app⟩ (fieldLine key value) =
      ⟨apps.set app (.obj ((appConfig apps app).set key (readValue value))), some app⟩ := by
  obtain ⟨hne, htrim, hcolon, hhash, -⟩ := hkey
  have hhead : (key.toList ++ ':' :: ' ' :: value.toList).head? = key.toList.head? :=
    List.head?_append_of_ne_nil _ hne
  have hstripped : Uuid.trim isSpace (fieldLine key value) =
      key.toList ++ ':' :: ' ' :: value.toList := by
    rw [fieldLine, trim_cons_space, trim_cons_space]
    apply trim_append_of_ends _ _ hne (List.cons_ne_nil _ _)
    · rw [← htrim]
      exact head_trim isSpace key.toList
    · intro c hc
      have hsplit : ':' :: ' ' :: value.toList = [':', ' '] ++ value.toList := rfl
      rw [hsplit, List.getLast?_append_of_ne_nil _ h.toList_ne_nil] at hc
      exact h.last_ne_space c hc
  have hskip : ¬ (key.toList ++ ':' :: ' ' :: value.toList = [] ∨
      (key.toList ++ ':' :: ' ' :: value.toList).head? = some '#') := by
    rw [hhead]
    rintro (he | he)
    · exact List.append_ne_nil_of_left_ne_nil hne _ he
    · exact hhash he
  have hcut : splitOnce ':' (key.toList ++ ':' :: ' ' :: value.toList) =
      some (key.toList, ' ' :: value.toList) := by
    apply splitOnce_append
    rintro c hc rfl
    exact hcolon hc
  rw [readLine, hstripped]
  dsimp only
  rw [if_neg hskip, if_neg (fun hstart => nomatch hstart.1), hcut]
  dsimp only
  rw [if_neg happ, htrim, String.ofList_toList]
  rfl

/-- The lines of an entry, after an empty one. -/
def entryLines (name app_path stack branch port fqdn : String) : List (List Char) :=
  [name.toList ++ [':'], fieldLine "path" app_path, fieldLine "stack" stack,
    fieldLine "branch" branch, fieldLine "port" port, fieldLine "fqdn" fqdn]

theorem toList_entryField (key value : String) :
    (entryField key value).toList = fieldLine key value ++ ['\n'] := by
  simp [entryField, fieldLine]

theorem toList_registryEntry (name app_path stack branch : String) (port : Nat) (fqdn : String) :
    (registryEntry name app_path stack branch port fqdn).toList =
      '\n' :: (entryLines name app_path stack branch (toString port) fqdn).flatMap
        (· ++ ['\n']) := by
  simp only [registryEntry, String.toList_append, toList_entryField, entryLines, List.flatMap_cons,
    List.flatMap_nil, List.append_nil, List.append_assoc]
  rfl

theorem unbroken_fieldLine (hkey : FieldKey key) (h : LineText value) :
    ∀ c ∈ fieldLine key value, isLineBreak c = false := by
  intro c hc
  simp only [fieldLine, List.mem_cons, List.mem_append] at hc
  rcases hc with rfl | rfl | hc | rfl | rfl | hc
  · rfl
  · rfl
  · exact hkey.2.2.2.2 c hc
  · rfl
  · rfl
  · exact h.unbroken c hc

theorem unbroken_entryLines (hname : LineText name) (hpath : LineText app_path)
    (hstack : LineText stack) (hbranch : LineText branch) (hport : LineText port)
    (hfqdn : LineText fqdn) :
    ∀ line ∈ entryLines name app_path stack branch port fqdn, ∀ c ∈ line,
      isLineBreak c = false := by
  intro line hline
  simp only [entryLines, List.mem_cons, List.not_mem_nil, or_false] at hline
  rcases hline with rfl | rfl | rfl | rfl | rfl | rfl
  · intro c hc
    rcases List.mem_append.1 hc with hc | hc
    · exact hname.unbroken c hc
    · rw [List.mem_singleton.1 hc]
      rfl
  · exact unbroken_fieldLine fieldKey_path hpath
  · exact unbroken_fieldLine fieldKey_stack hstack
  · exact unbroken_fieldLine fieldKey_branch hbranch
  · exact unbroken_fieldLine fieldKey_port hport
  · exact unbroken_fieldLine fieldKey_fqdn hfqdn

/-- Reading a field into the last entry. -/
theorem readLine_last (hnew : name ∉ apps.map Prod.fst) (hkey : FieldKey key) (h : LineText value)
    (hname : name ≠ "") (cfg : JsonDict) :
    readLine ⟨apps ++ [(name, .obj cfg)], some name⟩ (fieldLine key value) =
      ⟨apps ++ [(name, .obj (cfg.set key (readValue value)))], some name⟩ := by
  have hconfig : appConfig (apps ++ [(name, .obj cfg)]) name = cfg := by
    rw [appConfig, List.lookup_append, JsonDict.lookup_eq_none_of_not_mem hnew, Option.none_or,
      JsonDict.lookup_cons, if_pos rfl]
  rw [readLine_field hkey h hname, hconfig, JsonDict.set_append hnew, JsonDict.set, if_pos rfl]

/-- What reading the lines of an entry adds to apps without the name. -/
theorem readLine_entryLines (hname : LineText name) (hhash : name.toList.head? ≠ some '#')
    (hpath : LineText app_path) (hstack : LineText stack) (hbranch : LineText branch)
    (hport : LineText port) (hfqdn : LineText fqdn) {apps : JsonDict}
    (hnew : name ∉ apps.map Prod.fst) (current_app : Option String) :
    (entryLines name app_path stack branch port fqdn).foldl readLine ⟨apps, current_app⟩ =
      ⟨apps ++ [(name, .obj [("path", readValue app_path), ("stack", readValue stack),
        ("branch", readValue branch), ("port", readValue port), ("fqdn", readValue fqdn)])],
        some name⟩ := by
  have hstart : apps.set name (.obj []) = apps ++ [(name, .obj [])] := by
    have h := JsonDict.set_append (e := []) hnew (.obj [])
    rwa [List.append_nil] at h
  have hfield := fun key value (hkey : FieldKey key) (h : LineText value) (cfg : JsonDict) =>
    readLine_last hnew hkey h hname.nonempty cfg
  simp only [entryLines, List.foldl_cons, List.foldl_nil]
  rw [readLine_name hname hhash, hstart, hfield "path" _ fieldKey_path hpath,
    hfield "stack" _ fieldKey_stack hstack, hfield "branch" _ fieldKey_branch hbranch,
    hfield "port" _ fieldKey_port hport, hfield "fqdn" _ fieldKey_fqdn hfqdn]
  rfl

/-! ## The port of an entry -/

theorem isDigit_of_mem_port {port : Nat} (h : c ∈ (toString port).toList) : c.isDigit = true := by
  rw [Nat.toString_eq_ofList_toDigits, String.toList_ofList] at h
  exact Nat.isDigit_of_mem_toDigits (by decide) (by decide) h

theorem toNat_of_isDigit {c : Char} (h : c.isDigit = true) : 48 ≤ c.toNat ∧ c.toNat < 58 := by
  have hval : c.val.toNat = c.toNat := rfl
  have hrange : c.isDigit = (decide (c.val ≥ '0'.val) && decide (c.val ≤ '9'.val)) := rfl
  rw [hrange] at h
  simp only [Bool.and_eq_true, decide_eq_true_eq, UInt32.le_iff_toNat_le, ge_iff_le, hval,
    Char.reduceVal, UInt32.reduceToNat] at h
  omega

theorem decimalValue_of_isDigit {c : Char} (h : c.isDigit = true) :
    decimalValue c = some (c.toNat - '0'.toNat) := by
  have hrange : '0'.toNat ≤ c.toNat ∧ c.toNat < '0'.toNat + 10 := toNat_of_isDigit h
  rw [decimalValue, List.findSome?_cons, if_pos hrange]

theorem toLower_of_isDigit {c : Char} (h : c.isDigit = true) : c.toLower = c := by
  have hall : ∀ n < 58, (Char.ofNat n).toLower = Char.ofNat n := by decide
  have hc := hall c.toNat (toNat_of_isDigit h).2
  rwa [Char.ofNat_toNat] at hc

theorem port_ne_nil (port : Nat) : (toString port).toList ≠ [] := by
  rw [Nat.toString_eq_ofList_toDigits, String.toList_ofList]
  exact Nat.toDigits_ne_nil

theorem lineText_port (port : Nat) : LineText (toString port) := by
  have hspace : ∀ c ∈ (toString port).toList, isSpace c = false := by
    intro c hc
    have hrange := toNat_of_isDigit (isDigit_of_mem_port hc)
    rw [isSpace, decide_eq_false_iff_not]
    omega
  refine ⟨fun h => port_ne_nil port (by rw [h]; rfl), ?_, ?_⟩
  · intro c hc
    rw [← Bool.not_eq_true]
    intro hbreak
    have hc := hspace c hc
    rw [isSpace_of_isLineBreak hbreak] at hc
    cases hc
  · have htrim : Uuid.trim isSpace (toString port).toList = (toString port).toList := by
      apply trim_eq_self
      · exact fun c hc => hspace c (List.mem_of_head? hc)
      · exact fun c hc => hspace c (List.mem_of_getLast? hc)
    exact (congrArg String.ofList htrim).trans String.ofList_toList

theorem readable_port (port : Nat) : Readable (toString port) := by
  have hword : ∀ word : List Char, (∀ c ∈ word, c.isDigit = false) →
      (toString port).toList.map Char.toLower ≠ word := by
    rintro word hword rfl
    obtain ⟨c, hc⟩ := List.exists_mem_of_ne_nil _ (port_ne_nil port)
    have hdigit := isDigit_of_mem_port hc
    have hno := hword c.toLower (List.mem_map_of_mem hc)
    rw [toLower_of_isDigit hdigit, hdigit] at hno
    cases hno
  refine ⟨?_, hword _ (forall_mem_of_all rfl),
    hword _ (forall_mem_of_all rfl)⟩
  intro hhash
  cases isDigit_of_mem_port hhash

theorem readInt_port (h : (toString port).toList.length ≤ 4300) :
    readInt (toString port).toList = some port := by
  have hfold : ∀ (s : List Char), (∀ c ∈ s, c.isDigit = true) → ∀ acc,
      s.foldlM (fun acc c => (decimalValue c).map fun d => 10 * acc + d) acc =
        some (Nat.ofDigitChars 10 s acc) := by
    intro s hs
    induction s with
    | nil =>
      intro acc
      rw [Nat.ofDigitChars_nil]
      rfl
    | cons c s ih =>
      intro acc
      rw [List.foldlM_cons, decimalValue_of_isDigit (hs c List.mem_cons_self),
        Nat.ofDigitChars_cons]
      exact ih (fun d hd => hs d (List.mem_cons_of_mem _ hd)) _
  rw [readInt, if_neg (Nat.not_lt.2 h), hfold _ (fun c hc => isDigit_of_mem_port hc),
    Nat.toString_eq_ofList_toDigits, String.toList_ofList, Nat.ofDigitChars_ten_toDigits]

theorem isDigits_port (port : Nat) : isDigits (toString port).toList = true := by
  rw [isDigits, Bool.and_eq_true]
  constructor
  · cases hs : (toString port).toList with
    | nil => exact (port_ne_nil port hs).elim
    | cons _ _ => rfl
  · rw [List.all_eq_true]
    intro c hc
    rw [decimalValue_of_isDigit (isDigit_of_mem_port hc)]
    rfl

/-! ## The next free port -/

/-- The rounds that are left are enough for the ports in use from here on. -/
theorem nextFree_not_mem (used : List Nat) (rounds : Nat) :
    ∀ port, (used.filter (port ≤ ·)).length ≤ rounds → nextFree used rounds port ∉ used := by
  induction rounds with
  | zero =>
    intro port h hmem
    have hin : port ∈ used.filter (port ≤ ·) :=
      List.mem_filter.2 ⟨hmem, decide_eq_true (Nat.le_refl port)⟩
    rw [List.length_eq_zero_iff.1 (Nat.le_zero.1 h)] at hin
    cases hin
  | succ rounds ih =>
    intro port h
    rw [nextFree]
    split
    · rename_i hmem
      apply ih
      have hrest : used.filter (port + 1 ≤ ·) =
          (used.filter (port ≤ ·)).filter (port + 1 ≤ ·) := by
        rw [List.filter_filter]
        apply List.filter_congr
        intro n _
        rw [← Bool.decide_and, decide_eq_decide]
        omega
      have hfewer : (used.filter (port + 1 ≤ ·)).length < (used.filter (port ≤ ·)).length := by
        rw [hrest, List.length_filter_lt_length_iff_exists]
        refine ⟨port, List.mem_filter.2 ⟨hmem, decide_eq_true (Nat.le_refl port)⟩, ?_⟩
        exact fun h => Nat.not_succ_le_self port (of_decide_eq_true h)
      exact Nat.le_of_lt_succ (Nat.lt_of_lt_of_le hfewer h)
    · assumption

theorem exists_of_mapM {f : α → Option β} {xs : List α} {ys : List β} (h : xs.mapM f = some ys)
    (hx : x ∈ xs) : ∃ y ∈ ys, f x = some y := by
  induction xs generalizing ys with
  | nil => cases hx
  | cons x' xs ih =>
    rw [List.mapM_cons] at h
    obtain ⟨y', hy', hrest⟩ := Option.bind_eq_some_iff.1 h
    obtain ⟨ys', hys', hcons⟩ := Option.bind_eq_some_iff.1 hrest
    cases hcons
    rcases List.mem_cons.1 hx with rfl | hx
    · exact ⟨y', List.mem_cons_self, hy'⟩
    · obtain ⟨y, hy, hfy⟩ := ih hys' hx
      exact ⟨y, List.mem_cons_of_mem _ hy, hfy⟩

/-- A port that an entry records as its decimal string. -/
def PortTaken (apps : JsonDict) (port : Nat) : Prop :=
  ∃ app ∈ apps, ∃ cfg, app.2 = .obj cfg ∧ cfg.lookup "port" = some (.str (toString port))

theorem not_taken_pickNextPort {apps : JsonDict} (h : pickNextPort apps = some port) :
    ¬ PortTaken apps port := by
  rintro ⟨app, happ, cfg, hcfg, hport⟩
  have htext : portText app.2 = (toString port).toList := by
    simp only [hcfg, portText, hport]
  have hrecorded : (toString port).toList ∈ (apps.map fun app => portText app.2).filter isDigits :=
    List.mem_filter.2 ⟨htext ▸ List.mem_map_of_mem happ, isDigits_port port⟩
  rw [pickNextPort] at h
  obtain ⟨used, hused, hfree⟩ := Option.bind_eq_some_iff.1 h
  cases hfree
  obtain ⟨port, hmem, hread⟩ := exists_of_mapM hused hrecorded
  have hlength : ¬ 4300 < (toString (nextFree used used.length portBase)).toList.length := by
    intro hlong
    rw [readInt, if_pos hlong] at hread
    cases hread
  rw [readInt_port (Nat.not_lt.1 hlength)] at hread
  cases hread
  exact nextFree_not_mem used used.length portBase (List.length_filter_le _ _) hmem

/-! ## The registry after `register_app` -/

/-- What is read after a registration, and which ports are handed out. -/
structure RegistryKept (text app_name app_path stack branch : String) (port : Nat) (fqdn : String) :
    Prop where
  entry : (registerApp text app_name app_path stack branch port fqdn).1 = true →
    loadAppsConfig (registerApp text app_name app_path stack branch port fqdn).2 =
      loadAppsConfig text ++ [(app_name, .obj [("path", .str app_path), ("stack", .str stack),
        ("branch", .str branch), ("port", .str (toString port)), ("fqdn", .str fqdn)])]
  ports : ∀ next, pickNextPort (loadAppsConfig text) = some next →
    ¬ PortTaken (loadAppsConfig text) next

theorem loadAppsConfig_registered (hname : LineText name) (hhash : name.toList.head? ≠ some '#')
    (hpath : LineText app_path) (hstack : LineText stack) (hbranch : LineText branch)
    (hfqdn : LineText fqdn) (hnew : name ∉ (loadAppsConfig text).map Prod.fst) (port : Nat) :
    loadAppsConfig (text ++ registryEntry name app_path stack branch port fqdn) =
      loadAppsConfig text ++ [(name, .obj [("path", readValue app_path),
        ("stack", readValue stack), ("branch", readValue branch),
        ("port", readValue (toString port)), ("fqdn", readValue fqdn)])] := by
  have hport := lineText_port port
  have hunbroken := unbroken_entryLines hname hpath hstack hbranch hport hfqdn
  obtain ⟨pad, hpad, hlines⟩ := fileLines_append text.toList
    ((entryLines name app_path stack branch (toString port) fqdn).flatMap (· ++ ['\n']))
  have hskip : ∀ state, pad.foldl readLine state = state := by
    intro state
    rcases hpad with rfl | rfl
    · rfl
    · rfl
  rw [loadAppsConfig, String.toList_append, toList_registryEntry, hlines,
    universalNewlines_lines hunbroken, splitLines_lines hunbroken, List.foldl_append,
    List.foldl_append, hskip]
  exact congrArg AppsReading.apps
    (readLine_entryLines hname hhash hpath hstack hbranch hport hfqdn hnew _)

/-- An entry is read as it was given where no value of it is cut or taken for a flag. -/
theorem registryKept_iff (text app_name app_path stack branch : String) (port : Nat) (fqdn : String)
    (hname : LineText app_name) (hhash : app_name.toList.head? ≠ some '#')
    (hpath : LineText app_path) (hstack : LineText stack) (hbranch : LineText branch)
    (hfqdn : LineText fqdn) :
    RegistryKept text app_name app_path stack branch port fqdn ↔
      app_name ∈ (loadAppsConfig text).map Prod.fst ∨
        Readable app_path ∧ Readable stack ∧ Readable branch ∧ Readable fqdn := by
  have hports : ∀ next, pickNextPort (loadAppsConfig text) = some next →
      ¬ PortTaken (loadAppsConfig text) next := fun _ => not_taken_pickNextPort
  by_cases hknown : app_name ∈ (loadAppsConfig text).map Prod.fst
  · apply iff_of_true _ (.inl hknown)
    refine ⟨fun h => ?_, hports⟩
    rw [registerApp, if_pos hknown] at h
    cases h
  have hloaded := loadAppsConfig_registered hname hhash hpath hstack hbranch hfqdn hknown port
  have hregister : registerApp text app_name app_path stack branch port fqdn =
      (true, text ++ registryEntry app_name app_path stack branch port fqdn) := if_neg hknown
  have hportread := (readValue_eq_str (lineText_port port)).2 (readable_port port)
  rw [or_iff_right hknown, ← readValue_eq_str hpath, ← readValue_eq_str hstack,
    ← readValue_eq_str hbranch, ← readValue_eq_str hfqdn]
  constructor
  · intro h
    have hentry := h.entry
    rw [hregister] at hentry
    have hvalues := hloaded.symm.trans (hentry rfl)
    simp only [List.append_cancel_left_eq, List.cons.injEq, Prod.mk.injEq, Json.obj.injEq,
      and_true, true_and] at hvalues
    exact ⟨hvalues.1, hvalues.2.1, hvalues.2.2.1, hvalues.2.2.2.2⟩
  · rintro ⟨hpathread, hstackread, hbranchread, hfqdnread⟩
    refine ⟨fun _ => ?_, hports⟩
    rw [hregister]
    rw [hpathread, hstackread, hbranchread, hfqdnread, hportread] at hloaded
    exact hloaded

theorem plain_entry_kept :
    RegistryKept "" "app" "/srv/app" "FastAPI" "main" 8100 "app.example.com" := by
  have hname : LineText "app" :=
    ⟨by decide +kernel, forall_mem_of_all rfl, by decide +kernel⟩
  have hpath : LineText "/srv/app" :=
    ⟨by decide +kernel, forall_mem_of_all rfl, by decide +kernel⟩
  have hstack : LineText "FastAPI" :=
    ⟨by decide +kernel, forall_mem_of_all rfl, by decide +kernel⟩
  have hbranch : LineText "main" :=
    ⟨by decide +kernel, forall_mem_of_all rfl, by decide +kernel⟩
  have hfqdn : LineText "app.example.com" :=
    ⟨by decide +kernel, forall_mem_of_all rfl, by decide +kernel⟩
  apply (registryKept_iff "" "app" "/srv/app" "FastAPI" "main" 8100 "app.example.com" hname
    (by decide +kernel) hpath hstack hbranch hfqdn).2
  decide +kernel

/-- The branch is cut at what looks like a comment. -/
theorem branch_cut :
    ¬ RegistryKept "" "app" "/srv/app" "FastAPI" "feature/#12" 8100 "app.example.com" := by
  intro h
  have hbranch := congrArg (fun apps => Json.isText "feature/#12"
    ((appConfig apps "app").get "branch")) (h.entry (by decide +kernel))
  revert hbranch
  decide +kernel

end ScottyCore
