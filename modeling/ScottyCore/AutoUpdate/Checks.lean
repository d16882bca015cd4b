import Mathlib.Data.Char
import Mathlib.Data.List.Lex
import Mathlib.Data.Sum.Order
import ScottyCore.AutoUpdate.Pins
import ScottyCore.Lib.Json

namespace ScottyCore.AutoUpdate
open Python TextSearch
set_option autoImplicit true

/-! ## The forge -/

/-- What a request to the forge gives: an `httpx.HTTPError`, or an answer whose body may be JSON. -/
inductive Response where
  | failed (error : String)
  | answered (status_code : Nat) (text : String) (json : Except String Json)

/-- What the forge answers for the latest release and for the tags. -/
structure Forge where
  latest_release : Response
  tags : Response

/-- How the latest tag is not known: by an `AutoUpdateError`, or by an exception that no one
catches. -/
inductive FetchFailure where
  | autoUpdateError (detail : String)
  | raised

section
variable {V : Type} [LinearOrder V] (parse : List Char → Option V)

/-- `Version(tag.lstrip("v"))` -/
def versionOf (tag : List Char) : Option V := parse (tag.dropWhile (· = 'v'))

/-- `_version_key` -/
def versionKey (tag : List Char) : List Char ⊕ₗ V :=
  match versionOf parse tag with
  | some v => Sum.inrₗ v
  | none => Sum.inlₗ tag

/-- `_is_newer` -/
def isNewer (current latest : List Char) : Bool :=
  if current = [] ∨ latest = [] then false
  else
    match versionOf parse current, versionOf parse latest with
    | some c, some l => c < l
    | _, _ => current ≠ latest

/-- The names of the tags; what is not an object of the list has none. -/
def tagNames : Json → Option (List (List Char))
  | .arr items => some (items.filterMap fun
    | .obj members =>
      match JsonDict.get members "name" with
      | .str name => some name.toList
      | _ => none
    | _ => none)
  | .obj _ | .str _ => some []
  | .null | .bool _ | .int _ | .number _ => none

/-- The newest tag first, and of equal ones the first. -/
def sortTags (tags : List (List Char)) : List (List Char) :=
  tags.mergeSort fun a b => versionKey parse b ≤ versionKey parse a

/-- `_fetch_latest_from_tags` -/
def fetchLatestFromTags : Response → Except FetchFailure (List Char)
  | .failed _ => .error .raised
  | .answered status_code text json =>
    if 400 ≤ status_code then
      .error (.autoUpdateError s!"forge tags API {status_code}: {text.take 200}")
    else
      match json with
      | .error _ => .error .raised
      | .ok body =>
        match tagNames body with
        | none => .error .raised
        | some tags =>
          match sortTags parse tags with
          | [] => .error (.autoUpdateError "no tags on remote")
          | tag :: _ => .ok tag

/-- `_fetch_latest_tag` -/
def fetchLatestTag (forge : Forge) : Except FetchFailure (List Char) :=
  match forge.latest_release with
  | .failed error => .error (.autoUpdateError s!"forge HTTP error: {error}")
  | .answered status_code text json =>
    if status_code = 404 then fetchLatestFromTags parse forge.tags
    else if 400 ≤ status_code then
      .error (.autoUpdateError s!"forge release API {status_code}: {text.take 200}")
    else
      match json with
      | .error error => .error (.autoUpdateError s!"malformed release JSON: {error}")
      | .ok (.obj members) =>
        let tag_name := JsonDict.get members "tag_name"
        let name := if tag_name.truthy then tag_name else JsonDict.get members "name"
        match name with
        | .str name =>
          if name = "" then .error (.autoUpdateError "release payload missing tag name")
          else .ok name.toList
        | _ => .error (.autoUpdateError "release payload missing tag name")
      | .ok _ => .error .raised

end

/-! ## The app -/

inductive UpdateMode where
  | off
  | notify
  | auto
  deriving DecidableEq

inductive UpdateAction where
  | none
  | notified
  | autoUpdated
  | error
  deriving DecidableEq

/-- What the lookup of the mode gives: an exception, no row, a row that is not JSON, or a value. -/
inductive ModeRow where
  | failed
  | missing
  | malformed
  | value (raw : Json)

/-- `_read_mode` -/
def readMode : ModeRow → UpdateMode
  | .value (.str "off") => .off
  | .value (.str "notify") => .notify
  | .value (.str "auto") => .auto
  | _ => .notify

structure UpdateCheckResult where
  current_pin : Option (List Char)
  latest_pin : Option (List Char)
  mode : UpdateMode
  action_taken : UpdateAction
  detail : String
  deriving DecidableEq

structure RebuildFlag where
  requested_at : String
  reason : String
  deriving DecidableEq

structure PendingUpdate where
  current : List Char
  latest : List Char
  ts : String
  deriving DecidableEq

/-- What the checks read and write of an app: its `pyproject.toml`, if it is there, the flag file,
and the pending update of its settings. -/
structure ConsumerApp where
  root : String
  pyproject : Option (List Char)
  rebuild_flag : Option RebuildFlag
  pending : Option PendingUpdate

inductive AppWrite where
  | pyproject (text : List Char)
  | rebuildFlag (flag : RebuildFlag)
  | pending (update : PendingUpdate)
  deriving DecidableEq

namespace ConsumerApp

def write (app : ConsumerApp) : AppWrite → ConsumerApp
  | .pyproject text => { app with pyproject := some text }
  | .rebuildFlag flag => { app with rebuild_flag := some flag }
  | .pending update => { app with pending := some update }

/-- The writes in their order. -/
def writeAll (app : ConsumerApp) (writes : List AppWrite) : ConsumerApp := writes.foldl write app

/-- The reference that `_read_current_pin` returns. -/
def pin (brand : BrandConfig) (app : ConsumerApp) : Option (List Char) :=
  app.pyproject.bind (readCurrentPin brand.framework_name)

end ConsumerApp

/-- What a check meets: the forge, the row of the mode, whether the pending update can be saved, and
the time. -/
structure Poll where
  forge : Forge
  mode_row : ModeRow
  saves : Bool
  now : String

/-- `check_once`: what it returns, where no exception leaves it, and what it writes, in order. -/
def checkOnce {V : Type} [LinearOrder V] (brand : BrandConfig) (parse : List Char → Option V)
    (poll : Poll) (app : ConsumerApp) : Option UpdateCheckResult × List AppWrite :=
  let mode := readMode poll.mode_row
  let framework_name := String.ofList brand.framework_name.chars
  match app.pyproject with
  | none =>
    (some ⟨none, none, .off, .error, s!"no pyproject.toml at {app.root}/pyproject.toml"⟩, [])
  | some text =>
    match readCurrentPin brand.framework_name text with
    | none =>
      (some ⟨none, none, .off, .error, s!"{framework_name} @ git+… dep not found in pyproject"⟩, [])
    | some current =>
      match fetchLatestTag parse poll.forge with
      | .error .raised => (none, [])
      | .error (.autoUpdateError detail) => (some ⟨some current, none, mode, .error, detail⟩, [])
      | .ok latest =>
        let change := s!"{String.ofList current} → {String.ofList latest}"
        if isNewer parse current latest then
          match mode with
          | .off =>
            (some ⟨some current, some latest, mode, .none, "update available but mode=off"⟩, [])
          | .notify =>
            (some ⟨some current, some latest, mode, .notified, change⟩,
              if poll.saves then [.pending ⟨current, latest, poll.now⟩] else [])
          | .auto =>
            match bumpPin current latest text with
            | none => (none, [])
            | some updated =>
              (some ⟨some current, some latest, mode, .autoUpdated,
                s!"bumped {change}; rebuild flag dropped"⟩,
                [.pyproject updated,
                  .rebuildFlag ⟨poll.now, s!"{framework_name} auto-update bump"⟩])
        else (some ⟨some current, some latest, mode, .none, "up-to-date"⟩, [])

/-! ## What is newer -/

section
variable {V : Type} [LinearOrder V] {parse : List Char → Option V} {current latest tag : List Char}

@[simp] theorem isNewer_self (tag : List Char) : isNewer parse tag tag = false := by
  rw [isNewer]
  split
  · rfl
  · split
    · rename_i c l hc hl
      obtain rfl := Option.some.inj (hc.symm.trans hl)
      exact decide_eq_false (lt_irrefl c)
    · exact decide_eq_false fun hne => hne rfl

theorem lt_of_isNewer {c l : V} (h : isNewer parse current latest = true)
    (hc : versionOf parse current = some c) (hl : versionOf parse latest = some l) : c < l := by
  rw [isNewer] at h
  split at h
  · cases h
  · rw [hc, hl] at h
    exact of_decide_eq_true h

omit [LinearOrder V] in
theorem versionKey_of_version {v : V} (h : versionOf parse tag = some v) :
    versionKey parse tag = Sum.inrₗ v := by
  rw [versionKey, h]

omit [LinearOrder V] in
theorem versionKey_of_none (h : versionOf parse tag = none) :
    versionKey parse tag = Sum.inlₗ tag := by
  rw [versionKey, h]

/-- The first of the sorted tags is one of them, and none ranks above it. -/
theorem first_of_sortTags {tags rest : List (List Char)} (h : sortTags parse tags = tag :: rest) :
    tag ∈ tags ∧ ∀ other ∈ tags, versionKey parse other ≤ versionKey parse tag := by
  have hmem : ∀ other, other ∈ tag :: rest ↔ other ∈ tags := by
    intro other
    rw [← h, sortTags, List.mem_mergeSort]
  have hsorted : (tag :: rest).Pairwise fun a b => versionKey parse b ≤ versionKey parse a := by
    rw [← h, sortTags]
    have hpair : (tags.mergeSort fun a b => versionKey parse b ≤ versionKey parse a).Pairwise
        fun a b => decide (versionKey parse b ≤ versionKey parse a) = true := by
      apply List.pairwise_mergeSort
      · intro a b c hab hbc
        exact decide_eq_true ((of_decide_eq_true hbc).trans (of_decide_eq_true hab))
      · intro a b
        simpa using le_total (versionKey parse b) (versionKey parse a)
    exact hpair.imp of_decide_eq_true
  refine ⟨(hmem tag).1 List.mem_cons_self, ?_⟩
  intro other hother
  rcases List.mem_cons.1 ((hmem other).2 hother) with rfl | hrest
  · exact le_rfl
  · exact (List.pairwise_cons.1 hsorted).1 other hrest

/-- Of tags with a version among them a newest version is taken. -/
theorem version_of_sortTags {tags rest : List (List Char)} {other : List Char} {w : V}
    (h : sortTags parse tags = tag :: rest) (hother : other ∈ tags)
    (hw : versionOf parse other = some w) : ∃ v, versionOf parse tag = some v ∧ w ≤ v := by
  have hle := (first_of_sortTags h).2 other hother
  rw [versionKey_of_version hw] at hle
  cases hv : versionOf parse tag with
  | none =>
    rw [versionKey_of_none hv] at hle
    exact (Sum.Lex.not_inr_le_inl hle).elim
  | some v =>
    rw [versionKey_of_version hv] at hle
    exact ⟨v, rfl, Sum.Lex.inr_le_inr_iff.1 hle⟩

/-! ## What a check writes -/

variable {brand : BrandConfig} {poll : Poll} {app : ConsumerApp}

/-- A check finds an update: the text and the pin that it reads, and the tag of the forge, which is
newer. -/
structure UpdateDue (brand : BrandConfig) (parse : List Char → Option V) (poll : Poll)
    (app : ConsumerApp) (text current latest : List Char) : Prop where
  file : app.pyproject = some text
  reads : readCurrentPin brand.framework_name text = some current
  reports : fetchLatestTag parse poll.forge = .ok latest
  newer : isNewer parse current latest = true

namespace UpdateDue

variable {text : List Char}

theorem pin (h : UpdateDue brand parse poll app text current latest) :
    app.pin brand = some current := by
  rw [ConsumerApp.pin, h.file, Option.bind_some, h.reads]

theorem ne (h : UpdateDue brand parse poll app text current latest) : latest ≠ current := by
  rintro rfl
  have hnewer := h.newer
  rw [isNewer_self] at hnewer
  cases hnewer

/-- The text of the pin is found, so the bump changes something. -/
theorem exists_updated (h : UpdateDue brand parse poll app text current latest) :
    ∃ updated, bumpPin current latest text = some updated := by
  obtain ⟨⟨before, ref, after⟩, hfound, rfl⟩ := Option.map_eq_some_iff.1 h.reads
  obtain ⟨-, -, -, htext, -⟩ := findPin_eq_some_iff.1 hfound
  have hplace : universalNewlines text = before ++ (('@' :: ref) ++ after) := htext
  obtain ⟨begun, rest, heq, -, hunfound⟩ := exists_first hplace
  rw [List.cons_append] at heq hunfound
  have hclean := no_return_universalNewlines text
  rw [heq] at hclean
  have hbump := bumpPin_of_unfound hclean hunfound h.ne
  rw [← heq, bumpPin_universalNewlines] at hbump
  exact ⟨_, hbump⟩

end UpdateDue

/-- A check in the mode `auto` writes nothing, or the bumped file and then the flag. -/
theorem checkOnce_auto (brand : BrandConfig) (parse : List Char → Option V) (app : ConsumerApp)
    (hmode : readMode poll.mode_row = .auto) :
    (checkOnce brand parse poll app).2 = [] ∨ ∃ text current latest updated flag,
      UpdateDue brand parse poll app text current latest ∧
      bumpPin current latest text = some updated ∧
      (checkOnce brand parse poll app).2 = [.pyproject updated, .rebuildFlag flag] := by
  rw [checkOnce, hmode]
  dsimp only
  split
  · exact .inl rfl
  rename_i text htext
  split
  · exact .inl rfl
  rename_i current hpin
  split
  · exact .inl rfl
  · exact .inl rfl
  rename_i latest htag
  split
  · rename_i hnewer
    split
    · exact .inl rfl
    · rename_i updated hupdated
      exact .inr ⟨text, current, latest, updated, _, ⟨htext, hpin, htag, hnewer⟩, hupdated, rfl⟩
  · exact .inl rfl

/-- An update that is due is written. -/
theorem checkOnce_of_due {text : List Char} (hmode : readMode poll.mode_row = .auto)
    (h : UpdateDue brand parse poll app text current latest) : ∃ updated flag,
      (checkOnce brand parse poll app).2 = [.pyproject updated, .rebuildFlag flag] := by
  obtain ⟨updated, hupdated⟩ := h.exists_updated
  rw [checkOnce, hmode, h.file]
  dsimp only
  rw [h.reads]
  dsimp only
  rw [h.reports]
  dsimp only
  rw [if_pos h.newer, hupdated]
  exact ⟨updated, _, rfl⟩

/-- Nothing is written where the forge reports the pin. -/
theorem checkOnce_of_current (hmode : readMode poll.mode_row = .auto)
    (hpin : app.pin brand = some tag) (htag : fetchLatestTag parse poll.forge = .ok tag) :
    (checkOnce brand parse poll app).2 = [] := by
  rcases checkOnce_auto brand parse app hmode with
    hnone | ⟨text, current, latest, updated, flag, hdue, -⟩
  · exact hnone
  · obtain rfl := Option.some.inj (hdue.pin.symm.trans hpin)
    exact (hdue.ne (Except.ok.inj (hdue.reports.symm.trans htag))).elim

end

end ScottyCore.AutoUpdate
