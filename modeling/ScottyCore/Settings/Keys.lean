import ScottyCore.Backup.PlatformMerge
import ScottyCore.Lib.Run
import ScottyCore.Sync.Reapply

namespace ScottyCore
open Python TransitionSystem
set_option autoImplicit true

variable {b : Backend} {m : Model} {db db' : Database b}

/-! ## What one flush stores -/

theorem flushRow_unclashing (h : flushRow m new db = .ok db') :
    ∃ r : Row b m, r.val = new ∧ db' = db.put r ∧
      ∀ s ∈ db.select m, r.id ≠ s.id → ¬ r.conflicts s := by
  unfold flushRow at h
  split at h
  · rename_i hf
    split at h
    · cases h
    · rename_i hv
      cases h
      refine ⟨⟨new, hf⟩, rfl, rfl, ?_⟩
      intro s hs hid hconf
      apply hv
      have hclash := clashes_iff.2 ⟨s, hs, hid, hconf⟩
      rwa [Clashes, Row.on_self] at hclash
  · cases h

/-- The cell of a plain column after a merge: what the row gives, or what is stored. -/
def givenCell (m : Model) (row : Dict) (db : Database b) (name : String) : Val :=
  row.getD name (((db.find m (row.get "id")).map fun l => l.get name).getD .none)

theorem mergeRow_put (h : mergeRow m row db = .ok db') :
    db' = db ∨ ∃ (r : Row b m) (n : Nat), db' = Database.put { db with drawn := n } r ∧
      (∀ s ∈ db.select m, r.id ≠ s.id → ¬ r.conflicts s) ∧
      (r.id = row.get "id" ∨ db.find m (row.get "id") = none) ∧
      ∀ c ∈ m.columns, c.Plain → r.get c.name = givenCell m row db c.name := by
  obtain ⟨given, hg, hcases⟩ := mergeRow_inv h
  have hid : given.get "id" = row.get "id" := get_id_mapColumns hg hydrateCell_id
  rw [mergeRow, hg] at h
  simp only [bind, Except.bind, hid] at h
  rcases hcases with ⟨l, _, _, hdb⟩ | ⟨l, r, assigned, hl, hne, hset, hr, hrid, hdb⟩ |
    ⟨r, bound, hkey, hbound, hr, hnone, hdb⟩
  · exact .inl hdb
  · have hkey : row.get "id" ≠ .none := by
      intro hnone
      rw [hnone, Database.find_none] at hl
      cases hl
    simp only [if_neg hkey, hl, if_neg hne, hset] at h
    obtain ⟨r', hr', _, hfree⟩ := flushRow_unclashing h
    obtain rfl : r' = r := Subtype.ext (hr'.trans hr.symm)
    refine .inr ⟨r', db.drawn, hdb, hfree, .inl hrid, ?_⟩
    intro c hc hp
    rw [givenCell, hl, Row.get, hr]
    exact updateCells_plain hc hp hg hset
  · have hfind : (if row.get "id" = .none then none else db.find m (row.get "id")) = none := by
      split
      · rfl
      · rename_i hne
        exact hkey.resolve_left hne
    have hfind' : db.find m (row.get "id") = none := by
      rcases hkey with hkey | hkey
      · rw [hkey, Database.find_none]
      · exact hkey
    simp only [hfind, hbound] at h
    rw [insertRow, ← hr, if_neg] at h
    · obtain ⟨r', hr', _, hfree⟩ := flushRow_unclashing h
      obtain rfl : r' = r := Subtype.ext hr'
      refine .inr ⟨r', db.drawn + 1, hdb, hfree, .inr hfind', ?_⟩
      intro c hc hp
      rw [givenCell, hfind', Row.get, hr]
      exact insertCells_plain hc hp hg hbound
    · intro hsome
      have hrid : r.val.get "id" = r.id := rfl
      rw [hrid, hnone] at hsome
      cases hsome

/-! ## `services/settings/repository.py` -/

namespace SettingsRepository

def get (scope : String) (scope_id : Option String) (key : String) (db : Database b) :
    Option (Row b .setting) :=
  (db.select .setting).find? fun r =>
    r.get "scope" = .str scope ∧ r.get "scope_id" = tenantVal scope_id ∧ r.get "key" = .str key

def listByScope (scope : String) (scope_id : Option String) (db : Database b) :
    List (Row b .setting) :=
  (db.select .setting).filter fun r =>
    r.get "scope" = .str scope ∧ r.get "scope_id" = tenantVal scope_id

/-- An `upsert` that has selected: what it was given, and the instance that it found. -/
structure Upsert (b : Backend) where
  scope : String
  scope_id : Option String
  key : String
  value_json : String
  updated_by : Option String
  existing : Option (Row b .setting)

namespace Upsert

def assigned (u : Upsert b) : Dict :=
  [("value_json", .str u.value_json), ("updated_by", tenantVal u.updated_by)]

def given (u : Upsert b) : Dict :=
  [("scope", .str u.scope), ("scope_id", tenantVal u.scope_id), ("key", .str u.key)] ++ u.assigned

/-- `existing.value_json = …` or `session.add(setting)`, and the flush. -/
def flush (u : Upsert b) (db : Database b) : Except Exc (Database b) :=
  match u.existing with
  | none => insertRow .setting u.given db
  | some loaded =>
    -- An attribute that is set to what was loaded is not in the SET clause.
    let set := changed u.assigned loaded.val Model.setting.columns
    if set = [] then .ok db
    else
      match db.find .setting loaded.id with
      | some stored =>
        flushRow .setting (updateCells db.now set stored.val Model.setting.columns) db
      | none => .error (.runtimeError
          "UPDATE statement on table 'settings' expected to update 1 row(s); 0 were matched.")

end Upsert

end SettingsRepository

open SettingsRepository

/-! ## The logical key -/

def Row.logicalKey (r : Row b .setting) : Val × Val × Val :=
  (r.get "scope", r.get "scope_id", r.get "key")

def KeysOnce (db : Database b) : Prop :=
  ∀ r ∈ db.select .setting, ∀ s ∈ db.select .setting, r.logicalKey = s.logicalKey → r = s

/-- Only the row with this identifier has this global key. -/
def Unclaimed (id : Val) (key : Val × Val × Val) (db : Database b) : Prop :=
  key.2.1 = .none → ∀ s ∈ db.select .setting, s.logicalKey = key → s.id = id

theorem plain_scope : Column.Plain (.required "scope" .string) := ⟨nofun, rfl, rfl⟩

theorem plain_scope_id : Column.Plain (.optional "scope_id" .string) := ⟨nofun, rfl, rfl⟩

theorem plain_key : Column.Plain (.required "key" .string) := ⟨nofun, rfl, rfl⟩

theorem conflicts_of_logicalKey {r s : Row b .setting} (hid : r.get "scope_id" ≠ .none)
    (h : r.logicalKey = s.logicalKey) : r.conflicts s := by
  simp only [Row.logicalKey, Prod.mk.injEq] at h
  obtain ⟨hscope, hscope_id, hkey⟩ := h
  refine ⟨["scope", "scope_id", "key"], List.mem_singleton_self _, ?_⟩
  simp only [List.forall_mem_cons]
  have hs : r.get "scope" ≠ .none :=
    Row.get_ne_none (c := .required "scope" .string) (by decide) rfl
  have hk : r.get "key" ≠ .none :=
    Row.get_ne_none (c := .required "key" .string) (by decide) rfl
  exact ⟨⟨hs, hscope⟩, ⟨hid, hscope_id⟩, ⟨hk, hkey⟩, fun _ hnil => nomatch hnil⟩

/-- The unique constraint keeps apart what is not global; the rest must be unclaimed. -/
theorem KeysOnce.put (h : KeysOnce db) {r : Row b .setting} (n : Nat)
    (hfree : ∀ s ∈ db.select .setting, r.id ≠ s.id → ¬ r.conflicts s)
    (hclaim : Unclaimed r.id r.logicalKey db) :
    KeysOnce (Database.put { db with drawn := n } r) := by
  have hother : ∀ s ∈ db.select .setting, s.id ≠ r.id → r.logicalKey ≠ s.logicalKey := by
    intro s hs hid hkey
    by_cases hglobal : r.get "scope_id" = .none
    · exact hid (hclaim hglobal s hs hkey.symm)
    · exact hfree s hs hid.symm (conflicts_of_logicalKey hglobal hkey)
  intro x hx y hy hkey
  rcases mem_put_iff.1 hx with rfl | ⟨hxold, hxid⟩
  · rcases mem_put_iff.1 hy with rfl | ⟨hyold, hyid⟩
    · rfl
    · exact (hother y hyold hyid hkey).elim
  · rcases mem_put_iff.1 hy with rfl | ⟨hyold, hyid⟩
    · exact (hother x hxold hxid hkey.symm).elim
    · exact h x hxold y hyold hkey

theorem KeysOnce.congr (h : KeysOnce db) (hsame : db'.select .setting = db.select .setting) :
    KeysOnce db' := by
  unfold KeysOnce
  rw [hsame]
  exact h

/-! ## The three ways to store a row -/

/-- The key that a row of a payload has once it is stored. -/
def givenKey (row : Dict) (db : Database b) : Val × Val × Val :=
  (givenCell .setting row db "scope", givenCell .setting row db "scope_id",
    givenCell .setting row db "key")

/-- No other row has the global key that this row would be stored under. -/
def FreshRow (row : Dict) (db : Database b) : Prop :=
  Unclaimed (row.get "id") (givenKey row db) db

theorem KeysOnce.of_mergeRow (h : KeysOnce db) (hmerge : mergeRow .setting row db = .ok db')
    (hfresh : FreshRow row db) : KeysOnce db' := by
  rcases mergeRow_put hmerge with rfl | ⟨r, n, rfl, hfree, hid, hcells⟩
  · exact h
  · have hkey : r.logicalKey = givenKey row db := by
      have hscope := hcells _ (by decide) plain_scope
      have hscope_id := hcells _ (by decide) plain_scope_id
      have hkey := hcells _ (by decide) plain_key
      exact Prod.ext hscope (Prod.ext hscope_id hkey)
    apply h.put n hfree
    rw [hkey]
    intro hglobal s hs hsame
    have hsid := hfresh hglobal s hs hsame
    rcases hid with hid | hnone
    · exact hsid.trans hid.symm
    · have hfind : db.find .setting s.id = some s := KeyedTable.find_of_mem hs
      rw [hsid, hnone] at hfind
      cases hfind

theorem KeysOnce.of_mergeAll (h : KeysOnce db)
    (hfresh : EachMerge (fun row db _ => FreshRow row db) .setting rows db)
    (hall : mergeAll .setting rows db = .ok db') : KeysOnce db' := by
  induction rows generalizing db with
  | nil => cases hall; exact h
  | cons row rows ih =>
    obtain ⟨db₁, hmerge, hall⟩ := bind_eq_ok.1 hall
    obtain ⟨hrow, hrest⟩ := hfresh db₁ hmerge
    exact ih (h.of_mergeRow hmerge hrow) hrest hall

theorem select_mergeRow_of_ne (h : mergeRow m row db = .ok db') (hne : m' ≠ m) :
    db'.select m' = db.select m' := by
  rcases mergeRow_put h with rfl | ⟨r, n, rfl, _⟩
  · rfl
  · exact select_put_of_ne hne

theorem select_mergeAll_of_ne (h : mergeAll m rows db = .ok db') (hne : m' ≠ m) :
    db'.select m' = db.select m' := by
  induction rows generalizing db with
  | nil => cases h; rfl
  | cons row rows ih =>
    obtain ⟨db₁, hmerge, hall⟩ := bind_eq_ok.1 h
    rw [ih hall, select_mergeRow_of_ne hmerge hne]

theorem get_updateCells_of_changed {l r : Row b m} {c : Column} (hc : c ∈ m.columns)
    (ho : c.onupdate = false) (hr : r.val = updateCells now (changed given loaded m.columns) l.val
      m.columns) (hgiven : given.lookup c.name = none) : r.get c.name = l.get c.name := by
  rw [updated_get hc hr, updateCell, lookup_changed given loaded hc, hgiven, ho]
  rfl

theorem SettingsRepository.Upsert.flush_cases {u : Upsert b} (h : u.flush db = .ok db') :
    db' = db ∨
      (∃ l r : Row b .setting, db.find .setting r.id = some l ∧ r.logicalKey = l.logicalKey ∧
        (∀ s ∈ db.select .setting, r.id ≠ s.id → ¬ r.conflicts s) ∧ db' = db.put r) ∨
      ∃ r : Row b .setting, u.existing = none ∧
        r.logicalKey = (.str u.scope, tenantVal u.scope_id, .str u.key) ∧
        (∀ s ∈ db.select .setting, r.id ≠ s.id → ¬ r.conflicts s) ∧
        db' = Database.put { db with drawn := db.drawn + 1 } r := by
  unfold Upsert.flush at h
  split at h
  · rename_i hnone
    rw [insertRow] at h
    split at h
    · cases h
    · obtain ⟨r, hr, hdb, hfree⟩ := flushRow_unclashing h
      refine .inr (.inr ⟨r, hnone, ?_, hfree, hdb⟩)
      have hscope := inserted_get (c := .required "scope" .string) (by decide) hr
      have hscope_id := inserted_get (c := .optional "scope_id" .string) (by decide) hr
      have hkey := inserted_get (c := .required "key" .string) (by decide) hr
      refine Prod.ext hscope (Prod.ext (hscope_id.trans ?_) hkey)
      cases hid : u.scope_id with
      | none => simp only [insertCell, given, hid]; rfl
      | some id => simp only [insertCell, given, hid]; rfl
  · rename_i loaded hloaded
    simp only at h
    split at h
    · cases h
      exact .inl rfl
    · split at h
      · rename_i stored hstored
        obtain ⟨r, hr, hdb, hfree⟩ := flushRow_unclashing h
        have hid : r.id = stored.id :=
          get_updateCells_of_changed (c := .uuid "id") (by decide) rfl hr rfl
        have hscope : r.get "scope" = stored.get "scope" :=
          get_updateCells_of_changed (c := .required "scope" .string) (by decide) rfl hr rfl
        have hscope_id : r.get "scope_id" = stored.get "scope_id" :=
          get_updateCells_of_changed (c := .optional "scope_id" .string) (by decide) rfl hr rfl
        have hkey : r.get "key" = stored.get "key" :=
          get_updateCells_of_changed (c := .required "key" .string) (by decide) rfl hr rfl
        refine .inr (.inl ⟨stored, r, ?_, ?_, hfree, hdb⟩)
        · rw [hid, Database.id_of_find hstored, hstored]
        · exact Prod.ext hscope (Prod.ext hscope_id hkey)
      · cases h

theorem KeysOnce.flush {u : Upsert b} (h : KeysOnce db) (hflush : u.flush db = .ok db')
    (hfresh : u.existing = none → u.scope_id = none →
      SettingsRepository.get u.scope none u.key db = none) : KeysOnce db' := by
  rcases Upsert.flush_cases hflush with rfl | ⟨l, r, hl, hkey, hfree, rfl⟩ |
    ⟨r, hnone, hkey, hfree, rfl⟩
  · exact h
  · apply h.put db.drawn hfree
    intro _ s hs hsame
    have hsl := h s hs l (KeyedTable.mem_of_find hl) (hsame.trans hkey)
    rw [hsl, Database.id_of_find hl]
  · apply h.put _ hfree
    rw [hkey]
    intro hglobal s hs hsame
    have hscope_id : u.scope_id = none := by
      cases hid : u.scope_id with
      | none => rfl
      | some id =>
        rw [hid] at hglobal
        cases hglobal
    have habsent := List.find?_eq_none.1 (hfresh hnone hscope_id) s hs
    simp only [Row.logicalKey, hscope_id, Prod.mk.injEq] at hsame
    exact (habsent (decide_eq_true hsame)).elim

theorem select_writeFiles (base : List String) (files : List (String × List UInt8))
    (db : Database b) : (writeFiles base files db).2.select m = db.select m := by
  induction files generalizing db with
  | nil => rfl
  | cons file files ih =>
    have hwrite : (writeFile base file db).2.select m = db.select m := by
      rw [Database.select, Database.select, writeFile, table_setUploads]
    rw [writeFiles]
    split
    · rename_i hfile
      rw [hfile] at hwrite
      exact hwrite
    · rename_i hfile
      rw [hfile] at hwrite
      exact (ih _).trans hwrite

theorem select_commits_of_ne (h : Commits m rows db db') (hne : m' ≠ m) :
    db'.select m' = db.select m' := by
  rcases h with ⟨_, _, hall⟩ | ⟨_, rfl⟩
  · exact select_mergeAll_of_ne hall hne
  · rfl

/-- Two tables that one transaction merges rows into. -/
theorem select_upsertRows_two {m₁ m₂ : Model} {read : Except Exc (List Dict)}
    {rows₁ rows₂ : List Dict → List Dict} (h₁ : m ≠ m₁) (h₂ : m ≠ m₂) :
    (transaction db do
      let rows ← read
      let (total, db) ← upsertRows m₁ (rows₁ rows) db
      let (more, db) ← upsertRows m₂ (rows₂ rows) db
      .ok (total + more, db)).2.select m = db.select m := by
  cases hall : (do
      let rows ← read
      let (total, db) ← upsertRows m₁ (rows₁ rows) db
      let (more, db) ← upsertRows m₂ (rows₂ rows) db
      Except.ok (total + more, db)) with
  | error e => rfl
  | ok result =>
    obtain ⟨rows, _, hall⟩ := bind_eq_ok.1 hall
    obtain ⟨⟨total, db₁⟩, hfirst, hall⟩ := bind_eq_ok.1 hall
    obtain ⟨⟨more, db₂⟩, hsecond, hall⟩ := bind_eq_ok.1 hall
    cases hall
    have hdb₁ := select_mergeAll_of_ne (upsertRows_ok_iff.1 ⟨total, hfirst⟩) h₁
    have hdb₂ := select_mergeAll_of_ne (upsertRows_ok_iff.1 ⟨more, hsecond⟩) h₂
    exact hdb₂.trans hdb₁

/-- Each row that is stored is fresh when its turn comes. -/
def FreshRows (rows : List Dict) (db : Database b) : Prop :=
  EachMerge (fun row db _ => FreshRow row db) .setting rows db

theorem KeysOnce.commits (h : KeysOnce db) (hcommits : Commits .setting rows db db')
    (hfresh : ∀ rs db', rows = .ok rs → mergeAll .setting rs db = .ok db' → FreshRows rs db) :
    KeysOnce db' := by
  rcases hcommits with ⟨rs, hrs, hall⟩ | ⟨_, rfl⟩
  · exact h.of_mergeAll (hfresh rs _ hrs hall) hall
  · exact h

theorem KeysOnce.restore {c : Contributor b} (h : KeysOnce db) (hc : Registered c)
    (hfresh : ∀ rowsOf rows db', Restores c .setting rowsOf → rowsOf doc = .ok rows →
      mergeAll .setting rows db = .ok db' → FreshRows rows db) :
    KeysOnce (c.restore scope t doc files db).2 := by
  rcases hc with hc | ⟨base, n, rfl⟩
  · simp only [builtinContributors, List.mem_cons, List.not_mem_nil, or_false] at hc
    rcases hc with rfl | rfl | rfl | rfl | rfl | rfl
    · exact h.congr (select_upsertRows_two (by decide) (by decide))
    · exact h.congr (select_upsertRows_two (by decide) (by decide))
    · exact h.commits (Restores.settings.commits scope t doc files db)
        fun rs db' => hfresh _ rs db' .settings
    · exact h.commits (Restores.secrets.commits scope t doc files db)
        fun rs db' => hfresh _ rs db' .secrets
    · exact h.congr (select_commits_of_ne (Restores.items.commits scope t doc files db) (by decide))
    · exact h.congr
        (select_commits_of_ne (Restores.auditLog.commits scope t doc files db) (by decide))
  · exact h.congr (select_writeFiles base files db)

/-! ## Runs -/

/-- One installation, and the upserts that have selected and not yet flushed. -/
structure KeysState (b : Backend) where
  inst : Installation b
  running : List (Upsert b)

inductive KeysEvent (b : Backend) where
  | select (scope : String) (scope_id : Option String) (key value_json : String)
      (updated_by : Option String)
  | flush (before : List (Upsert b)) (u : Upsert b) (after : List (Upsert b))
  | restore (c : Contributor b) (scope : BackupScope) (tenant_id : Val) (doc : JsonDoc)
      (files : List (String × List UInt8))
  | sync (c : Contributor b) (peer_id origin_node_id : String) (row : Dict)
  | tick (now : { d : DateTime // b.native d = true })

variable {eng : MeshSyncEngine b}

inductive KeysStep (eng : MeshSyncEngine b) :
    KeysState b → KeysEvent b → KeysState b → Prop where
  | select : KeysStep eng s (.select scope scope_id key value_json updated_by)
      { s with running := s.running ++ [⟨scope, scope_id, key, value_json, updated_by,
        SettingsRepository.get scope scope_id key s.inst.db⟩] }
  | flush {stored : Database b} : s.running = before ++ u :: after →
      u.flush s.inst.db = .ok stored →
      KeysStep eng s (.flush before u after) ⟨{ s.inst with db := stored }, before ++ after⟩
  | rollback : s.running = before ++ u :: after → u.flush s.inst.db = .error e →
      KeysStep eng s (.flush before u after) ⟨s.inst, before ++ after⟩
  | restore : Registered c → KeysStep eng s (.restore c scope t doc files)
      ⟨{ s.inst with db := (c.restore scope t doc files s.inst.db).2 }, s.running⟩
  | sync : Registered c → KeysStep eng s (.sync c peer_id origin row)
      ⟨(eng.applyRow c peer_id origin row s.inst).2, s.running⟩
  | tick : KeysStep eng s (.tick now) ⟨{ s.inst with db := { s.inst.db with now } }, s.running⟩

/-- A row that the step stores finds no other row with its global key. -/
def StoresFresh (eng : MeshSyncEngine b) (s : KeysState b) : KeysEvent b → Prop
  | .flush _ u _ => u.existing = none → u.scope_id = none →
      SettingsRepository.get u.scope none u.key s.inst.db = none
  | .restore c _ _ doc _ => ∀ rowsOf rows db', Restores c .setting rowsOf →
      rowsOf doc = .ok rows → mergeAll .setting rows s.inst.db = .ok db' →
        FreshRows rows s.inst.db
  | .sync c _ origin row => verdict c.contributor_id row origin eng.local_node.id s.inst.db =
      .ok true → route c.contributor_id row = .ok (some .setting) → FreshRows [row] s.inst.db
  | _ => True

theorem KeysOnce.applyRow {c : Contributor b} {inst : Installation b} (h : KeysOnce inst.db)
    (hc : Registered c)
    (hfresh : verdict c.contributor_id row origin eng.local_node.id inst.db = .ok true →
      route c.contributor_id row = .ok (some .setting) → FreshRows [row] inst.db) :
    KeysOnce (eng.applyRow c peer_id origin row inst).2.db := by
  rcases eng.applyRow_cases hc peer_id origin row inst with ⟨e, _, happly⟩ | ⟨_, happly⟩ |
    ⟨hwins, ⟨e, happly⟩ | ⟨_, happly⟩ | ⟨m, db', hroute, hmerge, happly⟩⟩
  · rw [happly]
    exact h
  · rw [happly]
    exact h
  · rw [happly]
    exact h
  · rw [happly]
    exact h
  · rw [happly]
    by_cases hm : m = .setting
    · subst hm
      exact h.of_mergeRow hmerge (hfresh hwins hroute db' hmerge).1
    · exact h.congr (select_mergeRow_of_ne hmerge fun he => hm he.symm)

theorem KeysStep.keysOnce (h : Guarded (KeysStep eng) (StoresFresh eng) s e s')
    (hs : KeysOnce s.inst.db) : KeysOnce s'.inst.db := by
  obtain ⟨hstep, hfresh⟩ := h
  cases hstep with
  | select => exact hs
  | flush _ hflush => exact hs.flush hflush hfresh
  | rollback => exact hs
  | restore hc => exact hs.restore hc hfresh
  | sync hc => exact hs.applyRow hc hfresh
  | tick => exact hs

theorem SettingsRepository.mem_of_get {r : Row b .setting}
    (h : SettingsRepository.get scope scope_id key db = some r) :
    r ∈ db.select .setting ∧ r.get "scope" = .str scope ∧ r.get "scope_id" = tenantVal scope_id ∧
      r.get "key" = .str key := by
  have hmatches := List.find?_some (p := fun r : Row b .setting => decide
    (r.get "scope" = .str scope ∧ r.get "scope_id" = tenantVal scope_id ∧ r.get "key" = .str key)) h
  exact ⟨List.mem_of_find?_eq_some h, of_decide_eq_true hmatches⟩

/-- There is one row for a key, and the two ways to read it agree. -/
structure KeysUnique (db : Database b) : Prop where
  once : KeysOnce db
  agree : ∀ scope scope_id key r, SettingsRepository.get scope scope_id key db = some r ↔
    r ∈ listByScope scope scope_id db ∧ r.get "key" = .str key

theorem KeysOnce.unique (h : KeysOnce db) : KeysUnique db := by
  refine ⟨h, fun scope scope_id key r => ?_⟩
  rw [listByScope, List.mem_filter, decide_eq_true_eq]
  constructor
  · intro hget
    obtain ⟨hr, hscope, hscope_id, hkey⟩ := mem_of_get hget
    exact ⟨⟨hr, hscope, hscope_id⟩, hkey⟩
  · rintro ⟨⟨hr, hscope, hscope_id⟩, hkey⟩
    cases hget : SettingsRepository.get scope scope_id key db with
    | none => exact (List.find?_eq_none.1 hget r hr (decide_eq_true ⟨hscope, hscope_id, hkey⟩)).elim
    | some s =>
      obtain ⟨hs, hsscope, hsscope_id, hskey⟩ := mem_of_get hget
      have hsame : s.logicalKey = r.logicalKey := by
        rw [Row.logicalKey, Row.logicalKey, hsscope, hsscope_id, hskey, hscope, hscope_id, hkey]
      rw [h s hs r hr hsame]

theorem settings_keys_unique (hstart : KeysUnique s.inst.db)
    (hrun : Run (Guarded (KeysStep eng) (StoresFresh eng)) s es s') : KeysUnique s'.inst.db := by
  have honce : KeysOnce s'.inst.db := by
    apply hrun.invariant hstart.once
    intro t e u ht hstep
    exact KeysStep.keysOnce hstep ht
  exact honce.unique

/-! ## Two upserts of a global key -/

def emptyStart : KeysState .sqlite := ⟨⟨noData, ∅, ∅, [], ∅⟩, []⟩

def brandUpsert : Upsert .sqlite := ⟨"global", none, "branding_app_name", "\"Acme\"", none, none⟩

/-- The database after a flush that succeeds. -/
def flushed (u : Upsert .sqlite) (db : Database .sqlite) : Database .sqlite :=
  (u.flush db).toOption.getD db

theorem brand_flushed : brandUpsert.flush noData = .ok (flushed brandUpsert noData) := rfl

theorem brand_flushed_again : brandUpsert.flush (flushed brandUpsert noData) =
    .ok (flushed brandUpsert (flushed brandUpsert noData)) := rfl

theorem brand_key_unique : KeysUnique (flushed brandUpsert noData) := by
  have hstart : KeysUnique emptyStart.inst.db := KeysOnce.unique fun _ => nofun
  have hselect : KeysStep nodeEngine emptyStart
      (.select "global" none "branding_app_name" "\"Acme\"" none)
      ⟨emptyStart.inst, [brandUpsert]⟩ := .select
  have hflush : KeysStep nodeEngine ⟨emptyStart.inst, [brandUpsert]⟩ (.flush [] brandUpsert [])
      ⟨{ emptyStart.inst with db := flushed brandUpsert noData }, []⟩ := .flush rfl brand_flushed
  exact settings_keys_unique hstart
    ((Run.single ⟨hselect, trivial⟩).snoc ⟨hflush, fun _ _ => rfl⟩)

/-- Both select before either inserts. -/
theorem brand_key_twice : ¬ ∀ es s',
    Run (KeysStep nodeEngine) emptyStart es s' → KeysUnique s'.inst.db := by
  intro h
  have hselect : KeysStep nodeEngine emptyStart
      (.select "global" none "branding_app_name" "\"Acme\"" none)
      ⟨emptyStart.inst, [brandUpsert]⟩ := .select
  have hselect' : KeysStep nodeEngine ⟨emptyStart.inst, [brandUpsert]⟩
      (.select "global" none "branding_app_name" "\"Acme\"" none)
      ⟨emptyStart.inst, [brandUpsert, brandUpsert]⟩ := .select
  have hflush : KeysStep nodeEngine ⟨emptyStart.inst, [brandUpsert, brandUpsert]⟩
      (.flush [] brandUpsert [brandUpsert])
      ⟨{ emptyStart.inst with db := flushed brandUpsert noData }, [brandUpsert]⟩ :=
    .flush rfl brand_flushed
  have hflush' : KeysStep nodeEngine
      ⟨{ emptyStart.inst with db := flushed brandUpsert noData }, [brandUpsert]⟩
      (.flush [] brandUpsert [])
      ⟨{ emptyStart.inst with db := flushed brandUpsert (flushed brandUpsert noData) }, []⟩ :=
    .flush rfl brand_flushed_again
  have hunique := h _ _ ((((Run.single hselect).snoc hselect').snoc hflush).snoc hflush')
  have hids : ∀ r ∈ (flushed brandUpsert (flushed brandUpsert noData)).select .setting,
      ∀ s ∈ (flushed brandUpsert (flushed brandUpsert noData)).select .setting,
        r.logicalKey = s.logicalKey → r.id = s.id :=
    fun r hr s hs hkey => congrArg Row.id (hunique.once r hr s hs hkey)
  exact absurd hids (by decide)

end ScottyCore
