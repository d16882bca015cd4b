import ScottyCore.Backup.Service
import ScottyCore.Lib.Raise

namespace ScottyCore
open Python
set_option autoImplicit true

variable {b b' : Backend} {m : Model}

/-! ## What is registered -/

def builtinContributors : List (Contributor b) :=
  [tenantsContributor, usersContributor, settingsContributor, secretsContributor,
    itemsContributor, auditLogContributor]

def uploadContributors (uploads_base_dir : Option String) : List (Contributor b) :=
  match uploads_base_dir.filter (· ≠ "") with
  | none => []
  | some dir => [filesContributor (resolveParts (splitPath dir)) maxBytesPerFile]

theorem buildBackupService_rows (app_name app_version : String) (dir : Option String) :
    (buildBackupService app_name app_version dir).contributors.rows =
      (builtinContributors ++ uploadContributors dir : List (Contributor b)) := by
  unfold buildBackupService uploadContributors
  cases dir.filter (· ≠ "") with
  | none => rfl
  | some dir => rfl

theorem mem_uploadContributors {c : Contributor b} (h : c ∈ uploadContributors dir) :
    ∃ base n, c = filesContributor base n := by
  unfold uploadContributors at h
  cases hd : dir.filter (· ≠ "") with
  | none => rw [hd] at h; cases h
  | some d =>
    rw [hd] at h
    exact ⟨_, _, List.mem_singleton.1 h⟩

theorem findContributor_cases {c : Contributor b}
    (h : (buildBackupService app_name app_version dir).contributors.find cid = some c) :
    c.contributor_id = cid ∧ (c ∈ builtinContributors ∨ ∃ base n, c = filesContributor base n) := by
  refine ⟨KeyedTable.key_of_find h, ?_⟩
  have hmem := KeyedTable.mem_of_find h
  rw [buildBackupService_rows, List.mem_append] at hmem
  exact hmem.imp_right mem_uploadContributors

/-! ## Restoring one row -/

/-- The table that a row of a payload is restored into, if any. -/
def route (cid : String) (row : Dict) : Except Exc (Option Model) :=
  if cid = "tenants" then
    .ok (if row.get "_table" = .str "roles" then some .role
      else if row.get "_table" = .str "tenants" then some .tenant else none)
  else if cid = "users" then
    .ok (if row.get "_table" = .str "users" then some .user
      else if row.get "_table" = .str "user_tenant_roles" then some .userTenantRole else none)
  else if cid = "settings" then .ok (some .setting)
  else if cid = "secrets" then
    (isSecret (row.getD "key" (.str ""))).map fun s => if s then some .setting else none
  else if cid = "items" then .ok (some .item)
  else if cid = "audit_log" then .ok (some .auditLog)
  else .ok none

def restoreInto (row : Dict) (db : Database b) : Option Model → Except Exc (Nat × Database b)
  | none => .ok (0, db)
  | some m => (mergeRow m row db).map fun db => (1, db)

theorem mapColumns_congr {cs : List Column}
    (h : ∀ c ∈ cs, row.lookup c.name = row'.lookup c.name) :
    mapColumns f row cs = mapColumns f row' cs := by
  induction cs with
  | nil => rfl
  | cons c cs ih =>
    rw [mapColumns, mapColumns, h c List.mem_cons_self,
      ih fun c' hc' => h c' (List.mem_cons_of_mem _ hc')]

theorem mergeRow_congr (h : ∀ c ∈ m.columns, row.lookup c.name = row'.lookup c.name)
    (db : Database b) : mergeRow m row db = mergeRow m row' db := by
  rw [mergeRow, mergeRow, hydrateRow, hydrateRow, mapColumns_congr h]

theorem ne_tag {c : Column} (hc : c ∈ m.columns) : c.name ≠ "_table" := by
  intro h
  exact m.tag_not_column (h ▸ List.mem_map_of_mem hc)

@[simp] theorem mergeRow_stripTag (m : Model) (row : Dict) (db : Database b) :
    mergeRow m (stripTag row) db = mergeRow m row db :=
  mergeRow_congr (fun _ hc => lookup_filter_of_ne (ne_tag hc)) db

theorem upsertRows_nil (m : Model) (db : Database b) : upsertRows m [] db = .ok (0, db) := rfl

theorem upsertRows_singleton (m : Model) (row : Dict) (db : Database b) :
    upsertRows m [row] db = (mergeRow m row db).map fun db => (1, db) := by
  simp only [upsertRows, List.foldlM_cons, List.foldlM_nil, bind, Except.bind]
  cases mergeRow m row db with
  | error e => rfl
  | ok db => rfl

theorem taggedRows_singleton (table : String) (row : Dict) :
    taggedRows table [row] = if row.get "_table" = .str table then [stripTag row] else [] := by
  simp only [taggedRows, List.filter_cons, List.filter_nil, decide_eq_true_eq]
  split <;> rfl

/-- Restoring into two tables, of which the row belongs to one at most. -/
theorem upsertRows_two (m₁ m₂ : Model) (t₁ t₂ : String) (hne : t₁ ≠ t₂) (row : Dict)
    (db : Database b) :
    (do
      let (total, db) ← upsertRows m₁ (taggedRows t₁ [row]) db
      let (more, db) ← upsertRows m₂ (taggedRows t₂ [row]) db
      Except.ok (total + more, db)) =
    restoreInto row db (if row.get "_table" = .str t₁ then some m₁
      else if row.get "_table" = .str t₂ then some m₂ else none) := by
  rw [taggedRows_singleton, taggedRows_singleton]
  by_cases h₁ : row.get "_table" = .str t₁
  · have h₂ : ¬ row.get "_table" = .str t₂ := by
      intro h
      cases h₁.symm.trans h
      exact hne rfl
    rw [if_pos h₁, if_neg h₂, if_pos h₁, upsertRows_singleton, mergeRow_stripTag]
    rw [restoreInto]
    cases mergeRow m₁ row db with
    | error e => rfl
    | ok db => rfl
  · rw [if_neg h₁, if_neg h₁, upsertRows_nil]
    by_cases h₂ : row.get "_table" = .str t₂
    · rw [if_pos h₂, if_pos h₂]
      simp only [bind, Except.bind]
      rw [upsertRows_singleton, mergeRow_stripTag, restoreInto]
      cases mergeRow m₂ row db with
      | error e => rfl
      | ok db => rfl
    · rw [if_neg h₂, if_neg h₂]
      rfl

theorem upsertDoc_ofRows (m : Model) (rows : List Dict) (db : Database b) :
    upsertDoc m (.ofRows rows) db = upsertRows m rows db := by
  rw [upsertDoc, JsonDoc.ofRows, upsertRows]
  exact List.foldlM_map

theorem keepSecretRows_singleton (row : Dict) (db : Database b) :
    (do
      let safe_rows ← keepSecretRows [.object row]
      upsertRows .setting safe_rows db) =
    ((isSecret (row.getD "key" (.str ""))).map fun s => if s then some .setting else none).bind
      (restoreInto row db) := by
  simp only [keepSecretRows, JsonRow.asDict, bind, Except.bind]
  cases isSecret (row.getD "key" (.str "")) with
  | error e => rfl
  | ok s =>
    cases s with
    | false => rfl
    | true => exact upsertRows_singleton _ _ _

/-- What restoring one row does, for every contributor that is registered. -/
theorem restore_row {c : Contributor b}
    (h : c ∈ builtinContributors ∨ ∃ base n, c = filesContributor base n) (scope : BackupScope)
    (t : Val) (row : Dict) (db : Database b) :
    c.restore scope t (.ofRows [row]) [] db =
      transaction db ((route c.contributor_id row).bind (restoreInto row db)) := by
  rcases h with h | ⟨base, n, rfl⟩
  · simp only [builtinContributors, List.mem_cons, List.not_mem_nil, or_false] at h
    rcases h with rfl | rfl | rfl | rfl | rfl | rfl
    · exact congrArg (transaction db)
        (upsertRows_two .role .tenant "roles" "tenants" (by decide) row db)
    · exact congrArg (transaction db)
        (upsertRows_two .user .userTenantRole "users" "user_tenant_roles" (by decide) row db)
    · exact congrArg (transaction db) ((upsertDoc_ofRows _ _ _).trans (upsertRows_singleton _ _ _))
    · exact congrArg (transaction db) (keepSecretRows_singleton row db)
    · exact congrArg (transaction db) ((upsertDoc_ofRows _ _ _).trans (upsertRows_singleton _ _ _))
    · exact congrArg (transaction db) ((upsertDoc_ofRows _ _ _).trans (upsertRows_singleton _ _ _))
  · rfl

theorem find_of_route (b : Backend) (app_name app_version : String)
    (dir : Option String)     (h : route cid row = .ok (some m)) :
    ∃ c : Contributor b,
      (buildBackupService app_name app_version dir).contributors.find cid = some c := by
  have hmem : ∃ c : Contributor b, c ∈ builtinContributors ∧ c.contributor_id = cid := by
    unfold route at h
    split at h
    · exact ⟨tenantsContributor, by simp [builtinContributors], by symm; assumption⟩
    · split at h
      · exact ⟨usersContributor, by simp [builtinContributors], by symm; assumption⟩
      · split at h
        · exact ⟨settingsContributor, by simp [builtinContributors], by symm; assumption⟩
        · split at h
          · exact ⟨secretsContributor, by simp [builtinContributors], by symm; assumption⟩
          · split at h
            · exact ⟨itemsContributor, by simp [builtinContributors], by symm; assumption⟩
            · split at h
              · exact ⟨auditLogContributor, by simp [builtinContributors], by symm; assumption⟩
              · cases h
  obtain ⟨c, hc, rfl⟩ := hmem
  refine ⟨c, KeyedTable.find_of_mem ?_⟩
  rw [buildBackupService_rows]
  exact List.mem_append_left _ hc

/-! ## Reading one row -/

/-- The table that a contributor's `get_row` reads. -/
def readModel (cid : String) : Option Model :=
  if cid = "tenants" then some .tenant
  else if cid = "users" then some .user
  else if cid = "settings" then some .setting
  else if cid = "items" then some .item
  else none

def Row.updatedAt (r : Row b m) : Option DateTime :=
  match r.get "updated_at" with
  | .datetime d => some d
  | _ => none

/-! ## The rows of an export -/

/-- The payload that carries a model at platform scope, and the tag of its rows there. -/
def platformPayload : Model → Option (String × Option String)
  | .tenant => some ("tenants", some "tenants")
  | .role => some ("tenants", some "roles")
  | .user => some ("users", some "users")
  | .userTenantRole => some ("users", some "user_tenant_roles")
  | .setting => some ("settings", none)
  | .auditLog => some ("audit_log", none)
  | .item => none

def platformRow (r : Row b m) : Bool :=
  (platformPayload m).isSome && (m ≠ .setting || r.get "scope" = .str "global")

/-- The JSON row that the exporting contributor makes of a row. -/
def exportedRow (tag : Option String) (r : Row b m) : Dict :=
  match tag with
  | some table => withTag table (rowToDict r)
  | none => rowToDict r

theorem carries_rowToDict (r : Row b m) : Carries (rowToDict r) r := fun _ _ => rfl

theorem carries_withTag (table : String) (r : Row b m) :
    Carries (withTag table (rowToDict r)) r := by
  intro c hc
  have hne : (c.name == "_table") = false := by
    rw [beq_eq_false_iff_ne]
    exact ne_tag hc
  rw [withTag, List.lookup_cons, hne]

theorem carries_exportedRow (tag : Option String) (v : Row b m) :
    Carries (exportedRow tag v) v := by
  cases tag with
  | none => exact carries_rowToDict v
  | some table => exact carries_withTag table v

theorem dicts_ofRows (rows : List Dict) : (JsonDoc.ofRows rows).dicts = .ok rows := by
  rw [JsonDoc.dicts]
  refine bind_eq_ok.2 ⟨rows.map .object, rfl, ?_⟩
  rw [List.mapM_map]
  exact (mapM_ok_of_forall (g := fun row => row) fun _ _ => rfl).trans (by rw [List.map_id'])

theorem keepSecrets_ok {key : α → Val} (rows : List α) (h : ∀ r ∈ rows, ∃ k, key r = .str k) :
    ∃ kept, keepSecrets key rows = .ok kept := by
  induction rows with
  | nil => exact ⟨[], rfl⟩
  | cons r rows ih =>
    obtain ⟨k, hk⟩ := h r List.mem_cons_self
    obtain ⟨kept, hkept⟩ := ih fun r' hr => h r' (List.mem_cons_of_mem _ hr)
    rw [keepSecrets, hk, hkept]
    exact ⟨_, rfl⟩

theorem setting_key (r : Row b .setting) : ∃ k, r.get "key" = .str k :=
  r.get_str (c := .required "key" .string) (by decide) rfl rfl

theorem mem_keepSecrets_iff {key : α → Val} {rows kept : List α}
    (h : keepSecrets key rows = .ok kept) :
    r ∈ kept ↔ r ∈ rows ∧ isSecret (key r) = .ok true := by
  induction rows generalizing kept with
  | nil =>
    cases h
    simp only [List.not_mem_nil, false_and]
  | cons x rows ih =>
    obtain ⟨secret, hsecret, h⟩ := bind_eq_ok.1 h
    obtain ⟨rest, hrest, h⟩ := bind_eq_ok.1 h
    cases h
    rw [List.mem_cons, or_and_right]
    cases secret with
    | false =>
      change r ∈ rest ↔ _
      rw [ih hrest, or_iff_right]
      rintro ⟨rfl, htrue⟩
      cases hsecret.symm.trans htrue
    | true =>
      change r ∈ x :: rest ↔ _
      rw [List.mem_cons, ih hrest]
      apply or_congr_left
      exact ⟨fun hr => ⟨hr, hr ▸ hsecret⟩, And.left⟩

theorem mem_of_keepSecrets {key : α → Val} {rows kept : List α}
    (h : keepSecrets key rows = .ok kept) (hr : r ∈ kept) : r ∈ rows :=
  ((mem_keepSecrets_iff h).1 hr).1

theorem rowToDict_get (r : Row b m) (name : String) :
    (rowToDict r).get name = serialise (r.get name) := by
  rw [Dict.get, rowToDict, lookup_map_snd, Row.get, Dict.get]
  cases r.val.lookup name with
  | none => rfl
  | some v => rfl

theorem withTag_get (table : String) (row : Dict) (h : name ≠ "_table") :
    (withTag table row).get name = row.get name := by
  have hne : (name == "_table") = false := beq_eq_false_iff_ne.2 h
  rw [Dict.get, Dict.get, withTag, List.lookup_cons, hne]

theorem serialise_get (r : Row b m) (hc : c ∈ m.columns) (ht : c.type ≠ .dateTime) :
    serialise (r.get c.name) = r.get c.name := by
  obtain ⟨-, hh⟩ := r.lookup hc
  cases hv : r.get c.name with
  | datetime d =>
    rw [hv] at hh
    simp only [Column.holds, ht, decide_false, Bool.false_and, Bool.false_eq_true] at hh
  | _ => rfl

end ScottyCore
