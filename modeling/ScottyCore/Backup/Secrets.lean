import ScottyCore.Backup.Isolation
import ScottyCore.Core.Stored

namespace ScottyCore
open Python
set_option autoImplicit true

variable {b : Backend}

/-! ## A restore of secrets -/

def Row.secret (r : Row b .setting) : Prop := isSecret (r.get "key") = .ok true

instance (r : Row b .setting) : Decidable r.secret := inferInstanceAs (Decidable (_ = _))

/-- The settings without a secret key are as they were, and there are no new ones of them. -/
structure KeepsOpenSettings (db db' : Database b) : Prop where
  kept : ∀ l ∈ db.select .setting, ¬ l.secret → ∃ r, db'.find .setting l.id = some r ∧
    ∀ name ∈ ["scope", "scope_id", "key", "value_json"], r.get name = l.get name
  added : ∀ r ∈ db'.select .setting, db.find .setting r.id = none → r.secret

/-- No row with a secret key carries the id of a stored setting without one, or the rows cannot
be merged, and then none of them is. -/
def HitsOnlySecrets (doc : JsonDoc) (db : Database b) : Prop :=
  ∀ rows db', doc.secretRows = .ok rows → mergeAll .setting rows db = .ok db' →
    ∀ row ∈ rows, ∀ l, db.find .setting (row.get "id") = some l → l.secret

def secretDict (row : Dict) : Prop := isSecret (row.getD "key" (.str "")) = .ok true

theorem secret_of_keepSecretRows {rows : List JsonRow} (h : keepSecretRows rows = .ok kept)
    (hrow : row ∈ kept) : secretDict row := by
  induction rows generalizing kept with
  | nil =>
    cases h
    cases hrow
  | cons r rows ih =>
    obtain ⟨d, -, h⟩ := bind_eq_ok.1 h
    obtain ⟨secret, hsecret, h⟩ := bind_eq_ok.1 h
    obtain ⟨rest, hrest, h⟩ := bind_eq_ok.1 h
    cases h
    cases secret with
    | false => exact ih hrest hrow
    | true =>
      rcases List.mem_cons.1 hrow with rfl | hrow
      · exact hsecret
      · exact ih hrest hrow

theorem secret_of_secretRows {doc : JsonDoc} (h : doc.secretRows = .ok rows) :
    ∀ row ∈ rows, secretDict row := by
  obtain ⟨items, -, h⟩ := bind_eq_ok.1 h
  intro row hrow
  exact secret_of_keepSecretRows h hrow

/-- An empty key is no secret, so a row with a secret key has a key. -/
theorem key_of_secretDict (h : secretDict row) : ∃ k, row.lookup "key" = some (.str k) := by
  rw [secretDict, Dict.getD] at h
  cases hk : row.lookup "key" with
  | none =>
    have hempty : isSecret (.str "") = .ok false := by decide +kernel
    rw [hk, Option.getD_none, hempty] at h
    cases h
  | some v =>
    rw [hk] at h
    cases v with
    | str k => exact ⟨k, rfl⟩
    | _ => cases h

theorem key_column : Column.required "key" .string ∈ Model.setting.columns ∧
    (Column.required "key" .string).Plain :=
  ⟨by decide, ⟨by decide, rfl, rfl⟩⟩

section

variable {db db' : Database b}

/-- The setting under an id has a secret key. -/
def SecretAt (db : Database b) (key : Val) : Prop := ∃ r, db.find .setting key = some r ∧ r.secret

/-- What one merge of a row with a secret key leaves of the settings. -/
structure SecretMerge (row : Dict) (db db' : Database b) : Prop where
  back : ∀ key r, db'.find .setting key = some r → db.find .setting key = some r ∨ r.secret
  hit : row.get "id" ≠ .none → SecretAt db' (row.get "id")
  other : ∀ key r, key ≠ row.get "id" → db.find .setting key = some r →
    db'.find .setting key = some r

theorem secretMerge (hrow : secretDict row) (h : mergeRow .setting row db = .ok db') :
    SecretMerge row db db' := by
  obtain ⟨hc, hp⟩ := key_column
  obtain ⟨k, hk⟩ := key_of_secretDict hrow
  have hsecret : ∀ {r : Row b .setting}, r.get "key" = .str k → r.secret := by
    intro r hr
    rw [secretDict, Dict.getD, hk] at hrow
    rw [Row.secret, hr]
    exact hrow
  have hput : ∀ {r : Row b .setting} {db : Database b}, r.get "key" = .str k →
      (row.get "id" ≠ .none → r.id = row.get "id") →
      (∀ key s, key ≠ row.get "id" → db.find .setting key = some s → key ≠ r.id) →
      SecretMerge row db (db.put r) := by
    intro r db hr hid hother
    constructor
    · intro key s hs
      by_cases hkey : key = r.id
      · rw [hkey, db.find_put_self] at hs
        cases hs
        exact .inr (hsecret hr)
      · rw [db.find_put_of_ne r (.inr hkey)] at hs
        exact .inl hs
    · intro hne
      exact ⟨r, hid hne ▸ db.find_put_self r, hsecret hr⟩
    · intro key s hne hs
      rw [db.find_put_of_ne r (.inr (hother key s hne hs))]
      exact hs
  obtain ⟨given, hg, ⟨l, hl, hsame, rfl⟩ | ⟨l, r, assigned, hl, -, hset, hr, hid, rfl⟩ |
    ⟨r, bound, hkey, hbound, hr, hnone, rfl⟩⟩ := mergeRow_inv h
  · have hgiven : given.lookup "key" = some (.str k) :=
      (lookup_mapColumns_plain hg hc fun _ => hydrateCell_id hp.type).trans hk
    have heq := eq_of_unchanged hsame hc hgiven
    obtain ⟨k', hk'⟩ := setting_key l
    have hlkey : l.get "key" = .str k := by
      change Val.eq (.str k) (l.get "key") = true at heq
      rw [hk'] at heq ⊢
      exact (of_decide_eq_true heq).symm
    exact ⟨fun _ _ hr => .inl hr, fun _ => ⟨l, hl, hsecret hlkey⟩, fun _ _ _ hr => hr⟩
  · have hrkey : r.get "key" = row.getD "key" (l.get "key") := by
      rw [Row.get, hr]
      exact updateCells_plain hc hp hg hset
    rw [Dict.getD, hk] at hrkey
    exact hput hrkey (fun _ => hid) fun _ _ hne _ => hid ▸ hne
  · have hrkey : r.get "key" = row.get "key" := by
      rw [Row.get, hr]
      exact insertCells_plain hc hp hg hbound
    rw [Dict.get, hk] at hrkey
    have hfresh : ∀ key s, key ≠ row.get "id" → db.find .setting key = some s → key ≠ r.id := by
      rintro key s - hs rfl
      rw [hnone] at hs
      cases hs
    have hinsert : SecretMerge row { db with drawn := db.drawn + 1 } _ :=
      hput hrkey (fun hid => inserted_id hid hg hbound hr) hfresh
    exact ⟨hinsert.back, hinsert.hit, hinsert.other⟩

/-! ## All merges of a restore -/

/-- The settings without a secret key after some merges are those from before. -/
theorem mergeAll_back (hrows : ∀ row ∈ rows, secretDict row)
    (h : mergeAll .setting rows db = .ok db') {r : Row b .setting}
    (hr : db'.find .setting key = some r) : db.find .setting key = some r ∨ r.secret := by
  induction rows generalizing db with
  | nil =>
    cases h
    exact .inl hr
  | cons row rows ih =>
    obtain ⟨db₁, hmerge, hall⟩ := bind_eq_ok.1 h
    have hstep := secretMerge (hrows row List.mem_cons_self) hmerge
    rcases ih (fun r hr => hrows r (List.mem_cons_of_mem _ hr)) hall with hold | hsecret
    · exact hstep.back key r hold
    · exact .inr hsecret

theorem SecretMerge.secretAt (h : SecretMerge row db db') (hs : SecretAt db key) :
    SecretAt db' key := by
  obtain ⟨r, hr, hsecret⟩ := hs
  by_cases hkey : key = row.get "id"
  · subst hkey
    apply h.hit
    intro hnone
    rw [hnone, db.find_none] at hr
    cases hr
  · exact ⟨r, h.other key r hkey hr, hsecret⟩

theorem mergeAll_secretAt (hrows : ∀ row ∈ rows, secretDict row)
    (h : mergeAll .setting rows db = .ok db') (hs : SecretAt db key) : SecretAt db' key := by
  induction rows generalizing db with
  | nil =>
    cases h
    exact hs
  | cons row rows ih =>
    obtain ⟨db₁, hmerge, hall⟩ := bind_eq_ok.1 h
    apply ih (fun r hr => hrows r (List.mem_cons_of_mem _ hr)) hall
    exact (secretMerge (hrows row List.mem_cons_self) hmerge).secretAt hs

/-- A setting under an id that a row carries has a secret key in the end. -/
theorem mergeAll_hit (hrows : ∀ row ∈ rows, secretDict row)
    (h : mergeAll .setting rows db = .ok db') (hrow : row ∈ rows) (hid : row.get "id" ≠ .none) :
    SecretAt db' (row.get "id") := by
  induction rows generalizing db with
  | nil => cases hrow
  | cons row' rows ih =>
    obtain ⟨db₁, hmerge, hall⟩ := bind_eq_ok.1 h
    have hrest := fun r hr => hrows r (List.mem_cons_of_mem _ hr)
    rcases List.mem_cons.1 hrow with rfl | hrow
    · apply mergeAll_secretAt hrest hall
      exact (secretMerge (hrows row List.mem_cons_self) hmerge).hit hid
    · exact ih hrest hall hrow

theorem mergeAll_kept (hrows : ∀ row ∈ rows, secretDict row)
    (h : mergeAll .setting rows db = .ok db') {l : Row b .setting}
    (hl : db.find .setting key = some l) (hkey : ∀ row ∈ rows, row.get "id" ≠ key) :
    db'.find .setting key = some l := by
  induction rows generalizing db with
  | nil =>
    cases h
    exact hl
  | cons row rows ih =>
    obtain ⟨db₁, hmerge, hall⟩ := bind_eq_ok.1 h
    have hstep := secretMerge (hrows row List.mem_cons_self) hmerge
    apply ih (fun r hr => hrows r (List.mem_cons_of_mem _ hr)) hall
    · exact hstep.other key l (hkey row List.mem_cons_self).symm hl
    · exact fun r hr => hkey r (List.mem_cons_of_mem _ hr)

theorem mergeAll_keepsOpen_iff (hrows : ∀ row ∈ rows, secretDict row)
    (h : mergeAll .setting rows db = .ok db') :
    KeepsOpenSettings db db' ↔
      ∀ row ∈ rows, ∀ l, db.find .setting (row.get "id") = some l → l.secret := by
  constructor
  · intro hk row hrow l hl
    by_contra hopen
    obtain ⟨r, hr, hcells⟩ := hk.kept l (KeyedTable.mem_of_find hl) hopen
    have hid : row.get "id" ≠ .none := by
      intro hnone
      rw [hnone, db.find_none] at hl
      cases hl
    obtain ⟨s, hs, hsecret⟩ := mergeAll_hit hrows h hrow hid
    rw [← Database.id_of_find hl, hr] at hs
    cases hs
    apply hopen
    rw [Row.secret, ← hcells "key" (by decide)]
    exact hsecret
  · intro hhits
    constructor
    · intro l hl hopen
      refine ⟨l, ?_, fun _ _ => rfl⟩
      have hfind : db.find .setting l.id = some l := KeyedTable.find_of_mem hl
      apply mergeAll_kept hrows h hfind
      intro row hrow hid
      exact hopen (hhits row hrow l (hid ▸ hfind))
    · intro r hr hnew
      have hfind : db'.find .setting r.id = some r := KeyedTable.find_of_mem hr
      rcases mergeAll_back hrows h hfind with hold | hsecret
      · rw [hnew] at hold
        cases hold
      · exact hsecret

end

/-- Whatever the rows, a restore of secrets keeps the other settings. -/
def SecretsRestoreKeeps (b : Backend) : Prop :=
  ∀ scope tenant_id doc files (db : Database b),
    KeepsOpenSettings db (secretsContributor.restore scope tenant_id doc files db).2

def themeData : Database .sqlite := noData.put themeSetting

def disguisedRow : Dict := [("id", .str "theme"), ("key", .str "theme_token")]

/-- Two versions of a setting differ, if at all, in the value of a secret key. -/
def SameButSecret (r₁ r₂ : Row b .setting) : Prop :=
  ∀ c ∈ Model.setting.columns, c.name ≠ "value_json" ∨ ¬ r₁.secret → r₁.get c.name = r₂.get c.name

instance (r₁ r₂ : Row b .setting) : Decidable (SameButSecret r₁ r₂) :=
  inferInstanceAs (Decidable (∀ c ∈ Model.setting.columns, _))

/-- Two stores differ in the values of secret keys only. -/
structure DifferInSecrets (db₁ db₂ : Database b) : Prop where
  tables : ∀ m, m ≠ .setting → db₁.table m = db₂.table m
  files : db₁.uploads = db₂.uploads
  settings : List.Forall₂ SameButSecret (db₁.select .setting) (db₂.select .setting)

/-- The members of a bundle without the payload of secrets. -/
def otherMembers : Bytes → List Member
  | .tarGz members => members.filter fun mem => mem.name ≠ dataName "secrets"
  | _ => []

/-- The bundles of two stores are the same but for the payload of secrets. -/
def SecretsApart (svc : BackupService b) (scope : BackupScope)
    (tenant_id tenant_slug : Option String) (now : DateTime) (db₁ db₂ : Database b) : Prop :=
  (svc.runExport scope tenant_id tenant_slug now db₁).map otherMembers =
    (svc.runExport scope tenant_id tenant_slug now db₂).map otherMembers

/-- The secret settings that an export of the scope carries have the same values in both stores. -/
def SameSecrets (scope : BackupScope) (tenant_id : Option String) (db₁ db₂ : Database b) : Prop :=
  ∀ r₁ ∈ selectSettings scope tenant_id db₁, ∀ r₂ ∈ selectSettings scope tenant_id db₂,
    r₁.id = r₂.id → r₁.secret → r₁.get "value_json" = r₂.get "value_json"

section

variable {scope : BackupScope} {tenant_id : Option String} {db₁ db₂ : Database b}

theorem SameButSecret.get {r₁ r₂ : Row b .setting} (h : SameButSecret r₁ r₂)
    (hc : c ∈ Model.setting.columns) (hname : c.name ≠ "value_json") :
    r₁.get c.name = r₂.get c.name := h c hc (.inl hname)

theorem SameButSecret.eq {r₁ r₂ : Row b .setting} (h : SameButSecret r₁ r₂)
    (hvalue : r₁.secret → r₁.get "value_json" = r₂.get "value_json") : r₁ = r₂ := by
  apply Row.ext
  intro c hc
  by_cases hname : c.name = "value_json"
  · by_cases hsecret : r₁.secret
    · rw [hname]
      exact hvalue hsecret
    · exact h c hc (.inr hsecret)
  · exact h.get hc hname

/-- Whether an export of the scope carries a setting. -/
def inScopeSetting (scope : BackupScope) (tenant_id : Option String) (r : Row b .setting) : Bool :=
  match scope with
  | .platform => r.get "scope" = .str "global"
  | .tenant => r.get "scope" = .str "tenant" ∧ r.get "scope_id" = tenantVal tenant_id

theorem selectSettings_eq (scope : BackupScope) (tenant_id : Option String) (db : Database b) :
    selectSettings scope tenant_id db =
      (db.select .setting).filter (inScopeSetting scope tenant_id) := by
  cases scope with
  | platform => rfl
  | tenant => rfl

theorem SameButSecret.inScope {r₁ r₂ : Row b .setting} (h : SameButSecret r₁ r₂) :
    inScopeSetting scope tenant_id r₁ = inScopeSetting scope tenant_id r₂ := by
  have hscope : r₁.get "scope" = r₂.get "scope" :=
    h.get (c := .required "scope" .string) (by decide) (by decide)
  have hid : r₁.get "scope_id" = r₂.get "scope_id" :=
    h.get (c := .optional "scope_id" .string) (by decide) (by decide)
  cases scope with
  | platform => rw [inScopeSetting, inScopeSetting, hscope]
  | tenant => rw [inScopeSetting, inScopeSetting, hscope, hid]

theorem filter_eq_of_forall₂ {R : α → α → Prop} {p : α → Bool} {xs ys : List α}
    (h : List.Forall₂ R xs ys) (hp : ∀ x y, R x y → p x = p y)
    (heq : ∀ x ∈ xs, ∀ y ∈ ys, R x y → p x = true → x = y) : xs.filter p = ys.filter p := by
  induction h with
  | nil => rfl
  | @cons x y xs ys hxy _ ih =>
    have hrest := ih fun x' hx y' hy =>
      heq x' (List.mem_cons_of_mem _ hx) y' (List.mem_cons_of_mem _ hy)
    rw [List.filter_cons, List.filter_cons, ← hp x y hxy, hrest]
    split
    · rename_i hpx
      rw [heq x List.mem_cons_self y List.mem_cons_self hxy hpx]
    · rfl

theorem SameSecrets.selectSettings_eq (h : DifferInSecrets db₁ db₂)
    (hsame : SameSecrets scope tenant_id db₁ db₂) :
    selectSettings scope tenant_id db₁ = selectSettings scope tenant_id db₂ := by
  have hid : ∀ {r₁ r₂ : Row b .setting}, SameButSecret r₁ r₂ → r₁.id = r₂.id :=
    fun hr => hr.get (c := .uuid "id") (by decide) (by decide)
  rw [SameSecrets, ScottyCore.selectSettings_eq, ScottyCore.selectSettings_eq] at hsame
  rw [ScottyCore.selectSettings_eq, ScottyCore.selectSettings_eq]
  apply filter_eq_of_forall₂ h.settings fun _ _ hr => hr.inScope
  intro r₁ h₁ r₂ h₂ hr hp
  apply hr.eq
  apply hsame r₁ (List.mem_filter.2 ⟨h₁, hp⟩) r₂ (List.mem_filter.2 ⟨h₂, hr.inScope ▸ hp⟩) (hid hr)

/-! ## The payloads -/

theorem exportAll_congr {c : Contributor b}
    (hc : c ∈ builtinContributors ∨ ∃ base n, c = filesContributor base n)
    (h : DifferInSecrets db₁ db₂)
    (hsame : selectSettings scope tenant_id db₁ = selectSettings scope tenant_id db₂) :
    c.exportAll scope tenant_id db₁ = c.exportAll scope tenant_id db₂ := by
  have hselect : ∀ m, m ≠ .setting → db₁.select m = db₂.select m := by
    intro m hm
    rw [Database.select, h.tables m hm]
    rfl
  rcases hc with hc | ⟨base, n, rfl⟩
  · simp only [builtinContributors, List.mem_cons, List.not_mem_nil, or_false] at hc
    rcases hc with rfl | rfl | rfl | rfl | rfl | rfl
    · simp only [tenantsContributor, hselect .tenant (by decide), hselect .role (by decide)]
    · simp only [usersContributor, hselect .user (by decide), hselect .userTenantRole (by decide)]
    · simp only [settingsContributor, hsame]
    · simp only [secretsContributor, hsame]
    · simp only [itemsContributor, selectItems, hselect .item (by decide)]
    · simp only [auditLogContributor]
      cases scope with
      | platform => simp only [selectAuditLog, hselect .auditLog (by decide)]
      | tenant => simp only [selectAuditLog, hselect .auditLog (by decide)]
  · have hroot : walkRoot scope tenant_id db₁ = walkRoot scope tenant_id db₂ := by
      unfold walkRoot Database.find
      rw [h.tables .tenant (by decide)]
    simp only [filesContributor, hroot, h.files]

theorem contributor_cases {c : Contributor b}
    (h : c ∈ (buildBackupService app_name app_version dir).inScope scope) :
    c ∈ builtinContributors ∨ ∃ base n, c = filesContributor base n := by
  have hmem := (List.mem_filter.1 h).1
  rw [buildBackupService_rows, List.mem_append] at hmem
  exact hmem.imp_right mem_uploadContributors

theorem exportAll_ok {c : Contributor b}
    (h : c ∈ builtinContributors ∨ ∃ base n, c = filesContributor base n) (scope : BackupScope)
    (tenant_id : Option String) (db : Database b) :
    ∃ e, c.exportAll scope tenant_id db = .ok e := by
  rcases h with h | ⟨base, n, rfl⟩
  · simp only [builtinContributors, List.mem_cons, List.not_mem_nil, or_false] at h
    rcases h with rfl | rfl | rfl | rfl | rfl | rfl
    · exact ⟨_, rfl⟩
    · exact ⟨_, rfl⟩
    · exact ⟨_, rfl⟩
    · obtain ⟨kept, hkept⟩ := keepSecrets_ok (selectSettings scope tenant_id db)
        fun r _ => setting_key r
      exact ⟨_, bind_eq_ok.2 ⟨kept, hkept, rfl⟩⟩
    · exact ⟨_, rfl⟩
    · exact ⟨_, rfl⟩
  · exact ⟨_, rfl⟩

theorem runExport_ok (app_name app_version : String) (dir : Option String) (scope : BackupScope)
    (tenant_id tenant_slug : Option String) (now : DateTime) (db : Database b) :
    ∃ payloads, ((buildBackupService app_name app_version dir).inScope scope).mapM
        (BackupService.exportPayload scope tenant_id db) = .ok payloads ∧
      (buildBackupService app_name app_version dir).runExport scope tenant_id tenant_slug now db =
        .ok (buildTarball ((buildBackupService app_name app_version dir : BackupService b).manifest
          scope tenant_slug now payloads) payloads) := by
  obtain ⟨payloads, hpayloads⟩ : ∃ payloads,
      ((buildBackupService app_name app_version dir).inScope scope).mapM
        (BackupService.exportPayload scope tenant_id db) = .ok payloads := by
    apply exists_mapM_ok
    intro c hc
    obtain ⟨e, he⟩ := exportAll_ok (contributor_cases hc) scope tenant_id db
    exact ⟨(c.contributor_id, e), bind_eq_ok.2 ⟨e, he, rfl⟩⟩
  exact ⟨payloads, hpayloads, bind_eq_ok.2 ⟨payloads, hpayloads, rfl⟩⟩

theorem dataName_injective (h : dataName cid = dataName cid') : cid = cid' := by
  have hcid := congrArg contributorOf h
  rw [contributorOf_dataName, contributorOf_dataName] at hcid
  exact Option.some.inj hcid

/-- The settings payload of a bundle has all settings of the scope, the secret ones among them. -/
theorem settings_member_iff {db : Database b} (manifest : BackupManifest)
    (h : ((buildBackupService app_name app_version dir).inScope scope).mapM
      (BackupService.exportPayload scope tenant_id db) = .ok payloads) (rows : List Dict) :
    ⟨dataName "settings", some (.rows rows)⟩ ∈ otherMembers (buildTarball manifest payloads) ↔
      rows = (selectSettings scope tenant_id db).map rowToDict := by
  let svc : BackupService b := buildBackupService app_name app_version dir
  have hsettings : settingsContributor ∈ svc.inScope scope := by
    rw [BackupService.inScope, List.mem_filter, buildBackupService_rows]
    refine ⟨List.mem_append_left _ (by simp [builtinContributors]), ?_⟩
    cases scope with
    | platform => rfl
    | tenant => rfl
  rw [buildTarball, otherMembers, List.mem_filter, List.mem_cons, List.mem_flatMap]
  constructor
  · rintro ⟨hmem | ⟨p, hp, hmem⟩, -⟩
    · have hne : dataName "settings" ≠ manifestName := by decide +kernel
      exact (hne (congrArg Member.name hmem)).elim
    · obtain ⟨c, hc, hpayload⟩ := (mem_of_mapM_ok h).1 hp
      obtain ⟨e, he, hpe⟩ := bind_eq_ok.1 hpayload
      cases hpe
      rcases List.mem_cons.1 hmem with hdata | hfile
      · injection hdata with hname hrows
        have hid : (settingsContributor : Contributor b).contributor_id = c.contributor_id :=
          dataName_injective hname
        obtain rfl : settingsContributor = c :=
          KeyedTable.eq_of_mem (List.mem_filter.1 hsettings).1 (List.mem_filter.1 hc).1 hid
        cases he
        injection hrows with hrows
        injection hrows
      · obtain ⟨f, -, hf⟩ := List.mem_map.1 hfile
        have hname := congrArg (fun mem => contributorOf mem.name) hf
        simp only [contributorOf_fileName, contributorOf_dataName, reduceCtorEq] at hname
  · rintro rfl
    have hpayload : ("settings", { rows := (selectSettings scope tenant_id db).map rowToDict }) ∈
        payloads := (mem_of_mapM_ok h).2 ⟨_, hsettings, rfl⟩
    have hne : dataName "settings" ≠ dataName "secrets" := by decide +kernel
    exact ⟨.inr ⟨_, hpayload, List.mem_cons_self⟩, decide_eq_true hne⟩

/-- The bundles of two stores that differ in the values of secret keys are the same without the
payload of secrets exactly when the secret settings of the scope have the same values. -/
theorem secrets_apart_iff (h : DifferInSecrets db₁ db₂) (app_name app_version : String)
    (dir : Option String) (scope : BackupScope) (tenant_id tenant_slug : Option String)
    (now : DateTime) :
    SecretsApart (buildBackupService app_name app_version dir) scope tenant_id tenant_slug now
      db₁ db₂ ↔ SameSecrets scope tenant_id db₁ db₂ := by
  obtain ⟨p₁, hp₁, hrun₁⟩ :=
    runExport_ok app_name app_version dir scope tenant_id tenant_slug now db₁
  obtain ⟨p₂, hp₂, hrun₂⟩ :=
    runExport_ok app_name app_version dir scope tenant_id tenant_slug now db₂
  constructor
  · intro hapart r₁ h₁ r₂ h₂ hid _
    rw [SecretsApart, hrun₁, hrun₂] at hapart
    have hmembers := Except.ok.inj hapart
    have hrows : (selectSettings scope tenant_id db₁).map rowToDict =
        (selectSettings scope tenant_id db₂).map rowToDict := by
      apply (settings_member_iff _ hp₂ _).1
      rw [← hmembers]
      exact (settings_member_iff _ hp₁ _).2 rfl
    have hmem : rowToDict r₁ ∈ (selectSettings scope tenant_id db₂).map rowToDict :=
      hrows ▸ List.mem_map_of_mem h₁
    obtain ⟨r, hr, heq⟩ := List.mem_map.1 hmem
    have hcell : ∀ c ∈ Model.setting.columns, c.type ≠ .dateTime →
        r.get c.name = r₁.get c.name := by
      intro c hc ht
      have hget := congrArg (fun row : Dict => row.get c.name) heq
      simp only [rowToDict_get] at hget
      rwa [serialise_get r hc ht, serialise_get r₁ hc ht] at hget
    have hrid : r.id = r₂.id := (hcell (.uuid "id") (by decide) (by decide)).trans hid
    rw [selectSettings_eq] at hr h₂
    obtain rfl : r = r₂ := KeyedTable.eq_of_mem (t := db₂.table .setting)
      (List.mem_filter.1 hr).1 (List.mem_filter.1 h₂).1 hrid
    exact (hcell (.required "value_json" .text) (by decide) (by decide)).symm
  · intro hsame
    have hselect := hsame.selectSettings_eq h
    have hpayloads : p₁ = p₂ := by
      have hmap : ((buildBackupService app_name app_version dir).inScope scope).mapM
          (BackupService.exportPayload scope tenant_id db₁) = .ok p₂ := by
        apply mapM_ok_congr hp₂
        intro c hc
        rw [BackupService.exportPayload, exportAll_congr (contributor_cases hc) h hselect]
        rfl
      exact Except.ok.inj (hp₁.symm.trans hmap)
    rw [SecretsApart, hrun₁, hrun₂, hpayloads]

end

/-- Stores that differ in the values of secret keys only have the same bundles but for the payload
of secrets. -/
def SecretsTravelApart (b : Backend) : Prop :=
  ∀ app_name app_version dir scope tenant_id tenant_slug now (db₁ db₂ : Database b),
    DifferInSecrets db₁ db₂ → SecretsApart (buildBackupService app_name app_version dir) scope
      tenant_id tenant_slug now db₁ db₂

def apiKeySetting (value : String) : Row .sqlite .setting :=
  ⟨[("id", .str "key"), ("scope", .str "global"), ("scope_id", .none),
    ("key", .str "openai_api_key"), ("value_json", .str value), ("updated_by", .none),
    ("created_at", .datetime newYear), ("updated_at", .datetime newYear)], rfl⟩

def apiKeyData (value : String) : Database .sqlite := noData.put (apiKeySetting value)

theorem apiKeyData_differ : DifferInSecrets (apiKeyData "1") (apiKeyData "2") where
  tables _ hm := (Function.update_of_ne hm ..).trans (Function.update_of_ne hm ..).symm
  files := rfl
  settings := .cons (by decide +kernel) .nil

theorem secrets_apart_iff_key : SecretsApart (buildBackupService "app" "1.0" none) .tenant none
      none newYear (apiKeyData "1") (apiKeyData "2") ↔
    SameSecrets .tenant none (apiKeyData "1") (apiKeyData "2") :=
  secrets_apart_iff apiKeyData_differ ..

def Member.values (mem : Member) : List Val :=
  match mem.content with
  | some (.rows rows) => rows.map fun row => row.get "value_json"
  | _ => []

/-- The settings payload carries the secret too. -/
theorem secret_in_settings : ¬ SecretsTravelApart .sqlite := by
  intro h
  have hapart := h "app" "1.0" none .platform none none newYear (apiKeyData "1") (apiKeyData "2")
    apiKeyData_differ
  have hvalues := congrArg
    (fun r => (Except.toOption r).map fun mems => mems.map Member.values) hapart
  revert hvalues
  decide +kernel

end ScottyCore
