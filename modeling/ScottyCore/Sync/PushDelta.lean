import ScottyCore.Backup.Builtins
import ScottyCore.Lib.Raise
import ScottyCore.Sync.Engine

namespace ScottyCore
open Python
set_option autoImplicit true

variable {b : Backend} {m : Model}

/-! ## The rows that a platform bundle is to carry -/

/-- The columns that say when a row was created or changed. -/
def Model.stampColumns : Model → List String
  | .user | .tenant | .setting | .item => ["created_at", "updated_at"]
  | .userTenantRole => ["assigned_at"]
  | .auditLog => ["timestamp"]
  | .role => []

/-- The row was created or changed at or after a moment. Without one every row counts. -/
def touchedSince (r : Row b m) : Option DateTime → Bool
  | none => true
  | some t => m.stampColumns.any fun c =>
      match r.get c with
      | .datetime d => t.instant ≤ d.instant
      | _ => false

/-- A bundle carries a row in the payload of its contributor. -/
def BundleCarries (bundle : Bytes) (r : Row b m) : Prop :=
  ∃ manifest data cid tag rows, extractBundle bundle = .ok (manifest, data) ∧
    platformPayload m = some (cid, tag) ∧ (cid, rows) ∈ data.rows ∧ exportedRow tag r ∈ rows

/-- The platform rows created or changed since a moment. -/
def PendingRow (db : Database b) (since : Option DateTime) (r : Row b m) : Prop :=
  r ∈ db.select m ∧ platformRow r = true ∧ touchedSince r since = true

/-! ## Exports -/

/-- `AuditLog` has no `created_at`: its delta raises for every cursor. -/
theorem auditLog_delta_error (tenant_id : Option String) (t : DateTime) (excl : List String)
    (scope : BackupScope) (db : Database b) :
    BackupService.deltaPayload scope tenant_id (some t) excl db auditLogContributor =
      .error (.python (.attributeError "type object 'AuditLog' has no attribute 'created_at'")) :=
  rfl

theorem auditLog_inScope (app_name app_version : String) (dir : Option String) :
    auditLogContributor ∈
      (buildBackupService app_name app_version dir : BackupService b).inScope .platform := by
  rw [BackupService.inScope, List.mem_filter, buildBackupService_rows]
  exact ⟨List.mem_append_left _ (by simp [builtinContributors]), rfl⟩

theorem exportPlatformDelta_error (app_name app_version : String) (dir : Option String)
    (t : DateTime) (excl : List String) (user_id ip : String) (now : DateTime) (db : Database b) :
    ∃ e, (buildBackupService app_name app_version dir).exportPlatformDelta (some t) excl user_id
      ip now db = .error e := by
  obtain ⟨e, he⟩ := mapM_error_of_mem (auditLog_inScope (b := b) app_name app_version dir)
    (auditLog_delta_error none t excl .platform db)
  exact ⟨e, by rw [BackupService.exportPlatformDelta, BackupService.runDeltaExport, he]; rfl⟩

/-! ## The first push -/

theorem deltaPayload_ok {c : Contributor b}
    (h : c ∈ builtinContributors ∨ ∃ base n, c = filesContributor base n) (excl : List String)
    (db : Database b) :
    ∃ e, BackupService.deltaPayload .platform none none excl db c = .ok (c.contributor_id, e) := by
  rcases h with h | ⟨base, n, rfl⟩
  · simp only [builtinContributors, List.mem_cons, List.not_mem_nil, or_false] at h
    rcases h with rfl | rfl | rfl | rfl | rfl | rfl
    · exact ⟨_, rfl⟩
    · exact ⟨_, rfl⟩
    · exact ⟨_, rfl⟩
    · obtain ⟨kept, hkept⟩ := keepSecrets_ok (selectSettings .platform none db)
        fun r _ => setting_key r
      refine ⟨{ rows := kept.map rowToDict }, ?_⟩
      simp only [BackupService.deltaPayload, secretsContributor, hkept, bind, Except.bind]
    · exact ⟨_, rfl⟩
    · exact ⟨_, rfl⟩
  · exact ⟨_, rfl⟩

theorem exporter_of_pending {r : Row b m} {db : Database b} (excl : List String)
    (h : PendingRow db none r) :
    ∃ c : Contributor b, c ∈ builtinContributors ∧ .platform ∈ c.scopes ∧
      ∃ tag e, platformPayload m = some (c.contributor_id, tag) ∧
        BackupService.deltaPayload .platform none none excl db c = .ok (c.contributor_id, e) ∧
        exportedRow tag r ∈ e.rows := by
  obtain ⟨hr, hplat, _⟩ := h
  cases m with
  | user =>
    refine ⟨usersContributor, by simp [builtinContributors], List.mem_cons_self, _, _, rfl, rfl,
      ?_⟩
    exact List.mem_append_left _ (List.mem_map_of_mem hr)
  | userTenantRole =>
    refine ⟨usersContributor, by simp [builtinContributors], List.mem_cons_self, _, _, rfl, rfl,
      ?_⟩
    exact List.mem_append_right _ (List.mem_map_of_mem hr)
  | tenant =>
    refine ⟨tenantsContributor, by simp [builtinContributors], List.mem_cons_self, _, _, rfl, rfl,
      ?_⟩
    exact List.mem_append_left _ (List.mem_map_of_mem hr)
  | role =>
    refine ⟨tenantsContributor, by simp [builtinContributors], List.mem_cons_self, _, _, rfl, rfl,
      ?_⟩
    exact List.mem_append_right _ (List.mem_map_of_mem hr)
  | setting =>
    refine ⟨settingsContributor, by simp [builtinContributors], List.mem_cons_self, _, _, rfl, rfl,
      ?_⟩
    have hscope : r.get "scope" = .str "global" := by
      simpa [platformRow, platformPayload] using hplat
    exact List.mem_map_of_mem (List.mem_filter.2 ⟨hr, decide_eq_true hscope⟩)
  | auditLog =>
    refine ⟨auditLogContributor, by simp [builtinContributors], List.mem_cons_self, _, _, rfl, rfl,
      ?_⟩
    exact List.mem_map_of_mem hr
  | item => cases hplat

theorem runDeltaExport_first (app_name app_version : String) (dir : Option String)
    (excl : List String) (now : DateTime) (db : Database b) :
    ∃ bundle, (buildBackupService app_name app_version dir).runDeltaExport .platform none none none
        excl now db = .ok bundle ∧
      ∀ m (r : Row b m), PendingRow db none r → BundleCarries bundle r := by
  let svc : BackupService b := buildBackupService app_name app_version dir
  have hreg : ∀ c ∈ svc.inScope .platform,
      ∃ e, BackupService.deltaPayload .platform none none excl db c =
        .ok (c.contributor_id, e) := by
    intro c hc
    have hc' := (List.mem_filter.1 hc).1
    rw [buildBackupService_rows, List.mem_append] at hc'
    exact deltaPayload_ok (hc'.imp_right mem_uploadContributors) excl db
  obtain ⟨export_of, hexport⟩ : ∃ g : Contributor b → ContributorExport,
      ∀ c ∈ svc.inScope .platform,
        BackupService.deltaPayload .platform none none excl db c = .ok (c.contributor_id, g c) := by
    choose! g hg using hreg
    exact ⟨g, hg⟩
  let payloads := (svc.inScope .platform).map fun c => (c.contributor_id, export_of c)
  have hpayloads : (svc.inScope .platform).mapM
      (BackupService.deltaPayload .platform none none excl db) = .ok payloads :=
    mapM_ok_of_forall hexport
  have hnodup : (payloads.map Prod.fst).Nodup := by
    have hids := svc.contributors.nodup
    rw [List.map_map]
    exact hids.sublist (List.filter_sublist.map _)
  obtain ⟨data, hdata, hrows⟩ := extractBundle_buildTarball
    (svc.manifest .platform none now payloads) hnodup
  refine ⟨_, by rw [BackupService.runDeltaExport, hpayloads]; rfl, ?_⟩
  intro m r hr
  obtain ⟨c, hc, hscope, tag, e, hpayload, he, hmem⟩ := exporter_of_pending excl hr
  have hin : c ∈ svc.inScope .platform := by
    rw [BackupService.inScope, List.mem_filter, buildBackupService_rows]
    exact ⟨List.mem_append_left _ hc, decide_eq_true hscope⟩
  have hexp : export_of c = e := by
    have heq := (hexport c hin).symm.trans he
    simp only [Except.ok.injEq, Prod.mk.injEq, true_and] at heq
    exact heq
  refine ⟨_, data, c.contributor_id, tag, e.rows, hdata, hpayload, ?_, hmem⟩
  rw [hrows, List.map_map, List.mem_map]
  exact ⟨c, hin, by rw [Function.comp_apply, hexp]⟩

/-! ## Every push -/

def MeshSyncEngine.standard (local_node : PlatformNode) (app_name app_version : String)
    (uploads_base_dir : Option String) (decrypt_their_key : String → Option String) :
    MeshSyncEngine b :=
  ⟨local_node, buildBackupService app_name app_version uploads_base_dir, decrypt_their_key⟩

theorem sinceOf_some (h : sinceOf (some t) = .ok since) : ∃ t', since = some t' := by
  rw [sinceOf] at h
  generalize Exc.ofPython (t.add (-clockSkewToleranceS * 1000000)) = r at h
  cases r with
  | error e => cases h
  | ok t' => cases h; exact ⟨t', rfl⟩

theorem exportPushDelta_later (node : PlatformNode) (app_name app_version : String)
    (dir : Option String) (decrypt : String → Option String) {peer : SyncPeer} (now : DateTime)
    (db : Database b) (h : peer.last_pushed_ts = some t) :
    ∃ e, (MeshSyncEngine.standard node app_name app_version dir decrypt).exportPushDelta peer now
      db = .error e := by
  rw [MeshSyncEngine.exportPushDelta, h]
  cases hs : sinceOf (some t) with
  | error e => exact ⟨e, rfl⟩
  | ok since =>
    obtain ⟨t', rfl⟩ := sinceOf_some hs
    exact exportPlatformDelta_error app_name app_version dir t' _ _ _ now db

/-- After a first push no later push carries anything. -/
theorem buildPushBundle_later (node : PlatformNode) (app_name app_version : String)
    (dir : Option String) (decrypt : String → Option String) {peer : SyncPeer} (now : DateTime)
    (inst : Installation b) (h : peer.last_pushed_ts = some t) :
    ((MeshSyncEngine.standard node app_name app_version dir decrypt).buildPushBundle peer now
      inst).1 = .empty := by
  obtain ⟨e, he⟩ := exportPushDelta_later node app_name app_version dir decrypt now inst.db h
  rw [MeshSyncEngine.buildPushBundle, he]

theorem buildPushBundle_first (node : PlatformNode) (app_name app_version : String)
    (dir : Option String) (decrypt : String → Option String) {peer : SyncPeer} (now : DateTime)
    (inst : Installation b) (h : peer.last_pushed_ts = none) (r : Row b m)
    (hr : PendingRow inst.db none r) :
    BundleCarries ((MeshSyncEngine.standard node app_name app_version dir decrypt).buildPushBundle
      peer now inst).1 r := by
  obtain ⟨bundle, hrun, hcarries⟩ := runDeltaExport_first app_name app_version dir [node.id] now
    inst.db
  obtain ⟨db, hexport⟩ : ∃ db, (MeshSyncEngine.standard node app_name app_version dir
      decrypt).exportPushDelta peer now inst.db = .ok (bundle, db) := by
    simp only [MeshSyncEngine.exportPushDelta, MeshSyncEngine.standard, h, sinceOf,
      BackupService.exportPlatformDelta, bind, Except.bind, hrun]
    exact ⟨_, rfl⟩
  rw [MeshSyncEngine.buildPushBundle, hexport]
  exact hcarries m r hr

/-- A push bundle is complete: it carries every platform row that is pending since the last
push, and it is not empty while there is one. -/
def PushComplete (bundle : Bytes) (db : Database b) (last_pushed_ts : Option DateTime) : Prop :=
  (∀ m (r : Row b m), PendingRow db last_pushed_ts r → BundleCarries bundle r) ∧
    ((∃ (m : Model) (r : Row b m), PendingRow db last_pushed_ts r) → bundle ≠ .empty)

theorem not_bundleCarries_empty (r : Row b m) : ¬ BundleCarries .empty r := by
  rintro ⟨_, _, _, _, _, h, _⟩
  cases h

theorem pushComplete_of_carries {bundle : Bytes} {db : Database b}
    (h : ∀ m (r : Row b m), PendingRow db ts r → BundleCarries bundle r) :
    PushComplete bundle db ts := by
  refine ⟨h, ?_⟩
  rintro ⟨m, r, hr⟩ he
  exact not_bundleCarries_empty r (he ▸ h m r hr)

/-- The push delta is complete exactly on the first push, or when nothing is pending. -/
theorem pushDelta_complete_iff (node : PlatformNode) (app_name app_version : String)
    (dir : Option String) (decrypt : String → Option String) (peer : SyncPeer) (now : DateTime)
    (inst : Installation b) :
    PushComplete ((MeshSyncEngine.standard node app_name app_version dir decrypt).buildPushBundle
        peer now inst).1 inst.db peer.last_pushed_ts ↔
      peer.last_pushed_ts = none ∨
        ¬ ∃ (m : Model) (r : Row b m), PendingRow inst.db peer.last_pushed_ts r := by
  constructor
  · intro h
    cases ht : peer.last_pushed_ts with
    | none => exact .inl rfl
    | some t =>
      right
      intro hpending
      have hempty := buildPushBundle_later node app_name app_version dir decrypt now inst ht
      exact h.2 (by rwa [ht]) hempty
  · rintro (h | h)
    · apply pushComplete_of_carries
      intro m r hr
      rw [h] at hr
      exact buildPushBundle_first node app_name app_version dir decrypt now inst h r hr
    · exact pushComplete_of_carries fun m r hr => (h ⟨m, r, hr⟩).elim

/-! ## A push that misses a row -/

def morning : { d : DateTime // Backend.sqlite.native d = true } :=
  ⟨⟨2024, 6, 1, 9, 0, 0, 0, none, by decide⟩, by decide⟩

def noon : { d : DateTime // Backend.sqlite.native d = true } :=
  ⟨⟨2024, 6, 1, 12, 0, 0, 0, none, by decide⟩, by decide⟩

def evening : { d : DateTime // Backend.sqlite.native d = true } :=
  ⟨⟨2024, 6, 1, 18, 0, 0, 0, none, by decide⟩, by decide⟩

def alice (display_name : String)
    (updated_at : { d : DateTime // Backend.sqlite.native d = true }) :
    Row .sqlite .user :=
  ⟨[("id", .str "alice"), ("email", .str "alice@example.org"), ("password_hash", .str "hash"),
    ("display_name", .str display_name), ("is_active", .bool true),
    ("is_superadmin", .bool false), ("last_login", .none), ("totp_secret", .none),
    ("totp_enabled", .bool false), ("backup_codes", .none),
    ("must_change_password", .bool false), ("session_version", .int 0),
    ("created_at", .datetime noon), ("updated_at", .datetime updated_at)],
    by simp [fits, Model.columns, Column.holds, timestampMixin, Column.uuid, Column.required,
        Column.withDefault, Column.optional, Column.serverNow, Column.updatedAt, noon.property,
        updated_at.property]⟩

def installationOf (r : Row .sqlite m) : Installation .sqlite :=
  ⟨(Database.empty noon fun n => toString n).put r, ∅, ∅, [], ∅⟩

def freshPeer : SyncPeer :=
  ⟨"peer", "https://peer.example.org", some "key", true, "full", none, none, none, 0⟩

def pushedPeer : SyncPeer := { freshPeer with last_pushed_ts := some noon }

/-- A user changed at the moment of the last push is not pushed. -/
theorem pushDelta_incomplete :
    ¬ PushComplete
      ((MeshSyncEngine.standard ⟨singletonId, "node"⟩ "app" "1.0" none some).buildPushBundle
        pushedPeer noon (installationOf (alice "Alice" noon))).1
      (installationOf (alice "Alice" noon)).db pushedPeer.last_pushed_ts := by
  intro h
  have hpending : PendingRow (installationOf (alice "Alice" noon)).db pushedPeer.last_pushed_ts
      (alice "Alice" noon) :=
    ⟨KeyedTable.mem_of_find (Database.find_put_self _ _), by decide, by decide⟩
  exact h.2 ⟨_, _, hpending⟩ (buildPushBundle_later _ _ _ _ _ _ _ rfl)

end ScottyCore
