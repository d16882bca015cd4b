import ScottyCore.Backup.Isolation
import ScottyCore.Sync.PushDelta
import ScottyCore.Sync.Slot

namespace ScottyCore
open Python MeshSyncEngine
set_option autoImplicit true

variable {b : Backend} {m : Model}

/-! ## Subscriptions -/

structure SyncTenantSubscription where
  id : String
  peer_id : String
  tenant_id : String
  direction : String
  deriving DecidableEq

def listTenantSubs (peer_id : String) (subs : List SyncTenantSubscription) :
    List SyncTenantSubscription :=
  subs.filter fun sub => sub.peer_id = peer_id

/-- A peer is to get what belongs to a tenant. -/
def SubscribedOut (subs : List SyncTenantSubscription) (peer_id tenant_id : String) : Prop :=
  ∃ sub ∈ listTenantSubs peer_id subs, sub.tenant_id = tenant_id ∧
    (sub.direction = "out" ∨ sub.direction = "both")

instance (subs : List SyncTenantSubscription) (peer_id tenant_id : String) :
    Decidable (SubscribedOut subs peer_id tenant_id) :=
  inferInstanceAs (Decidable (∃ sub ∈ listTenantSubs peer_id subs, _))

/-! ## Whose a row is -/

/-- The tenant that cells belong to, or nothing where they are platform-wide. -/
def Model.tenantOfCells (m : Model) (get : String → Val) : Val :=
  match m with
  | .tenant => get "id"
  | .userTenantRole | .item | .auditLog => get "tenant_id"
  | .setting => if get "scope" = .str "tenant" then get "scope_id" else .none
  | .user | .role => .none

/-- The tenant that a row of a payload belongs to. -/
def tenantOfPayloadRow (cid : String) (row : Dict) : Val :=
  match route cid row with
  | .ok (some m) => m.tenantOfCells row.get
  | _ => .none

/-- A file below the directory of a tenant's slug belongs to the tenant. -/
def FileOfTenant (db : Database b) (rel tenant_id : String) : Prop :=
  ∃ r ∈ db.select .tenant, r.id = .str tenant_id ∧
    ∃ slug, r.get "slug" = .str slug ∧ ownedFile (some r.id) slug (splitPath rel) = true

/-- A bundle carries an uploaded file. -/
def CarriesFile (bundle : Bytes) (rel : String) : Prop :=
  ∃ members raw, bundle = .tarGz members ∧ ⟨fileName "files" rel, some (.raw raw)⟩ ∈ members

/-- What a bundle carries is for the peer: in `selected` mode nothing of a tenant without a
subscription, in `tenants_only` mode nothing that is not a tenant's. -/
structure Confined (peer : SyncPeer) (subs : List SyncTenantSubscription) (db : Database b)
    (bundle : Bytes) : Prop where
  selected : peer.sync_mode = "selected" →
    (∀ cid rows row tenant_id, (cid, rows) ∈ payloadsOf bundle → row ∈ rows →
      tenantOfPayloadRow cid row = .str tenant_id → SubscribedOut subs peer.id tenant_id) ∧
    ∀ rel tenant_id, CarriesFile bundle rel → FileOfTenant db rel tenant_id →
      SubscribedOut subs peer.id tenant_id
  tenantsOnly : peer.sync_mode = "tenants_only" →
    (∀ cid rows row, (cid, rows) ∈ payloadsOf bundle → row ∈ rows →
      ∃ tenant_id, tenantOfPayloadRow cid row = .str tenant_id) ∧
    ∀ rel, CarriesFile bundle rel → ∃ tenant_id, FileOfTenant db rel tenant_id

/-- Every tenant of a store has a subscription. -/
structure Subscribed (subs : List SyncTenantSubscription) (peer_id : String) (db : Database b) :
    Prop where
  tenants : ∀ r ∈ db.select .tenant, ∀ t, r.id = .str t → SubscribedOut subs peer_id t
  assignments : ∀ r ∈ db.select .userTenantRole, ∀ t, r.get "tenant_id" = .str t →
    SubscribedOut subs peer_id t
  audit : ∀ r ∈ db.select .auditLog, ∀ t, r.get "tenant_id" = .str t →
    SubscribedOut subs peer_id t

/-- A store has nothing to push that is not a tenant's. -/
structure Tenanted (uploads_base_dir : Option String) (db : Database b) : Prop where
  users : db.select .user = []
  roles : db.select .role = []
  settings : ∀ r ∈ db.select .setting, r.get "scope" ≠ .str "global"
  audit : ∀ r ∈ db.select .auditLog, ∃ t, r.get "tenant_id" = .str t
  files : uploads_base_dir.filter (· ≠ "") ≠ none → ∀ f ∈ db.uploads.rows,
    f.2.length ≤ maxBytesPerFile → ∃ t, FileOfTenant db (String.intercalate "/" f.1) t

/-! ## Rows in payloads -/

/-- A row as a payload carries it belongs to the same tenant. -/
theorem tenantOfCells_exported (r : Row b m) {get : String → Val}
    (h : ∀ name, name ≠ "_table" → get name = serialise (r.get name)) :
    m.tenantOfCells get = m.tenantOfCells r.get := by
  cases m with
  | setting =>
    have hscope : serialise (r.get "scope") = r.get "scope" :=
      serialise_get r (c := .required "scope" .string) (by decide) (by decide)
    have hid : serialise (r.get "scope_id") = r.get "scope_id" :=
      serialise_get r (c := .optional "scope_id" .string) (by decide) (by decide)
    rw [Model.tenantOfCells, Model.tenantOfCells, h "scope" (by decide), h "scope_id" (by decide),
      hscope, hid]
  | tenant =>
    exact (h "id" (by decide)).trans (serialise_get r (c := .uuid "id") (by decide) (by decide))
  | userTenantRole =>
    exact (h "tenant_id" (by decide)).trans
      (serialise_get r (c := .required "tenant_id" .string) (by decide) (by decide))
  | item =>
    exact (h "tenant_id" (by decide)).trans
      (serialise_get r (c := .required "tenant_id" .string) (by decide) (by decide))
  | auditLog =>
    exact (h "tenant_id" (by decide)).trans
      (serialise_get r (c := .optional "tenant_id" .string) (by decide) (by decide))
  | user => rfl
  | role => rfl

theorem tenantOfPayloadRow_exported (r : Row b m) (h : platformPayload m = some (cid, tag)) :
    tenantOfPayloadRow cid (exportedRow tag r) = m.tenantOfCells r.get := by
  have htagged : ∀ table, m.tenantOfCells (withTag table (rowToDict r)).get =
      m.tenantOfCells r.get := fun table =>
    tenantOfCells_exported r fun name hname => (withTag_get table _ hname).trans (rowToDict_get r name)
  have huntagged : m.tenantOfCells (rowToDict r).get = m.tenantOfCells r.get :=
    tenantOfCells_exported r fun name _ => rowToDict_get r name
  cases m with
  | tenant => cases h; exact htagged "tenants"
  | role => cases h; exact htagged "roles"
  | user => cases h; exact htagged "users"
  | userTenantRole => cases h; exact htagged "user_tenant_roles"
  | setting => cases h; exact huntagged
  | auditLog => cases h; exact huntagged
  | item => cases h

theorem tenantOfCells_global {r : Row b .setting} (h : r.get "scope" = .str "global") :
    Model.setting.tenantOfCells r.get = .none := by
  rw [Model.tenantOfCells, h, if_neg (by decide)]

/-- The secrets of the platform belong to no tenant. -/
theorem tenantOfPayloadRow_secret {r : Row b .setting} (h : r.get "scope" = .str "global") :
    tenantOfPayloadRow "secrets" (rowToDict r) = .none := by
  have hcells : Model.setting.tenantOfCells (rowToDict r).get = .none :=
    (tenantOfCells_exported r fun name _ => rowToDict_get r name).trans (tenantOfCells_global h)
  have hroute : route "secrets" (rowToDict r) = (isSecret ((rowToDict r).getD "key" (.str ""))).map
      fun s => if s then some .setting else none := rfl
  rw [tenantOfPayloadRow, hroute]
  cases isSecret ((rowToDict r).getD "key" (.str "")) with
  | error e => rfl
  | ok secret =>
    cases secret with
    | false => rfl
    | true => exact hcells

/-! ## The first push -/

/-- A platform export since a moment is to carry a row under a contributor: that of the row's
table, and for a secret a second one. -/
def PlatformExport (db : Database b) (since : Option DateTime) (cid : String) (row : Dict) : Prop :=
  (∃ (m : Model) (r : Row b m) (tag : Option String), PendingRow db since r ∧
    platformPayload m = some (cid, tag) ∧ row = exportedRow tag r) ∨
  (cid = "secrets" ∧ ∃ r : Row b .setting, PendingRow db since r ∧
    isSecret (r.get "key") = .ok true ∧ row = rowToDict r)

/-- What the first delta of a contributor carries. -/
theorem platformExport_of_delta {c : Contributor b}
    (hc : c ∈ builtinContributors ∨ ∃ base n, c = filesContributor base n)
    (hscope : .platform ∈ c.scopes)
    (h : BackupService.deltaPayload .platform none none excl db c = .ok (cid, e))
    (hrow : row ∈ e.rows) : PlatformExport db none cid row := by
  rcases hc with hc | ⟨base, n, rfl⟩
  · simp only [builtinContributors, List.mem_cons, List.not_mem_nil, or_false] at hc
    rcases hc with rfl | rfl | rfl | rfl | rfl | rfl
    · cases h
      rcases List.mem_append.1 hrow with hrow | hrow
      · obtain ⟨r, hr, rfl⟩ := List.mem_map.1 hrow
        exact .inl ⟨.tenant, r, _, ⟨hr, rfl, rfl⟩, rfl, rfl⟩
      · obtain ⟨r, hr, rfl⟩ := List.mem_map.1 hrow
        exact .inl ⟨.role, r, _, ⟨hr, rfl, rfl⟩, rfl, rfl⟩
    · cases h
      rcases List.mem_append.1 hrow with hrow | hrow
      · obtain ⟨r, hr, rfl⟩ := List.mem_map.1 hrow
        exact .inl ⟨.user, r, _, ⟨hr, rfl, rfl⟩, rfl, rfl⟩
      · obtain ⟨r, hr, rfl⟩ := List.mem_map.1 hrow
        exact .inl ⟨.userTenantRole, r, _, ⟨hr, rfl, rfl⟩, rfl, rfl⟩
    · cases h
      obtain ⟨r, hr, rfl⟩ := List.mem_map.1 hrow
      obtain ⟨hr, hglobal⟩ := List.mem_filter.1 hr
      exact .inl ⟨.setting, r, _, ⟨hr, hglobal, rfl⟩, rfl, rfl⟩
    · obtain ⟨_, hexport, h⟩ := bind_eq_ok.1 h
      obtain ⟨kept, hkept, hexport⟩ := bind_eq_ok.1 hexport
      cases hexport
      cases h
      obtain ⟨r, hr, rfl⟩ := List.mem_map.1 hrow
      obtain ⟨hr, hsecret⟩ := (mem_keepSecrets_iff hkept).1 hr
      obtain ⟨hr, hglobal⟩ := List.mem_filter.1 hr
      exact .inr ⟨rfl, r, ⟨hr, hglobal, rfl⟩, hsecret, rfl⟩
    · cases List.mem_singleton.1 hscope
    · cases h
      obtain ⟨r, hr, rfl⟩ := List.mem_map.1 hrow
      exact .inl ⟨.auditLog, r, _, ⟨hr, rfl, rfl⟩, rfl, rfl⟩
  · cases h
    cases hrow

theorem row_of_deltaPayload {c : Contributor b}
    (hc : c ∈ builtinContributors ∨ ∃ base n, c = filesContributor base n)
    (hscope : .platform ∈ c.scopes)
    (h : BackupService.deltaPayload .platform none none excl db c = .ok (cid, e))
    (hrow : row ∈ e.rows) :
    ∃ (m : Model) (r : Row b m), r ∈ db.select m ∧ platformRow r = true ∧
      tenantOfPayloadRow cid row = m.tenantOfCells r.get := by
  rcases platformExport_of_delta hc hscope h hrow with
    ⟨m, r, tag, ⟨hr, hplat, _⟩, hpayload, rfl⟩ | ⟨rfl, r, ⟨hr, hplat, _⟩, _, rfl⟩
  · exact ⟨m, r, hr, hplat, tenantOfPayloadRow_exported r hpayload⟩
  · have hglobal : r.get "scope" = .str "global" := by
      simpa [platformRow, platformPayload] using hplat
    refine ⟨.setting, r, hr, hplat, ?_⟩
    exact (tenantOfPayloadRow_secret hglobal).trans (tenantOfCells_global hglobal).symm

theorem files_of_builtin {c : Contributor b} (hc : c ∈ builtinContributors)
    (h : BackupService.deltaPayload .platform none none excl db c = .ok (cid, e)) :
    e.files = [] := by
  simp only [builtinContributors, List.mem_cons, List.not_mem_nil, or_false] at hc
  rcases hc with rfl | rfl | rfl | rfl | rfl | rfl
  · cases h; rfl
  · cases h; rfl
  · cases h; rfl
  · obtain ⟨_, hexport, h⟩ := bind_eq_ok.1 h
    obtain ⟨kept, -, hexport⟩ := bind_eq_ok.1 hexport
    cases hexport
    cases h
    rfl
  · cases h; rfl
  · cases h; rfl

theorem files_of_filesContributor (base : List String) (max : Nat) (db : Database b)
    (h : BackupService.deltaPayload .platform none none excl db (filesContributor base max) =
      .ok (cid, e)) :
    (rel, raw) ∈ e.files ↔ ∃ f ∈ db.uploads.rows, f.2.length ≤ max ∧
      rel = String.intercalate "/" f.1 ∧ raw = f.2 := by
  cases h
  change (rel, raw) ∈ ((db.uploads.rows.filter _).mergeSort _).map _ ↔ _
  rw [List.mem_map]
  constructor
  · rintro ⟨f, hf, hpair⟩
    obtain ⟨hf, hsize⟩ := List.mem_filter.1 (List.mem_mergeSort.1 hf)
    rw [List.isPrefixOf_nil_left, Bool.true_and, decide_eq_true_eq] at hsize
    cases hpair
    exact ⟨f, hf, hsize, rfl, rfl⟩
  · rintro ⟨f, hf, hsize, rfl, rfl⟩
    refine ⟨f, List.mem_mergeSort.2 (List.mem_filter.2 ⟨hf, ?_⟩), rfl⟩
    rw [List.isPrefixOf_nil_left, Bool.true_and]
    exact decide_eq_true hsize

theorem deltaPayload_id {c : Contributor b}
    (h : BackupService.deltaPayload scope tenant_id since excl db c = .ok p) :
    p.1 = c.contributor_id := by
  rw [BackupService.deltaPayload] at h
  cases hd : c.exportDelta with
  | none =>
    rw [hd] at h
    obtain ⟨e, -, hp⟩ := bind_eq_ok.1 h
    cases hp
    rfl
  | some export_delta =>
    rw [hd] at h
    obtain ⟨e, -, hp⟩ := bind_eq_ok.1 h
    cases hp
    rfl

/-- What the first push of a peer exports. -/
theorem exportPushDelta_first (node : PlatformNode) (app_name app_version : String)
    (dir : Option String) (decrypt : String → Option String) {peer : SyncPeer} (now : DateTime)
    (db : Database b) (h : peer.last_pushed_ts = none) :
    ∃ manifest payloads db', (payloads.map Prod.fst).Nodup ∧
      (MeshSyncEngine.standard node app_name app_version dir decrypt).exportPushDelta peer now db =
        .ok (buildTarball manifest payloads, db') ∧
      ∀ p, p ∈ payloads ↔
        ∃ c ∈ (buildBackupService app_name app_version dir).inScope .platform,
          BackupService.deltaPayload .platform none none [node.id] db c = .ok p := by
  obtain ⟨bundle, hrun, -⟩ := runDeltaExport_first app_name app_version dir [node.id] now db
  obtain ⟨payloads, hpayloads, hbundle⟩ := bind_eq_ok.1 hrun
  have hids : payloads.map Prod.fst =
      ((buildBackupService app_name app_version dir).inScope .platform).map
        (Contributor.contributor_id (b := b)) := by
    apply map_of_mapM_ok hpayloads
    intro c p hp
    exact deltaPayload_id hp
  have hexport : ∃ db', (MeshSyncEngine.standard node app_name app_version dir
      decrypt).exportPushDelta peer now db = .ok (bundle, db') := by
    simp only [MeshSyncEngine.exportPushDelta, MeshSyncEngine.standard, h, sinceOf,
      BackupService.exportPlatformDelta, bind, Except.bind, hrun]
    exact ⟨_, rfl⟩
  obtain ⟨db', hexport⟩ := hexport
  cases hbundle
  exact ⟨_, payloads, db', hids ▸ inScope_nodup, hexport, fun p => mem_of_mapM_ok hpayloads⟩

theorem fileName_inj (h : fileName cid rel = fileName cid rel') : rel = rel' := by
  have hlist := congrArg String.toList h
  simp only [fileName, String.toList_append] at hlist
  exact String.toList_injective (List.append_cancel_left hlist)

section

variable {node : PlatformNode} {app_name app_version : String} {dir : Option String}
variable {decrypt : String → Option String} {peer : SyncPeer} {now : DateTime}
variable {inst : Installation b}

theorem registered_of_inScope {c : Contributor b}
    (h : c ∈ (buildBackupService app_name app_version dir).inScope .platform) :
    .platform ∈ c.scopes ∧ (c ∈ builtinContributors ∨
      (dir.filter (· ≠ "") ≠ none ∧ ∃ base, c = filesContributor base maxBytesPerFile)) := by
  obtain ⟨hc, hscope⟩ := List.mem_filter.1 h
  refine ⟨of_decide_eq_true hscope, ?_⟩
  rw [buildBackupService_rows, List.mem_append] at hc
  apply hc.imp_right
  intro hc
  rw [uploadContributors] at hc
  cases hdir : dir.filter (· ≠ "") with
  | none =>
    rw [hdir] at hc
    cases hc
  | some d =>
    rw [hdir] at hc
    exact ⟨nofun, _, List.mem_singleton.1 hc⟩

theorem filesContributor_inScope (hdir : dir.filter (· ≠ "") ≠ none) :
    ∃ base, filesContributor base maxBytesPerFile ∈
      (buildBackupService app_name app_version dir : BackupService b).inScope .platform := by
  obtain ⟨d, hd⟩ := Option.ne_none_iff_exists'.1 hdir
  refine ⟨resolveParts (splitPath d), List.mem_filter.2 ⟨?_, rfl⟩⟩
  rw [buildBackupService_rows, uploadContributors, hd]
  exact List.mem_append_right _ (List.mem_singleton_self _)

/-- The bundle of a first push, with what its payloads come from. -/
theorem pushBundle_first (h : peer.last_pushed_ts = none) : ∃ manifest payloads,
    (payloads.map Prod.fst).Nodup ∧
      ((MeshSyncEngine.standard node app_name app_version dir decrypt).buildPushBundle peer now
        inst).1 = buildTarball manifest payloads ∧
      ∀ p, p ∈ payloads ↔
        ∃ c ∈ (buildBackupService app_name app_version dir).inScope .platform,
          BackupService.deltaPayload .platform none none [node.id] inst.db c = .ok p := by
  obtain ⟨manifest, payloads, db', hnodup, hexport, hmem⟩ :=
    exportPushDelta_first node app_name app_version dir decrypt now inst.db h
  refine ⟨manifest, payloads, hnodup, ?_, hmem⟩
  rw [MeshSyncEngine.buildPushBundle, hexport]

theorem row_of_push (h : peer.last_pushed_ts = none)
    (hrows : (cid, rows) ∈ payloadsOf ((MeshSyncEngine.standard node app_name app_version dir
      decrypt).buildPushBundle peer now inst).1) (hrow : row ∈ rows) :
    ∃ (m : Model) (r : Row b m), r ∈ inst.db.select m ∧ platformRow r = true ∧
      tenantOfPayloadRow cid row = m.tenantOfCells r.get := by
  obtain ⟨manifest, payloads, hnodup, hbundle, hmem⟩ := pushBundle_first h
  rw [hbundle, payloadsOf_buildTarball manifest hnodup] at hrows
  obtain ⟨⟨cid', e⟩, hp, hpair⟩ := List.mem_map.1 hrows
  cases hpair
  obtain ⟨c, hc, hpayload⟩ := (hmem _).1 hp
  obtain ⟨hscope, hreg⟩ := registered_of_inScope hc
  exact row_of_deltaPayload (hreg.imp_right fun ⟨_, base, hbase⟩ => ⟨base, _, hbase⟩) hscope hpayload
    hrow

theorem push_of_row (node : PlatformNode) (app_name app_version : String) (dir : Option String)
    (decrypt : String → Option String) (now : DateTime) (h : peer.last_pushed_ts = none)
    {r : Row b m} (hr : r ∈ inst.db.select m) (hplat : platformRow r = true) :
    ∃ cid rows row, (cid, rows) ∈ payloadsOf ((MeshSyncEngine.standard node app_name app_version
      dir decrypt).buildPushBundle peer now inst).1 ∧ row ∈ rows ∧
        tenantOfPayloadRow cid row = m.tenantOfCells r.get := by
  obtain ⟨_, data, cid, tag, rows, hdata, hpayload, hrows, hmem⟩ :=
    buildPushBundle_first node app_name app_version dir decrypt now inst h r ⟨hr, hplat, rfl⟩
  refine ⟨cid, rows, _, ?_, hmem, tenantOfPayloadRow_exported r hpayload⟩
  rw [payloadsOf, hdata]
  exact hrows

theorem carriesFile_push_iff (h : peer.last_pushed_ts = none) :
    CarriesFile ((MeshSyncEngine.standard node app_name app_version dir decrypt).buildPushBundle
        peer now inst).1 rel ↔
      dir.filter (· ≠ "") ≠ none ∧ ∃ f ∈ inst.db.uploads.rows,
        f.2.length ≤ maxBytesPerFile ∧ rel = String.intercalate "/" f.1 := by
  obtain ⟨manifest, payloads, -, hbundle, hmem⟩ := pushBundle_first h
  rw [hbundle, buildTarball]
  constructor
  · rintro ⟨members, raw, hmembers, hfile⟩
    cases hmembers
    rcases List.mem_cons.1 hfile with hfile | hfile
    · cases (Member.mk.inj hfile).2
    obtain ⟨⟨cid, e⟩, hp, hfile⟩ := List.mem_flatMap.1 hfile
    rcases List.mem_cons.1 hfile with hfile | hfile
    · cases (Member.mk.inj hfile).2
    obtain ⟨⟨rel', raw'⟩, hf, hfile⟩ := List.mem_map.1 hfile
    obtain ⟨hname, hraw⟩ := Member.mk.inj hfile
    cases hraw
    obtain ⟨c, hc, hpayload⟩ := (hmem _).1 hp
    obtain ⟨-, hreg | ⟨hdir, base, rfl⟩⟩ := registered_of_inScope hc
    · rw [files_of_builtin hreg hpayload] at hf
      cases hf
    · have hcid : cid = "files" := deltaPayload_id hpayload
      subst hcid
      rw [← fileName_inj hname]
      obtain ⟨f, hf, hsize, hrel, -⟩ := (files_of_filesContributor base _ _ hpayload).1 hf
      exact ⟨hdir, f, hf, hsize, hrel⟩
  · rintro ⟨hdir, f, hf, hsize, rfl⟩
    obtain ⟨base, hc⟩ := @filesContributor_inScope b app_name app_version dir hdir
    have hpayload : ∃ e, BackupService.deltaPayload .platform none none [node.id] inst.db
        (filesContributor base maxBytesPerFile) = .ok ("files", e) := ⟨_, rfl⟩
    obtain ⟨e, he⟩ := hpayload
    have hfile := (files_of_filesContributor base _ _ he).2 ⟨f, hf, hsize, rfl, rfl⟩
    refine ⟨_, f.2, rfl, List.mem_cons_of_mem _ (List.mem_flatMap.2
      ⟨("files", e), (hmem _).2 ⟨_, hc, he⟩, List.mem_cons_of_mem _ (List.mem_map.2 ⟨_, hfile, rfl⟩)⟩)⟩

/-! ## Confinement -/

theorem confined_empty (peer : SyncPeer) (subs : List SyncTenantSubscription) (db : Database b) :
    Confined peer subs db .empty where
  selected _ := by
    constructor
    · intro cid rows row _ hrows
      cases hrows
    · rintro rel _ ⟨_, _, hempty, _⟩
      cases hempty
  tenantsOnly _ := by
    constructor
    · intro cid rows row hrows
      cases hrows
    · rintro rel ⟨_, _, hempty, _⟩
      cases hempty

theorem Subscribed.row {subs : List SyncTenantSubscription} {db : Database b} {r : Row b m}
    (h : Subscribed subs peer_id db) (hr : r ∈ db.select m) (hplat : platformRow r = true)
    (ht : m.tenantOfCells r.get = .str t) : SubscribedOut subs peer_id t := by
  cases m with
  | tenant => exact h.tenants r hr t ht
  | userTenantRole => exact h.assignments r hr t ht
  | auditLog => exact h.audit r hr t ht
  | setting =>
    have hscope : r.get "scope" = .str "global" := by
      simpa [platformRow, platformPayload] using hplat
    cases (tenantOfCells_global hscope).symm.trans ht
  | item => cases hplat
  | user => cases ht
  | role => cases ht

theorem Tenanted.row {dir : Option String} {db : Database b} {r : Row b m} (h : Tenanted dir db)
    (hr : r ∈ db.select m) (hplat : platformRow r = true) :
    ∃ t, m.tenantOfCells r.get = .str t := by
  cases m with
  | tenant => exact r.get_str (c := .uuid "id") (by decide) rfl rfl
  | userTenantRole => exact r.get_str (c := .required "tenant_id" .string) (by decide) rfl rfl
  | auditLog => exact h.audit r hr
  | setting =>
    have hscope : r.get "scope" = .str "global" := by
      simpa [platformRow, platformPayload] using hplat
    exact (h.settings r hr hscope).elim
  | item => cases hplat
  | user =>
    rw [h.users] at hr
    cases hr
  | role =>
    rw [h.roles] at hr
    cases hr

theorem subscribed_of_confined {subs : List SyncTenantSubscription} {db : Database b}
    (hrow : ∀ {m} {r : Row b m}, r ∈ db.select m → platformRow r = true →
      ∀ t, m.tenantOfCells r.get = .str t → SubscribedOut subs peer_id t) :
    Subscribed subs peer_id db where
  tenants _ hr := hrow hr rfl
  assignments _ hr := hrow hr rfl
  audit _ hr := hrow hr rfl

theorem tenanted_of_confined {db : Database b}
    (hrow : ∀ {m} {r : Row b m}, r ∈ db.select m → platformRow r = true →
      ∃ t, m.tenantOfCells r.get = .str t)
    (hfile : dir.filter (· ≠ "") ≠ none → ∀ f ∈ db.uploads.rows,
      f.2.length ≤ maxBytesPerFile → ∃ t, FileOfTenant db (String.intercalate "/" f.1) t) :
    Tenanted dir db where
  users := by
    rw [List.eq_nil_iff_forall_not_mem]
    intro r hr
    obtain ⟨t, ht⟩ := hrow hr rfl
    cases ht
  roles := by
    rw [List.eq_nil_iff_forall_not_mem]
    intro r hr
    obtain ⟨t, ht⟩ := hrow hr rfl
    cases ht
  settings r hr hscope := by
    have hplat : platformRow r = true := by
      simp [platformRow, platformPayload, hscope]
    obtain ⟨t, ht⟩ := hrow hr hplat
    cases (tenantOfCells_global hscope).symm.trans ht
  audit r hr := hrow hr rfl
  files := hfile

/-- A push is confined when nothing is pushed any more, or the store has nothing that is not for
the peer. -/
theorem push_confined_iff (node : PlatformNode) (app_name app_version : String)
    (dir : Option String) (decrypt : String → Option String) (peer : SyncPeer)
    (subs : List SyncTenantSubscription) (now : DateTime) (inst : Installation b) :
    Confined peer subs inst.db ((MeshSyncEngine.standard node app_name app_version dir
        decrypt).buildPushBundle peer now inst).1 ↔
      peer.last_pushed_ts ≠ none ∨
        ((peer.sync_mode = "selected" → Subscribed subs peer.id inst.db) ∧
          (peer.sync_mode = "tenants_only" → Tenanted dir inst.db)) := by
  cases h : peer.last_pushed_ts with
  | some t =>
    rw [buildPushBundle_later node app_name app_version dir decrypt now inst h]
    exact iff_of_true (confined_empty peer subs inst.db) (.inl nofun)
  | none =>
    rw [or_iff_right (not_not_intro rfl)]
    constructor
    · intro hconfined
      constructor
      · intro hmode
        apply subscribed_of_confined
        intro m r hr hplat t ht
        obtain ⟨cid, rows, row, hrows, hrow, htenant⟩ :=
          push_of_row node app_name app_version dir decrypt now h hr hplat
        exact (hconfined.selected hmode).1 cid rows row t hrows hrow (htenant.trans ht)
      · intro hmode
        apply tenanted_of_confined
        · intro m r hr hplat
          obtain ⟨cid, rows, row, hrows, hrow, htenant⟩ :=
            push_of_row node app_name app_version dir decrypt now h hr hplat
          rw [← htenant]
          exact (hconfined.tenantsOnly hmode).1 cid rows row hrows hrow
        · intro hdir f hf hsize
          exact (hconfined.tenantsOnly hmode).2 _
            ((carriesFile_push_iff h).2 ⟨hdir, f, hf, hsize, rfl⟩)
    · rintro ⟨hselected, htenanted⟩
      constructor
      · intro hmode
        constructor
        · intro cid rows row t hrows hrow ht
          obtain ⟨m, r, hr, hplat, htenant⟩ := row_of_push h hrows hrow
          exact (hselected hmode).row hr hplat (htenant.symm.trans ht)
        · rintro rel t - ⟨r, hr, hid, -⟩
          exact (hselected hmode).tenants r hr t hid
      · intro hmode
        constructor
        · intro cid rows row hrows hrow
          obtain ⟨m, r, hr, hplat, htenant⟩ := row_of_push h hrows hrow
          rw [htenant]
          exact (htenanted hmode).row hr hplat
        · intro rel hfile
          obtain ⟨hdir, f, hf, hsize, rfl⟩ := (carriesFile_push_iff h).1 hfile
          exact (htenanted hmode).files hdir f hf hsize

end

/-- Every push to a peer that is not in `full` mode is confined. -/
def PushesConfined (b : Backend) : Prop :=
  ∀ (node : PlatformNode) (app_name app_version : String) (dir : Option String)
    (decrypt : String → Option String) (peer : SyncPeer) (subs : List SyncTenantSubscription)
    (now : DateTime) (inst : Installation b),
    peer.sync_mode = "selected" ∨ peer.sync_mode = "tenants_only" →
      Confined peer subs inst.db ((MeshSyncEngine.standard node app_name app_version dir
        decrypt).buildPushBundle peer now inst).1

/-- The tenants are pushed to a peer without subscriptions. -/
theorem selected_push_unconfined : ¬ PushesConfined .sqlite := by
  intro h
  have hconfined := h ⟨singletonId, "node"⟩ "app" "1.0" none some
    { freshPeer with sync_mode := "selected" } [] noon (installationOf acmeTenant) (.inl rfl)
  have hacme : acmeTenant ∈ (installationOf acmeTenant).db.select .tenant :=
    KeyedTable.mem_of_find (Database.find_put_self _ _)
  have hfresh : { freshPeer with sync_mode := "selected" }.last_pushed_ts = none := rfl
  obtain ⟨cid, rows, row, hrows, hrow, htenant⟩ :=
    push_of_row ⟨singletonId, "node"⟩ "app" "1.0" none some noon hfresh hacme rfl
  obtain ⟨sub, hsub, -⟩ := (hconfined.selected rfl).1 cid rows row acmeText hrows hrow htenant
  cases hsub

end ScottyCore
