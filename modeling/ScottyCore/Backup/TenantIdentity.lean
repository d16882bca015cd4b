import ScottyCore.Backup.Restore
import ScottyCore.Lib.Raise

namespace ScottyCore
open Python
set_option autoImplicit true

variable {b : Backend}

def BackupService.exportTenant (svc : BackupService b) (tenant_id tenant_slug user_id ip : String)
    (now : DateTime) (db : Database b) : Except Exc (Bytes × Database b) := do
  let bundle ← svc.runExport .tenant (some tenant_id) (some tenant_slug) now db
  match Uuid.parse tenant_id with
  | none => throw (.python (.valueError "badly formed hexadecimal UUID string"))
  | some u =>
    return (bundle, auditLog user_id "backup.tenant.export" "tenant" tenant_id ip (some u.str)
      .none db)

/-! ## A bundle opened again -/

theorem payload_upsert (data : ContributorData) (cid cid' : String) (p : Payload) :
    ContributorData.payload (data.upsert (cid, p)) cid' =
      if cid' = cid then p else data.payload cid' := by
  unfold ContributorData.payload
  rw [KeyedTable.find_upsert]
  split
  · rfl
  · rfl

theorem isSome_find_upsert {data : ContributorData} (p : String × Payload)
    (h : cid = p.1 ∨ (data.find cid).isSome = true) :
    ((data.upsert p).find cid).isSome = true := by
  rw [KeyedTable.find_upsert]
  split
  · rfl
  · rename_i hne
    exact h.resolve_left hne

def tarMember (mem : Member) : TarMember := ⟨mem.name, mem.content.map Content.reading⟩

theorem readTarMember_file (data : ContributorData) (cid : String) (f : String × List UInt8) :
    ∃ data', readTarMember data (tarMember ⟨fileName cid f.1, some (.raw f.2)⟩) = .ok data' ∧
      (∀ cid', (data'.payload cid').rows = (data.payload cid').rows) ∧
      ∀ cid', (data.find cid').isSome = true → (data'.find cid').isSome = true := by
  rw [tarMember, readTarMember]
  simp only [Option.map_some, contributorOf_fileName]
  split
  · rename_i owner rel_path _
    refine ⟨_, rfl, fun cid' => ?_, fun cid' h => isSome_find_upsert _ (.inr h)⟩
    rw [payload_upsert]
    split
    · rename_i heq
      rw [heq]
    · rfl
  · exact ⟨data, rfl, fun _ => rfl, fun _ => id⟩

theorem readTarMember_files (data : ContributorData) (cid : String)
    (files : List (String × List UInt8)) :
    ∃ data', (files.map fun f => tarMember ⟨fileName cid f.1, some (.raw f.2)⟩).foldlM
        readTarMember data = .ok data' ∧
      (∀ cid', (data'.payload cid').rows = (data.payload cid').rows) ∧
      ∀ cid', (data.find cid').isSome = true → (data'.find cid').isSome = true := by
  induction files generalizing data with
  | nil => exact ⟨data, rfl, fun _ => rfl, fun _ => id⟩
  | cons f files ih =>
    obtain ⟨data₁, hread, hrows, hfind⟩ := readTarMember_file data cid f
    obtain ⟨data₂, hfold, hrows', hfind'⟩ := ih data₁
    refine ⟨data₂, ?_, fun c => (hrows' c).trans (hrows c), fun c h => hfind' c (hfind c h)⟩
    rw [List.map_cons, List.foldlM_cons, hread]
    exact hfold

theorem readTarMember_payload (data : ContributorData) (p : String × ContributorExport) :
    ∃ data', ((payloadMembers p).map tarMember).foldlM readTarMember data = .ok data' ∧
      (∀ cid, (data'.payload cid).rows =
        if cid = p.1 then .ofRows p.2.rows else (data.payload cid).rows) ∧
      ∀ cid, cid = p.1 ∨ (data.find cid).isSome = true → (data'.find cid).isSome = true := by
  have hdata : readTarMember data (tarMember ⟨dataName p.1, some (.rows p.2.rows)⟩) =
      .ok (data.upsert (p.1, { data.payload p.1 with rows := .ofRows p.2.rows })) := by
    rw [tarMember, readTarMember]
    simp only [Option.map_some, contributorOf_dataName]
    rfl
  obtain ⟨data', hfold, hrows, hfind⟩ := readTarMember_files
    (data.upsert (p.1, { data.payload p.1 with rows := .ofRows p.2.rows })) p.1 p.2.files
  refine ⟨data', ?_, fun cid => ?_, fun cid h => hfind cid (isSome_find_upsert _ h)⟩
  · rw [payloadMembers, List.map_cons, List.foldlM_cons, hdata, List.map_map]
    exact hfold
  · rw [hrows, payload_upsert]
    split
    · rfl
    · rfl

theorem readTarMember_payloads {payloads : List (String × ContributorExport)}
    (data : ContributorData) (hn : (payloads.map Prod.fst).Nodup) :
    ∃ data', ((payloads.flatMap payloadMembers).map tarMember).foldlM readTarMember data =
        .ok data' ∧
      (∀ cid, (data'.payload cid).rows =
        ((payloads.lookup cid).map fun e => .ofRows e.rows).getD (data.payload cid).rows) ∧
      ∀ cid, cid ∈ payloads.map Prod.fst ∨ (data.find cid).isSome = true →
        (data'.find cid).isSome = true := by
  induction payloads generalizing data with
  | nil => exact ⟨data, rfl, fun _ => rfl, fun _ h => h.resolve_left List.not_mem_nil⟩
  | cons p payloads ih =>
    obtain ⟨hp, hn⟩ := List.nodup_cons.1 hn
    obtain ⟨data₁, hread, hrows, hfind⟩ := readTarMember_payload data p
    obtain ⟨data₂, hfold, hrows', hfind'⟩ := ih data₁ hn
    refine ⟨data₂, ?_, fun cid => ?_, fun cid h => ?_⟩
    · rw [List.flatMap_cons, List.map_append, List.foldlM_append, hread]
      exact hfold
    · rw [hrows', hrows, List.lookup_cons]
      by_cases hcid : cid = p.1
      · have hnone : payloads.lookup cid = none := by
          rw [List.lookup_eq_none_iff]
          intro q hq
          rw [bne_iff_ne, hcid]
          exact fun he => hp (he ▸ List.mem_map_of_mem hq)
        rw [hnone, beq_iff_eq.2 hcid, if_pos hcid]
        rfl
      · rw [beq_eq_false_iff_ne.2 hcid, if_neg hcid]
    · apply hfind' cid
      rcases h with h | h
      · rcases List.mem_cons.1 h with h | h
        · exact .inr (hfind cid (.inl h))
        · exact .inl h
      · exact .inr (hfind cid (.inr h))

theorem tarManifest_buildTarball (manifest : BackupManifest)
    (payloads : List (String × ContributorExport)) :
    tarManifest (tarMember ⟨manifestName, some (.manifest manifest)⟩ ::
      (payloads.flatMap payloadMembers).map tarMember) = .ok manifest := by
  have hrest : ((payloads.flatMap payloadMembers).map tarMember).reverse.find?
      (fun mem => mem.name = manifestName) = none := by
    rw [List.find?_eq_none]
    intro mem hmem
    obtain ⟨mem', hmem', rfl⟩ := List.mem_map.1 (List.mem_reverse.1 hmem)
    obtain ⟨p, _, hp⟩ := List.mem_flatMap.1 hmem'
    rw [decide_eq_true_eq]
    exact name_of_mem_payloadMembers hp
  rw [tarManifest, List.reverse_cons, List.find?_append, hrest]
  rfl

theorem readTarMember_manifest (manifest : BackupManifest) :
    readTarMember ∅ (tarMember ⟨manifestName, some (.manifest manifest)⟩) = .ok ∅ := by
  have hname : contributorOf manifestName = none := contributorOf_of_head (by decide)
  have hfile : fileOf manifestName = none := by decide +kernel
  rw [tarMember, readTarMember]
  simp only [Option.map_some, hname, hfile]

theorem unpack_buildTarball (manifest : BackupManifest)
    {payloads : List (String × ContributorExport)} (hn : (payloads.map Prod.fst).Nodup) :
    ∃ data, unpack (buildTarball manifest payloads).tarball = .ok (manifest, data) ∧
      (∀ cid, (data.payload cid).rows =
        .ofRows (((payloads.lookup cid).map ContributorExport.rows).getD [])) ∧
      ∀ cid ∈ payloads.map Prod.fst, (data.find cid).isSome = true := by
  obtain ⟨data, hfold, hrows, hfind⟩ := readTarMember_payloads ∅ hn
  refine ⟨data, ?_, fun cid => ?_, fun cid h => hfind cid (.inl h)⟩
  · have hmembers : (buildTarball manifest payloads).tarball = .ok
        (tarMember ⟨manifestName, some (.manifest manifest)⟩ ::
          (payloads.flatMap payloadMembers).map tarMember) := rfl
    rw [hmembers]
    refine bind_eq_ok.2 ⟨_, rfl, bind_eq_ok.2 ⟨_, tarManifest_buildTarball manifest payloads, ?_⟩⟩
    refine bind_eq_ok.2 ⟨data, ?_, rfl⟩
    rw [List.foldlM_cons, readTarMember_manifest]
    exact hfold
  · rw [hrows]
    cases payloads.lookup cid with
    | none => rfl
    | some e => rfl

theorem idOfSlug_objects (slug : String) (rows : List Dict) :
    idOfSlug slug (rows.map .object) =
      .ok ((rows.find? fun row => row.get "slug" = .str slug).map fun row =>
        (row.get "id").toStr) := by
  induction rows with
  | nil => rfl
  | cons row rows ih =>
    change (if row.get "slug" = .str slug then _ else idOfSlug slug (rows.map .object)) = _
    rw [List.find?_cons, ih]
    by_cases h : row.get "slug" = .str slug
    · rw [if_pos h, decide_eq_true h]
      rfl
    · rw [if_neg h, decide_eq_false h]

/-! ## Export, then restore -/

/-- The id of the first tenants row with a slug. -/
def tenantIdIn (slug : String) (rows : List Dict) : Option String :=
  (rows.find? fun row => row.get "slug" = .str slug).map fun row => (row.get "id").toStr

theorem mapM_exportPayload {cs : List (Contributor b)}
    (h : cs.mapM (BackupService.exportPayload scope tenant_id db) = .ok payloads) :
    payloads.map Prod.fst = cs.map Contributor.contributor_id ∧
      ∀ c ∈ cs, ∃ e, c.exportAll scope tenant_id db = .ok e ∧ (c.contributor_id, e) ∈ payloads := by
  induction cs generalizing payloads with
  | nil => cases h; exact ⟨rfl, fun _ => nofun⟩
  | cons c cs ih =>
    obtain ⟨p, rest, hp, hrest, rfl⟩ := mapM_cons_eq_ok.1 h
    obtain ⟨e, he, hpe⟩ := bind_eq_ok.1 hp
    cases hpe
    obtain ⟨hids, hall⟩ := ih hrest
    refine ⟨by rw [List.map_cons, List.map_cons, hids], fun c' hc' => ?_⟩
    rcases List.mem_cons.1 hc' with rfl | hc'
    · exact ⟨e, he, List.mem_cons_self⟩
    · obtain ⟨e', he', hmem⟩ := hall c' hc'
      exact ⟨e', he', List.mem_cons_of_mem _ hmem⟩

/-- The restore of a bundle calls every contributor of the tenant scope, with the tenant's id, and
its audit entry has the id. -/
def RestoresTenant (svc : BackupService b) (tenant_id : String) (bundle : Tarball) : Prop :=
  ∃ o, openBundle bundle = .ok o ∧
    (∀ c ∈ svc.inScope .tenant, ∃ call ∈ svc.restoreCalls o,
      call.contributor = c ∧ call.tenant_id = some tenant_id) ∧
    (∀ call ∈ svc.restoreCalls o, call.tenant_id = some tenant_id) ∧
    auditTenantId o.tenant_id = .ok (Uuid.parse tenant_id)

/-- A contributor under the id `tenants` exports the tenant's row for its scope. -/
def ExportsTenantRow (svc : BackupService b) (tenant_id tenant_slug : String) (db : Database b) :
    Prop :=
  tenant_slug ≠ "" ∧ ∃ c e, svc.contributors.find "tenants" = some c ∧ .tenant ∈ c.scopes ∧
    c.exportAll .tenant (some tenant_id) db = .ok e ∧
    tenantIdIn tenant_slug e.rows = some tenant_id

section

variable {svc : BackupService b} {db db' : Database b}

theorem mem_inScope {c : Contributor b} :
    c ∈ svc.inScope scope ↔ svc.contributors.find c.contributor_id = some c ∧ scope ∈ c.scopes := by
  rw [BackupService.inScope, List.mem_filter, decide_eq_true_eq]
  exact and_congr_left' ⟨KeyedTable.find_of_mem, KeyedTable.mem_of_find⟩

theorem inScope_nodup : ((svc.inScope scope).map Contributor.contributor_id).Nodup :=
  svc.contributors.nodup.sublist (List.filter_sublist.map _)

/-- The tenants rows of an export: those of a contributor of the scope, or none. -/
inductive TenantsRows (svc : BackupService b) (tenant_id : String) (db : Database b) :
    List Dict → Prop where
  | exported : svc.contributors.find "tenants" = some c → .tenant ∈ c.scopes →
      c.exportAll .tenant (some tenant_id) db = .ok e → TenantsRows svc tenant_id db e.rows
  | none : (∀ c ∈ svc.inScope .tenant, c.contributor_id ≠ "tenants") →
      TenantsRows svc tenant_id db []

theorem bundleTenantId_tenant {manifest : BackupManifest} {data : ContributorData}
    (hscope : manifest.scope = .tenant) (hslug : manifest.tenant_slug = some tenant_slug) :
    bundleTenantId manifest data =
      if tenant_slug = "" then .ok none else resolveTenantId tenant_slug data := by
  unfold bundleTenantId
  rw [hscope, hslug]
  split
  · rename_i heq
    rw [if_pos (Option.some.inj heq)]
  · rename_i hne _ heq
    cases heq
    rw [if_neg hne]
  · rename_i hne
    exact (hne _ rfl rfl).elim

theorem exportTenant_opens
    (h : svc.exportTenant tenant_id tenant_slug user_id ip now db = .ok (bundle, db')) :
    ∃ o rows, openBundle bundle.tarball = .ok o ∧ o.manifest.scope = .tenant ∧
      (∀ c ∈ svc.inScope .tenant, (o.data.find c.contributor_id).isSome = true) ∧
      TenantsRows svc tenant_id db rows ∧
      o.tenant_id = if tenant_slug = "" then none else tenantIdIn tenant_slug rows := by
  obtain ⟨_, hrun, h⟩ := bind_eq_ok.1 h
  obtain ⟨payloads, hpayloads, hbundle⟩ := bind_eq_ok.1 hrun
  cases hbundle
  split at h
  · cases h
  cases h
  obtain ⟨hids, hall⟩ := mapM_exportPayload hpayloads
  have hn : (payloads.map Prod.fst).Nodup := hids ▸ inScope_nodup
  obtain ⟨data, hopen, hdata, hfind⟩ :=
    unpack_buildTarball (svc.manifest .tenant (some tenant_slug) now payloads) hn
  obtain ⟨rows, hrows⟩ : ∃ rows, rows =
    ((payloads.lookup "tenants").map ContributorExport.rows).getD [] := ⟨_, rfl⟩
  have hdata : (data.payload "tenants").rows = .ofRows rows := hrows ▸ hdata "tenants"
  refine ⟨⟨svc.manifest .tenant (some tenant_slug) now payloads, data,
    if tenant_slug = "" then none else tenantIdIn tenant_slug rows⟩, rows, ?_, rfl, ?_, ?_, rfl⟩
  · refine bind_eq_ok.2 ⟨_, hopen, raise_eq_ok.2 ⟨Int.lt_irrefl 1, bind_eq_ok.2 ⟨_, ?_, rfl⟩⟩⟩
    rw [bundleTenantId_tenant rfl rfl]
    split
    · rfl
    · rw [resolveTenantId, hdata]
      exact bind_eq_ok.2 ⟨_, rfl, idOfSlug_objects _ _⟩
  · intro c hc
    apply hfind _
    rw [hids]
    exact List.mem_map_of_mem hc
  · by_cases htenants : ∃ c ∈ svc.inScope .tenant, c.contributor_id = "tenants"
    · obtain ⟨c, hc, hid⟩ := htenants
      obtain ⟨e, he, hmem⟩ := hall c hc
      obtain ⟨hreg, hscope⟩ := mem_inScope.1 hc
      have hlookup : payloads.lookup "tenants" = some e := by
        rw [hid] at hmem
        exact lookup_of_mem hn hmem
      rw [hrows, hlookup]
      exact .exported (hid ▸ hreg) hscope he
    · have hlookup : payloads.lookup "tenants" = none := by
        rw [List.lookup_eq_none_iff]
        intro p hp
        rw [bne_iff_ne]
        rintro heq
        obtain ⟨c, hc, hid⟩ := List.mem_map.1 (hids ▸ List.mem_map_of_mem (f := Prod.fst) hp)
        exact htenants ⟨c, hc, hid.trans heq.symm⟩
      rw [hrows, hlookup]
      exact .none fun c hc hid => htenants ⟨c, hc, hid⟩

theorem mem_restoreCalls {o : OpenBundle} {call : RestoreCall b}
    (h : call ∈ svc.restoreCalls o) : call.tenant_id = o.tenant_id := by
  obtain ⟨c, _, hcall⟩ := List.mem_filterMap.1 h
  obtain ⟨p, _, rfl⟩ := Option.map_eq_some_iff.1 hcall
  rfl

theorem exists_restoreCall {o : OpenBundle} {c : Contributor b}
    (hc : c ∈ svc.inScope o.manifest.scope)
    (h : (o.data.find c.contributor_id).isSome = true) :
    ∃ call ∈ svc.restoreCalls o, call.contributor = c := by
  obtain ⟨p, hp⟩ := Option.isSome_iff_exists.1 h
  refine ⟨⟨c, o.tenant_id, p.2⟩, List.mem_filterMap.2 ⟨c, hc, ?_⟩, rfl⟩
  rw [hp]
  rfl

end

theorem restoresTenant_iff_of_open {svc : BackupService b} {o : OpenBundle} {bundle : Tarball}
    (hopen : openBundle bundle = .ok o) (hscope : o.manifest.scope = .tenant)
    (hdata : ∀ c ∈ svc.inScope .tenant, (o.data.find c.contributor_id).isSome = true)
    (hsome : (Uuid.parse tenant_id).isSome = true)
    (hid : o.tenant_id ≠ none → ∃ c, c ∈ svc.inScope .tenant) :
    RestoresTenant svc tenant_id bundle ↔ o.tenant_id = some tenant_id := by
  have hcall : ∀ c ∈ svc.inScope .tenant, ∃ call ∈ svc.restoreCalls o, call.contributor = c :=
    fun c hc => exists_restoreCall (hscope ▸ hc) (hdata c hc)
  constructor
  · rintro ⟨o', hopen', hcalls, _, haudit⟩
    cases hopen.symm.trans hopen'
    have hne : o.tenant_id ≠ none := by
      intro hnone
      rw [hnone] at haudit
      obtain ⟨u, hu⟩ := Option.isSome_iff_exists.1 hsome
      rw [hu] at haudit
      cases haudit
    obtain ⟨c, hc⟩ := hid hne
    obtain ⟨call, hmem, _, htenant⟩ := hcalls c hc
    exact (mem_restoreCalls hmem).symm.trans htenant
  · intro htenant
    refine ⟨o, hopen, fun c hc => ?_, fun call h => (mem_restoreCalls h).trans htenant, ?_⟩
    · obtain ⟨call, hmem, rfl⟩ := hcall c hc
      exact ⟨call, hmem, rfl, (mem_restoreCalls hmem).trans htenant⟩
    · obtain ⟨u, hu⟩ := Option.isSome_iff_exists.1 hsome
      rw [htenant, hu]
      unfold auditTenantId
      split
      · rename_i h
        cases h
      · rename_i h
        rw [Option.some.inj h] at hu
        cases hu
      · rename_i t _ h
        rw [← Option.some.inj h, hu]

/-- Restoring the export of a tenant is done with the tenant's id exactly when a contributor
registered under the id `tenants` exports the tenant's row for the tenant scope. -/
theorem restores_tenant_iff {svc : BackupService b} {db db' : Database b}
    (h : svc.exportTenant tenant_id tenant_slug user_id ip now db = .ok (bundle, db')) :
    RestoresTenant svc tenant_id bundle.tarball ↔
      ExportsTenantRow svc tenant_id tenant_slug db := by
  obtain ⟨o, rows, hopen, hscope, hdata, hrows, hid⟩ := exportTenant_opens h
  have hsome : (Uuid.parse tenant_id).isSome = true := by
    obtain ⟨_, _, h⟩ := bind_eq_ok.1 h
    split at h
    · cases h
    · rename_i hu
      rw [hu]
      rfl
  have hregistered : o.tenant_id ≠ none → ∃ c, c ∈ svc.inScope .tenant := by
    intro hne
    cases hrows with
    | @exported c _ hreg hmem _ =>
      exact ⟨c, mem_inScope.2 ⟨(KeyedTable.key_of_find hreg).symm ▸ hreg, hmem⟩⟩
    | none =>
      rw [hid] at hne
      split at hne
      · exact (hne rfl).elim
      · exact (hne rfl).elim
  rw [restoresTenant_iff_of_open hopen hscope hdata hsome hregistered, hid]
  constructor
  · intro htenant
    split at htenant
    · cases htenant
    · rename_i hslug
      cases hrows with
      | exported hreg hmem hexport => exact ⟨hslug, _, _, hreg, hmem, hexport, htenant⟩
      | none => cases htenant
  · rintro ⟨hslug, c, e, hreg, hmem, hexport, htenant⟩
    rw [if_neg hslug]
    cases hrows with
    | exported hreg' _ hexport' =>
      cases hreg.symm.trans hreg'
      cases hexport.symm.trans hexport'
      exact htenant
    | none hnone =>
      have hcid : c.contributor_id = "tenants" := KeyedTable.key_of_find hreg
      exact (hnone c (mem_inScope.2 ⟨hcid.symm ▸ hreg, hmem⟩) hcid).elim

/-- With whatever contributors for the tenant scope are registered besides, restoring the export
of a stored tenant is done with the tenant's id. -/
def TenantIdentitySurvives (b : Backend) : Prop :=
  ∀ (extra : List (Contributor b)) app_name app_version dir (db db' : Database b)
    (t : Row b .tenant)
    tenant_id tenant_slug user_id ip now bundle,
    (∀ c ∈ extra, .tenant ∈ c.scopes) → t ∈ db.select .tenant →
    t.get "id" = .str tenant_id → t.get "slug" = .str tenant_slug →
    (extra.foldl BackupService.register
      (buildBackupService app_name app_version dir)).exportTenant tenant_id tenant_slug user_id ip
        now db = .ok (bundle, db') →
    RestoresTenant (extra.foldl BackupService.register
      (buildBackupService app_name app_version dir)) tenant_id bundle.tarball

section

def acmeText : String := "0aaaaaaa-0000-4000-8000-000000000000"

def acmeTenant : Row .sqlite .tenant :=
  ⟨[("id", .str acmeText), ("name", .str "Acme"), ("slug", .str "acme"), ("api_key_hash", .none),
    ("api_key_prefix", .none), ("is_active", .bool true), ("created_at", .datetime dawn),
    ("updated_at", .datetime dawn)], by decide⟩

def themeSetting : Row .sqlite .setting :=
  ⟨[("id", .str "theme"), ("scope", .str "global"), ("scope_id", .none),
    ("key", .str "branding_app_name"), ("value_json", .str "1"), ("updated_by", .none),
    ("created_at", .datetime newYear), ("updated_at", .datetime newYear)], by decide +kernel⟩

def acmeData : Database .sqlite := noData.put acmeTenant

/-- A consumer's contributor in place of the built-in one: it exports the tenant's row too. -/
def tenantRowContributor : Contributor .sqlite :=
  { tenantsContributor with
    scopes := [.platform, .tenant]
    exportAll := fun _ tenant_id db => .ok
      { rows := ((db.select .tenant).filter fun r => r.get "id" = tenantVal tenant_id).map fun r =>
          withTag "tenants" (rowToDict r) } }

def consumerService : BackupService .sqlite :=
  (buildBackupService "app" "1.0" none).register tenantRowContributor

def acmeExport (svc : BackupService .sqlite) : Except Exc (Bytes × Database .sqlite) :=
  svc.exportTenant acmeText "acme" "root" "127.0.0.1" newYear acmeData

theorem exists_of_isOk {x : Except ε α} (h : x.isOk = true) : ∃ a, x = .ok a := by
  cases x with
  | error e => cases h
  | ok a => exact ⟨a, rfl⟩

theorem consumer_restores_tenant : ∃ r, acmeExport consumerService = .ok r ∧
    RestoresTenant consumerService acmeText r.1.tarball := by
  obtain ⟨⟨bundle, db⟩, h⟩ : ∃ r, acmeExport consumerService = .ok r :=
    exists_of_isOk (by decide +kernel)
  have hrow : ExportsTenantRow consumerService acmeText "acme" acmeData :=
    ⟨by decide, tenantRowContributor, _, rfl, by decide, rfl, by decide +kernel⟩
  exact ⟨_, h, (restores_tenant_iff h).2 hrow⟩

/-- Without such a contributor nothing in the bundle tells whose it is. -/
theorem tenant_identity_lost : ¬ TenantIdentitySurvives .sqlite := by
  intro h
  obtain ⟨⟨bundle, db⟩, hexport⟩ : ∃ r, acmeExport (buildBackupService "app" "1.0" none) = .ok r :=
    exists_of_isOk (by decide +kernel)
  obtain ⟨o, hopen, _, _, haudit⟩ := h [] "app" "1.0" none acmeData db acmeTenant acmeText "acme"
    "root"
    "127.0.0.1" newYear bundle (fun _ => nofun) List.mem_cons_self rfl rfl hexport
  obtain ⟨_, rows, hopen', _, _, hrows, hid⟩ := exportTenant_opens hexport
  cases hopen.symm.trans hopen'
  have hnone : o.tenant_id = none := by
    rw [hid, if_neg (by decide)]
    cases hrows with
    | exported hreg hmem =>
      cases hreg
      cases List.mem_singleton.1 hmem
    | none => rfl
  rw [hnone] at haudit
  have hparse : Uuid.parse acmeText ≠ none := by decide +kernel
  exact hparse (Except.ok.inj haudit).symm

end

end ScottyCore
