import ScottyCore.Backup.PlatformMerge
import ScottyCore.Backup.RoundTrip

namespace ScottyCore
open Python
set_option autoImplicit true

variable {b b' : Backend} {m : Model}

/-! ## What an export carries -/

theorem carries_stripTag (r : Row b m) : Carries (stripTag (rowToDict r)) r := by
  intro c hc
  exact lookup_filter_of_ne (ne_tag hc)

theorem taggedRows_append (table : String) (rows rows' : List Dict) :
    taggedRows table (rows ++ rows') = taggedRows table rows ++ taggedRows table rows' := by
  rw [taggedRows, taggedRows, taggedRows, List.filter_append, List.map_append]

theorem taggedRows_own (table : String) (rows : List (Row b m)) :
    taggedRows table (rows.map fun r => withTag table (rowToDict r)) =
      rows.map fun r => stripTag (rowToDict r) := by
  induction rows with
  | nil => rfl
  | cons r rows ih =>
    have hhead : taggedRows table [withTag table (rowToDict r)] = [stripTag (rowToDict r)] :=
      (taggedRows_singleton table _).trans (if_pos rfl)
    rw [List.map_cons, List.map_cons, ← List.singleton_append, taggedRows_append, hhead, ih]
    rfl

theorem taggedRows_other {table table' : String} (hne : table' ≠ table) (rows : List (Row b m)) :
    taggedRows table (rows.map fun r => withTag table' (rowToDict r)) = [] := by
  induction rows with
  | nil => rfl
  | cons r rows ih =>
    have hhead : taggedRows table [withTag table' (rowToDict r)] = [] := by
      rw [taggedRows_singleton, if_neg]
      intro h
      exact hne (Val.str.inj h)
    rw [List.map_cons, ← List.singleton_append, taggedRows_append, hhead, ih]
    rfl

/-- The JSON rows with the table that they go into. -/
def rowsInto (m : Model) (rows : List Dict) : List (Model × Dict) := rows.map fun row => (m, row)

theorem mergeEach_rowsInto (m : Model) (rows : List Dict) (db : Database b) :
    mergeEach (rowsInto m rows) db = mergeAll m rows db := by
  rw [mergeEach, rowsInto, List.foldlM_map, mergeAll]

theorem mergeEach_append (ps qs : List (Model × Dict)) (db : Database b) :
    mergeEach (ps ++ qs) db = mergeEach ps db >>= mergeEach qs := List.foldlM_append

theorem carried_rowsInto {S : Database b} {f : Row b m → Dict} {rows : List (Row b m)}
    (hf : ∀ r, Carries (f r) r) (hrows : ∀ r ∈ rows, r ∈ platformRows S m) :
    ∀ p ∈ rowsInto m (rows.map f), Carried S p := by
  intro p hp
  obtain ⟨row, hrow, rfl⟩ := List.mem_map.1 hp
  obtain ⟨r, hr, rfl⟩ := List.mem_map.1 hrow
  exact ⟨r, hrows r hr, hf r⟩

/-- An export and the restore of it: merges of rows of the source, all rows of some models among
them. -/
structure Transfers (S : Database b) (c : Contributor b) (c' : Contributor b') (ms : List Model)
    (e : ContributorExport) (ps : List (Model × Dict)) : Prop where
  exported : c.exportAll .platform none S = .ok e
  noFiles : e.files = []
  carried : ∀ p ∈ ps, Carried S p
  all : ∀ m ∈ ms, ∀ v ∈ platformRows S m, ∃ row, (m, row) ∈ ps ∧ Carries row v
  merges : ∀ t db db', mergeEach ps db = .ok db' →
    ∃ n, c'.restore .platform t (.ofRows e.rows) e.files db = (.ok n, db')

theorem upsertRows_of_mergeEach {db db' : Database b}
    (h : mergeEach (rowsInto m rows) db = .ok db') :
    upsertRows m rows db = .ok (rows.length, db') := by
  rw [upsertRows_eq, ← mergeEach_rowsInto, h]
  rfl

/-- Two tables that travel in one list, in either order. -/
theorem upsertTagged {m₁ m₂ : Model} {table₁ table₂ : String} (hne : table₁ ≠ table₂)
    (rows₁ : List (Row b m₁)) (rows₂ : List (Row b m₂)) {db db' : Database b'}
    (h : mergeEach (rowsInto m₁ (rows₁.map fun r => stripTag (rowToDict r)) ++
      rowsInto m₂ (rows₂.map fun r => stripTag (rowToDict r))) db = .ok db') (doc : List Dict)
    (hdoc : doc = (rows₁.map fun r => withTag table₁ (rowToDict r)) ++
        (rows₂.map fun r => withTag table₂ (rowToDict r)) ∨
      doc = (rows₂.map fun r => withTag table₂ (rowToDict r)) ++
        rows₁.map fun r => withTag table₁ (rowToDict r)) :
    ∃ n, transaction db (do
      let rows ← (JsonDoc.ofRows doc).dicts
      let (total, db) ← upsertRows m₁ (taggedRows table₁ rows) db
      let (more, db) ← upsertRows m₂ (taggedRows table₂ rows) db
      Except.ok (total + more, db)) = (.ok n, db') := by
  have h₁ : taggedRows table₁ doc = rows₁.map fun r => stripTag (rowToDict r) := by
    rcases hdoc with rfl | rfl
    · rw [taggedRows_append, taggedRows_own, taggedRows_other hne.symm, List.append_nil]
    · rw [taggedRows_append, taggedRows_own, taggedRows_other hne.symm, List.nil_append]
  have h₂ : taggedRows table₂ doc = rows₂.map fun r => stripTag (rowToDict r) := by
    rcases hdoc with rfl | rfl
    · rw [taggedRows_append, taggedRows_own, taggedRows_other hne, List.nil_append]
    · rw [taggedRows_append, taggedRows_own, taggedRows_other hne, List.append_nil]
  rw [mergeEach_append] at h
  obtain ⟨db₁, hfirst, hsecond⟩ := bind_eq_ok.1 h
  rw [dicts_ofRows]
  change ∃ n, transaction db (upsertRows m₁ (taggedRows table₁ doc) db >>= fun r =>
    upsertRows m₂ (taggedRows table₂ doc) r.2 >>= fun r' => Except.ok (r.1 + r'.1, r'.2)) = _
  rw [h₁, h₂, upsertRows_of_mergeEach hfirst]
  change ∃ n, transaction db (upsertRows m₂ _ db₁ >>= fun r' => Except.ok (_ + r'.1, r'.2)) = _
  rw [upsertRows_of_mergeEach hsecond]
  exact ⟨_, rfl⟩

section

variable (b' : Backend) (S : Database b)

theorem platformRows_all (hm : m ≠ .setting) (hp : (platformPayload m).isSome = true) :
    platformRows S m = S.select m := by
  apply List.filter_eq_self.2
  intro r _
  rw [platformRow, hp, decide_eq_true hm]
  rfl

theorem platformRows_settings : platformRows S .setting = selectSettings .platform none S := by
  apply List.filter_congr
  intro r _
  rfl

theorem mem_rowsInto {f : Row b m → Dict} {rows : List (Row b m)} (hr : r ∈ rows) :
    (m, f r) ∈ rowsInto m (rows.map f) :=
  List.mem_map_of_mem (List.mem_map_of_mem hr)

theorem tenants_transfer : ∃ e ps,
    Transfers S tenantsContributor (tenantsContributor : Contributor b') [.role, .tenant] e ps := by
  refine ⟨_, rowsInto .role ((S.select .role).map fun r => stripTag (rowToDict r)) ++
    rowsInto .tenant ((S.select .tenant).map fun r => stripTag (rowToDict r)), rfl, rfl, ?_, ?_, ?_⟩
  · intro p hp
    rcases List.mem_append.1 hp with hp | hp
    · exact carried_rowsInto carries_stripTag
        (fun r hr => (platformRows_all S (m := .role) nofun rfl).symm ▸ hr) p hp
    · exact carried_rowsInto carries_stripTag
        (fun r hr => (platformRows_all S (m := .tenant) nofun rfl).symm ▸ hr) p hp
  · intro m hm v hv
    have hv' := mem_of_platformRows hv
    rcases List.mem_cons.1 hm with rfl | hm
    · exact ⟨_, List.mem_append_left _ (mem_rowsInto hv'), carries_stripTag v⟩
    · obtain rfl := List.mem_singleton.1 hm
      exact ⟨_, List.mem_append_right _ (mem_rowsInto hv'), carries_stripTag v⟩
  · intro t db db' h
    exact upsertTagged (by decide) _ _ h _ (.inr rfl)

theorem users_transfer : ∃ e ps, Transfers S usersContributor (usersContributor : Contributor b')
    [.user, .userTenantRole] e ps := by
  refine ⟨_, rowsInto .user ((S.select .user).map fun r => stripTag (rowToDict r)) ++
    rowsInto .userTenantRole ((S.select .userTenantRole).map fun r => stripTag (rowToDict r)),
    rfl, rfl, ?_, ?_, ?_⟩
  · intro p hp
    rcases List.mem_append.1 hp with hp | hp
    · exact carried_rowsInto carries_stripTag
        (fun r hr => (platformRows_all S (m := .user) nofun rfl).symm ▸ hr) p hp
    · exact carried_rowsInto carries_stripTag
        (fun r hr => (platformRows_all S (m := .userTenantRole) nofun rfl).symm ▸ hr) p hp
  · intro m hm v hv
    have hv' := mem_of_platformRows hv
    rcases List.mem_cons.1 hm with rfl | hm
    · exact ⟨_, List.mem_append_left _ (mem_rowsInto hv'), carries_stripTag v⟩
    · obtain rfl := List.mem_singleton.1 hm
      exact ⟨_, List.mem_append_right _ (mem_rowsInto hv'), carries_stripTag v⟩
  · intro t db db' h
    exact upsertTagged (by decide) _ _ h _ (.inl rfl)

/-- A table whose rows travel as they are. -/
theorem upsertDoc_of_mergeEach {db db' : Database b}
    (h : mergeEach (rowsInto m rows) db = .ok db') :
    ∃ n, transaction db (upsertDoc m (.ofRows rows) db) = (.ok n, db') := by
  rw [upsertDoc_ofRows, upsertRows_of_mergeEach h]
  exact ⟨_, rfl⟩

theorem settings_transfer : ∃ e ps,
    Transfers S settingsContributor (settingsContributor : Contributor b') [.setting] e ps := by
  refine ⟨_, rowsInto .setting ((selectSettings .platform none S).map rowToDict), rfl, rfl, ?_,
    ?_, ?_⟩
  · exact carried_rowsInto carries_rowToDict fun r hr => (platformRows_settings S).symm ▸ hr
  · intro m hm v hv
    obtain rfl := List.mem_singleton.1 hm
    exact ⟨_, mem_rowsInto (platformRows_settings S ▸ hv), carries_rowToDict v⟩
  · intro t db db' h
    exact upsertDoc_of_mergeEach h

theorem auditLog_transfers : ∃ e ps,
    Transfers S auditLogContributor (auditLogContributor : Contributor b') [.auditLog] e ps := by
  refine ⟨_, rowsInto .auditLog ((S.select .auditLog).map rowToDict), rfl, rfl, ?_, ?_, ?_⟩
  · exact carried_rowsInto carries_rowToDict
      fun r hr => (platformRows_all S (m := .auditLog) nofun rfl).symm ▸ hr
  · intro m hm v hv
    obtain rfl := List.mem_singleton.1 hm
    exact ⟨_, mem_rowsInto (mem_of_platformRows hv), carries_rowToDict v⟩
  · intro t db db' h
    exact upsertDoc_of_mergeEach h

theorem keepSecrets_map {α : Type} {key : α → Val} {f : α → Dict}
    (hkey : ∀ r, (f r).getD "key" (.str "") = key r) {rows kept : List α}
    (h : keepSecrets key rows = .ok kept) :
    keepSecretRows (kept.map fun r => .object (f r)) = .ok (kept.map f) := by
  induction rows generalizing kept with
  | nil =>
    cases h
    rfl
  | cons r rows ih =>
    obtain ⟨secret, hsecret, h⟩ := bind_eq_ok.1 h
    obtain ⟨rest, hrest, h⟩ := bind_eq_ok.1 h
    cases h
    cases secret with
    | false => exact ih hrest
    | true =>
      apply bind_eq_ok.2
      refine ⟨f r, rfl, bind_eq_ok.2 ⟨true, ?_, bind_eq_ok.2 ⟨_, ih hrest, rfl⟩⟩⟩
      rw [hkey]
      exact hsecret

theorem rowToDict_key (r : Row b .setting) :
    (rowToDict r).getD "key" (.str "") = r.get "key" := by
  obtain ⟨k, hk⟩ := setting_key r
  have hget := (carries_rowToDict r).get (c := .required "key" .string) (by decide)
  change (rowToDict r).lookup "key" = some (serialise (r.get "key")) at hget
  rw [Dict.getD, hget, hk]
  rfl

theorem secrets_transfer : ∃ e ps,
    Transfers S secretsContributor (secretsContributor : Contributor b') [] e ps := by
  obtain ⟨kept, hkept⟩ := keepSecrets_ok (selectSettings .platform none S) fun r _ => setting_key r
  refine ⟨{ rows := kept.map rowToDict }, rowsInto .setting (kept.map rowToDict), ?_, rfl, ?_, ?_,
    ?_⟩
  · exact bind_eq_ok.2 ⟨kept, hkept, rfl⟩
  · refine carried_rowsInto carries_rowToDict fun r hr => ?_
    rw [platformRows_settings]
    exact mem_of_keepSecrets hkept hr
  · intro m hm
    cases hm
  · intro t db db' h
    have hsafe : keepSecretRows (kept.map fun r => .object (rowToDict r)) =
        .ok (kept.map rowToDict) := keepSecrets_map rowToDict_key hkept
    have hiter : (JsonDoc.ofRows (kept.map rowToDict)).iter =
        .ok (kept.map fun r => .object (rowToDict r)) := by
      rw [JsonDoc.ofRows, List.map_map]
      rfl
    change ∃ n, transaction db ((JsonDoc.ofRows (kept.map rowToDict)).iter >>= fun rows =>
      keepSecretRows rows >>= fun safe_rows => upsertRows .setting safe_rows db) = _
    rw [hiter]
    change ∃ n, transaction db (keepSecretRows _ >>= fun safe_rows =>
      upsertRows .setting safe_rows db) = _
    rw [hsafe]
    change ∃ n, transaction db (upsertRows .setting _ db) = _
    rw [upsertRows_of_mergeEach h]
    exact ⟨_, rfl⟩

end

/-! ## A whole restore -/

/-- A call of `restore` does the merges of its rows. -/
def Remerges (call : RestoreCall b) (ps : List (Model × Dict)) : Prop :=
  ∀ db db', mergeEach ps db = .ok db' → ∃ n, call.run .platform db = (.ok n, db')

theorem foldl_restoreCall {cs : List (RestoreCall b × List (Model × Dict))} {db db' : Database b}
    (hcs : ∀ c ∈ cs, Remerges c.1 c.2) (summary : RestoreSummary)
    (h : mergeEach (cs.flatMap Prod.snd) db = .ok db') :
    ∃ summary', (cs.map Prod.fst).foldl (restoreCall .platform) (summary, db) = (summary', db') ∧
      summary'.warnings = summary.warnings := by
  induction cs generalizing summary db with
  | nil =>
    cases h
    exact ⟨summary, rfl, rfl⟩
  | cons c cs ih =>
    rw [List.flatMap_cons, mergeEach_append] at h
    obtain ⟨db₁, hfirst, hrest⟩ := bind_eq_ok.1 h
    obtain ⟨n, hrun⟩ := hcs c List.mem_cons_self db db₁ hfirst
    obtain ⟨summary', hfold, hwarn⟩ := ih (fun c' hc => hcs c' (List.mem_cons_of_mem _ hc))
      { summary with
        total_rows_upserted := summary.total_rows_upserted + n
        contributors_restored :=
          summary.contributors_restored ++ [c.1.contributor.contributor_id] } hrest
    refine ⟨summary', ?_, hwarn⟩
    rw [List.map_cons, List.foldl_cons, restoreCall, hrun]
    exact hfold

/-- A bundle of the source, opened for the store: its calls merge rows of the source, all that are
to be exported among them. -/
structure OpensAs (S : Database b) (svc : BackupService b') (o : OpenBundle)
    (cs : List (RestoreCall b' × List (Model × Dict))) : Prop where
  platform : o.manifest.scope = .platform
  noTenant : o.tenant_id = none
  calls : svc.restoreCalls o = cs.map Prod.fst
  merges : ∀ c ∈ cs, Remerges c.1 c.2
  carried : ∀ p ∈ cs.flatMap Prod.snd, Carried S p
  all : ∀ m, ∀ v ∈ platformRows S m, ∃ row, (m, row) ∈ cs.flatMap Prod.snd ∧ Carries row v

theorem platform_inScope (app_name app_version : String) :
    (buildBackupService app_name app_version none : BackupService b).inScope .platform =
      [tenantsContributor, usersContributor, settingsContributor, secretsContributor,
        auditLogContributor] := rfl

/-- What one contributor exports, with the contributor of the store that restores it and the merges
which that does. -/
abbrev Part (b : Backend) := Contributor b × ContributorExport × List (Model × Dict)

theorem platform_parts (b' : Backend) (S : Database b)
    (app_name app_version app_name' app_version' : String) :
    ∃ parts : List (Part b'),
      ((buildBackupService app_name app_version none).inScope .platform).mapM
        (BackupService.exportPayload .platform none S) =
          .ok (parts.map fun p => (p.1.contributor_id, p.2.1)) ∧
      (buildBackupService app_name' app_version' none).inScope .platform = parts.map Prod.fst ∧
      (∀ p ∈ parts, ∃ c ms, Transfers S c p.1 ms p.2.1 p.2.2) ∧
      ∀ m, ∀ v ∈ platformRows S m, ∃ row, (∃ p ∈ parts, (m, row) ∈ p.2.2) ∧ Carries row v := by
  obtain ⟨eT, psT, hT⟩ := tenants_transfer b' S
  obtain ⟨eU, psU, hU⟩ := users_transfer b' S
  obtain ⟨eS, psS, hS⟩ := settings_transfer b' S
  obtain ⟨eX, psX, hX⟩ := secrets_transfer b' S
  obtain ⟨eA, psA, hA⟩ := auditLog_transfers b' S
  have hpay : ∀ {c : Contributor b} {e : ContributorExport}, c.exportAll .platform none S = .ok e →
      BackupService.exportPayload .platform none S c = .ok (c.contributor_id, e) := by
    intro c e he
    exact bind_eq_ok.2 ⟨e, he, rfl⟩
  refine ⟨[(tenantsContributor, eT, psT), (usersContributor, eU, psU),
    (settingsContributor, eS, psS), (secretsContributor, eX, psX), (auditLogContributor, eA, psA)],
    ?_, rfl, ?_, ?_⟩
  · rw [platform_inScope]
    simp only [List.mapM_cons, List.mapM_nil, hpay hT.exported, hpay hU.exported,
      hpay hS.exported, hpay hX.exported, hpay hA.exported]
    rfl
  · simp only [List.forall_mem_cons, List.not_mem_nil, false_implies, implies_true, and_true]
    exact ⟨⟨_, _, hT⟩, ⟨_, _, hU⟩, ⟨_, _, hS⟩, ⟨_, _, hX⟩, ⟨_, _, hA⟩⟩
  · intro m v hv
    simp only [List.mem_cons, List.not_mem_nil, or_false, exists_eq_or_imp, exists_eq_left]
    cases m with
    | tenant =>
      obtain ⟨row, hrow, hc⟩ := hT.all .tenant (by decide) v hv
      exact ⟨row, .inl hrow, hc⟩
    | role =>
      obtain ⟨row, hrow, hc⟩ := hT.all .role (by decide) v hv
      exact ⟨row, .inl hrow, hc⟩
    | user =>
      obtain ⟨row, hrow, hc⟩ := hU.all .user (by decide) v hv
      exact ⟨row, .inr (.inl hrow), hc⟩
    | userTenantRole =>
      obtain ⟨row, hrow, hc⟩ := hU.all .userTenantRole (by decide) v hv
      exact ⟨row, .inr (.inl hrow), hc⟩
    | setting =>
      obtain ⟨row, hrow, hc⟩ := hS.all .setting (by decide) v hv
      exact ⟨row, .inr (.inr (.inl hrow)), hc⟩
    | auditLog =>
      obtain ⟨row, hrow, hc⟩ := hA.all .auditLog (by decide) v hv
      exact ⟨row, .inr (.inr (.inr (.inr hrow))), hc⟩
    | item =>
      have hplatform := (List.mem_filter.1 hv).2
      cases hplatform

theorem platform_packable {parts : List (Part b')} {S : Database b}
    (hscope : (buildBackupService app_name app_version none : BackupService b').inScope .platform =
      parts.map Prod.fst) (hparts : ∀ p ∈ parts, ∃ c ms, Transfers S c p.1 ms p.2.1 p.2.2) :
    Packable (parts.map fun p => (p.1.contributor_id, p.2.1)) := by
  have hids : (parts.map fun p => (p.1.contributor_id, p.2.1)).map Prod.fst =
      ((buildBackupService app_name app_version none : BackupService b').inScope .platform).map
        Contributor.contributor_id := by
    rw [hscope, List.map_map, List.map_map]
    rfl
  constructor
  · rw [hids]
    exact inScope_nodup
  · intro p hp
    have hid : p.1 ∈ ["tenants", "users", "settings", "secrets", "audit_log"] := by
      have hmem := List.mem_map_of_mem (f := Prod.fst) hp
      rw [hids, platform_inScope] at hmem
      exact hmem
    have hall : ∀ cid ∈ ["tenants", "users", "settings", "secrets", "audit_log"],
        cid ≠ "" ∧ '/' ∉ cid.toList := by decide +kernel
    exact hall p.1 hid
  · intro q hq f hf
    obtain ⟨p, hp, rfl⟩ := List.mem_map.1 hq
    obtain ⟨c, ms, htransfers⟩ := hparts p hp
    rw [htransfers.noFiles] at hf
    cases hf

theorem exportPlatform_opens (b' : Backend) (S : Database b)
    (app_name app_version app_name' app_version' user_id ip : String) (now : DateTime) :
    ∃ bundle S₁ o cs, (buildBackupService app_name app_version none).exportPlatform user_id ip now
        S = .ok (bundle, S₁) ∧ openBundle bundle.tarball = .ok o ∧
      OpensAs S (buildBackupService app_name' app_version' none : BackupService b') o cs := by
  obtain ⟨parts, hpayloads, hscope, hparts, hall⟩ :=
    platform_parts b' S app_name app_version app_name' app_version'
  let payloads := parts.map fun p => (p.1.contributor_id, p.2.1)
  let manifest :=
    (buildBackupService app_name app_version none : BackupService b).manifest .platform none now
      payloads
  obtain ⟨data, hunpack, hdata⟩ := unpack_packed manifest (platform_packable hscope hparts)
  have hfind : ∀ p ∈ parts, data.find p.1.contributor_id =
      some (p.1.contributor_id, ⟨.ofRows p.2.1.rows, p.2.1.files⟩) := by
    intro p hp
    apply KeyedTable.find_of_mem
      (x := (p.1.contributor_id, (⟨.ofRows p.2.1.rows, p.2.1.files⟩ : Payload)))
    rw [hdata, List.map_map]
    exact List.mem_map_of_mem hp
  have hcalls : (parts.map Prod.fst).filterMap (fun c => (data.find c.contributor_id).map fun p =>
      (⟨c, none, p.2⟩ : RestoreCall b')) =
        parts.map fun p => ⟨p.1, none, ⟨.ofRows p.2.1.rows, p.2.1.files⟩⟩ := by
    rw [List.filterMap_map, ← List.filterMap_eq_map']
    apply List.filterMap_congr
    intro p hp
    rw [Function.comp_apply, hfind p hp]
    rfl
  have hpairs : (parts.map fun p : Part b' => ((⟨p.1, none, ⟨.ofRows p.2.1.rows, p.2.1.files⟩⟩ :
      RestoreCall b'), p.2.2)).flatMap Prod.snd = parts.flatMap fun p => p.2.2 :=
    List.flatMap_map ..
  obtain ⟨S₁, hexport⟩ : ∃ S₁, (buildBackupService app_name app_version none).exportPlatform
      user_id ip now S = .ok (buildTarball manifest payloads, S₁) :=
    ⟨_, bind_eq_ok.2 ⟨_, bind_eq_ok.2 ⟨_, hpayloads, rfl⟩, rfl⟩⟩
  refine ⟨_, S₁, ⟨manifest, data, none⟩, parts.map fun p =>
    (⟨p.1, none, ⟨.ofRows p.2.1.rows, p.2.1.files⟩⟩, p.2.2), hexport, ?_, ?_⟩
  · apply bind_eq_ok.2
    exact ⟨_, hunpack, rfl⟩
  · constructor
    · rfl
    · rfl
    · change ((buildBackupService app_name' app_version' none : BackupService b').inScope
        .platform).filterMap _ = _
      rw [hscope, hcalls, List.map_map]
      rfl
    · intro c hc
      obtain ⟨p, hp, rfl⟩ := List.mem_map.1 hc
      obtain ⟨_, _, htransfers⟩ := hparts p hp
      exact htransfers.merges .none
    · rw [hpairs]
      intro q hq
      obtain ⟨p, hp, hq⟩ := List.mem_flatMap.1 hq
      obtain ⟨_, _, htransfers⟩ := hparts p hp
      exact htransfers.carried q hq
    · rw [hpairs]
      intro m v hv
      obtain ⟨row, ⟨p, hp, hrow⟩, hcarries⟩ := hall m v hv
      exact ⟨row, List.mem_flatMap.2 ⟨p, hp, hrow⟩, hcarries⟩

/-! ## The merge and its repetition -/

/-- One more row in the audit log, or none where it cannot be stored. -/
def Logs (action : String) (db db' : Database b) : Prop :=
  db' = db ∨ ∃ r : Row b .auditLog, r.get "action" = .str action ∧
    db.find .auditLog r.id = none ∧ db' = Database.put { db with drawn := db.drawn + 1 } r

/-- Restoring a bundle merges the source into the store, restoring it again does nothing: neither
warns, and each leaves an entry in the audit log. -/
def RestoresAsMerge (svc : BackupService b') (bundle : Tarball) (S : Database b)
    (S' : Database b') : Prop :=
  ∀ user_id ip, ∃ summary merged db,
    svc.restoreBundle bundle user_id ip S' = (.ok summary, db) ∧ summary.warnings = [] ∧
    RestoredOver S S' merged ∧ Logs "backup.platform.restore" merged db ∧
    ∀ user_id' ip', ∃ summary' db',
      svc.restoreBundle bundle user_id' ip' db = (.ok summary', db') ∧ summary'.warnings = [] ∧
      Logs "backup.platform.restore" db db'

theorem auditLog_logs (user_id action target_type target_id ip_address : String)
    (tenant_id : Option String) (detail : Val) (db : Database b) :
    Logs action db
      (auditLog user_id action target_type target_id ip_address tenant_id detail db) := by
  rw [auditLog]
  split
  · rename_i db' h
    obtain ⟨r, hr, hnone, hdb⟩ := insertRow_ok h
    refine .inr ⟨r, ?_, hnone, hdb⟩
    rw [Row.get, hr]
    rfl
  · exact .inl rfl

section

variable {S : Database b} {S' db db' : Database b'}

theorem mergeable_of (hclash : Compatible S S') (hmerge : WritesJustGiven S S') :
    Mergeable S S' := by
  constructor
  · intro m v hv h
    obtain ⟨r, hr, hid, hconf⟩ := clashes_iff.1 h
    exact hclash m v (mem_of_platformRows hv) r hr hid hconf
  · intro m v hv l hl
    apply over_eq_on
    intro ht
    exact hmerge m ht v hv l (KeyedTable.mem_of_find hl) (Database.id_of_find hl).symm

/-- An entry in the audit log stands in the way of nothing. -/
theorem Logs.mergeable (h : Logs action db db')
    (hstored : ∀ m, ∀ v ∈ platformRows S m, db.find m v.id = some (v.on b'))
    (hready : Mergeable S db) :
    Mergeable S db' ∧ ∀ m, ∀ v ∈ platformRows S m, db'.find m v.id = some (v.on b') := by
  rcases h with rfl | ⟨r, -, hnone, rfl⟩
  · exact ⟨hready, hstored⟩
  · have hkept : ∀ m, ∀ v ∈ platformRows S m,
        (Database.put { db with drawn := db.drawn + 1 } r).find m v.id = some (v.on b') := by
      intro m v hv
      rw [Database.find_put_of_ne]
      · exact hstored m v hv
      · by_cases hm : m = .auditLog
        · subst hm
          right
          intro hid
          have hv' := hstored .auditLog v hv
          rw [hid, hnone] at hv'
          cases hv'
        · exact .inl hm
    refine ⟨⟨?_, ?_⟩, hkept⟩
    · intro m v hv hclash
      obtain ⟨x, hx, hid, hconf⟩ := clashes_iff.1 hclash
      by_cases hm : m = .auditLog
      · subst hm
        obtain ⟨_, hcols, -⟩ := hconf
        cases hcols
      · rw [select_put_of_ne hm] at hx
        exact hready.noClash m v hv (clashes_iff.2 ⟨x, hx, hid, hconf⟩)
    · intro m v hv l hl
      rw [hkept m v hv] at hl
      cases hl
      exact over_on v

theorem restoreBundle_of_merges {svc : BackupService b'} (hopen : openBundle bundle = .ok o)
    (h : OpensAs S svc o cs) (hmerge : mergeEach (cs.flatMap Prod.snd) db = .ok db')
    (user_id ip : String) :
    ∃ summary logged, svc.restoreBundle bundle user_id ip db = (.ok summary, logged) ∧
      summary.warnings = [] ∧ Logs "backup.platform.restore" db' logged := by
  obtain ⟨summary, hfold, hwarn⟩ := foldl_restoreCall h.merges
    { scope := o.manifest.scope, tenant_slug := o.manifest.tenant_slug } hmerge
  have hall : svc.restoreAll o db = (summary, db') := by
    rw [BackupService.restoreAll, h.calls, h.platform]
    rw [h.platform] at hfold
    exact hfold
  have hlogs : Logs "backup.platform.restore" db' (auditLog user_id "backup.platform.restore"
      "system" "" ip none summary.detail db') := auditLog_logs ..
  refine ⟨summary, _, ?_, hwarn, hlogs⟩
  rw [BackupService.restoreBundle, hopen]
  simp only [hall, h.noTenant, auditTenantId, BackupService.logRestore, h.platform]
  rfl

/-- Restoring a platform export stores what the source exports (on a database of the same kind
`v.on b'` is `v`) and changes nothing else; restoring it again changes nothing at all. -/
theorem platform_restore_merges (hsource : S.Consistent) (hclash : Compatible S S')
    (hmerge : WritesJustGiven S S')
    (app_name app_version app_name' app_version' user_id ip : String) (now : DateTime) :
    ∃ bundle S₁, (buildBackupService app_name app_version none).exportPlatform user_id ip now S =
        .ok (bundle, S₁) ∧
      RestoresAsMerge (buildBackupService app_name' app_version' none) bundle.tarball S S' := by
  obtain ⟨bundle, S₁, o, cs, hexport, hopen, hopens⟩ :=
    exportPlatform_opens b' S app_name app_version app_name' app_version' user_id ip now
  refine ⟨bundle, S₁, hexport, ?_⟩
  intro user_id' ip'
  have hready := mergeable_of hclash hmerge
  obtain ⟨merged, hall, hmerged, hover, hstored⟩ := hready.mergeEach hsource hopens.carried
  have hstored' : ∀ m, ∀ v ∈ platformRows S m, merged.find m v.id = some (v.on b') := by
    intro m v hv
    obtain ⟨row, hrow, hcarries⟩ := hopens.all m v hv
    exact hstored (m, row) hrow v hv hcarries
  obtain ⟨summary, db, hrestore, hwarn, hlogs⟩ :=
    restoreBundle_of_merges hopen hopens hall user_id' ip'
  obtain ⟨hagain, hagain'⟩ := hlogs.mergeable hstored' hmerged
  refine ⟨summary, merged, db, hrestore, hwarn, ⟨hstored', ?_, hover.files⟩, hlogs, ?_⟩
  · intro m key hkey
    rcases hover.rows m key with hsame | ⟨v, hv, hid, -⟩
    · exact hsame
    · exact (hkey v hv hid).elim
  · intro user_id'' ip''
    exact restoreBundle_of_merges hopen hopens
      (hagain.mergeEach_stored hopens.carried hagain') user_id'' ip''

end

section

/-- The tenant under another name, before its last change. -/
def acmeBefore : Row .sqlite .tenant :=
  ⟨[("id", acmeTenant.id), ("name", .str "Old"), ("slug", .str "old"), ("api_key_hash", .none),
    ("api_key_prefix", .none), ("is_active", .bool false), ("created_at", .datetime newYear),
    ("updated_at", .datetime newYear)], by decide +kernel⟩

def beforeAcme : Database .sqlite := (noData.put acmeBefore).put themeSetting

/-- Onto an older version of the tenant. -/
theorem platform_restore_merges_acme : ∃ bundle S₁,
    (buildBackupService "app" "1.0" none).exportPlatform "root" "127.0.0.1" newYear acmeData =
        .ok (bundle, S₁) ∧
      RestoresAsMerge (buildBackupService "app" "2.0" none) bundle.tarball acmeData beforeAcme := by
  apply platform_restore_merges
  · intro m
    cases m <;> decide +kernel
  · intro m
    cases m <;> decide +kernel
  · intro m
    cases m <;> decide +kernel

end

end ScottyCore
