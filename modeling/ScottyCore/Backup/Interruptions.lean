import ScottyCore.Backup.PlatformRestore

namespace ScottyCore
open Python
set_option autoImplicit true

variable {b : Backend}

/-! ## Failures from outside -/

/-- Where the disk fails: at the base directory, or at a file, whose `.part` file has got some bytes
or was not written. -/
inductive DiskFailure where
  | base (exc : Exc)
  | file (restored : Nat) (part : Option (List UInt8)) (exc : Exc)

/-- What is raised from outside in the session of a contributor, and by the disk. -/
structure Failures where
  session : String → Option Exc
  disk : Option DiskFailure

/-- `restore` with something raised in its session, at any row or at the commit. -/
def Contributor.interrupted (c : Contributor b) : Option Exc → Contributor b
  | none => c
  | some exc => { c with restore := fun _ _ _ _ db => transaction db (.error exc) }

/-- The bytes in a `.part` file, if `restore` gets that far. -/
def partWrites (base : List String) (file : String × List UInt8) (part : Option (List UInt8))
    (db : Database b) : List (List String × Option (List UInt8)) :=
  let parts := targetParts base file.1
  match List.isPrefixOf? base (resolveParts parts), List.isPrefixOf? base (partParts parts) with
  | some _, some tmp =>
    if isBlocked base parts db ∨ isDirectory tmp db then []
    else part.toList.map fun bytes => (tmp, some bytes)
  | _, _ => []

/-- The loop of `FilesContributor.restore` on a disk that fails at a file. -/
def writeFilesUntil (base : List String) (part : Option (List UInt8)) (exc : Exc) :
    Nat → List (String × List UInt8) → Database b → Except Exc Nat × Database b
  | _, [], db => (.ok 0, db)
  | 0, file :: _, db => (.error exc, (partWrites base file part db).foldl setUpload db)
  | restored + 1, file :: files, db =>
    match writeFile base file db with
    | (some e, db) => (.error e, db)
    | (none, db) => writeFilesUntil base part exc restored files db

def filesContributorOn (base : List String) (max_bytes_per_file : Nat) :
    Option DiskFailure → Contributor b
  | none => filesContributor base max_bytes_per_file
  | some (.base exc) =>
    { filesContributor base max_bytes_per_file with restore := fun _ _ _ _ db => (.error exc, db) }
  | some (.file restored part exc) =>
    { filesContributor base max_bytes_per_file with
      restore := fun _ _ _ files db => writeFilesUntil base part exc restored files db }

def uploadsBase (dir : String) : List String := resolveParts (splitPath dir)

/-- The service of `build_backup_service` where failures come from outside. -/
def failingService (failures : Failures) (app_name app_version : String)
    (uploads_base_dir : Option String) : BackupService b :=
  let rows := builtinContributors.map fun c => c.interrupted (failures.session c.contributor_id)
  let uploads := (uploads_base_dir.filter (· ≠ "")).toList.map fun dir =>
    filesContributorOn (uploadsBase dir) maxBytesPerFile failures.disk
  (rows ++ uploads).foldl BackupService.register ⟨∅, app_name, app_version⟩

theorem failingService_none (app_name app_version : String) (dir : Option String) :
    (failingService ⟨fun _ => none, none⟩ app_name app_version dir : BackupService b) =
      buildBackupService app_name app_version dir := by
  rw [failingService, buildBackupService]
  cases dir.filter (· ≠ "") with
  | none => rfl
  | some dir => rfl

/-! ## What is applied -/

/-- The summary warns of a contributor. -/
def RestoreSummary.Warns (summary : RestoreSummary) (cid : String) : Prop :=
  ∃ w ∈ summary.warnings, (cid ++ ": ").toList <+: w.toList

instance (summary : RestoreSummary) (cid : String) : Decidable (summary.Warns cid) :=
  inferInstanceAs (Decidable (∃ w ∈ summary.warnings, _))

def tablesOf : String → List Model
  | "users" => [.user, .userTenantRole]
  | "tenants" => [.role, .tenant]
  | "settings" | "secrets" => [.setting]
  | "items" => [.item]
  | "audit_log" => [.auditLog]
  | _ => []

/-- The rows of a payload that a contributor takes, each with its table: the tagged ones, those with
a secret key, or all. -/
def takenRows (cid : String) (doc : JsonDoc) : Except Exc (List (Model × Dict)) :=
  match cid with
  | "users" => doc.dicts.map fun rows =>
    rowsInto .user (taggedRows "users" rows) ++
      rowsInto .userTenantRole (taggedRows "user_tenant_roles" rows)
  | "tenants" => doc.dicts.map fun rows =>
    rowsInto .role (taggedRows "roles" rows) ++ rowsInto .tenant (taggedRows "tenants" rows)
  | "settings" => (doc.rowsFor .setting).map (rowsInto .setting)
  | "secrets" => doc.secretRows.map (rowsInto .setting)
  | "items" => (doc.rowsFor .item).map (rowsInto .item)
  | "audit_log" => (doc.rowsFor .auditLog).map (rowsInto .auditLog)
  | _ => .ok []

/-- All rows are merged, in their order, and the last one of each id is what is stored. -/
structure RowsApplied (taken : List (Model × Dict)) (db db' : Database b) : Prop where
  merged : mergeEach taken db = .ok db'
  stored : ∀ before m row after, taken = before ++ (m, row) :: after → row.get "id" ≠ .none →
    (∀ p ∈ after, p.1 = m → p.2.get "id" ≠ row.get "id") →
      ∃ r, db'.find m (row.get "id") = some r ∧
        ∀ c ∈ m.columns, c.Plain → ∀ v, row.lookup c.name = some v → r.get c.name = v

/-- The place of a file below the base, if it is not outside. -/
def placeBelow (base : List String) (file : String × List UInt8) : Option (List String) :=
  List.isPrefixOf? base (resolveParts (targetParts base file.1))

def partBelow (base : List String) (file : String × List UInt8) : Option (List String) :=
  List.isPrefixOf? base (partParts (targetParts base file.1))

/-- All files that are not outside are written, and the last one of each place is what is there,
unless the place is a `.part` name. -/
structure FilesApplied (base : List String) (files : List (String × List UInt8))
    (db db' : Database b) : Prop where
  written : writeFiles base files db = (.ok 0, db')
  stored : ∀ before file after path, files = before ++ file :: after →
    placeBelow base file = some path →
    (∀ f ∈ after, placeBelow base f ≠ some path ∧ partBelow base f ≠ some path) →
      db'.uploads.find path = some (path, file.2)

/-- Nothing is written, or the files up to one of them, and of that one at most a `.part` file. -/
def FilesFailed (base : List String) (files : List (String × List UInt8))
    (db db' : Database b) : Prop :=
  db' = db ∨ ∃ done file rest d, files = done ++ file :: rest ∧ FilesApplied base done db d ∧
    (db' = d ∨ ∃ tmp bytes, partBelow base file = some tmp ∧ db' = setUpload d (tmp, some bytes))

/-! ## One merge -/

section

variable {m : Model} {db db' : Database b}

theorem mergeRow_frame (h : mergeRow m row db = .ok db') :
    db'.uploads = db.uploads ∧ ∀ m' ≠ m, db'.table m' = db.table m' := by
  rcases mergeRow_cases h with ⟨_, _, rfl⟩ | ⟨_, r, _, _, rfl⟩ | ⟨r, _, _, rfl⟩
  · exact ⟨rfl, fun _ _ => rfl⟩
  · exact ⟨rfl, fun m' hm => Database.table_put_of_ne db r hm⟩
  · exact ⟨rfl, fun m' hm => Database.table_put_of_ne _ r hm⟩

/-- The stored row has the plain cells that it is given. -/
theorem mergeRow_stores (h : mergeRow m row db = .ok db') (hid : row.get "id" ≠ .none) :
    ∃ r, db'.find m (row.get "id") = some r ∧
      ∀ c ∈ m.columns, c.Plain → ∀ v, row.lookup c.name = some v → r.get c.name = v := by
  obtain ⟨given, hg, ⟨l, hl, hsame, rfl⟩ | ⟨l, r, assigned, hl, -, hset, hr, hrid, rfl⟩ |
    ⟨r, bound, -, hbound, hr, -, rfl⟩⟩ := mergeRow_inv h
  · refine ⟨l, hl, ?_⟩
    intro c hc hp v hv
    have hgiven : given.lookup c.name = some v :=
      (lookup_mapColumns_plain hg hc fun _ => hydrateCell_id hp.type).trans hv
    exact (eq_of_plain hc hp (eq_of_unchanged hsame hc hgiven)).symm
  · refine ⟨r, hrid ▸ Database.find_put_self db r, ?_⟩
    intro c hc hp v hv
    have hcell : (updateCells db.now assigned l.val m.columns).get c.name =
        row.getD c.name (l.get c.name) := updateCells_plain hc hp hg hset
    rw [Row.get, hr, hcell, Dict.getD, hv]
    rfl
  · have hrid := inserted_id hid hg hbound hr
    refine ⟨r, hrid ▸ Database.find_put_self _ r, ?_⟩
    intro c hc hp v hv
    rw [Row.get, hr, insertCells_plain hc hp hg hbound, Dict.get, hv]
    rfl

/-! ## The rows of one contributor -/

theorem mergeEach_frame (h : mergeEach taken db = .ok db') :
    db'.uploads = db.uploads ∧ ∀ m, m ∉ taken.map Prod.fst → db'.table m = db.table m := by
  induction taken generalizing db with
  | nil =>
    cases h
    exact ⟨rfl, fun _ _ => rfl⟩
  | cons p taken ih =>
    obtain ⟨db₁, hfirst, hrest⟩ := bind_eq_ok.1 h
    obtain ⟨huploads, htables⟩ := mergeRow_frame hfirst
    obtain ⟨huploads', htables'⟩ := ih hrest
    refine ⟨huploads'.trans huploads, ?_⟩
    intro m hm
    rw [List.map_cons, List.mem_cons, not_or] at hm
    exact (htables' m hm.2).trans (htables m hm.1)

theorem mergeEach_kept {l : Row b m} (h : mergeEach taken db = .ok db')
    (hl : db.find m key = some l) (hkey : ∀ p ∈ taken, p.1 = m → p.2.get "id" ≠ key) :
    db'.find m key = some l := by
  induction taken generalizing db with
  | nil =>
    cases h
    exact hl
  | cons p taken ih =>
    obtain ⟨db₁, hfirst, hrest⟩ := bind_eq_ok.1 h
    apply ih hrest _ fun q hq => hkey q (List.mem_cons_of_mem p hq)
    apply find_mergeRow_of_ne hfirst _ hl
    by_cases hm : m = p.1
    · exact .inr (hkey p List.mem_cons_self hm.symm).symm
    · exact .inl hm

theorem rowsApplied_of_merged (h : mergeEach taken db = .ok db') : RowsApplied taken db db' := by
  refine ⟨h, ?_⟩
  rintro before m row after rfl hid hlast
  rw [mergeEach_append] at h
  obtain ⟨db₁, -, h⟩ := bind_eq_ok.1 h
  obtain ⟨db₂, hmerge, hrest⟩ := bind_eq_ok.1 h
  obtain ⟨r, hr, hcells⟩ := mergeRow_stores hmerge hid
  exact ⟨r, mergeEach_kept hrest hr hlast, hcells⟩

/-- A restore merges all rows that are taken in one transaction, or raises and does nothing. -/
def OneTransaction (c : Contributor b) : Prop :=
  ∀ scope t doc files db,
    (∃ e, c.restore scope t doc files db = (.error e, db)) ∨
      ∃ n taken db', c.restore scope t doc files db = (.ok n, db') ∧
        takenRows c.contributor_id doc = .ok taken ∧ mergeEach taken db = .ok db'

theorem transaction_cases (x : Except Exc (Nat × Database b)) :
    (∃ e, transaction db x = (.error e, db)) ∨
      ∃ n db', transaction db x = (.ok n, db') ∧ x = .ok (n, db') := by
  cases x with
  | error e => exact .inl ⟨e, rfl⟩
  | ok r => exact .inr ⟨r.1, r.2, rfl, rfl⟩

theorem upsertTwo_ok {m₁ m₂ : Model} {rows₁ rows₂ : List Dict}
    (h : (do
      let (total, db) ← upsertRows m₁ rows₁ db
      let (more, db) ← upsertRows m₂ rows₂ db
      Except.ok (total + more, db)) = .ok (n, db')) :
    mergeEach (rowsInto m₁ rows₁ ++ rowsInto m₂ rows₂) db = .ok db' := by
  obtain ⟨⟨n₁, db₁⟩, hfirst, h⟩ := bind_eq_ok.1 h
  obtain ⟨⟨n₂, db₂⟩, hsecond, h⟩ := bind_eq_ok.1 h
  cases h
  rw [mergeEach_append, mergeEach_rowsInto, upsertRows_ok_iff.1 ⟨n₁, hfirst⟩]
  change mergeEach (rowsInto m₂ rows₂) db₁ = _
  rw [mergeEach_rowsInto, upsertRows_ok_iff.1 ⟨n₂, hsecond⟩]

theorem upsertDoc_taken (h : upsertDoc m doc db = .ok (n, db')) :
    ∃ taken, (doc.rowsFor m).map (rowsInto m) = .ok taken ∧ mergeEach taken db = .ok db' := by
  obtain ⟨rows, hrows, hall⟩ := upsertDoc_ok_iff.1 ⟨n, h⟩
  exact ⟨rowsInto m rows, map_eq_ok.2 ⟨rows, hrows, rfl⟩, (mergeEach_rowsInto m rows db).trans hall⟩

theorem oneTransaction_builtin {c : Contributor b} (hc : c ∈ builtinContributors) :
    OneTransaction c := by
  intro scope t doc files db
  simp only [builtinContributors, List.mem_cons, List.not_mem_nil, or_false] at hc
  rcases hc with rfl | rfl | rfl | rfl | rfl | rfl
  · apply (transaction_cases _).imp_right
    rintro ⟨n, db', hrun, h⟩
    obtain ⟨rows, hrows, h⟩ := bind_eq_ok.1 h
    exact ⟨n, _, db', hrun, map_eq_ok.2 ⟨rows, hrows, rfl⟩, upsertTwo_ok h⟩
  · apply (transaction_cases _).imp_right
    rintro ⟨n, db', hrun, h⟩
    obtain ⟨rows, hrows, h⟩ := bind_eq_ok.1 h
    exact ⟨n, _, db', hrun, map_eq_ok.2 ⟨rows, hrows, rfl⟩, upsertTwo_ok h⟩
  · apply (transaction_cases _).imp_right
    rintro ⟨n, db', hrun, h⟩
    obtain ⟨taken, htaken, hmerge⟩ := upsertDoc_taken h
    exact ⟨n, taken, db', hrun, htaken, hmerge⟩
  · apply (transaction_cases _).imp_right
    rintro ⟨n, db', hrun, h⟩
    obtain ⟨items, hitems, h⟩ := bind_eq_ok.1 h
    obtain ⟨rows, hrows, h⟩ := bind_eq_ok.1 h
    refine ⟨n, rowsInto .setting rows, db', hrun, ?_, ?_⟩
    · exact map_eq_ok.2 ⟨rows, bind_eq_ok.2 ⟨items, hitems, hrows⟩, rfl⟩
    · rw [mergeEach_rowsInto, upsertRows_ok_iff.1 ⟨n, h⟩]
  · apply (transaction_cases _).imp_right
    rintro ⟨n, db', hrun, h⟩
    obtain ⟨taken, htaken, hmerge⟩ := upsertDoc_taken h
    exact ⟨n, taken, db', hrun, htaken, hmerge⟩
  · apply (transaction_cases _).imp_right
    rintro ⟨n, db', hrun, h⟩
    obtain ⟨taken, htaken, hmerge⟩ := upsertDoc_taken h
    exact ⟨n, taken, db', hrun, htaken, hmerge⟩

theorem OneTransaction.interrupted {c : Contributor b} (h : OneTransaction c) (exc : Option Exc) :
    OneTransaction (c.interrupted exc) := by
  cases exc with
  | none => exact h
  | some exc => exact fun _ _ _ _ _ => .inl ⟨exc, rfl⟩

theorem table_of_rowsInto {rows : List Dict} (h : p ∈ rowsInto m rows) : p.1 = m := by
  obtain ⟨row, -, rfl⟩ := List.mem_map.1 h
  rfl

theorem taken_tables (h : takenRows cid doc = .ok taken) : ∀ p ∈ taken, p.1 ∈ tablesOf cid := by
  have hone : ∀ {x : Except Exc (List Dict)} {m : Model}, x.map (rowsInto m) = .ok taken →
      ∀ p ∈ taken, p.1 ∈ [m] := by
    intro x m h p hp
    obtain ⟨rows, -, rfl⟩ := map_eq_ok.1 h
    exact List.mem_singleton.2 (table_of_rowsInto hp)
  have htwo : ∀ {x : Except Exc (List Dict)} {m m' : Model} {f g : List Dict → List Dict},
      (x.map fun rows => rowsInto m (f rows) ++ rowsInto m' (g rows)) = .ok taken →
      ∀ p ∈ taken, p.1 ∈ [m, m'] := by
    intro x m m' f g h p hp
    obtain ⟨rows, -, rfl⟩ := map_eq_ok.1 h
    rcases List.mem_append.1 hp with hp | hp
    · exact table_of_rowsInto hp ▸ List.mem_cons_self
    · exact table_of_rowsInto hp ▸ List.mem_cons_of_mem m List.mem_cons_self
  rw [takenRows.eq_def] at h
  split at h
  · exact htwo h
  · exact htwo h
  · exact hone h
  · exact hone h
  · exact hone h
  · exact hone h
  · cases h
    exact nofun

/-! ## The files -/

theorem table_writeFile (base : List String) (file : String × List UInt8) (db : Database b) :
    (writeFile base file db).2.table = db.table :=
  table_setUploads _ db

/-- What one file sets: its own place and its `.part` name. -/
theorem fileWrites_places {w : List String × Option (List UInt8)}
    (hw : w ∈ (fileWrites base file db).2) :
    placeBelow base file = some w.1 ∨ partBelow base file = some w.1 := by
  rw [fileWrites] at hw
  simp only at hw
  split at hw
  · cases hw
  · rename_i path hpath
    split at hw
    · cases hw
    · split at hw
      · cases hw
      · split at hw
        · obtain ⟨tmp, htmp, rfl⟩ := List.mem_map.1 hw
          exact .inr (Option.mem_toList.1 htmp)
        · rcases List.mem_append.1 hw with hw | hw
          · obtain ⟨tmp, htmp, rfl⟩ := List.mem_map.1 hw
            exact .inr (Option.mem_toList.1 htmp)
          · rw [List.mem_singleton.1 hw]
            exact .inl hpath

/-- A file that raises sets at most its `.part` name, to its bytes. -/
theorem fileWrites_failed (h : (fileWrites base file db).1 = some e) :
    (fileWrites base file db).2 = [] ∨
      ∃ tmp, partBelow base file = some tmp ∧
        (fileWrites base file db).2 = [(tmp, some file.2)] := by
  rw [fileWrites] at h ⊢
  simp only at h ⊢
  split at h
  · cases h
  · split at h
    · rename_i hblocked
      rw [if_pos hblocked]
      exact .inl rfl
    · rename_i hfree
      rw [if_neg hfree]
      split at h
      · rename_i htmp
        rw [if_pos htmp]
        exact .inl rfl
      · rename_i htmp
        rw [if_neg htmp]
        split at h
        · rename_i hdir
          rw [if_pos hdir, partBelow]
          cases List.isPrefixOf? base (partParts (targetParts base file.1)) with
          | none => exact .inl rfl
          | some tmp => exact .inr ⟨tmp, rfl, rfl⟩
        · cases h

theorem fileWrites_place (hplace : placeBelow base file = some path)
    (h : (fileWrites base file db).1 = none) :
    (path, some file.2) ∈ (fileWrites base file db).2 := by
  rw [placeBelow] at hplace
  rw [fileWrites, hplace] at h ⊢
  simp only at h ⊢
  split at h
  · cases h
  · rename_i hfree
    rw [if_neg hfree]
    split at h
    · cases h
    · rename_i htmp
      rw [if_neg htmp]
      split at h
      · cases h
      · rename_i hfile
        rw [if_neg hfile]
        exact List.mem_append_right _ List.mem_cons_self

theorem writeFile_stores (hplace : placeBelow base file = some path)
    (h : writeFile base file db = (none, db')) :
    db'.uploads.find path = some (path, file.2) := by
  have hset := (find_setUploads (fileWrites_nodup base file db) db).1 _
    (fileWrites_place hplace (congrArg Prod.fst h))
  have hdb : (fileWrites base file db).2.foldl setUpload db = db' := congrArg Prod.snd h
  rwa [hdb] at hset

theorem find_writeFile_of_ne (hplace : placeBelow base file ≠ some path)
    (hpart : partBelow base file ≠ some path) (db : Database b) :
    (writeFile base file db).2.uploads.find path = db.uploads.find path := by
  apply (find_setUploads (fileWrites_nodup base file db) db).2
  intro hmem
  obtain ⟨w, hw, rfl⟩ := List.mem_map.1 hmem
  rcases fileWrites_places hw with hw | hw
  · exact hplace hw
  · exact hpart hw

theorem find_writeFiles_of_ne {files : List (String × List UInt8)}
    (hfree : ∀ f ∈ files, placeBelow base f ≠ some path ∧ partBelow base f ≠ some path)
    (db : Database b) :
    (writeFiles base files db).2.uploads.find path = db.uploads.find path := by
  induction files generalizing db with
  | nil => rfl
  | cons file files ih =>
    obtain ⟨hplace, hpart⟩ := hfree file List.mem_cons_self
    have hfile := find_writeFile_of_ne hplace hpart db
    rw [writeFiles]
    split
    · rename_i hwrite
      rwa [hwrite] at hfile
    · rename_i hwrite
      rw [hwrite] at hfile
      exact (ih (fun f hf => hfree f (List.mem_cons_of_mem _ hf)) _).trans hfile

theorem writeFiles_split {before after : List (String × List UInt8)}
    (h : writeFiles base (before ++ after) db = (.ok n, db')) :
    ∃ d, writeFiles base before db = (.ok 0, d) ∧ writeFiles base after d = (.ok n, db') := by
  induction before generalizing db with
  | nil => exact ⟨db, rfl, h⟩
  | cons file before ih =>
    rw [List.cons_append, writeFiles] at h
    split at h
    · cases h
    · rename_i d hwrite
      obtain ⟨d', hbefore, hafter⟩ := ih h
      refine ⟨d', ?_, hafter⟩
      rw [writeFiles, hwrite]
      exact hbefore

theorem filesApplied_of_written (h : writeFiles base files db = (.ok 0, db')) :
    FilesApplied base files db db' := by
  refine ⟨h, ?_⟩
  rintro before file after path rfl hplace hlast
  obtain ⟨d, -, hrest⟩ := writeFiles_split h
  rw [writeFiles] at hrest
  split at hrest
  · cases hrest
  · rename_i d' hwrite
    have hkept := find_writeFiles_of_ne hlast d'
    rw [hrest] at hkept
    exact hkept.trans (writeFile_stores hplace hwrite)

theorem filesApplied_nil (base : List String) (db : Database b) : FilesApplied base [] db db :=
  filesApplied_of_written rfl

theorem filesApplied_cons (hwrite : writeFile base file db = (none, d))
    (h : FilesApplied base files d db') : FilesApplied base (file :: files) db db' := by
  apply filesApplied_of_written
  rw [writeFiles, hwrite]
  exact h.written

theorem FilesFailed.cons (hwrite : writeFile base file db = (none, d))
    (h : FilesFailed base files d db') (hne : files ≠ []) :
    FilesFailed base (file :: files) db db' := by
  rcases h with rfl | ⟨done, last, rest, d', rfl, hdone, hlast⟩
  · cases files with
    | nil => exact (hne rfl).elim
    | cons next files =>
      right
      exact ⟨[file], next, files, db', rfl,
        filesApplied_cons hwrite (filesApplied_nil base db'), .inl rfl⟩
  · exact .inr ⟨file :: done, last, rest, d', rfl, filesApplied_cons hwrite hdone, hlast⟩

theorem filesFailed_first {file : String × List UInt8} (files : List (String × List UInt8))
    (h : writes = [] ∨ ∃ tmp bytes, partBelow base file = some tmp ∧ writes = [(tmp, some bytes)])
    (db : Database b) : FilesFailed base (file :: files) db (writes.foldl setUpload db) := by
  rcases h with rfl | ⟨tmp, bytes, htmp, rfl⟩
  · exact .inl rfl
  · exact .inr ⟨[], file, files, db, rfl, filesApplied_nil base db, .inr ⟨tmp, bytes, htmp, rfl⟩⟩

theorem writeFile_failed (files : List (String × List UInt8))
    (h : writeFile base file db = (some e, d)) : FilesFailed base (file :: files) db d := by
  have hdb : (fileWrites base file db).2.foldl setUpload db = d := congrArg Prod.snd h
  rw [← hdb]
  apply filesFailed_first
  apply (fileWrites_failed (congrArg Prod.fst h)).imp_right
  rintro ⟨tmp, htmp, hwrites⟩
  exact ⟨tmp, file.2, htmp, hwrites⟩

theorem partWrites_cases (base : List String) (file : String × List UInt8)
    (part : Option (List UInt8)) (db : Database b) :
    partWrites base file part db = [] ∨ ∃ tmp bytes, partBelow base file = some tmp ∧
      partWrites base file part db = [(tmp, some bytes)] := by
  rw [partWrites, partBelow]
  split
  · rename_i tmp _ htmp
    rw [htmp]
    split_ifs
    · exact .inl rfl
    · cases part with
      | none => exact .inl rfl
      | some bytes => exact .inr ⟨tmp, bytes, rfl, rfl⟩
  · exact .inl rfl

/-- A restore puts all files in place, or raises at one of them. -/
def FileByFile (base : List String) (c : Contributor b) : Prop :=
  ∀ scope t doc files db,
    (∃ e db', c.restore scope t doc files db = (.error e, db') ∧ FilesFailed base files db db' ∧
      db'.table = db.table) ∨
    ∃ db', c.restore scope t doc files db = (.ok 0, db') ∧ FilesApplied base files db db' ∧
      db'.table = db.table

theorem writeFilesUntil_cases (base : List String) (part : Option (List UInt8)) (exc : Exc)
    (n : Nat) (files : List (String × List UInt8)) (db : Database b) :
    (∃ e db', writeFilesUntil base part exc n files db = (.error e, db') ∧ files ≠ [] ∧
      FilesFailed base files db db' ∧ db'.table = db.table) ∨
    ∃ db', writeFilesUntil base part exc n files db = (.ok 0, db') ∧
      FilesApplied base files db db' ∧ db'.table = db.table := by
  induction files generalizing n db with
  | nil =>
    right
    refine ⟨db, ?_, filesApplied_nil base db, rfl⟩
    cases n with
    | zero => rfl
    | succ n => rfl
  | cons file files ih =>
    cases n with
    | zero =>
      left
      exact ⟨exc, _, rfl, List.cons_ne_nil _ _,
        filesFailed_first files (partWrites_cases base file part db) db, table_setUploads _ db⟩
    | succ n =>
      have htable := table_writeFile base file db
      cases hwrite : writeFile base file db with
      | mk raised d =>
        rw [hwrite] at htable
        rw [writeFilesUntil, hwrite]
        cases raised with
        | some e =>
          exact .inl ⟨e, d, rfl, List.cons_ne_nil _ _, writeFile_failed files hwrite, htable⟩
        | none =>
          rcases ih n d with ⟨e, db', hrun, hne, hfailed, htables⟩ | ⟨db', hrun, happlied, htables⟩
          · exact .inl ⟨e, db', hrun, List.cons_ne_nil _ _, hfailed.cons hwrite hne,
              htables.trans htable⟩
          · exact .inr ⟨db', hrun, filesApplied_cons hwrite happlied, htables.trans htable⟩

/-- Without a failure of the disk, the loop runs as if it came after the last file. -/
theorem writeFilesUntil_length (base : List String) (part : Option (List UInt8)) (exc : Exc)
    (files : List (String × List UInt8)) (db : Database b) :
    writeFilesUntil base part exc files.length files db = writeFiles base files db := by
  induction files generalizing db with
  | nil => rfl
  | cons file files ih =>
    rw [List.length_cons, writeFilesUntil, writeFiles]
    rcases writeFile base file db with ⟨_ | e, d⟩
    · exact ih d
    · rfl

theorem fileByFile_on (base : List String) (max_bytes_per_file : Nat)
    (failure : Option DiskFailure) :
    FileByFile base (filesContributorOn base max_bytes_per_file failure : Contributor b) := by
  have hloop : ∀ {part : Option (List UInt8)} {exc : Exc} {n : Nat}
      {files : List (String × List UInt8)} {db : Database b} {result : Except Exc Nat × Database b},
      writeFilesUntil base part exc n files db = result →
      (∃ e db', result = (.error e, db') ∧ FilesFailed base files db db' ∧ db'.table = db.table) ∨
        ∃ db', result = (.ok 0, db') ∧ FilesApplied base files db db' ∧ db'.table = db.table := by
    rintro part exc n files db _ rfl
    apply (writeFilesUntil_cases base part exc n files db).imp_left
    rintro ⟨e, db', hrun, -, hfailed, htable⟩
    exact ⟨e, db', hrun, hfailed, htable⟩
  intro scope t doc files db
  cases failure with
  | none => exact hloop (writeFilesUntil_length base none (.osError "") files db)
  | some failure =>
    cases failure with
    | base exc => exact .inl ⟨exc, db, rfl, .inl rfl, rfl⟩
    | file restored part exc => exact hloop rfl

/-! ## The contributors of the service -/

theorem mem_registered {cs : List (Contributor b)} {svc : BackupService b} {c : Contributor b}
    (h : c ∈ (cs.foldl BackupService.register svc).contributors.rows) :
    c ∈ svc.contributors.rows ∨ c ∈ cs := by
  induction cs generalizing svc with
  | nil => exact .inl h
  | cons d cs ih =>
    rcases ih h with h | h
    · rcases KeyedTable.mem_upsert_iff.1 h with rfl | ⟨h, -⟩
      · exact .inr List.mem_cons_self
      · exact .inl h
    · exact .inr (List.mem_cons_of_mem d h)

/-- Of the contributors, the one of the files goes file by file below a base; each other takes one
transaction. -/
def Careful (base : List String) (c : Contributor b) : Prop :=
  (c.contributor_id ≠ "files" ∧ OneTransaction c) ∨ (c.contributor_id = "files" ∧ FileByFile base c)

theorem id_interrupted (c : Contributor b) (exc : Option Exc) :
    (c.interrupted exc).contributor_id = c.contributor_id := by
  cases exc with
  | none => rfl
  | some exc => rfl

def builtinIds : List String := ["tenants", "users", "settings", "secrets", "items", "audit_log"]

theorem builtinIds_plain : ∀ cid ∈ builtinIds, ':' ∉ cid.toList ∧ cid ≠ "files" := by decide

theorem failingService_careful {c : Contributor b}
    (h : c ∈ (failingService failures app_name app_version dir).contributors.rows) :
    ':' ∉ c.contributor_id.toList ∧ Careful (uploadsBase (dir.getD "")) c := by
  rcases mem_registered h with h | h
  · cases h
  · rcases List.mem_append.1 h with h | h
    · obtain ⟨c, hc, rfl⟩ := List.mem_map.1 h
      have hids : c.contributor_id ∈ builtinIds := List.mem_map_of_mem hc
      have hid := builtinIds_plain _ hids
      rw [id_interrupted]
      refine ⟨hid.1, .inl ⟨?_, (oneTransaction_builtin hc).interrupted _⟩⟩
      rw [id_interrupted]
      exact hid.2
    · obtain ⟨d, hd, rfl⟩ := List.mem_map.1 h
      obtain ⟨hdir, -⟩ := Option.filter_eq_some_iff.1 (Option.mem_toList.1 hd)
      have hid : (filesContributorOn (uploadsBase d) maxBytesPerFile failures.disk :
          Contributor b).contributor_id = "files" := by
        rw [filesContributorOn.eq_def]
        split
        · rfl
        · rfl
        · rfl
      rw [hid, hdir, Option.getD_some]
      exact ⟨by decide, .inr ⟨hid, fileByFile_on _ _ _⟩⟩

end

end ScottyCore
