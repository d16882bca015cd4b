import ScottyCore.Backup.Interruptions

namespace ScottyCore
open Python
set_option autoImplicit true

variable {b : Backend}

/-! ## The loop -/

section

variable {scope : BackupScope} {calls done rest : List (RestoreCall b)} {call : RestoreCall b}
variable {db : Database b} {summary : RestoreSummary} {cid : String}

/-- The calls with what each returns or raises. -/
def outcomes (scope : BackupScope) : List (RestoreCall b) → Database b →
    List (RestoreCall b × Except Exc Nat)
  | [], _ => []
  | call :: calls, db => (call, (call.run scope db).1) :: outcomes scope calls (call.run scope db).2

def restoredId (o : RestoreCall b × Except Exc Nat) : Option String :=
  match o.2 with
  | .ok _ => some o.1.contributor.contributor_id
  | .error _ => none

def warningOf (o : RestoreCall b × Except Exc Nat) : Option String :=
  match o.2 with
  | .ok _ => none
  | .error exc => some (o.1.contributor.contributor_id ++ ": " ++ exc.text)

theorem lists_foldl (calls : List (RestoreCall b)) (summary : RestoreSummary) (db : Database b) :
    (calls.foldl (restoreCall scope) (summary, db)).1.contributors_restored =
        summary.contributors_restored ++ (outcomes scope calls db).filterMap restoredId ∧
      (calls.foldl (restoreCall scope) (summary, db)).1.warnings =
        summary.warnings ++ (outcomes scope calls db).filterMap warningOf := by
  induction calls generalizing summary db with
  | nil => exact ⟨(List.append_nil _).symm, (List.append_nil _).symm⟩
  | cons call calls ih =>
    rw [List.foldl_cons, restoreCall, outcomes]
    rcases hrun : call.run scope db with ⟨exc | n, d⟩
    · have hid : restoredId (call, .error exc) = none := rfl
      have hwarning : warningOf (call, .error exc) =
        some (call.contributor.contributor_id ++ ": " ++ exc.text) := rfl
      rw [List.filterMap_cons_none hid, List.filterMap_cons_some hwarning]
      obtain ⟨hrestored, hwarnings⟩ := ih _ d
      exact ⟨hrestored, hwarnings.trans (List.append_assoc _ _ _)⟩
    · have hid : restoredId (call, .ok n) = some call.contributor.contributor_id := rfl
      have hwarning : warningOf (call, .ok n) = none := rfl
      rw [List.filterMap_cons_some hid, List.filterMap_cons_none hwarning]
      obtain ⟨hrestored, hwarnings⟩ := ih _ d
      exact ⟨hrestored.trans (List.append_assoc _ _ _), hwarnings⟩

theorem mem_outcomes {r : Except Exc Nat} : (call, r) ∈ outcomes scope calls db ↔
    ∃ done rest, calls = done ++ call :: rest ∧ (call.run scope (runAll scope done db)).1 = r := by
  induction calls generalizing db with
  | nil =>
    apply iff_of_false List.not_mem_nil
    rintro ⟨done, rest, h, -⟩
    cases List.append_ne_nil_of_right_ne_nil done (List.cons_ne_nil call rest) h.symm
  | cons first calls ih =>
    rw [outcomes, List.mem_cons, ih]
    constructor
    · rintro (h | ⟨done, rest, rfl, hrun⟩)
      · cases h
        exact ⟨[], calls, rfl, rfl⟩
      · exact ⟨first :: done, rest, rfl, hrun⟩
    · rintro ⟨done, rest, h, hrun⟩
      cases done with
      | nil =>
        cases h
        exact .inl (Prod.ext rfl hrun.symm)
      | cons call' done =>
        obtain ⟨rfl, rfl⟩ := List.cons.inj h
        exact .inr ⟨done, rest, rfl, hrun⟩

/-- A call is determined by its contributor, if each has one call. -/
theorem call_of_id (hnodup : (calls.map fun call => call.contributor.contributor_id).Nodup)
    (h : calls = done ++ call :: rest) (h' : calls = done' ++ call' :: rest')
    (hid : call'.contributor.contributor_id = call.contributor.contributor_id) :
    done' = done ∧ call' = call := by
  subst h
  induction done generalizing done' with
  | nil =>
    obtain ⟨hfirst, -⟩ := List.nodup_cons.1 hnodup
    cases done' with
    | nil =>
      obtain ⟨hcall, -⟩ := List.cons.inj h'
      exact ⟨rfl, hcall.symm⟩
    | cons first done' =>
      obtain ⟨-, htail⟩ := List.cons.inj h'
      refine (hfirst ?_).elim
      change call.contributor.contributor_id ∈ _
      rw [htail, ← hid]
      exact List.mem_map_of_mem (List.mem_append_right _ List.mem_cons_self)
  | cons first done ih =>
    obtain ⟨hfirst, hrest⟩ := List.nodup_cons.1 hnodup
    cases done' with
    | nil =>
      obtain ⟨hhead, -⟩ := List.cons.inj h'
      refine (hfirst ?_).elim
      change first.contributor.contributor_id ∈ _
      rw [hhead, hid]
      exact List.mem_map_of_mem (List.mem_append_right _ List.mem_cons_self)
    | cons first' done' =>
      obtain ⟨hhead, htail⟩ := List.cons.inj h'
      obtain ⟨hdone, hcall⟩ := ih hrest htail
      rw [hhead, hdone]
      exact ⟨rfl, hcall⟩

theorem id_of_warning {cid' text : String} (h : ':' ∉ cid.toList) (h' : ':' ∉ cid'.toList)
    (hpre : (cid ++ ": ").toList <+: (cid' ++ ": " ++ text).toList) : cid = cid' := by
  obtain ⟨rest, hrest⟩ := hpre
  have hcut : ∀ {s : String} (t : List Char), ':' ∉ s.toList →
      splitOnce ':' ((s ++ ": ").toList ++ t) = some (s.toList, ' ' :: t) := by
    intro s t hs
    rw [String.toList_append, List.append_assoc]
    apply splitOnce_append
    rintro c hc rfl
    exact hs hc
  have hboth := hcut rest h
  rw [hrest, String.toList_append, hcut text.toList h'] at hboth
  exact (String.toList_inj.1 (congrArg Prod.fst (Option.some.inj hboth))).symm

/-- What holds before each call and after it holds from the beginning to the end. -/
theorem runAll_keeps {g : Database b → α}
    (h : ∀ done call rest, calls = done ++ call :: rest →
      g (call.run scope (runAll scope done db)).2 = g (runAll scope done db)) :
    g (runAll scope calls db) = g db := by
  induction calls generalizing db with
  | nil => rfl
  | cons call calls ih =>
    have hfirst := h [] call calls rfl
    have hrest : ∀ done call' rest, calls = done ++ call' :: rest →
        g (call'.run scope (runAll scope done (call.run scope db).2)).2 =
          g (runAll scope done (call.run scope db).2) := by
      rintro done call' rest rfl
      exact h (call :: done) call' rest rfl
    exact (ih hrest).trans hfirst

/-! ## The law -/

/-- What a contributor has done that is listed as restored. -/
def CallApplied (base : List String) (call : RestoreCall b) (db db' : Database b) : Prop :=
  if call.contributor.contributor_id = "files" then
    FilesApplied base call.payload.files db db' ∧ db'.table = db.table
  else ∃ taken, takenRows call.contributor.contributor_id call.payload.rows = .ok taken ∧
    RowsApplied taken db db'

/-- What a contributor has done that is warned of. -/
def CallFailed (base : List String) (call : RestoreCall b) (db db' : Database b) : Prop :=
  if call.contributor.contributor_id = "files" then
    FilesFailed base call.payload.files db db' ∧ db'.table = db.table
  else db' = db

theorem run_cases (h : Careful base call.contributor) (scope : BackupScope) (db : Database b) :
    (∃ e, (call.run scope db).1 = .error e ∧ CallFailed base call db (call.run scope db).2) ∨
      ∃ n, (call.run scope db).1 = .ok n ∧ CallApplied base call db (call.run scope db).2 := by
  rw [CallFailed, CallApplied, RestoreCall.run]
  rcases h with ⟨hid, htransaction⟩ | ⟨hid, hfiles⟩
  · rw [if_neg hid, if_neg hid]
    rcases htransaction scope (tenantVal call.tenant_id) call.payload.rows call.payload.files db
      with ⟨e, hrun⟩ | ⟨n, taken, db', hrun, htaken, hmerge⟩
    · rw [hrun]
      exact .inl ⟨e, rfl, rfl⟩
    · rw [hrun]
      exact .inr ⟨n, rfl, taken, htaken, rowsApplied_of_merged hmerge⟩
  · rw [if_pos hid, if_pos hid]
    rcases hfiles scope (tenantVal call.tenant_id) call.payload.rows call.payload.files db with
      ⟨e, db', hrun, hfailed, htable⟩ | ⟨db', hrun, happlied, htable⟩
    · rw [hrun]
      exact .inl ⟨e, rfl, hfailed, htable⟩
    · rw [hrun]
      exact .inr ⟨0, rfl, happlied, htable⟩

/-- What the summary of a restore says of the contributors, and of the database afterwards. -/
structure RestoreLaw (svc : BackupService b) (base : List String) (o : OpenBundle)
    (db : Database b) (summary : RestoreSummary) (db' : Database b) : Prop where
  apart : ∀ cid ∈ summary.contributors_restored, ¬ summary.Warns cid
  listed : ∀ c ∈ svc.inScope o.manifest.scope, (o.data.find c.contributor_id).isSome = true →
    c.contributor_id ∈ summary.contributors_restored ∨ summary.Warns c.contributor_id
  restored : ∀ done call rest, svc.restoreCalls o = done ++ call :: rest →
    call.contributor.contributor_id ∈ summary.contributors_restored →
      CallApplied base call (runAll o.manifest.scope done db)
        (runAll o.manifest.scope (done ++ [call]) db)
  failed : ∀ done call rest, svc.restoreCalls o = done ++ call :: rest →
    summary.Warns call.contributor.contributor_id →
      CallFailed base call (runAll o.manifest.scope done db)
        (runAll o.manifest.scope (done ++ [call]) db)
  tables : ∀ m ≠ .auditLog, (∀ cid ∈ summary.contributors_restored, m ∉ tablesOf cid) →
    db'.table m = db.table m
  uploads : "files" ∉ summary.contributors_restored → ¬ summary.Warns "files" →
    db'.uploads = db.uploads

theorem runAll_concat (scope : BackupScope) (done : List (RestoreCall b)) (call : RestoreCall b)
    (db : Database b) :
    runAll scope (done ++ [call]) db = (call.run scope (runAll scope done db)).2 :=
  List.foldl_append

variable {svc : BackupService b} {o : OpenBundle} {base : List String}

theorem contributor_of_call (h : call ∈ svc.restoreCalls o) :
    call.contributor ∈ svc.contributors.rows := by
  obtain ⟨c, hc, h⟩ := List.mem_filterMap.1 h
  obtain ⟨p, -, rfl⟩ := Option.map_eq_some_iff.1 h
  exact (List.mem_filter.1 hc).1

theorem restoreCalls_nodup (svc : BackupService b) (o : OpenBundle) :
    ((svc.restoreCalls o).map fun call => call.contributor.contributor_id).Nodup := by
  have hrows : (svc.inScope o.manifest.scope).Pairwise fun c c' =>
      c.contributor_id ≠ c'.contributor_id :=
    (List.pairwise_map.1 svc.contributors.nodup).filter _
  apply List.pairwise_map.2
  apply hrows.filterMap
  intro c c' hne call hcall call' hcall'
  obtain ⟨p, -, rfl⟩ := Option.map_eq_some_iff.1 hcall
  obtain ⟨p', -, rfl⟩ := Option.map_eq_some_iff.1 hcall'
  exact hne

/-- The lists of the summary hold what the calls return and raise. -/
theorem mem_restored_iff : cid ∈ (svc.restoreAll o db).1.contributors_restored ↔
    ∃ done call rest n, svc.restoreCalls o = done ++ call :: rest ∧
      call.contributor.contributor_id = cid ∧
      (call.run o.manifest.scope (runAll o.manifest.scope done db)).1 = .ok n := by
  rw [BackupService.restoreAll, (lists_foldl _ _ _).1, List.nil_append, List.mem_filterMap]
  constructor
  · rintro ⟨⟨call, r⟩, hmem, hid⟩
    obtain ⟨done, rest, hsplit, hrun⟩ := mem_outcomes.1 hmem
    cases r with
    | error e => cases hid
    | ok n => exact ⟨done, call, rest, n, hsplit, Option.some.inj hid, hrun⟩
  · rintro ⟨done, call, rest, n, hsplit, rfl, hrun⟩
    exact ⟨(call, .ok n), mem_outcomes.2 ⟨done, rest, hsplit, hrun⟩, rfl⟩

theorem warns_iff (hplain : ∀ c ∈ svc.contributors.rows, ':' ∉ c.contributor_id.toList)
    (hcid : ':' ∉ cid.toList) : (svc.restoreAll o db).1.Warns cid ↔
    ∃ done call rest e, svc.restoreCalls o = done ++ call :: rest ∧
      call.contributor.contributor_id = cid ∧
      (call.run o.manifest.scope (runAll o.manifest.scope done db)).1 = .error e := by
  rw [RestoreSummary.Warns, BackupService.restoreAll, (lists_foldl _ _ _).2, List.nil_append]
  constructor
  · rintro ⟨w, hw, hpre⟩
    obtain ⟨⟨call, r⟩, hmem, hwarning⟩ := List.mem_filterMap.1 hw
    obtain ⟨done, rest, hsplit, hrun⟩ := mem_outcomes.1 hmem
    cases r with
    | ok n => cases hwarning
    | error e =>
      cases hwarning
      have hcall : call ∈ svc.restoreCalls o :=
        hsplit ▸ List.mem_append_right _ List.mem_cons_self
      have hid := id_of_warning hcid (hplain _ (contributor_of_call hcall)) hpre
      exact ⟨done, call, rest, e, hsplit, hid.symm, hrun⟩
  · rintro ⟨done, call, rest, e, hsplit, rfl, hrun⟩
    have hmem := mem_outcomes.2 ⟨done, rest, hsplit, hrun⟩
    exact ⟨_, List.mem_filterMap.2 ⟨_, hmem, rfl⟩, e.text.toList, String.toList_append.symm⟩

theorem call_of_split (h : svc.restoreCalls o = done ++ call :: rest)
    (h' : svc.restoreCalls o = done' ++ call' :: rest')
    (hid : call'.contributor.contributor_id = call.contributor.contributor_id) :
    done' = done ∧ call' = call :=
  call_of_id (restoreCalls_nodup svc o) h h' hid

theorem Logs.frame (h : Logs action db db') :
    db'.uploads = db.uploads ∧ ∀ m ≠ .auditLog, db'.table m = db.table m := by
  rcases h with rfl | ⟨r, -, -, rfl⟩
  · exact ⟨rfl, fun _ _ => rfl⟩
  · exact ⟨rfl, fun m hm => Database.table_put_of_ne _ r hm⟩

theorem logRestore_frame (user_id ip : String) (o : OpenBundle) (audit_tenant_id : Option Uuid)
    (summary : RestoreSummary) (db : Database b) :
    (BackupService.logRestore user_id ip o audit_tenant_id summary db).uploads = db.uploads ∧
      ∀ m ≠ .auditLog, (BackupService.logRestore user_id ip o audit_tenant_id summary db).table m =
        db.table m := by
  rw [BackupService.logRestore]
  split
  · exact (auditLog_logs ..).frame
  · exact (auditLog_logs ..).frame

theorem restored_iff_ok (h : svc.restoreCalls o = done ++ call :: rest) :
    call.contributor.contributor_id ∈ (svc.restoreAll o db).1.contributors_restored ↔
      ∃ n, (call.run o.manifest.scope (runAll o.manifest.scope done db)).1 = .ok n := by
  rw [mem_restored_iff]
  constructor
  · rintro ⟨done', call', rest', n, h', hid, hrun⟩
    obtain ⟨rfl, rfl⟩ := call_of_split h h' hid
    exact ⟨n, hrun⟩
  · rintro ⟨n, hrun⟩
    exact ⟨done, call, rest, n, h, rfl, hrun⟩

theorem mem_of_split (h : svc.restoreCalls o = done ++ call :: rest) :
    call ∈ svc.restoreCalls o :=
  h ▸ List.mem_append_right _ List.mem_cons_self

theorem warns_iff_error (hplain : ∀ c ∈ svc.contributors.rows, ':' ∉ c.contributor_id.toList)
    (h : svc.restoreCalls o = done ++ call :: rest) :
    (svc.restoreAll o db).1.Warns call.contributor.contributor_id ↔
      ∃ e, (call.run o.manifest.scope (runAll o.manifest.scope done db)).1 = .error e := by
  rw [warns_iff hplain (hplain _ (contributor_of_call (mem_of_split h)))]
  constructor
  · rintro ⟨done', call', rest', e, h', hid, hrun⟩
    obtain ⟨rfl, rfl⟩ := call_of_split h h' hid
    exact ⟨e, hrun⟩
  · rintro ⟨e, hrun⟩
    exact ⟨done, call, rest, e, h, rfl, hrun⟩

theorem CallApplied.frame (h : CallApplied base call db db') :
    (call.contributor.contributor_id ≠ "files" → db'.uploads = db.uploads) ∧
      ∀ m ∉ tablesOf call.contributor.contributor_id, db'.table m = db.table m := by
  rw [CallApplied] at h
  split at h
  · rename_i hid
    exact ⟨fun hne => (hne hid).elim, fun m _ => congrFun h.2 m⟩
  · obtain ⟨taken, htaken, happlied⟩ := h
    obtain ⟨huploads, htables⟩ := mergeEach_frame happlied.merged
    refine ⟨fun _ => huploads, ?_⟩
    intro m hm
    apply htables
    intro hmem
    obtain ⟨p, hp, rfl⟩ := List.mem_map.1 hmem
    exact hm (taken_tables htaken p hp)

theorem CallFailed.frame (h : CallFailed base call db db') :
    (call.contributor.contributor_id ≠ "files" → db'.uploads = db.uploads) ∧
      db'.table = db.table := by
  rw [CallFailed] at h
  split at h
  · rename_i hid
    exact ⟨fun hne => (hne hid).elim, h.2⟩
  · exact ⟨fun _ => congrArg Database.uploads h, congrArg Database.table h⟩

/-- The lists and the state of a restore whose contributors are careful. -/
theorem restoreAll_law (hcareful : ∀ c ∈ svc.contributors.rows,
      ':' ∉ c.contributor_id.toList ∧ Careful base c)
    (hlog : db'.uploads = (svc.restoreAll o db).2.uploads ∧
      ∀ m ≠ .auditLog, db'.table m = (svc.restoreAll o db).2.table m) :
    RestoreLaw svc base o db (svc.restoreAll o db).1 db' := by
  have hplain : ∀ c ∈ svc.contributors.rows, ':' ∉ c.contributor_id.toList :=
    fun c hc => (hcareful c hc).1
  have hcases : ∀ {done call rest}, svc.restoreCalls o = done ++ call :: rest →
      (call.contributor.contributor_id ∉ (svc.restoreAll o db).1.contributors_restored ∧
        (svc.restoreAll o db).1.Warns call.contributor.contributor_id ∧
        CallFailed base call (runAll o.manifest.scope done db)
          (call.run o.manifest.scope (runAll o.manifest.scope done db)).2) ∨
      (call.contributor.contributor_id ∈ (svc.restoreAll o db).1.contributors_restored ∧
        ¬ (svc.restoreAll o db).1.Warns call.contributor.contributor_id ∧
        CallApplied base call (runAll o.manifest.scope done db)
          (call.run o.manifest.scope (runAll o.manifest.scope done db)).2) := by
    intro done call rest h
    rw [restored_iff_ok h, warns_iff_error hplain h]
    rcases run_cases (hcareful _ (contributor_of_call (mem_of_split h))).2 o.manifest.scope
      (runAll o.manifest.scope done db) with ⟨e, hrun, hfailed⟩ | ⟨n, hrun, happlied⟩
    · rw [hrun]
      exact .inl ⟨nofun, ⟨e, rfl⟩, hfailed⟩
    · rw [hrun]
      exact .inr ⟨⟨n, rfl⟩, nofun, happlied⟩
  refine ⟨?_, ?_, ?_, ?_, ?_, ?_⟩
  · intro cid hcid
    obtain ⟨done, call, rest, n, h, rfl, -⟩ := mem_restored_iff.1 hcid
    rcases hcases h with ⟨hnot, -⟩ | ⟨-, hnot, -⟩
    · exact (hnot hcid).elim
    · exact hnot
  · intro c hc hsome
    obtain ⟨p, hp⟩ := Option.isSome_iff_exists.1 hsome
    have hcall : ⟨c, o.tenant_id, p.2⟩ ∈ svc.restoreCalls o :=
      List.mem_filterMap.2 ⟨c, hc, Option.map_eq_some_iff.2 ⟨p, hp, rfl⟩⟩
    obtain ⟨done, rest, h⟩ := List.append_of_mem hcall
    rcases hcases h with ⟨-, hwarns, -⟩ | ⟨hrestored, -⟩
    · exact .inr hwarns
    · exact .inl hrestored
  · intro done call rest h hrestored
    rw [runAll_concat]
    rcases hcases h with ⟨hnot, -⟩ | ⟨-, -, happlied⟩
    · exact (hnot hrestored).elim
    · exact happlied
  · intro done call rest h hwarns
    rw [runAll_concat]
    rcases hcases h with ⟨-, -, hfailed⟩ | ⟨-, hnot, -⟩
    · exact hfailed
    · exact (hnot hwarns).elim
  · intro m hm hfree
    rw [hlog.2 m hm, restoreAll_db]
    apply runAll_keeps (g := fun d => d.table m)
    intro done call rest h
    rcases hcases h with ⟨-, -, hfailed⟩ | ⟨hrestored, -, happlied⟩
    · exact congrFun hfailed.frame.2 m
    · exact happlied.frame.2 m (hfree _ hrestored)
  · intro hrestored hwarns
    rw [hlog.1, restoreAll_db]
    apply runAll_keeps (g := Database.uploads)
    intro done call rest h
    have hid : call.contributor.contributor_id ≠ "files" := by
      intro hid
      rcases hcases h with ⟨-, hwarned, -⟩ | ⟨hmem, -⟩
      · exact hwarns (hid ▸ hwarned)
      · exact hrestored (hid ▸ hmem)
    rcases hcases h with ⟨-, -, hfailed⟩ | ⟨-, -, happlied⟩
    · exact hfailed.frame.1 hid
    · exact happlied.frame.1 hid

/-- A restore lists each contributor that has a payload once: as restored, then its rows or files
are all applied, or in a warning, then its transaction did nothing, and of the files those before
the one that failed are in place. -/
theorem restoreBundle_law (failures : Failures) (app_name app_version : String)
    (dir : Option String) (bundle : Tarball) (user_id ip : String) (db : Database b)
    (h : ((failingService failures app_name app_version dir).restoreBundle bundle user_id ip db).1 =
      .ok summary) :
    ∃ o, openBundle bundle = .ok o ∧
      RestoreLaw (failingService failures app_name app_version dir) (uploadsBase (dir.getD "")) o db
        summary ((failingService failures app_name app_version dir).restoreBundle bundle user_id ip
          db).2 := by
  rw [BackupService.restoreBundle] at h ⊢
  cases hopen : openBundle bundle with
  | error e =>
    rw [hopen] at h
    cases h
  | ok o =>
    rw [hopen] at h
    refine ⟨o, rfl, ?_⟩
    cases haudit : auditTenantId o.tenant_id with
    | error e =>
      simp only [haudit] at h
      cases h
    | ok audit_tenant_id =>
      simp only [haudit] at h ⊢
      cases h
      apply restoreAll_law
      · intro c hc
        exact failingService_careful hc
      · exact logRestore_frame ..

end

/-! ### Three restores -/

/-- What is claimed of the contributors of a restore: those that a warning names have their rows and
files as before, and those that are restored have each row of their payload in a table. -/
structure FailsAlone (svc : BackupService b) (bundle : Tarball) (user_id ip : String)
    (db : Database b) : Prop where
  rows : ∀ summary, (svc.restoreBundle bundle user_id ip db).1 = .ok summary →
    ∀ c ∈ svc.contributors.rows, summary.Warns c.contributor_id →
      ∀ m ∈ tablesOf c.contributor_id,
        (svc.restoreBundle bundle user_id ip db).2.table m = db.table m
  files : ∀ summary, (svc.restoreBundle bundle user_id ip db).1 = .ok summary →
    summary.Warns "files" → (svc.restoreBundle bundle user_id ip db).2.uploads = db.uploads
  applied : ∀ summary o, (svc.restoreBundle bundle user_id ip db).1 = .ok summary →
    openBundle bundle = .ok o → ∀ call ∈ svc.restoreCalls o,
      call.contributor.contributor_id ∈ summary.contributors_restored →
        ∀ rows, call.payload.rows.dicts = .ok rows → ∀ row ∈ rows,
          ∃ m ∈ tablesOf call.contributor.contributor_id,
            ((svc.restoreBundle bundle user_id ip db).2.find m (row.get "id")).isSome = true

def payloadBundle (payloads : List (String × ContributorExport)) : Tarball :=
  (buildTarball ⟨1, .platform, none, newYear, "app", "1.0", []⟩ payloads).tarball

def smallService : BackupService .sqlite := buildBackupService "app" "1.0" (some "/uploads")

/-- A second file that stands below the first. -/
def filesBundle : Tarball := payloadBundle [("files", { files := [("a", [1]), ("a/b", [2])] })]

def filesSummary : RestoreSummary where
  scope := .platform
  tenant_slug := none
  warnings := ["files: Not a directory"]

theorem restoreBundle_law_files : ∃ o, openBundle filesBundle = .ok o ∧
    RestoreLaw (failingService ⟨fun _ => none, none⟩ "app" "1.0" (some "/uploads"))
      (uploadsBase "/uploads") o noData filesSummary
      ((failingService ⟨fun _ => none, none⟩ "app" "1.0" (some "/uploads")).restoreBundle
        filesBundle "root" "127.0.0.1" noData).2 :=
  restoreBundle_law ⟨fun _ => none, none⟩ "app" "1.0" (some "/uploads") filesBundle "root"
    "127.0.0.1" noData (by decide +kernel)

def secretsBundle : Tarball := payloadBundle [("secrets", { rows := [themeRow] })]

def secretsSummary : RestoreSummary where
  scope := .platform
  tenant_slug := none
  contributors_restored := ["secrets"]

def secretsOpened : OpenBundle where
  manifest := ⟨1, .platform, none, newYear, "app", "1.0", []⟩
  data := KeyedTable.upsert ∅ ("secrets", { rows := .ofRows [themeRow] })
  tenant_id := none

def auditBundle : Tarball := payloadBundle [("audit_log", { rows := [[]] })]

def auditSummary : RestoreSummary where
  scope := .platform
  tenant_slug := none
  warnings := ["audit_log: a column of audit_log cannot hold its value"]

/-- The first file stays though the second fails; a row without a secret key is left out; and the
restore itself logs what it did. -/
theorem failures_leave_traces :
    ¬ FailsAlone smallService filesBundle "root" "127.0.0.1" noData ∧
    ¬ FailsAlone smallService secretsBundle "root" "127.0.0.1" noData ∧
    ¬ FailsAlone smallService auditBundle "root" "127.0.0.1" noData := by
  refine ⟨?_, ?_, ?_⟩
  · intro h
    have hfiles := h.files filesSummary (by decide +kernel) (by decide +kernel)
    have hleft : (smallService.restoreBundle filesBundle "root" "127.0.0.1"
        noData).2.uploads.rows.length = 1 := by decide +kernel
    rw [hfiles] at hleft
    cases hleft
  · intro h
    have hopen : openBundle secretsBundle = .ok secretsOpened := rfl
    have hcalls : smallService.restoreCalls secretsOpened =
      [⟨secretsContributor, none, { rows := .ofRows [themeRow] }⟩] := rfl
    obtain ⟨m, hm, hfound⟩ := h.applied secretsSummary secretsOpened (by decide +kernel) hopen _
      (hcalls ▸ List.mem_cons_self) List.mem_cons_self [themeRow] rfl themeRow List.mem_cons_self
    have hnone : ((smallService.restoreBundle secretsBundle "root" "127.0.0.1" noData).2.find
        .setting (.str "theme")).isSome = false := by decide +kernel
    cases List.mem_singleton.1 hm
    cases hnone.symm.trans hfound
  · intro h
    have hrows := h.rows auditSummary (by decide +kernel) auditLogContributor (by
        rw [smallService, buildBackupService_rows]
        simp [builtinContributors]) (by decide +kernel) .auditLog List.mem_cons_self
    have hlogged : ((smallService.restoreBundle auditBundle "root" "127.0.0.1" noData).2.table
        .auditLog).rows.length = 1 := by decide +kernel
    rw [hrows] at hlogged
    cases hlogged

end ScottyCore
