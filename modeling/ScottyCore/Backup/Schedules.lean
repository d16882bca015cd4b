import ScottyCore.Backup.Retention
import ScottyCore.Backup.Ticks

namespace ScottyCore
open Python Async BackupScheduler
set_option autoImplicit true

variable {b : Backend} {Data : Type}

/-! ## `api/v1/backup.py` -/

structure ScheduleCreate where
  name : String
  scope : BackupScope
  tenant_slug : Option String
  sink_type : String
  sink_config : JsonDict
  cron_expr : Option String
  kind : String
  retention_days : Option Int
  keep_last : Option Int

structure ScheduleOut where
  id : String
  name : String
  scope : String
  tenant_slug : Option String
  sink_type : String
  cron_expr : Option String
  kind : String
  managed_by : String
  is_active : Bool
  next_run_at : Option DateTime
  created_at : DateTime

def BackupScope.value : BackupScope → String
  | platform => "platform"
  | tenant => "tenant"

theorem BackupScope.value_eq_platform {scope : BackupScope} :
    scope.value = "platform" ↔ scope = .platform := by
  cases scope with
  | platform => exact ⟨fun _ => rfl, fun _ => rfl⟩
  | tenant => exact ⟨fun h => absurd h (by decide), nofun⟩

/-- The row that `create_schedule` adds, with the defaults of its columns. -/
def ScheduleCreate.row (payload : ScheduleCreate) (user_id id : String) (now : DateTime) :
    BackupSchedule where
  id := id
  name := payload.name
  scope := payload.scope.value
  tenant_id := none
  tenant_slug := payload.tenant_slug
  sink_type := payload.sink_type
  sink_config := payload.sink_config
  cron_expr := payload.cron_expr
  next_run_at := none
  kind := payload.kind
  retention_days := payload.retention_days
  keep_last := payload.keep_last
  is_active := true
  managed_by := "local"
  created_by := some user_id
  created_at := now

def BackupSchedule.out (row : BackupSchedule) : ScheduleOut where
  id := row.id
  name := row.name
  scope := row.scope
  tenant_slug := row.tenant_slug
  sink_type := row.sink_type
  cron_expr := row.cron_expr
  kind := row.kind
  managed_by := row.managed_by
  is_active := row.is_active
  next_run_at := row.next_run_at
  created_at := row.created_at

/-- `create_schedule`, with the id and the time that the row gets. -/
def createSchedule (payload : ScheduleCreate) (user_id id : String) (now : DateTime)
    (s : BackupState b Data) : Except Exc (ScheduleOut × BackupState b Data) :=
  match s.schedules.find id with
  | some _ => .error (.integrityError "UNIQUE constraint failed: backup_schedules.id")
  | none =>
    let row := payload.row user_id id now
    .ok (row.out, { s with schedules := s.schedules.upsert row })

structure HTTPException where
  status_code : Nat
  detail : String
  deriving DecidableEq

/-- `delete_schedule`, with the brand's name of the orchestrator. -/
def deleteSchedule (orchestrator schedule_id : String) (s : BackupState b Data) :
    Except HTTPException (BackupState b Data) :=
  match s.schedules.find schedule_id with
  | none => .error ⟨404, "schedule not found"⟩
  | some row =>
    if row.managed_by ≠ "local" then
      .error ⟨409, "schedule is managed by " ++ orchestrator ++ " — detach or promote before delete"⟩
    else .ok { s with schedules := s.schedules.erase schedule_id }

/-- The schedule is stored; the contributor tables and the runs are untouched. -/
theorem createSchedule_ok {s s' : BackupState b Data}
    (h : createSchedule payload user_id id' now s = .ok (out, s')) :
    s'.db = s.db ∧ s'.runs = s.runs ∧ Loaded s' (payload.row user_id id' now) := by
  rw [createSchedule] at h
  split at h
  · cases h
  · cases h
    apply And.intro rfl
    apply And.intro rfl
    apply loaded_of_mem
    rw [KeyedTable.mem_upsert_iff]
    exact .inl rfl

/-! ## What a body asks for -/

/-- The service call for the scope and the tenant of a body. -/
def requestedExport (sched : BackupScheduler b Data) (payload : ScheduleCreate)
    (tenant_id : String) (now : DateTime) (db : Database b) : Except Exc (Bytes × Database b) :=
  match payload.scope with
  | .platform =>
    if payload.kind = "delta" then
      sched.svc.exportPlatformDelta none [] schedulerUserId "scheduler" now db
    else sched.svc.exportPlatform schedulerUserId "scheduler" now db
  | .tenant =>
    if payload.kind = "delta" then
      sched.svc.exportTenantDelta tenant_id (payload.tenant_slug.getD "") none [] schedulerUserId
        "scheduler" now db
    else
      sched.svc.exportTenant tenant_id (payload.tenant_slug.getD "") schedulerUserId "scheduler"
        now db

/-- The tenant that a body names exists. -/
def NamesTenant (payload : ScheduleCreate) (tenant_id : String) (db : Database b) : Prop :=
  ∃ slug, payload.tenant_slug = some slug ∧
    ∃ row ∈ (db.table .tenant).rows, row.get "slug" = .str slug ∧ row.id = .str tenant_id

/-- The export that a body asks for, the encryption and the sink's `put` succeed, and nothing
interrupts the dispatch. -/
structure Succeeding (sched : BackupScheduler b Data) (payload : ScheduleCreate)
    (schedule : BackupSchedule) (tenant_id : String) (env : Circumstances) (s : BackupState b Data)
    (bundle : Bytes × Database b) (data : Data) : Prop where
  tenant : payload.scope = .tenant → NamesTenant payload tenant_id s.db
  exported : requestedExport sched payload tenant_id env.exported_at s.db = .ok bundle
  encrypted : sched.sealed env bundle.1 = .ok data
  put : ∀ sink tenant_slug,
    buildSinkFromConfig schedule.sink_type schedule.sink_config = .ok sink →
      ∃ locator, sink.locatorOf sched.libs (sched.blobOf schedule env data tenant_slug) = .ok locator
  mkdir : env.sinkError = none
  calls : ∀ p, env.fate p = .done
  fresh : s.runs.find env.run_id = none

/-- A dispatch ended in a success with the backup that a body asks for. -/
def DeliversBackup (sched : BackupScheduler b Data) (payload : ScheduleCreate)
    (env : Circumstances) (data : Data) (s' : BackupState b Data) : Prop :=
  ∃ run, s'.runs.find env.run_id = some run ∧ run.status = .success ∧
    run.scope = payload.scope.value ∧
    (payload.scope = .tenant → run.tenant_slug = payload.tenant_slug) ∧
    run.sha256 = some (sched.libs.sha256 data)

/-- What the later run needs of a body that was accepted. -/
structure Runnable (sched : BackupScheduler b Data) (schedule : BackupSchedule)
    (env : Circumstances) (s : BackupState b Data) : Prop where
  platform : schedule.scope = "platform"
  sink : ∃ sink, buildSinkFromConfig schedule.sink_type schedule.sink_config = .ok sink
  cron : nonempty schedule.cron_expr = none ∨ ∃ cron_expr nxt,
    nonempty schedule.cron_expr = some cron_expr ∧
      sched.libs.croniter cron_expr env.started_at = .ok nxt
  cutoff : Unpruned schedule ∨
    ∃ cutoff, keepCutoff schedule.retention_days env.pruned_at = .ok cutoff
  kept : ∀ taken, sched.backupOf schedule env s.db = .ok taken →
    KeptBy schedule env (historyWith sched schedule env s taken)
      (sched.successRun schedule env taken)

/-! ## A dispatch that nothing interrupts -/

section

variable {sched : BackupScheduler b Data} {schedule : BackupSchedule} {env : Circumstances}
variable {s t u : BackupState b Data}

theorem advanced_ok_iff : (∃ step, sched.advanced schedule env.started_at = .ok step) ↔
    nonempty schedule.cron_expr = none ∨ ∃ cron_expr nxt,
      nonempty schedule.cron_expr = some cron_expr ∧
        sched.libs.croniter cron_expr env.started_at = .ok nxt := by
  rw [advanced]
  cases hcron : nonempty schedule.cron_expr with
  | none => exact ⟨fun _ => .inl rfl, fun _ => ⟨_, rfl⟩⟩
  | some cron_expr =>
    constructor
    · rintro ⟨step, hstep⟩
      obtain ⟨nxt, hnxt, -⟩ := bind_eq_ok.1 hstep
      exact .inr ⟨cron_expr, nxt, rfl, hnxt⟩
    · rintro (hnone | ⟨_, nxt, hsome, hnxt⟩)
      · cases hnone
      · cases hsome
        exact ⟨_, bind_eq_ok.2 ⟨nxt, hnxt, rfl⟩⟩

theorem not_endsIn (hcalls : ∀ p, env.fate p = .done) : ¬ (env.fate p).EndsIn i := by
  rw [hcalls p]
  rintro (h | h)
  all_goals cases h

/-- Without an interruption a recording ends in an exception only. -/
theorem BackupScheduler.Recording.uninterrupted (hcalls : ∀ p, env.fate p = .done)
    (h : Recording sched schedule env sink f s o t) :
    (∃ e, o = .stopped (.exception e) ∧ (sched.advanced schedule env.started_at = .error e ∨
        (¬ Unpruned schedule ∧ keepCutoff schedule.retention_days env.pruned_at = .error e))) ∨
      (o = .returned () ∧ (∃ step, sched.advanced schedule env.started_at = .ok step) ∧
        (Unpruned schedule ∨
          ∃ cutoff, keepCutoff schedule.retention_days env.pruned_at = .ok cutoff)) := by
  cases h with
  | unrecorded hi => cases (hcalls _).symm.trans hi
  | recorded hi =>
    rcases hi with hi | ⟨-, ⟨e, he, rfl⟩ | hi⟩
    · cases (hcalls _).symm.trans hi
    · exact .inl ⟨e, rfl, .inl he⟩
    · cases (hcalls _).symm.trans hi
  | advanced _ _ hi => cases (hcalls _).symm.trans hi
  | complete _ hstep _ hunpruned => exact .inr ⟨rfl, ⟨_, hstep⟩, .inl hunpruned⟩
  | pruned _ hstep _ hunpruned hpruning =>
    cases o with
    | returned _ => exact .inr ⟨rfl, ⟨_, hstep⟩, .inr (hpruning.cutoff () rfl)⟩
    | stopped i =>
      cases hpruning.ended i rfl with
      | cutoff he hi => exact .inl ⟨_, hi ▸ rfl, .inr ⟨hunpruned, he⟩⟩
      | selection hi => exact (not_endsIn hcalls hi).elim
      | deletion _ hi =>
        rcases hi with hi | ⟨-, hi⟩
        · exact (not_endsIn hcalls hi).elim
        · exact (not_endsIn hcalls hi).elim

/-- What a dispatch needs to come to its end when nothing interrupts it. -/
structure Ready (sched : BackupScheduler b Data) (schedule : BackupSchedule)
    (env : Circumstances) (s : BackupState b Data) : Prop where
  backup : ∃ taken, sched.backupOf schedule env s.db = .ok taken
  advance : ∃ step, sched.advanced schedule env.started_at = .ok step
  cutoff : Unpruned schedule ∨
    ∃ cutoff, keepCutoff schedule.retention_days env.pruned_at = .ok cutoff

/-- Without an interruption the `try` block comes to its end or raises. -/
theorem BackupScheduler.Attempt.uninterrupted (hcalls : ∀ p, env.fate p = .done)
    (h : Attempt sched schedule env s (sched.pendingState schedule env s) o u) :
    (∃ e, o = .stopped (.exception e) ∧ ¬ Ready sched schedule env s) ∨
      (o = .returned () ∧ Ready sched schedule env s) := by
  cases h with
  | untaken _ hend =>
    rcases hend with ⟨_, _, hi⟩ | ⟨e, he, rfl⟩
    · exact (not_endsIn hcalls hi).elim
    · refine .inl ⟨e, rfl, fun hready => ?_⟩
      obtain ⟨_, htaken⟩ := hready.backup
      cases he.symm.trans htaken
  | taken htaken _ hrecording =>
    rcases hrecording.uninterrupted hcalls with ⟨e, ho, he⟩ | ⟨ho, hstep, hcutoff⟩
    · refine .inl ⟨e, ho, fun hready => ?_⟩
      rcases he with he | ⟨hunpruned, he⟩
      · obtain ⟨_, hstep⟩ := hready.advance
        cases he.symm.trans hstep
      · obtain ⟨_, hcutoff⟩ := hready.cutoff.resolve_left hunpruned
        cases he.symm.trans hcutoff
    · exact .inr ⟨ho, ⟨_, htaken.backup⟩, hstep, hcutoff⟩

theorem created_of_fresh (hcalls : ∀ p, env.fate p = .done) (hfresh : s.runs.find env.run_id = none)
    (h : Creation sched schedule env s o t) :
    o = .returned () ∧ t = sched.pendingState schedule env s := by
  cases h with
  | uncreated hi =>
    rcases hi with hi | hi
    · cases (hcalls _).symm.trans hi
    · rw [hfresh] at hi
      cases hi
  | abandoned _ hi =>
    rcases hi with hi | hi
    · cases (hcalls _).symm.trans hi
    · exact (not_endsIn hcalls hi).elim
  | created _ _ _ => exact ⟨rfl, rfl⟩

theorem completes_of_ready (hcalls : ∀ p, env.fate p = .done)
    (hfresh : s.runs.find env.run_id = none) (h : Ready sched schedule env s) :
    Completes sched schedule env s := by
  refine ⟨(created_of_fresh hcalls hfresh (markRunPending_wp sched schedule env s).2).1, ?_⟩
  rcases Attempt.uninterrupted hcalls
    (runBackup_wp (inProgress_pending sched schedule env s)).2 with ⟨_, _, hnot⟩ | ⟨ho, -⟩
  · exact (hnot h).elim
  · exact ho

/-- A run is a success afterwards only when the dispatch was ready. -/
theorem ready_of_success (hcalls : ∀ p, env.fate p = .done)
    (hfresh : s.runs.find env.run_id = none)
    (hrun : ((sched.dispatch schedule env).final s).runs.find env.run_id = some run)
    (hstatus : run.status = .success) : Ready sched schedule env s := by
  have hd := (dispatch_wp sched schedule env s).2
  generalize (sched.dispatch schedule env).final s = u at hd hrun
  generalize (sched.dispatch schedule env s).outcome = o at hd
  have hattempt : ∀ {t o}, Creation sched schedule env s (.returned ()) t →
      Attempt sched schedule env s t o u →
      (∃ e, o = .stopped (.exception e) ∧ ¬ Ready sched schedule env s) ∨
        (o = .returned () ∧ Ready sched schedule env s) := by
    intro t o ht ha
    cases ht
    exact ha.uninterrupted hcalls
  cases hd with
  | unstarted ht => cases (created_of_fresh hcalls hfresh ht).1
  | returned ht ha =>
    rcases hattempt ht ha with ⟨_, he, -⟩ | ⟨-, hready⟩
    · cases he
    · exact hready
  | cancelled ht ha =>
    rcases hattempt ht ha with ⟨_, he, -⟩ | ⟨he, -⟩
    all_goals cases he
  | unmarked _ _ hi => cases (hcalls _).symm.trans hi
  | failed _ _ _ =>
    rw [BackupState.find_updateRun_self _ _ (failedWith _ _) fun _ => rfl] at hrun
    obtain ⟨_, -, rfl⟩ := Option.map_eq_some_iff.1 hrun
    cases hstatus

/-! ## Accepted schedules -/

variable {payload : ScheduleCreate} {bundle : Bytes × Database b} {data : Data}

theorem runExport_platform (hscope : payload.scope = .platform) (db : Database b) :
    sched.runExport (payload.row user_id id' now') env.exported_at db =
      (requestedExport sched payload tenant_id env.exported_at db).map fun r =>
        ((r.1, none), r.2) := by
  have hplatform : (payload.row user_id id' now').scope = "platform" :=
    BackupScope.value_eq_platform.2 hscope
  rw [BackupScheduler.runExport, if_pos hplatform, requestedExport, hscope]
  rfl

/-- No tenant schedule has the id of its tenant. -/
theorem runExport_tenant (hscope : payload.scope = .tenant) (db : Database b) :
    sched.runExport (payload.row user_id id' now') env.exported_at db =
      .error (.python (.valueError "tenant schedule missing tenant_id/slug")) := by
  have hrow : (payload.row user_id id' now').scope = "tenant" := by
    rw [ScheduleCreate.row, hscope]
    rfl
  rw [BackupScheduler.runExport, if_neg (by rw [hrow]; decide), if_pos hrow]
  rfl

theorem platform_of_backup (hbackup : sched.backupOf (payload.row user_id id' now') env db =
    .ok taken) : payload.scope = .platform := by
  cases hscope : payload.scope with
  | platform => rfl
  | tenant =>
    obtain ⟨_, hexport, -⟩ := bind_eq_ok.1 hbackup
    cases (runExport_tenant hscope db).symm.trans hexport

theorem Succeeding.buildSink
    (h : Succeeding sched payload schedule tenant_id env s bundle data) :
    buildSink schedule env = buildSinkFromConfig schedule.sink_type schedule.sink_config := by
  rw [BackupScheduler.buildSink, h.mkdir]
  split
  · rename_i hsome
    cases hsome
  · rfl

/-- The backup that is taken is the one that the body asks for. -/
theorem Succeeding.backup
    (h : Succeeding sched payload (payload.row user_id id' now') tenant_id env s bundle data)
    (hscope : payload.scope = .platform)
    (hsink : buildSinkFromConfig payload.sink_type payload.sink_config = .ok sink) :
    ∃ taken, sched.backupOf (payload.row user_id id' now') env s.db = .ok taken ∧
      taken.1.sha256 = sched.libs.sha256 data := by
  obtain ⟨locator, hlocator⟩ := h.put sink none hsink
  refine ⟨(sched.blobOf (payload.row user_id id' now') env data none, sink, locator), ?_, rfl⟩
  have hexport : sched.runExport (payload.row user_id id' now') env.exported_at s.db =
      .ok ((bundle.1, none), bundle.2) := by
    rw [runExport_platform hscope s.db, h.exported]
    rfl
  have hbuilt : BackupScheduler.buildSink (payload.row user_id id' now') env = .ok sink :=
    h.buildSink.trans hsink
  exact bind_eq_ok.2 ⟨_, hexport, bind_eq_ok.2 ⟨data, h.encrypted, bind_eq_ok.2 ⟨sink, hbuilt,
    bind_eq_ok.2 ⟨locator, hlocator, rfl⟩⟩⟩⟩

/-- Accepted schedules deliver when they are platform schedules, their sink can be built, their
cron expression is none or one that croniter accepts, and they keep the new run. -/
theorem accepted_schedule_delivers_iff
    (h : Succeeding sched payload (payload.row user_id id' now') tenant_id env s bundle data) :
    DeliversBackup sched payload env data
        ((sched.dispatch (payload.row user_id id' now') env).final s) ↔
      Runnable sched (payload.row user_id id' now') env s := by
  constructor
  · rintro ⟨run, hrun, hstatus, -⟩
    have hready := ready_of_success h.calls h.fresh hrun hstatus
    have hcompletes := completes_of_ready h.calls h.fresh hready
    obtain ⟨taken, htaken⟩ := hready.backup
    have hscope := platform_of_backup htaken
    refine ⟨?_, ⟨_, (backupOf_eq_ok htaken).1⟩, advanced_ok_iff.1 hready.advance, hready.cutoff, ?_⟩
    · exact BackupScope.value_eq_platform.2 hscope
    · intro taken' htaken'
      cases htaken.symm.trans htaken'
      obtain ⟨hmem, hkept⟩ := (hcompletes.rows htaken run).1 (KeyedTable.mem_of_find hrun)
      have hnew : run = sched.successRun (payload.row user_id id' now') env taken := by
        apply KeyedTable.eq_of_mem hmem (KeyedTable.mem_upsert_iff.2 (.inl rfl))
        exact KeyedTable.key_of_find hrun
      exact hnew ▸ hkept (hnew ▸ successRun_mem_historyWith)
  · intro hr
    have hscope := BackupScope.value_eq_platform.1 hr.platform
    obtain ⟨sink, hsink⟩ := hr.sink
    obtain ⟨taken, htaken, hsha⟩ := h.backup hscope hsink
    have hready : Ready sched (payload.row user_id id' now') env s :=
      ⟨⟨taken, htaken⟩, advanced_ok_iff.2 hr.cron, hr.cutoff⟩
    have hcompletes := completes_of_ready h.calls h.fresh hready
    have hmem := (hcompletes.rows htaken
      (sched.successRun (payload.row user_id id' now') env taken)).2
        ⟨KeyedTable.mem_upsert_iff.2 (.inl rfl), fun _ => hr.kept taken htaken⟩
    exact ⟨_, KeyedTable.find_of_mem hmem, rfl, rfl, fun _ => rfl, congrArg some hsha⟩

end

def hourlyBody : ScheduleCreate where
  name := "hourly"
  scope := .platform
  tenant_slug := none
  sink_type := "local_disk"
  sink_config := [("root_dir", .str "/store")]
  cron_expr := some "0 * * * *"
  kind := "full"
  retention_days := none
  keep_last := none

def acmeBody : ScheduleCreate := { hourlyBody with scope := .tenant, tenant_slug := some "acme" }

/-- An installation with one tenant. -/
def BackupState.acme : BackupState .sqlite Bytes :=
  { withSchedule (acmeBody.row "root" "nightly" tenUtc) with db := acmeData }

theorem put_hourlyBody {sink : StorageSink} (blob : BackupBlob Bytes)
    (h : buildSinkFromConfig hourlyBody.sink_type hourlyBody.sink_config = .ok sink) :
    ∃ locator, sink.locatorOf .plain blob = .ok locator := by
  have hsink : buildSinkFromConfig hourlyBody.sink_type hourlyBody.sink_config =
      .ok (.localDisk "/store") := rfl
  cases hsink.symm.trans h
  exact ⟨_, rfl⟩

theorem hourlyBody_delivers : ∃ data, DeliversBackup .plain hourlyBody (.plain "run" tenUtc) data
    ((BackupScheduler.plain.dispatch (hourlyBody.row "root" "nightly" tenUtc)
      (.plain "run" tenUtc)).final .acme) := by
  obtain ⟨bundle, hbundle⟩ : ∃ bundle, requestedExport BackupScheduler.plain hourlyBody acmeText
      tenUtc BackupState.acme.db = .ok bundle := exists_of_isOk (by decide +kernel)
  have hsucceeding : Succeeding .plain hourlyBody (hourlyBody.row "root" "nightly" tenUtc)
      acmeText (.plain "run" tenUtc) .acme bundle bundle.1 :=
    ⟨nofun, hbundle, rfl, fun _ _ => put_hourlyBody _, rfl, fun _ => rfl, rfl⟩
  refine ⟨bundle.1, (accepted_schedule_delivers_iff hsucceeding).2 ?_⟩
  exact ⟨rfl, ⟨_, rfl⟩, advanced_ok_iff.1 ⟨_, rfl⟩, .inl ⟨rfl, rfl⟩, fun _ _ => .inl ⟨rfl, rfl⟩⟩

/-- Every accepted body delivers when the export, the encryption and the `put` succeed. -/
def AcceptedSchedulesDeliver (sched : BackupScheduler b Data) : Prop :=
  ∀ payload user_id id now s tenant_id env bundle data, Loaded s (payload.row user_id id now) →
    Succeeding sched payload (payload.row user_id id now) tenant_id env s bundle data →
      DeliversBackup sched payload env data
        ((sched.dispatch (payload.row user_id id now) env).final s)

/-- The id of the tenant is not stored with the schedule. -/
theorem tenant_schedule_undelivered : ¬ AcceptedSchedulesDeliver .plain := by
  intro h
  obtain ⟨bundle, hbundle⟩ : ∃ bundle, requestedExport BackupScheduler.plain acmeBody acmeText
      tenUtc BackupState.acme.db = .ok bundle := exists_of_isOk (by decide +kernel)
  have htenant : NamesTenant acmeBody acmeText BackupState.acme.db :=
    ⟨"acme", rfl, acmeTenant, List.mem_cons_self, rfl, rfl⟩
  obtain ⟨run, hrun, hstatus, -⟩ := h acmeBody "root" "nightly" tenUtc .acme acmeText
    (.plain "run" tenUtc) bundle bundle.1 rfl
    ⟨fun _ => htenant, hbundle, rfl, fun _ _ => put_hourlyBody _, rfl, fun _ => rfl, rfl⟩
  have hfailed : (((BackupScheduler.plain.dispatch (acmeBody.row "root" "nightly" tenUtc)
      (.plain "run" tenUtc)).final .acme).runs.find "run").map BackupRun.status =
        some .failed := by decide +kernel
  have hrun' : ((BackupScheduler.plain.dispatch (acmeBody.row "root" "nightly" tenUtc)
      (.plain "run" tenUtc)).final .acme).runs.find "run" = some run := hrun
  rw [hrun', Option.map_some, hstatus] at hfailed
  cases hfailed

end ScottyCore
