import ScottyCore.Backup.Ticks

namespace ScottyCore
open Python Async TransitionSystem
set_option autoImplicit true

variable {b : Backend} {Data : Type}

/-! ## The final shapes of a run -/

/-- What `croniter` is documented to do. -/
def LaterNext (libs : BackupLibraries Data) : Prop :=
  ∀ cron_expr base nxt, libs.croniter cron_expr base = .ok nxt → base.instant < nxt.instant

/-- A cron schedule runs next after the start, a one-shot schedule not again. -/
def Advances (schedule : BackupSchedule) (started_at : DateTime) (s : BackupState b Data) : Prop :=
  ∃ row, s.schedules.find schedule.id = some row ∧
    ((nonempty schedule.cron_expr = none ∧ row.is_active = false) ∨
      ((nonempty schedule.cron_expr).isSome = true ∧
        ∃ nxt, row.next_run_at = some nxt ∧ started_at.instant < nxt.instant))

/-- The run of a dispatch ended in a success or in a failure that leaves its schedule due. -/
def Final (schedule : BackupSchedule) (env : Circumstances) (s s' : BackupState b Data) : Prop :=
  ∃ run, s'.runs.find env.run_id = some run ∧
    ((run.status = .success ∧ run.sink_locator.isSome = true ∧
        Advances schedule env.started_at s') ∨
      (run.status = .failed ∧ run.sink_locator = none ∧ s'.schedules = s.schedules))

/-- A dispatch that creates its run leaves it in a final shape, and changes no run's status that
was final before, at no moment. -/
def Orderly (sched : BackupScheduler b Data) (schedule : BackupSchedule) (env : Circumstances)
    (s : BackupState b Data) : Prop :=
  Coroutine.wp StatusKept (sched.dispatch schedule env)
    (fun _ s' => s' = s ∨ Final schedule env s s') s

/-! ## A calm dispatch -/

namespace BackupScheduler

variable {sched : BackupScheduler b Data} {schedule : BackupSchedule} {env : Circumstances}
variable {s s' s'' t : BackupState b Data} {sink : StorageSink} {runs : List BackupRun}

/-- Nothing keeps a dispatch from recording a success. -/
def Takes (sched : BackupScheduler b Data) (schedule : BackupSchedule) (env : Circumstances)
    (db : Database b) : Prop :=
  (∀ p ∈ takingAwaits env ++ [.markSuccess], env.fate p = .done) ∧
    ∃ taken, sched.backupOf schedule env db = .ok taken

/-- The schedule has a next run, nothing raises after the success and the pruning spares the
new run. -/
structure Concludes (sched : BackupScheduler b Data) (schedule : BackupSchedule)
    (env : Circumstances) (s : BackupState b Data) : Prop where
  next : ∃ step, sched.advanced schedule env.started_at = .ok step
  advance : env.fate .advance = .done ∨ env.fate .advance = .late .cancellation
  cutoff : Unpruned schedule ∨
    ∃ cutoff, keepCutoff schedule.retention_days env.pruned_at = .ok cutoff
  calls : Unpruned schedule ∨ ∀ e, ¬ (env.fate .selectRuns).EndsIn (.exception e) ∧
    ∀ run_id, ¬ (env.fate (.deleteRow run_id)).EndsIn (.exception e)
  spared : Unpruned schedule ∨ ∀ taken, sched.backupOf schedule env s.db = .ok taken →
    ∀ r ∈ doomed schedule env (s.runs.upsert (sched.successRun schedule env taken)).rows,
      r.id ≠ env.run_id

/-- No cancellation meets the new run before its success is recorded, and no exception after. -/
structure Calm (sched : BackupScheduler b Data) (schedule : BackupSchedule) (env : Circumstances)
    (s : BackupState b Data) : Prop where
  created : ∀ i, ¬ Abandoned env i
  uncancelled : ∀ p ∈ takingAwaits env ++ [.markSuccess], ¬ (env.fate p).EndsIn .cancellation
  success : ∀ i, env.fate .markSuccess ≠ .late i
  failure : ¬ Takes sched schedule env s.db → ∀ i, env.fate .markFailed ≠ .early i
  conclusion : Takes sched schedule env s.db → Concludes sched schedule env s

/-- The other runs are as they were, or deleted. -/
def OthersKept (env : Circumstances) (s s' : BackupState b Data) : Prop :=
  ∀ id, id ≠ env.run_id → s'.runs.find id = s.runs.find id ∨ s'.runs.find id = none

theorem advances_of_step (hlater : LaterNext sched.libs)
    (hfind : s.schedules.find schedule.id = some row)
    (hstep : sched.advanced schedule env.started_at = .ok step)
    (hs' : s'.schedules = s.schedules.upsert (step row)) :
    Advances schedule env.started_at s' := by
  have hid := KeyedTable.key_of_find hfind
  rw [advanced] at hstep
  cases hc : nonempty schedule.cron_expr with
  | none =>
    rw [hc] at hstep
    cases hstep
    refine ⟨{ row with next_run_at := none, is_active := false }, ?_, .inl ⟨hc, rfl⟩⟩
    rw [hs', ← hid]
    exact KeyedTable.find_upsert_self _ _
  | some cron_expr =>
    rw [hc] at hstep
    obtain ⟨nxt, hnxt, hstep⟩ := bind_eq_ok.1 hstep
    cases hstep
    refine ⟨{ row with next_run_at := some nxt }, ?_, .inr ⟨hc ▸ rfl, nxt, rfl, hlater _ _ _ hnxt⟩⟩
    rw [hs', ← hid]
    exact KeyedTable.find_upsert_self _ _

theorem others_of_upsert {run : BackupRun} (hid : run.id = env.run_id)
    (hs' : s'.runs = s.runs.upsert run) : OthersKept env s s' := by
  intro id hne
  left
  rw [hs', KeyedTable.find_upsert_of_ne _ (hid ▸ hne)]

/-- The success is recorded and the schedule advanced. -/
theorem final_of_recorded (hlater : LaterNext sched.libs)
    (hfind : s.schedules.find schedule.id = some row) (hs : InProgress sched schedule env s t)
    (taken : BackupBlob Data × StorageSink × String)
    (hstep : sched.advanced schedule env.started_at = .ok step)
    (hs' : s' = (t.updateRun env.run_id
      (succeeded taken.1 taken.2.2 env.finished_at)).updateSchedule schedule.id step) :
    Final schedule env s s' ∧ OthersKept env s s' ∧
      s'.runs = s.runs.upsert (sched.successRun schedule env taken) := by
  have hruns : s'.runs = s.runs.upsert (sched.successRun schedule env taken) := by
    rw [hs', BackupState.updateSchedule_runs]
    exact recorded_runs hs taken
  have hschedules : s'.schedules = s.schedules.upsert (step row) := by
    have hfind' := hfind
    rw [← hs.1, ← BackupState.updateRun_schedules t env.run_id
      (succeeded taken.1 taken.2.2 env.finished_at)] at hfind'
    rw [hs', BackupState.updateSchedule_of_find _ _ _ hfind', BackupState.updateRun_schedules, hs.1]
  refine ⟨⟨sched.successRun schedule env taken, ?_, .inl ⟨rfl, rfl, ?_⟩⟩, ?_, hruns⟩
  · rw [hruns]
    exact KeyedTable.find_upsert_self _ _
  · exact advances_of_step hlater hfind hstep hschedules
  · exact others_of_upsert rfl hruns

/-- A pruning that spares the new run leaves it in its shape. -/
theorem final_of_pruned (h : Final schedule env s s') (ho : OthersKept env s s')
    (hpruned : PrunedBy sched sink env runs s' s'') (hspared : ∀ r ∈ runs, r.id ≠ env.run_id) :
    Final schedule env s s'' ∧ OthersKept env s s'' := by
  have hown : s''.runs.find env.run_id = s'.runs.find env.run_id := by
    rcases hpruned.rows env.run_id with heq | ⟨⟨r, hr, hid⟩, -⟩
    · exact heq
    · exact (hspared r hr hid).elim
  obtain ⟨run, hrun, hshape⟩ := h
  refine ⟨⟨run, hown.trans hrun, ?_⟩, ?_⟩
  · rw [Advances, hpruned.schedules]
    exact hshape
  · intro id hne
    rcases hpruned.rows id with heq | ⟨-, hgone⟩
    · rw [heq]
      exact ho id hne
    · exact .inr hgone

theorem final_of_failed (hs : InProgress sched schedule env s t) (err : String)
    (hs' : s' = t.updateRun env.run_id (failedWith err env.failed_at)) :
    StatusKept t s' ∧ Final schedule env s s' ∧ OthersKept env s s' := by
  obtain ⟨hkept, status, hruns⟩ := hs.update (failedWith err env.failed_at) fun _ => rfl
  rw [← hs'] at hkept hruns
  refine ⟨hkept, ⟨failedWith err env.failed_at { sched.newRun schedule env with status := status },
    ?_, .inr ⟨rfl, rfl, ?_⟩⟩, others_of_upsert rfl hruns⟩
  · rw [hruns]
    exact KeyedTable.find_upsert_self _ _
  · rw [hs', BackupState.updateRun_schedules, hs.1]

/-- What a calm `try` block leaves: a success, or the run in progress and an exception. -/
theorem Calm.attempt (hc : Calm sched schedule env s) (hlater : LaterNext sched.libs)
    (hfind : s.schedules.find schedule.id = some row)
    (h : Attempt sched schedule env s (sched.pendingState schedule env s) o t) :
    (Final schedule env s t ∧ OthersKept env s t ∧ ∀ e, o ≠ .stopped (.exception e)) ∨
      (InProgress sched schedule env s t ∧ ¬ Takes sched schedule env s.db ∧
        ∃ e, o = .stopped (.exception e)) := by
  cases h with
  | @untaken t i hunderway hend =>
    have hs := hunderway.inProgress
    right
    rcases hend with ⟨p, hp, hend⟩ | ⟨e, he, hie⟩
    · refine ⟨hs, fun htakes => ?_, ?_⟩
      · rcases hend with hend | hend
        · cases (htakes.1 p (List.mem_append_left _ hp)).symm.trans hend
        · cases (htakes.1 p (List.mem_append_left _ hp)).symm.trans hend
      · cases i with
        | exception e => exact ⟨e, rfl⟩
        | cancellation => exact (hc.uncancelled p (List.mem_append_left _ hp) hend).elim
    · refine ⟨hs, fun ⟨_, taken, htaken⟩ => ?_, e, hie ▸ rfl⟩
      cases he.symm.trans htaken
  | @taken taken t o u htaken hs hrecording =>
    have htakes : env.fate .markSuccess = .done → Takes sched schedule env s.db := by
      intro hdone
      refine ⟨fun p hp => ?_, taken, htaken.backup⟩
      rcases List.mem_append.1 hp with hp | hp
      · exact htaken.done p hp
      · rw [List.mem_singleton.1 hp]
        exact hdone
    cases hrecording with
    | @unrecorded i hi =>
      right
      refine ⟨hs, fun htakes => ?_, ?_⟩
      · cases (htakes.1 .markSuccess (List.mem_append_right _ (List.mem_singleton_self _))).symm.trans
          hi
      · cases i with
        | exception e => exact ⟨e, rfl⟩
        | cancellation =>
          exact (hc.uncancelled .markSuccess (List.mem_append_right _ (List.mem_singleton_self _))
            (.inl hi)).elim
    | @recorded i hi =>
      rcases hi with hi | ⟨hdone, hi⟩
      · exact (hc.success i hi).elim
      · have hcon := hc.conclusion (htakes hdone)
        rcases hi with ⟨e, he, -⟩ | hi
        · obtain ⟨step, hstep⟩ := hcon.next
          cases he.symm.trans hstep
        · rcases hcon.advance with ha | ha
          · cases ha.symm.trans hi
          · cases ha.symm.trans hi
    | @advanced step i hdone hstep hi =>
      have hcon := hc.conclusion (htakes hdone)
      left
      obtain ⟨hfinal, ho, -⟩ := final_of_recorded hlater hfind hs taken hstep rfl
      refine ⟨hfinal, ho, ?_⟩
      rintro e ⟨⟩
      rcases hcon.advance with ha | ha
      · cases ha.symm.trans hi
      · cases ha.symm.trans hi
    | @complete step hdone hstep hadvance hunpruned =>
      obtain ⟨hfinal, ho, -⟩ := final_of_recorded hlater hfind hs taken hstep rfl
      exact .inl ⟨hfinal, ho, nofun⟩
    | @pruned step o u hdone hstep hadvance hunpruned hpruning =>
      have hcon := hc.conclusion (htakes hdone)
      left
      obtain ⟨hfinal, ho, hruns⟩ := final_of_recorded hlater hfind hs taken hstep rfl
      have hspared := (hcon.spared.resolve_left hunpruned) taken htaken.backup
      rw [← hruns] at hspared
      obtain ⟨hfinal', ho'⟩ := final_of_pruned hfinal ho hpruning.pruned hspared
      refine ⟨hfinal', ho', ?_⟩
      rintro e rfl
      have hcalls := hcon.calls.resolve_left hunpruned e
      cases hpruning.ended _ rfl with
      | cutoff he _ =>
        obtain ⟨cutoff, hcutoff⟩ := hcon.cutoff.resolve_left hunpruned
        cases he.symm.trans hcutoff
      | selection hi => exact hcalls.1 hi
      | deletion hr hi =>
        rcases hi with hi | ⟨hi, -⟩
        · exact hcalls.2 _ hi
        · cases hi

theorem Calm.dispatch (hc : Calm sched schedule env s) (hlater : LaterNext sched.libs)
    (hfind : s.schedules.find schedule.id = some row) :
    Coroutine.wp StatusKept (sched.dispatch schedule env)
      (fun _ s' => s' = s ∨ (Final schedule env s s' ∧ OthersKept env s s')) s := by
  rw [BackupScheduler.dispatch]
  apply Coroutine.wp_seq (markRunPending_wp sched schedule env s)
  · intro u t ht
    cases ht with
    | created _ _ _ =>
      apply Coroutine.wp_seq (M := fun _ s' => Final schedule env s s' ∧ OthersKept env s s')
      · apply Coroutine.wp_try (runBackup_wp (inProgress_pending sched schedule env s))
        · intro _ u hu
          rcases hc.attempt hlater hfind hu with ⟨hfinal, ho, -⟩ | ⟨_, _, e, he⟩
          · exact ⟨hfinal, ho⟩
          · cases he
        · intro e u hu
          rcases hc.attempt hlater hfind hu with ⟨_, _, hne⟩ | ⟨hu, htakes, _⟩
          · exact (hne e rfl).elim
          · have hfailed := final_of_failed hu e.text rfl
            apply Coroutine.wp_await
            · rintro _ ⟨⟩
              exact ⟨hfailed.1, fun _ => hfailed.2, fun _ _ => hfailed.2⟩
            · intro e he
              cases he
            · exact fun i hi => (hc.failure htakes i hi).elim
        · intro u hu
          rcases hc.attempt hlater hfind hu with ⟨hfinal, ho, -⟩ | ⟨_, _, e, he⟩
          · exact ⟨hfinal, ho⟩
          · cases he
      · exact fun _ _ h => (Coroutine.wp_pure _).2 (.inr h)
      · exact fun _ _ h => .inr h
  · intro i t ht
    cases ht with
    | uncreated _ => exact .inl rfl
    | abandoned _ hi => exact (hc.created i hi).elim

end BackupScheduler

/-! ## Runs of the scheduler -/

/-- What happens to the backup tables: a dispatch, or a change of the schedules between two. -/
inductive SchedulerMove where
  | dispatch (schedule : BackupSchedule) (env : Circumstances)
  | edit (schedules : KeyedTable BackupSchedule BackupSchedule.id)

/-- A dispatch is of a schedule that is stored. -/
inductive SchedulerStep (sched : BackupScheduler b Data) (s : BackupState b Data) :
    SchedulerMove → BackupState b Data → Prop where
  | dispatch : s.schedules.find schedule.id = some row →
      SchedulerStep sched s (.dispatch schedule env) ((sched.dispatch schedule env).final s)
  | edit : SchedulerStep sched s (.edit schedules) { s with schedules := schedules }

/-- A tick is a run of dispatches. -/
theorem SchedulerStep.tickOnce (sched : BackupScheduler b Data) (now : DateTime)
    (env : BackupSchedule → Circumstances) (s : BackupState b Data) :
    ∃ moves, Run (SchedulerStep sched) s moves ((sched.tickOnce now env).final s) := by
  have hstep : ∀ s schedule, Loaded s schedule → SchedulerStep sched s
      (.dispatch schedule (env schedule)) ((sched.dispatch schedule (env schedule)).final s) := by
    intro s schedule hloaded
    obtain ⟨row, hrow, -⟩ := hloaded.find
    exact .dispatch hrow
  exact BackupScheduler.tickOnce_run now env hstep s

/-! ## Calm runs -/

def OrderlyMove (sched : BackupScheduler b Data) (s : BackupState b Data) : SchedulerMove → Prop
  | .dispatch schedule env => Orderly sched schedule env s
  | .edit _ => True

def CalmMove (sched : BackupScheduler b Data) (s : BackupState b Data) : SchedulerMove → Prop
  | .dispatch schedule env => sched.Calm schedule env s
  | .edit _ => True

/-- Every dispatch is orderly and no run is pending or running between two. -/
def RunsSettle (sched : BackupScheduler b Data) : Prop :=
  ∀ s₀ moves s, NoneUnderWay s₀ → Run (SchedulerStep sched) s₀ moves s →
    NoneUnderWay s ∧ Run (Guarded (SchedulerStep sched) (OrderlyMove sched)) s₀ moves s

theorem noneUnderWay_of_final {s s' : BackupState b Data} (hs : NoneUnderWay s)
    (hfinal : Final schedule env s s') (ho : BackupScheduler.OthersKept env s s') : NoneUnderWay s' := by
  intro run hrun
  have hfind := KeyedTable.find_of_mem hrun
  by_cases hid : run.id = env.run_id
  · obtain ⟨own, hown, hshape⟩ := hfinal
    rw [hid, hown] at hfind
    cases hfind
    exact hshape.imp And.left And.left
  · rcases ho run.id hid with heq | hgone
    · rw [heq] at hfind
      exact hs run (KeyedTable.mem_of_find hfind)
    · rw [hgone] at hfind
      cases hfind

theorem SchedulerStep.calm {sched : BackupScheduler b Data} {s s' : BackupState b Data}
    (hlater : LaterNext sched.libs) (h : SchedulerStep sched s move s')
    (hc : CalmMove sched s move) (hs : NoneUnderWay s) : NoneUnderWay s' ∧ OrderlyMove sched s move := by
  cases h with
  | edit => exact ⟨hs, trivial⟩
  | dispatch hfind =>
    have hwp := BackupScheduler.Calm.dispatch hc hlater hfind
    refine ⟨?_, Coroutine.wp_mono hwp fun _ s' h => h.imp_right And.left⟩
    rcases hwp.2 with heq | ⟨hfinal, ho⟩
    · rw [heq]
      exact hs
    · exact noneUnderWay_of_final hs hfinal ho

/-- When each dispatch is calm, each leaves its run a success with its schedule advanced, or a
failure with its schedule as it was. -/
theorem calm_runs_settle {sched : BackupScheduler b Data} {s₀ s : BackupState b Data}
    (hlater : LaterNext sched.libs) (hs₀ : NoneUnderWay s₀)
    (h : Run (Guarded (SchedulerStep sched) (CalmMove sched)) s₀ moves s) :
    NoneUnderWay s ∧ Run (Guarded (SchedulerStep sched) (OrderlyMove sched)) s₀ moves s := by
  induction h with
  | nil => exact ⟨hs₀, .nil⟩
  | snoc _ hstep ih =>
    obtain ⟨hs, hrun⟩ := ih
    obtain ⟨hs', horderly⟩ := hstep.1.calm hlater hstep.2 hs
    exact ⟨hs', hrun.snoc ⟨hstep.1, horderly⟩⟩

def everyDay : BackupSchedule := .platform "everyDay" (some "every day")

theorem laterNext_plain : LaterNext .plain := by
  intro cron_expr base nxt h
  rw [BackupLibraries.plain] at h
  simp only at h
  split at h
  · cases hadd : base.add (3600000000 - (base.minute * 60 + base.second) * 1000000 -
      base.microsecond) with
    | error e =>
      rw [hadd] at h
      cases h
    | ok d =>
      rw [hadd] at h
      cases h
      have hinstant := DateTime.instant_add hadd
      obtain ⟨-, -, -, -, hminute, hsecond, hmicro, -⟩ := base.valid
      omega
  · cases h

theorem unpruned_platform (id : String) (cron_expr : Option String) :
    BackupScheduler.Unpruned (.platform id cron_expr) := ⟨rfl, rfl⟩

theorem calm_hourly : BackupScheduler.plain.Calm hourly (.plain "run" tenUtc)
    (.withSchedule hourly) where
  created i h := by
    rcases h with h | h | h
    all_goals cases h
  uncancelled p _ h := by
    rcases h with h | h
    all_goals cases h
  success i := nofun
  failure _ i := nofun
  conclusion _ := {
    next := ⟨_, rfl⟩
    advance := .inl rfl
    cutoff := .inl (unpruned_platform "hourly" _)
    calls := .inl (unpruned_platform "hourly" _)
    spared := .inl (unpruned_platform "hourly" _) }

theorem noneUnderWay_withSchedule (schedule : BackupSchedule) : NoneUnderWay (.withSchedule schedule) := by
  intro run hrun
  exact absurd hrun List.not_mem_nil

theorem hourly_runs_settle : NoneUnderWay
    ((BackupScheduler.plain.dispatch hourly (.plain "run" tenUtc)).final (.withSchedule hourly)) :=
  (calm_runs_settle laterNext_plain (noneUnderWay_withSchedule hourly)
    (.single ⟨@SchedulerStep.dispatch _ _ _ _ _ hourly _ rfl, calm_hourly⟩)).1

/-- The scheduler finds the cron expression to be none when the success is recorded. -/
theorem runs_unsettled : ¬ RunsSettle .plain := by
  intro h
  have hfind : (BackupState.withSchedule everyDay).schedules.find everyDay.id = some everyDay := rfl
  have hstep : SchedulerStep .plain (.withSchedule everyDay)
      (.dispatch everyDay (.plain "run" tenUtc)) _ := .dispatch hfind
  have horderly : Orderly .plain everyDay (.plain "run" tenUtc) (.withSchedule everyDay) :=
    ((h _ _ _ (noneUnderWay_withSchedule everyDay) (.single hstep)).2).of_single.2
  rw [Orderly, Coroutine.wp] at horderly
  have hfailed : (((BackupScheduler.plain.dispatch everyDay (.plain "run" tenUtc)).final
      (.withSchedule everyDay)).runs.find "run").map (fun run => (run.status, run.sink_locator)) =
        some (.failed, some "app/platform/20240601T100000Z-full.tar.gz") := by decide +kernel
  generalize (BackupScheduler.plain.dispatch everyDay (.plain "run" tenUtc)).final
      (.withSchedule everyDay) = t at horderly hfailed
  rcases horderly.2 with heq | ⟨run, hrun, hshape⟩
  · rw [heq] at hfailed
    cases hfailed
  · have hrun' : t.runs.find "run" = some run := hrun
    rw [hrun'] at hfailed
    have hshown := Option.some.inj hfailed
    rcases hshape with ⟨hstatus, -⟩ | ⟨-, hlocator, -⟩
    · cases hstatus.symm.trans (congrArg Prod.fst hshown)
    · cases hlocator.symm.trans (congrArg Prod.snd hshown)

end ScottyCore
