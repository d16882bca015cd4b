import ScottyCore.Backup.Ticks

namespace ScottyCore
open Python Async TransitionSystem
set_option autoImplicit true

variable {b : Backend} {Data : Type}

/-! ## The ledger -/

/-- The sink of the schedule of a run. -/
def sinkOf (schedules : KeyedTable BackupSchedule BackupSchedule.id) (r : BackupRun) :
    Option StorageSink :=
  r.schedule_id.bind fun schedule_id => (schedules.find schedule_id).bind fun schedule =>
    (buildSinkFromConfig schedule.sink_type schedule.sink_config).toOption

/-- The digest of what the sink of a run holds under the run's locator. -/
def heldDigest (sched : BackupScheduler b Data) (s : BackupState b Data) (r : BackupRun) :
    Option String :=
  (sinkOf s.schedules r).bind fun sink => r.sink_locator.bind fun locator =>
    (sink.get sched.libs locator s.stored).toOption.map sched.libs.sha256

/-- Every success has its blob in its sink, with the digest that is on record. -/
def LedgerAgrees (sched : BackupScheduler b Data) (s : BackupState b Data) : Prop :=
  ∀ r ∈ s.runs.rows, r.status = .success →
    (heldDigest sched s r).isSome = true ∧ heldDigest sched s r = r.sha256

instance (sched : BackupScheduler b Data) (s : BackupState b Data) :
    Decidable (LedgerAgrees sched s) :=
  inferInstanceAs (Decidable (∀ r ∈ s.runs.rows, _))

def placeOf (libs : BackupLibraries Data) (schedules : KeyedTable BackupSchedule BackupSchedule.id)
    (r : BackupRun) : Option Place :=
  (sinkOf schedules r).bind fun sink => r.sink_locator.map (sink.place libs)

/-- The ledger agrees with the sinks, and no two successes share a place. -/
structure Ledger (sched : BackupScheduler b Data) (s : BackupState b Data) : Prop where
  agrees : LedgerAgrees sched s
  apart : ∀ r ∈ s.runs.rows, ∀ r' ∈ s.runs.rows, r.status = .success → r'.status = .success →
    placeOf sched.libs s.schedules r = placeOf sched.libs s.schedules r' → r.id = r'.id

section

variable {sched : BackupScheduler b Data} {s s' : BackupState b Data}

theorem sinkOf_congr (h : SchedulesKept s s') (r : BackupRun) :
    sinkOf s'.schedules r = sinkOf s.schedules r := by
  have hmap : ∀ schedules : KeyedTable BackupSchedule BackupSchedule.id, sinkOf schedules r =
      r.schedule_id.bind fun schedule_id =>
        ((schedules.find schedule_id).map BackupSchedule.timeless).bind fun schedule =>
          (buildSinkFromConfig schedule.sink_type schedule.sink_config).toOption := by
    intro schedules
    simp only [sinkOf, Option.bind_map]
    rfl
  simp only [hmap, h _]

theorem placeOf_congr (h : SchedulesKept s s') (r : BackupRun) :
    placeOf sched.libs s'.schedules r = placeOf sched.libs s.schedules r := by
  rw [placeOf, placeOf, sinkOf_congr h]

theorem get_congr {sink : StorageSink} {libs : BackupLibraries Data} {stored stored' : Stored Data}
    (h : stored'.find (sink.place libs locator) = stored.find (sink.place libs locator)) :
    sink.get libs locator stored' = sink.get libs locator stored := by
  rw [StorageSink.get, StorageSink.get, h]

theorem heldDigest_congr (hs : SchedulesKept s s') {r : BackupRun}
    (hstored : ∀ place, placeOf sched.libs s.schedules r = some place →
      s'.stored.find place = s.stored.find place) :
    heldDigest sched s' r = heldDigest sched s r := by
  rw [heldDigest, heldDigest, sinkOf_congr hs]
  cases hsink : sinkOf s.schedules r with
  | none => rfl
  | some sink =>
    cases hlocator : r.sink_locator with
    | none => rfl
    | some locator =>
      have hplace : placeOf sched.libs s.schedules r = some (sink.place sched.libs locator) := by
        rw [placeOf, hsink, hlocator]
        rfl
      simp only [Option.bind_some, get_congr (hstored _ hplace)]

/-- Fewer successes, whose blobs are untouched. -/
theorem Ledger.sub (h : Ledger sched s) (hs : SchedulesKept s s')
    (hrows : ∀ r ∈ s'.runs.rows, r.status = .success → r ∈ s.runs.rows)
    (hstored : ∀ r ∈ s'.runs.rows, r.status = .success → ∀ place,
      placeOf sched.libs s.schedules r = some place →
        s'.stored.find place = s.stored.find place) : Ledger sched s' where
  agrees r hr hstatus := by
    rw [heldDigest_congr hs (hstored r hr hstatus)]
    exact h.agrees r (hrows r hr hstatus) hstatus
  apart r hr r' hr' hstatus hstatus' hplace := by
    rw [placeOf_congr hs, placeOf_congr hs] at hplace
    exact h.apart r (hrows r hr hstatus) r' (hrows r' hr' hstatus') hstatus hstatus' hplace

/-- One more success, with a blob and a place of its own. -/
theorem Ledger.add (h : Ledger sched s) (hs : SchedulesKept s s') {run : BackupRun}
    (hrows : ∀ r ∈ s'.runs.rows, r = run ∨ r ∈ s.runs.rows)
    (hstored : ∀ r ∈ s.runs.rows, r.status = .success → ∀ place,
      placeOf sched.libs s.schedules r = some place → s'.stored.find place = s.stored.find place)
    (hrun : (heldDigest sched s' run).isSome = true ∧ heldDigest sched s' run = run.sha256)
    (hapart : ∀ r ∈ s.runs.rows, r.status = .success →
      placeOf sched.libs s.schedules r ≠ placeOf sched.libs s.schedules run) :
    Ledger sched s' where
  agrees r hr hstatus := by
    rcases hrows r hr with rfl | hr
    · exact hrun
    · rw [heldDigest_congr hs (hstored r hr hstatus)]
      exact h.agrees r hr hstatus
  apart r hr r' hr' hstatus hstatus' hplace := by
    rw [placeOf_congr hs, placeOf_congr hs] at hplace
    rcases hrows r hr with rfl | hr
    · rcases hrows r' hr' with rfl | hr'
      · rfl
      · exact (hapart r' hr' hstatus' hplace.symm).elim
    · rcases hrows r' hr' with rfl | hr'
      · exact (hapart r hr hstatus hplace).elim
      · exact h.apart r hr r' hr' hstatus hstatus' hplace

end

/-! ## A careful dispatch -/

section

open BackupScheduler

variable {sched : BackupScheduler b Data} {schedule : BackupSchedule} {env : Circumstances}
variable {s t u : BackupState b Data} {taken : BackupBlob Data × StorageSink × String}

/-- The new snapshot has a place of its own within the root of its sink, and no snapshot is deleted
without its row. -/
structure BackupScheduler.Careful (sched : BackupScheduler b Data) (schedule : BackupSchedule)
    (env : Circumstances) (s : BackupState b Data) : Prop where
  apart : ∀ taken, sched.backupOf schedule env s.db = .ok taken →
    ∀ r ∈ s.runs.rows, r.status = .success → placeOf sched.libs s.schedules r ≠
      some (taken.2.1.place sched.libs taken.2.2)
  within : ∀ taken, sched.backupOf schedule env s.db = .ok taken →
    taken.2.1.holdsLocator sched.libs taken.2.2 = true
  whole : ∀ run_id, ¬ Torn env run_id

/-- The other successes keep their blobs when the new one is put. -/
theorem BackupScheduler.Careful.stored (hc : Careful sched schedule env s)
    (ht : Underway sched schedule env s (sched.pendingState schedule env s) t) :
    ∀ r ∈ s.runs.rows, r.status = .success → ∀ place,
      placeOf sched.libs s.schedules r = some place →
        t.stored.find place = s.stored.find place := by
  intro r hr hstatus place hplace
  rcases ht.stored with heq | ⟨taken, htaken, heq⟩
  · rw [heq]
    rfl
  · have hne := hc.apart taken htaken r hr hstatus
    rw [hplace] at hne
    rw [heq]
    exact KeyedTable.find_upsert_of_ne _ fun he => hne (congrArg some he)

theorem Ledger.underway (h : Ledger sched s) (hc : Careful sched schedule env s)
    (ht : Underway sched schedule env s (sched.pendingState schedule env s) t) :
    Ledger sched t := by
  obtain ⟨hschedules, status, hstatus, hruns⟩ := ht.inProgress
  have hrows : ∀ r ∈ t.runs.rows, r.status = .success → r ∈ s.runs.rows := by
    intro r hr hsuccess
    rw [hruns, KeyedTable.mem_upsert_iff] at hr
    rcases hr with rfl | hr
    · exact (hstatus (.inl hsuccess)).elim
    · exact hr.1
  exact h.sub (schedulesKept_of_eq hschedules) hrows
    fun r hr hsuccess => hc.stored ht r (hrows r hr hsuccess) hsuccess

theorem sinkOf_newRun (hloaded : Loaded s schedule) (hid : run.schedule_id = some schedule.id) :
    sinkOf s.schedules run =
      (buildSinkFromConfig schedule.sink_type schedule.sink_config).toOption := by
  obtain ⟨row, hrow, htimeless⟩ := hloaded.find
  have htype : row.sink_type = schedule.sink_type := (congrArg BackupSchedule.sink_type htimeless :)
  have hconfig : row.sink_config = schedule.sink_config :=
    (congrArg BackupSchedule.sink_config htimeless :)
  rw [sinkOf, hid, Option.bind_some, hrow, Option.bind_some, htype, hconfig]

/-- The ledger when the success is recorded. -/
theorem Ledger.recorded (h : Ledger sched s) (hc : Careful sched schedule env s)
    (hloaded : Loaded s schedule)
    (htaken : Taken sched schedule env (sched.pendingState schedule env s) taken t)
    (ht : InProgress sched schedule env s t) :
    Ledger sched (t.updateRun env.run_id (succeeded taken.1 taken.2.2 env.finished_at)) := by
  obtain ⟨hsink, hsha⟩ := backupOf_eq_ok htaken.backup
  have hkept : SchedulesKept s (t.updateRun env.run_id
      (succeeded taken.1 taken.2.2 env.finished_at)) :=
    schedulesKept_of_eq ((BackupState.updateRun_schedules ..).trans ht.1)
  have hnew : ∀ {u : BackupState b Data}, Loaded u schedule →
      sinkOf u.schedules (sched.successRun schedule env taken) = some taken.2.1 := by
    intro u hu
    rw [sinkOf_newRun hu rfl, hsink]
    rfl
  have hplace : placeOf sched.libs s.schedules (sched.successRun schedule env taken) =
      some (taken.2.1.place sched.libs taken.2.2) := by
    rw [placeOf, hnew hloaded]
    rfl
  have hdigest : heldDigest sched (t.updateRun env.run_id
      (succeeded taken.1 taken.2.2 env.finished_at)) (sched.successRun schedule env taken) =
        some taken.1.sha256 := by
    have hget : taken.2.1.get sched.libs taken.2.2 t.stored = .ok taken.1.data := by
      rw [StorageSink.get, if_pos (hc.within taken htaken.backup), htaken.stored,
        KeyedTable.find_upsert_self]
    rw [heldDigest, hnew (hkept.loaded hloaded), Option.bind_some, BackupState.updateRun_stored,
      successRun, succeeded, Option.bind_some, hget, hsha]
    rfl
  have hrows : ∀ r ∈ (t.updateRun env.run_id (succeeded taken.1 taken.2.2 env.finished_at)).runs.rows,
      r = sched.successRun schedule env taken ∨ r ∈ s.runs.rows := by
    intro r hr
    rw [recorded_runs ht, KeyedTable.mem_upsert_iff] at hr
    exact hr.imp_right And.left
  apply h.add hkept hrows
  · rw [BackupState.updateRun_stored]
    exact hc.stored ⟨ht, .inr ⟨taken, htaken.backup, htaken.stored⟩⟩
  · rw [hdigest]
    exact ⟨rfl, rfl⟩
  · intro r hr hstatus
    rw [hplace]
    exact hc.apart taken htaken.backup r hr hstatus

theorem mem_of_doomed (h : r ∈ doomed schedule env runs) :
    r ∈ runs ∧ r.schedule_id = some schedule.id ∧ r.status = .success := by
  rw [doomed] at h
  split at h
  · rw [condemned] at h
    split at h
    · cases h
    · have hmem := (env.order.perm _).mem_iff.1 (List.mem_filter.1 h).1
      obtain ⟨hr, hself⟩ := List.mem_filter.1 hmem
      exact ⟨hr, of_decide_eq_true hself⟩
  · cases h

/-- A pruning deletes the rows of the blobs that it deletes. -/
theorem Ledger.pruned {sink : StorageSink} {runs : List BackupRun} (h : Ledger sched s)
    (hruns : ∀ r ∈ runs, r ∈ s.runs.rows ∧ r.status = .success ∧ sinkOf s.schedules r = some sink)
    (hwhole : ∀ run_id, ¬ Torn env run_id) (hp : PrunedBy sched sink env runs s t) :
    Ledger sched t := by
  have hrows : ∀ r ∈ t.runs.rows, r ∈ s.runs.rows := by
    intro r hr
    have hfind := KeyedTable.find_of_mem hr
    rcases hp.rows r.id with heq | ⟨-, hgone⟩
    · rw [heq] at hfind
      exact KeyedTable.mem_of_find hfind
    · cases hfind.symm.trans hgone
  apply h.sub (schedulesKept_of_eq hp.schedules) fun r hr _ => hrows r hr
  intro r hr hstatus place hplace
  rcases hp.blobs place with heq | ⟨q, hq, ⟨locator, hlocator, hq'⟩, hgone⟩
  · exact heq
  · obtain ⟨hmem, hsuccess, hsink⟩ := hruns q hq
    have hqplace : placeOf sched.libs s.schedules q = some place := by
      rw [placeOf, hsink, (Option.filter_eq_some_iff.1 hlocator).1, hq']
      rfl
    have hid : r.id = q.id :=
      h.apart r (hrows r hr) q hmem hstatus hsuccess (hplace.trans hqplace.symm)
    rcases hgone with hgone | htorn
    · rw [← hid, KeyedTable.find_of_mem hr] at hgone
      cases hgone
    · exact (hwhole _ htorn).elim

theorem Ledger.updateSchedule (h : Ledger sched s)
    (hstep : sched.advanced schedule base = .ok step) (schedule_id : String) :
    Ledger sched (s.updateSchedule schedule_id step) := by
  apply h.sub (schedulesKept_update s schedule_id (advanced_timeless hstep))
  · intro r hr _
    rwa [BackupState.updateSchedule_runs] at hr
  · intro r _ _ place _
    rw [BackupState.updateSchedule_stored]

theorem Ledger.failed (h : Ledger sched s) (err : String) (failed_at : DateTime) :
    Ledger sched (s.updateRun run_id (failedWith err failed_at)) := by
  apply h.sub (schedulesKept_of_eq (BackupState.updateRun_schedules ..))
  · intro r hr hstatus
    rw [BackupState.updateRun] at hr
    split at hr
    · rcases KeyedTable.mem_upsert_iff.1 hr with rfl | hr
      · cases hstatus
      · exact hr.1
    · exact hr
  · intro r _ _ place _
    rw [BackupState.updateRun_stored]

theorem Ledger.attempt (h : Ledger sched s) (hc : Careful sched schedule env s)
    (hloaded : Loaded s schedule)
    (ha : Attempt sched schedule env s (sched.pendingState schedule env s) o u) :
    Ledger sched u := by
  cases ha with
  | untaken ht _ => exact h.underway hc ht
  | @taken taken t _ _ htaken ht hrecording =>
    have hrecorded := h.recorded hc hloaded htaken ht
    have hkept : SchedulesKept s (t.updateRun env.run_id
        (succeeded taken.1 taken.2.2 env.finished_at)) :=
      schedulesKept_of_eq ((BackupState.updateRun_schedules ..).trans ht.1)
    cases hrecording with
    | unrecorded _ =>
      exact h.underway hc ⟨ht, .inr ⟨taken, htaken.backup, htaken.stored⟩⟩
    | recorded _ => exact hrecorded
    | advanced _ hstep _ => exact hrecorded.updateSchedule hstep _
    | complete _ hstep _ _ => exact hrecorded.updateSchedule hstep _
    | pruned _ hstep _ _ hpruning =>
      apply (hrecorded.updateSchedule hstep _).pruned _ hc.whole hpruning.pruned
      intro r hr
      obtain ⟨hr, hid, hstatus⟩ := mem_of_doomed hr
      refine ⟨hr, hstatus, ?_⟩
      have hkept' := hkept.trans (schedulesKept_update _ schedule.id (advanced_timeless hstep))
      rw [sinkOf_newRun (hkept'.loaded hloaded) hid, (backupOf_eq_ok htaken.backup).1]
      rfl

/-- What a careful dispatch leaves agrees with the sinks, however it ends. -/
theorem Ledger.dispatching (h : Ledger sched s) (hc : Careful sched schedule env s)
    (hloaded : Loaded s schedule) (hd : Dispatching sched schedule env s o u) :
    Ledger sched u := by
  have hattempt : ∀ {t o u}, Creation sched schedule env s (.returned ()) t →
      Attempt sched schedule env s t o u → Ledger sched u := by
    intro t o u ht ha
    cases ht
    exact h.attempt hc hloaded ha
  cases hd with
  | unstarted ht =>
    cases ht with
    | uncreated _ => exact h
    | abandoned _ _ => exact h.underway hc ⟨inProgress_pending sched schedule env s, .inl rfl⟩
  | returned ht ha => exact hattempt ht ha
  | cancelled ht ha => exact hattempt ht ha
  | unmarked ht ha _ => exact hattempt ht ha
  | failed ht ha _ => exact (hattempt ht ha).failed _ _

end

/-! ## Runs of dispatches -/

/-- A dispatch of a stored schedule. -/
def DispatchStep (sched : BackupScheduler b Data) (s : BackupState b Data)
    (d : BackupSchedule × Circumstances) (s' : BackupState b Data) : Prop :=
  Loaded s d.1 ∧ s' = (sched.dispatch d.1 d.2).final s

def CarefulDispatch (sched : BackupScheduler b Data) (s : BackupState b Data)
    (d : BackupSchedule × Circumstances) : Prop := sched.Careful d.1 d.2 s

/-- After every run of dispatches the ledger agrees with the sinks. -/
def LedgersAgree (sched : BackupScheduler b Data) : Prop :=
  ∀ s₀ ds s, Ledger sched s₀ → Run (DispatchStep sched) s₀ ds s → LedgerAgrees sched s

theorem DispatchStep.ledger {sched : BackupScheduler b Data} {s s' : BackupState b Data}
    (h : DispatchStep sched s d s') (hc : CarefulDispatch sched s d) (hs : Ledger sched s) :
    Ledger sched s' := by
  obtain ⟨hloaded, rfl⟩ := h
  exact hs.dispatching hc hloaded
    (BackupScheduler.dispatch_wp sched d.1 d.2 s).2

theorem careful_ledger_agrees {sched : BackupScheduler b Data} {s₀ s : BackupState b Data}
    (hs₀ : Ledger sched s₀)
    (h : Run (Guarded (DispatchStep sched) (CarefulDispatch sched)) s₀ ds s) :
    LedgerAgrees sched s := by
  apply Ledger.agrees
  apply h.invariant hs₀
  exact fun hs hstep => hstep.1.ledger hstep.2 hs

def spare : BackupSchedule := .platform "spare" (some "0 * * * *")

/-- An installation with two schedules for the same hours and the same sink. -/
def BackupState.twoHourly : BackupState .sqlite Bytes :=
  { withSchedule hourly with schedules := (withSchedule hourly).schedules.upsert spare }

def halfASecondLater : DateTime := ⟨2024, 6, 1, 10, 0, 0, 500000, some 0, by decide⟩

theorem ledger_twoHourly : Ledger .plain .twoHourly where
  agrees _ hr := absurd hr List.not_mem_nil
  apart _ hr := absurd hr List.not_mem_nil

theorem careful_hourly : BackupScheduler.plain.Careful hourly (.plain "run" tenUtc) .twoHourly where
  apart _ _ _ hr := absurd hr List.not_mem_nil
  within taken htaken := by
    have hheld : (BackupScheduler.plain.backupOf hourly (.plain "run" tenUtc)
        BackupState.twoHourly.db).toOption.map
          (fun taken => taken.2.1.holdsLocator .plain taken.2.2) = some true := by decide +kernel
    rw [htaken] at hheld
    exact Option.some.inj hheld
  whole run_id h := by
    rcases h with h | ⟨_, h⟩
    all_goals cases h

theorem hourly_ledger_agrees : LedgerAgrees .plain
    ((BackupScheduler.plain.dispatch hourly (.plain "run" tenUtc)).final .twoHourly) :=
  careful_ledger_agrees ledger_twoHourly
    (.single (a := (hourly, Circumstances.plain "run" tenUtc)) ⟨⟨rfl, rfl⟩, careful_hourly⟩)

/-- Within one second two platform schedules give their snapshots one name. -/
theorem ledgers_disagree : ¬ LedgersAgree .plain := by
  intro h
  have hspare : spare ∈ BackupState.twoHourly.schedules.rows := by
    rw [BackupState.twoHourly, KeyedTable.mem_upsert_iff]
    exact .inl rfl
  have hfirst : DispatchStep .plain .twoHourly (hourly, .plain "run" tenUtc) _ := ⟨rfl, rfl⟩
  have hloaded := (BackupScheduler.dispatch_wp .plain hourly (.plain "run" tenUtc)
    .twoHourly).2.schedules.loaded (loaded_of_mem hspare)
  have hsecond : DispatchStep .plain _
      (spare, { Circumstances.plain "spare" tenUtc with exported_at := halfASecondLater }) _ :=
    ⟨hloaded, rfl⟩
  exact absurd (h _ _ _ ledger_twoHourly ((Run.single hfirst).snoc hsecond)) (by decide +kernel)

/-- The states between the dispatches of a tick are those of a run of dispatches. -/
theorem DispatchStep.tickOnce (sched : BackupScheduler b Data) (now : DateTime)
    (env : BackupSchedule → Circumstances) (s : BackupState b Data) :
    ∃ ds, Run (DispatchStep sched) s ds ((sched.tickOnce now env).final s) := by
  have hstep : ∀ s schedule, Loaded s schedule → DispatchStep sched s (schedule, env schedule)
      ((sched.dispatch schedule (env schedule)).final s) :=
    fun _ _ hloaded => ⟨hloaded, rfl⟩
  exact BackupScheduler.tickOnce_run now env hstep s

end ScottyCore
