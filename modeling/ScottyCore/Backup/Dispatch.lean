import ScottyCore.Backup.Scheduler

namespace ScottyCore
open Python Async
set_option autoImplicit true

variable {b : Backend} {Data : Type}

/-! ## What a dispatch may do to the runs -/

/-- No run that was successful or failed changes its status. -/
def StatusKept (s s' : BackupState b Data) : Prop :=
  ∀ run_id run run', s.runs.find run_id = some run → s'.runs.find run_id = some run' →
    run.status.terminal → run'.status = run.status

/-- No run is pending or running. -/
def NoneUnderWay (s : BackupState b Data) : Prop :=
  ∀ run ∈ s.runs.rows, run.status.terminal

theorem statusKept_of_runs {s s' : BackupState b Data} (h : s'.runs = s.runs) : StatusKept s s' := by
  intro run_id run run' hrun hrun' _
  rw [h, hrun] at hrun'
  cases hrun'
  rfl

theorem statusKept_erase {s s' : BackupState b Data} (h : s'.runs = s.runs.erase run_id) :
    StatusKept s s' := by
  intro id run run' hrun hrun' _
  rw [h, KeyedTable.find_erase] at hrun'
  split at hrun'
  · cases hrun'
  · cases hrun.symm.trans hrun'
    rfl

/-- A write to a run that is not terminal yet. -/
theorem statusKept_upsert {s s' : BackupState b Data} {t : KeyedTable BackupRun BackupRun.id}
    (hs : s.runs = t.upsert run) (hs' : s'.runs = t.upsert run') (hid : run'.id = run.id)
    (hstatus : ¬ run.status.terminal) : StatusKept s s' := by
  intro id r r' hr hr' ht
  rw [hs, KeyedTable.find_upsert] at hr
  rw [hs', KeyedTable.find_upsert, hid] at hr'
  split at hr
  · cases hr
    exact (hstatus ht).elim
  · rename_i hne
    rw [if_neg hne] at hr'
    cases hr.symm.trans hr'
    rfl

theorem statusKept_insert {s s' : BackupState b Data} (hs : s.runs.find run.id = none)
    (hs' : s'.runs = s.runs.upsert run) : StatusKept s s' := by
  intro id r r' hr hr' _
  rw [hs', KeyedTable.find_upsert] at hr'
  split at hr'
  · rename_i he
    rw [he, hs] at hr
    cases hr
  · cases hr.symm.trans hr'
    rfl

/-! ## A dispatch in progress -/

namespace BackupScheduler

variable {sched : BackupScheduler b Data} {schedule : BackupSchedule} {env : Circumstances}
variable {s s₀ s' : BackupState b Data}

/-- The tables are those before the dispatch, but for the new run, which is not terminal. -/
def InProgress (sched : BackupScheduler b Data) (schedule : BackupSchedule) (env : Circumstances)
    (s₀ s : BackupState b Data) : Prop :=
  s.schedules = s₀.schedules ∧ ∃ status : RunStatus, ¬ status.terminal ∧
    s.runs = s₀.runs.upsert { sched.newRun schedule env with status := status }

theorem InProgress.congr (h : InProgress sched schedule env s₀ s) (hruns : s'.runs = s.runs)
    (hschedules : s'.schedules = s.schedules) : InProgress sched schedule env s₀ s' := by
  obtain ⟨hs, status, hstatus, hrows⟩ := h
  exact ⟨hschedules.trans hs, status, hstatus, hruns.trans hrows⟩

/-- The awaited calls up to the sink's `put`. -/
def takingAwaits (env : Circumstances) : List Await :=
  [.markRunning, .export, .passphrase] ++
    (if (nonempty env.passphrase).isSome then [.encrypt] else []) ++ [.put]

def sealed (sched : BackupScheduler b Data) (env : Circumstances) (bundle : Bytes) :
    Except Exc Data :=
  match nonempty env.passphrase with
  | some passphrase => encryptBundle sched.libs (sched.libs.encode bundle) passphrase
  | none => .ok (sched.libs.encode bundle)

/-- The backup of a schedule: its blob, its sink and the locator there. -/
def backupOf (sched : BackupScheduler b Data) (schedule : BackupSchedule) (env : Circumstances)
    (db : Database b) : Except Exc (BackupBlob Data × StorageSink × String) := do
  let bundle ← sched.runExport schedule env.exported_at db
  let data ← sched.sealed env bundle.1.1
  let blob := sched.blobOf schedule env data bundle.1.2
  let sink ← buildSink schedule env
  let locator ← sink.locatorOf sched.libs blob
  .ok (blob, sink, locator)

theorem backupOf_eq_ok {taken : BackupBlob Data × StorageSink × String}
    (h : sched.backupOf schedule env db = .ok taken) :
    buildSinkFromConfig schedule.sink_type schedule.sink_config = .ok taken.2.1 ∧
      taken.1.sha256 = sched.libs.sha256 taken.1.data := by
  obtain ⟨bundle, _, h⟩ := bind_eq_ok.1 h
  obtain ⟨data, _, h⟩ := bind_eq_ok.1 h
  obtain ⟨sink, hsink, h⟩ := bind_eq_ok.1 h
  obtain ⟨locator, _, h⟩ := bind_eq_ok.1 h
  cases h
  refine ⟨?_, rfl⟩
  rw [buildSink] at hsink
  split at hsink
  · cases hsink
  · exact hsink

/-- The backup is in its place in the sink. -/
structure Taken (sched : BackupScheduler b Data) (schedule : BackupSchedule) (env : Circumstances)
    (s : BackupState b Data) (taken : BackupBlob Data × StorageSink × String)
    (s' : BackupState b Data) : Prop where
  done : ∀ p ∈ takingAwaits env, env.fate p = .done
  backup : sched.backupOf schedule env s.db = .ok taken
  stored : s'.stored = s.stored.upsert (taken.2.1.place sched.libs taken.2.2, taken.1.data)

/-- Why no backup is taken. -/
def TakingEndsIn (sched : BackupScheduler b Data) (schedule : BackupSchedule)
    (env : Circumstances) (db : Database b) (i : Interrupt Exc) : Prop :=
  (∃ p ∈ takingAwaits env, (env.fate p).EndsIn i) ∨
    ∃ e, sched.backupOf schedule env db = .error e ∧ i = .exception e

theorem wp_sealBundle {s : BackupState b Data}
    {k : Data → Coroutine (BackupState b Data) Exc β}
    {Q : Outcome Exc β → BackupState b Data → Prop}
    (hstop : ∀ i, (∃ p ∈ takingAwaits env, (env.fate p).EndsIn i) ∨
      (∃ e, sched.sealed env bundle = .error e ∧ i = .exception e) → Q (.stopped i) s)
    (hk : ∀ data, sched.sealed env bundle = .ok data →
      ((nonempty env.passphrase).isSome = true → env.fate .encrypt = .done) →
      Coroutine.wp StatusKept (k data) Q s) :
    Coroutine.wp StatusKept (sched.sealBundle env bundle >>= k) Q s := by
  rw [sealed] at hstop hk
  rw [sealBundle]
  cases hp : nonempty env.passphrase with
  | none =>
    rw [hp] at hk
    rw [Coroutine.wp_bind, Coroutine.wp_pure]
    exact hk _ rfl nofun
  | some passphrase =>
    rw [hp] at hk hstop
    have hmem : Await.encrypt ∈ takingAwaits env := by
      simp [takingAwaits, hp]
    apply Coroutine.wp_await_bind (I := (· = s)) rfl
    · rintro i _ rfl hi
      apply hstop
      rcases hi with hi | ⟨e, he, rfl⟩
      · exact .inl ⟨.encrypt, hmem, hi⟩
      · exact .inr ⟨e, map_eq_error.1 he, rfl⟩
    · intro r hr
      obtain ⟨data, _, rfl⟩ := map_eq_ok.1 hr
      exact ⟨statusKept_of_runs rfl, rfl⟩
    · intro hd r hr
      obtain ⟨data, hdata, rfl⟩ := map_eq_ok.1 hr
      exact hk data hdata fun _ => hd

/-- A write to the run of the dispatch. -/
theorem InProgress.update (h : InProgress sched schedule env s₀ s) (f : BackupRun → BackupRun)
    (hf : ∀ run, (f run).id = run.id) :
    StatusKept s (s.updateRun env.run_id f) ∧
      ∃ status : RunStatus, (s.updateRun env.run_id f).runs =
        s₀.runs.upsert (f { sched.newRun schedule env with status := status }) := by
  obtain ⟨-, status, hstatus, hruns⟩ := h
  have hu := BackupState.updateRun_of_upsert f hruns (hf _)
  exact ⟨statusKept_upsert hruns hu (hf _) hstatus, status, hu⟩

theorem put_eq_error {sink : StorageSink} {libs : BackupLibraries Data} {blob : BackupBlob Data}
    {stored : Stored Data} (h : sink.put libs blob stored = .error e) :
    sink.locatorOf libs blob = .error e := by
  rw [StorageSink.put] at h
  cases hl : sink.locatorOf libs blob with
  | error e' =>
    rw [hl] at h
    cases h
    rfl
  | ok locator =>
    rw [hl] at h
    cases h

/-- The run is in progress, and the backup may be in its place in the sink. -/
structure Underway (sched : BackupScheduler b Data) (schedule : BackupSchedule)
    (env : Circumstances) (s₀ s t : BackupState b Data) : Prop where
  inProgress : InProgress sched schedule env s₀ t
  stored : t.stored = s.stored ∨ ∃ taken, sched.backupOf schedule env s.db = .ok taken ∧
    t.stored = s.stored.upsert (taken.2.1.place sched.libs taken.2.2, taken.1.data)

/-- What taking a backup leaves. -/
structure Taking (sched : BackupScheduler b Data) (schedule : BackupSchedule)
    (env : Circumstances) (s₀ s : BackupState b Data)
    (o : Outcome Exc (BackupBlob Data × StorageSink × String)) (t : BackupState b Data) : Prop where
  underway : Underway sched schedule env s₀ s t
  taken : ∀ taken, o = .returned taken → Taken sched schedule env s taken t
  ended : ∀ i, o = .stopped i → TakingEndsIn sched schedule env s.db i

theorem Taking.stopped (hs' : Underway sched schedule env s₀ s s')
    (hend : TakingEndsIn sched schedule env s.db i) :
    Taking sched schedule env s₀ s (.stopped i) s' := by
  refine ⟨hs', nofun, ?_⟩
  rintro _ ⟨⟩
  exact hend

theorem takeBackup_wp (hs : InProgress sched schedule env s₀ s) :
    Coroutine.wp StatusKept (sched.takeBackup schedule env) (Taking sched schedule env s₀ s) s := by
  have hrunning : StatusKept s (s.updateRun env.run_id fun run => { run with status := .running }) ∧
      Underway sched schedule env s₀ s
        (s.updateRun env.run_id fun run => { run with status := .running }) := by
    obtain ⟨hkept, status, hruns⟩ := hs.update (fun run => { run with status := .running })
      fun _ => rfl
    exact ⟨hkept, ⟨(BackupState.updateRun_schedules ..).trans hs.1, .running, nofun, hruns⟩,
      .inl (BackupState.updateRun_stored ..)⟩
  rw [takeBackup]
  apply Coroutine.wp_await_bind (I := Underway sched schedule env s₀ s) ⟨hs, .inl rfl⟩
  · rintro i s' hs' (hi | ⟨e, he, -⟩)
    · exact .stopped hs' (.inl ⟨_, by simp [takingAwaits], hi⟩)
    · cases he
  · rintro _ ⟨⟩
    exact hrunning
  rintro hrun _ ⟨⟩
  apply Coroutine.wp_await_bind hrunning.2
  · rintro i s' hs' (hi | ⟨e, he, hie⟩)
    · exact .stopped hs' (.inl ⟨_, by simp [takingAwaits], hi⟩)
    · rw [map_eq_error, BackupState.updateRun_db] at he
      exact .stopped hs' (.inr ⟨e, by rw [backupOf, he]; rfl, hie⟩)
  · intro r hr
    obtain ⟨bundle, _, rfl⟩ := map_eq_ok.1 hr
    exact ⟨statusKept_of_runs rfl, hrunning.2.inProgress.congr rfl rfl, hrunning.2.stored⟩
  intro hexport r hr
  obtain ⟨bundle, hbundle, rfl⟩ := map_eq_ok.1 hr
  rw [BackupState.updateRun_db] at hbundle
  have hexported : Underway sched schedule env s₀ s { (s.updateRun env.run_id fun run =>
    { run with status := .running }) with db := bundle.2 } :=
    ⟨hrunning.2.inProgress.congr rfl rfl, hrunning.2.stored⟩
  apply Coroutine.wp_await_bind hexported
  · rintro i s' hs' (hi | ⟨e, he, -⟩)
    · exact .stopped hs' (.inl ⟨_, by simp [takingAwaits], hi⟩)
    · cases he
  · rintro _ ⟨⟩
    exact ⟨statusKept_of_runs rfl, hexported⟩
  rintro hpassphrase _ ⟨⟩
  apply wp_sealBundle
  · rintro i (hi | ⟨e, he, hie⟩)
    · exact .stopped hexported (.inl hi)
    · exact .stopped hexported (.inr ⟨e, bind_eq_error hbundle (he ▸ rfl), hie⟩)
  intro data hdata hencrypt
  apply Coroutine.wp_reading_bind
  · intro e he
    exact .stopped hexported (.inr ⟨e, bind_eq_error hbundle (bind_eq_error hdata (he ▸ rfl)), rfl⟩)
  intro sink hsink
  -- from here on the backup of the schedule is known, and so what `put` may leave
  have hplace : ∀ {locator}, sink.locatorOf sched.libs (sched.blobOf schedule env data bundle.1.2) =
      .ok locator → sched.backupOf schedule env s.db =
        .ok (sched.blobOf schedule env data bundle.1.2, sink, locator) := fun hlocator =>
    bind_eq_ok.2 ⟨bundle, hbundle, bind_eq_ok.2 ⟨data, hdata, bind_eq_ok.2 ⟨sink, hsink,
      bind_eq_ok.2 ⟨_, hlocator, rfl⟩⟩⟩⟩
  apply Coroutine.wp_await_bind hexported
  · rintro i s' hs' (hi | ⟨e, he, hie⟩)
    · exact .stopped hs' (.inl ⟨_, by simp [takingAwaits], hi⟩)
    · have hlocator : sink.locatorOf sched.libs (sched.blobOf schedule env data bundle.1.2) =
          .error e := put_eq_error (map_eq_error.1 he)
      exact .stopped hs' (.inr ⟨e, bind_eq_error hbundle (bind_eq_error hdata
        (bind_eq_error hsink (hlocator ▸ rfl))), hie⟩)
  · intro r hr
    obtain ⟨put, hplaced, rfl⟩ := map_eq_ok.1 hr
    obtain ⟨locator, hlocator, hput⟩ := bind_eq_ok.1 hplaced
    cases hput
    refine ⟨statusKept_of_runs rfl, hexported.inProgress.congr rfl rfl,
      .inr ⟨_, hplace hlocator, ?_⟩⟩
    simp only [BackupState.updateRun_stored]
  intro hput r hr
  obtain ⟨put, hplaced, rfl⟩ := map_eq_ok.1 hr
  obtain ⟨locator, hlocator, hput'⟩ := bind_eq_ok.1 hplaced
  cases hput'
  have hstored : s.stored.upsert (sink.place sched.libs locator, data) =
      (s.updateRun env.run_id fun run => { run with status := .running }).stored.upsert
        (sink.place sched.libs locator, data) := by
    rw [BackupState.updateRun_stored]
  rw [Coroutine.wp_pure]
  refine ⟨⟨hexported.inProgress.congr rfl rfl, .inr ⟨_, hplace hlocator, hstored.symm⟩⟩, ?_, nofun⟩
  rintro _ ⟨⟩
  refine ⟨?_, hplace hlocator, hstored.symm⟩
  intro p hp
  rcases List.mem_append.1 hp with hp | hp
  · rcases List.mem_append.1 hp with hp | hp
    · simp only [List.mem_cons, List.not_mem_nil, or_false] at hp
      rcases hp with rfl | rfl | rfl
      · exact hrun
      · exact hexport
      · exact hpassphrase
    · split at hp
      · rw [List.mem_singleton.1 hp]
        exact hencrypt ‹_›
      · cases hp
  · rw [List.mem_singleton.1 hp]
    exact hput

/-! ## Pruning -/

/-- The deletion of a run is cut off between its blob and its row. -/
def Torn (env : Circumstances) (run_id : String) : Prop :=
  env.fate (.deleteBlob run_id) = .late .cancellation ∨
    ∃ i, env.fate (.deleteRow run_id) = .early i

/-- A place where a sink keeps the blob of a run. -/
def KeepsAt (sched : BackupScheduler b Data) (sink : StorageSink) (r : BackupRun)
    (place : Place) : Prop :=
  ∃ locator, nonempty r.sink_locator = some locator ∧ place = sink.place sched.libs locator

/-- Some of the rows of given runs are deleted, and some of their blobs in a sink, these mostly
with their rows. -/
structure PrunedBy (sched : BackupScheduler b Data) (sink : StorageSink) (env : Circumstances)
    (runs : List BackupRun) (s s' : BackupState b Data) : Prop where
  db : s'.db = s.db
  schedules : s'.schedules = s.schedules
  rows : ∀ id, s'.runs.find id = s.runs.find id ∨
    (∃ r ∈ runs, r.id = id) ∧ s'.runs.find id = none
  blobs : ∀ place, s'.stored.find place = s.stored.find place ∨
    ∃ r ∈ runs, KeepsAt sched sink r place ∧ (s'.runs.find r.id = none ∨ Torn env r.id)

variable {sink : StorageSink} {runs runs' : List BackupRun} {s'' : BackupState b Data}

theorem PrunedBy.refl : PrunedBy sched sink env runs s s where
  db := rfl
  schedules := rfl
  rows _ := .inl rfl
  blobs _ := .inl rfl

theorem PrunedBy.gone (h : PrunedBy sched sink env runs s s') (hgone : s.runs.find id' = none) :
    s'.runs.find id' = none := by
  rcases h.rows id' with heq | hgone'
  · exact heq.trans hgone
  · exact hgone'.2

theorem PrunedBy.trans (h : PrunedBy sched sink env runs s s')
    (h' : PrunedBy sched sink env runs s' s'') : PrunedBy sched sink env runs s s'' where
  db := h'.db.trans h.db
  schedules := h'.schedules.trans h.schedules
  rows id := by
    rcases h'.rows id with heq | hgone
    · rw [heq]
      exact h.rows id
    · exact .inr hgone
  blobs place := by
    rcases h'.blobs place with heq | hdropped
    · rw [heq]
      rcases h.blobs place with heq' | ⟨r, hr, hplace, hgone⟩
      · exact .inl heq'
      · exact .inr ⟨r, hr, hplace, hgone.imp_left h'.gone⟩
    · exact .inr hdropped

theorem PrunedBy.mono (h : PrunedBy sched sink env runs s s') (hsub : ∀ r ∈ runs, r ∈ runs') :
    PrunedBy sched sink env runs' s s' where
  db := h.db
  schedules := h.schedules
  rows id := (h.rows id).imp_right fun ⟨⟨r, hr, hid⟩, hgone⟩ => ⟨⟨r, hsub r hr, hid⟩, hgone⟩
  blobs place := (h.blobs place).imp_right fun ⟨r, hr, hplace⟩ => ⟨r, hsub r hr, hplace⟩

/-- Some call of a deletion ends so. What the sink raises does not count. -/
def DeletionEndsIn (env : Circumstances) (i : Interrupt Exc) (r : BackupRun) : Prop :=
  (env.fate (.deleteRow r.id)).EndsIn i ∨
    i = .cancellation ∧ (env.fate (.deleteBlob r.id)).EndsIn i

theorem delete_eq_erase {libs : BackupLibraries Data} {stored stored' : Stored Data}
    (h : sink.delete libs locator stored = .ok stored') :
    stored' = stored.erase (sink.place libs locator) := by
  rw [StorageSink.delete] at h
  split at h
  · split at h
    · exact (Except.ok.inj h).symm
    · cases h
  · cases h

/-- What a deletion leaves before it comes to the row. -/
structure BlobDropped (sched : BackupScheduler b Data) (sink : StorageSink) (r : BackupRun)
    (s s' : BackupState b Data) : Prop where
  db : s'.db = s.db
  schedules : s'.schedules = s.schedules
  runs : s'.runs = s.runs
  blobs : ∀ place, s'.stored.find place = s.stored.find place ∨ KeepsAt sched sink r place

theorem BlobDropped.refl : BlobDropped sched sink r s s := ⟨rfl, rfl, rfl, fun _ => .inl rfl⟩

/-- With the row deleted, or the deletion torn. -/
theorem BlobDropped.pruned (h : BlobDropped sched sink r s s')
    (hs'' : s'' = { s' with runs := s'.runs.erase r.id } ∨ s'' = s' ∧ Torn env r.id) :
    PrunedBy sched sink env [r] s s'' := by
  rcases hs'' with rfl | ⟨rfl, htorn⟩
  · refine ⟨h.db, h.schedules, fun id => ?_, fun place => ?_⟩
    · simp only [KeyedTable.find_erase, h.runs]
      split
      · exact .inr ⟨⟨r, List.mem_singleton_self r, Eq.symm ‹_›⟩, rfl⟩
      · exact .inl rfl
    · apply (h.blobs place).imp_right
      intro hplace
      refine ⟨r, List.mem_singleton_self r, hplace, .inl ?_⟩
      rw [KeyedTable.find_erase, if_pos rfl]
  · refine ⟨h.db, h.schedules, fun id => .inl (h.runs ▸ rfl), fun place => ?_⟩
    apply (h.blobs place).imp_right
    exact fun hplace => ⟨r, List.mem_singleton_self r, hplace, .inr htorn⟩

theorem deleteBlob_wp (sink : StorageSink) (env : Circumstances) (r : BackupRun)
    (s : BackupState b Data) :
    Coroutine.wp StatusKept (sched.deleteBlob sink env r) (fun o s' =>
      BlobDropped sched sink r s s' ∧ ∀ i, o = .stopped i → i = .cancellation ∧
        (env.fate (.deleteBlob r.id)).EndsIn i ∧
        (s' = s ∨ env.fate (.deleteBlob r.id) = .late .cancellation)) s := by
  rw [deleteBlob]
  cases hl : nonempty r.sink_locator with
  | none => exact (Coroutine.wp_pure _).2 ⟨.refl, fun _ h => by cases h⟩
  | some locator =>
    -- the call itself, before its exceptions are caught
    have hcall : Coroutine.wp StatusKept (.await (env.fate (.deleteBlob r.id)) fun s =>
        (sink.delete sched.libs locator s.stored).map fun stored => ((), { s with stored := stored }))
        (fun o s' => BlobDropped sched sink r s s' ∧ (o = .stopped .cancellation →
          (env.fate (.deleteBlob r.id)).EndsIn .cancellation ∧
          (s' = s ∨ env.fate (.deleteBlob r.id) = .late .cancellation))) s := by
      apply Coroutine.wp_await
      · intro q hq
        obtain ⟨stored, hdelete, rfl⟩ := map_eq_ok.1 hq
        have hdropped : BlobDropped sched sink r s { s with stored := stored } := by
          refine ⟨rfl, rfl, rfl, fun place => ?_⟩
          rw [delete_eq_erase hdelete, KeyedTable.find_erase]
          split
          · exact .inr ⟨locator, hl, ‹_›⟩
          · exact .inl rfl
        refine ⟨statusKept_of_runs rfl, fun _ => ⟨hdropped, fun h => by cases h⟩, fun i hi => ⟨hdropped, ?_⟩⟩
        rintro ⟨⟩
        exact ⟨.inr hi, .inr hi⟩
      · exact fun _ _ => ⟨.refl, fun h => by cases h⟩
      · intro i hi
        refine ⟨.refl, ?_⟩
        rintro ⟨⟩
        exact ⟨.inl hi, .inl rfl⟩
    apply Coroutine.wp_try hcall
    · exact fun _ _ h => ⟨h.1, fun _ h => by cases h⟩
    · exact fun _ _ h => (Coroutine.wp_pure ()).2 ⟨h.1, fun _ h => by cases h⟩
    · intro s' h
      refine ⟨h.1, ?_⟩
      rintro _ ⟨⟩
      exact ⟨rfl, h.2 rfl⟩

theorem deleteRun_wp (sink : StorageSink) (env : Circumstances) (r : BackupRun)
    (s : BackupState b Data) :
    Coroutine.wp StatusKept (sched.deleteRun sink env r) (fun o s' =>
      PrunedBy sched sink env [r] s s' ∧ (∀ u, o = .returned u → s'.runs.find r.id = none) ∧
        ∀ i, o = .stopped i → DeletionEndsIn env i r) s := by
  rw [deleteRun]
  apply Coroutine.wp_seq (deleteBlob_wp sink env r s)
  · rintro u s' ⟨hs', -⟩
    apply Coroutine.wp_await
    · rintro _ ⟨⟩
      have hgone : (s'.runs.erase r.id).find r.id = none := by
        rw [KeyedTable.find_erase, if_pos rfl]
      have hpruned : PrunedBy sched sink env [r] s _ := hs'.pruned (.inl rfl)
      refine ⟨statusKept_erase rfl, fun _ => ⟨hpruned, fun _ _ => hgone, nofun⟩,
        fun i hi => ⟨hpruned, nofun, ?_⟩⟩
      rintro _ ⟨⟩
      exact .inl (.inr hi)
    · intro e he
      cases he
    · intro i hi
      refine ⟨hs'.pruned (.inr ⟨rfl, .inr ⟨i, hi⟩⟩), nofun, ?_⟩
      rintro _ ⟨⟩
      exact .inl (.inl hi)
  · rintro i s' ⟨hs', hends⟩
    obtain ⟨hi, hfate, hs⟩ := hends i rfl
    refine ⟨?_, nofun, ?_⟩
    · rcases hs with rfl | hlate
      · exact .refl
      · exact hs'.pruned (.inr ⟨rfl, .inl hlate⟩)
    · rintro _ ⟨⟩
      exact .inr ⟨hi, hfate⟩

theorem deleteRuns_wp (sink : StorageSink) (env : Circumstances) (runs : List BackupRun)
    (s : BackupState b Data) :
    Coroutine.wp StatusKept (sched.deleteRuns sink env runs) (fun o s' =>
      PrunedBy sched sink env runs s s' ∧
        (∀ u, o = .returned u → ∀ r ∈ runs, s'.runs.find r.id = none) ∧
        ∀ i, o = .stopped i → ∃ r ∈ runs, DeletionEndsIn env i r) s := by
  induction runs generalizing s with
  | nil =>
    rw [deleteRuns, Coroutine.wp_pure]
    exact ⟨.refl, fun _ _ _ => nofun, nofun⟩
  | cons r runs ih =>
    have hmono : ∀ {s' : BackupState b Data}, PrunedBy sched sink env [r] s s' →
        PrunedBy sched sink env (r :: runs) s s' := fun h => h.mono fun q hq => by
      rw [List.mem_singleton.1 hq]
      exact List.mem_cons_self
    rw [deleteRuns]
    apply Coroutine.wp_seq (deleteRun_wp sink env r s)
    · rintro u s' ⟨hs', hgone, -⟩
      apply Coroutine.wp_mono (ih s')
      rintro o s'' ⟨hs'', hgone', hends⟩
      refine ⟨(hmono hs').trans (hs''.mono fun q => List.mem_cons_of_mem r), fun u' hu q hq => ?_,
        fun i hi => ?_⟩
      · rcases List.mem_cons.1 hq with rfl | hq
        · exact hs''.gone (hgone u rfl)
        · exact hgone' u' hu q hq
      · obtain ⟨q, hq, hends⟩ := hends i hi
        exact ⟨q, List.mem_cons_of_mem r hq, hends⟩
    · rintro i s' ⟨hs', -, hends⟩
      refine ⟨hmono hs', nofun, ?_⟩
      rintro _ ⟨⟩
      exact ⟨r, List.mem_cons_self, hends i rfl⟩

/-- The runs that a pruning condemns, which are none when it cannot compute the cutoff. -/
def doomed (schedule : BackupSchedule) (env : Circumstances) (runs : List BackupRun) :
    List BackupRun :=
  match keepCutoff schedule.retention_days env.pruned_at with
  | .ok cutoff => condemned schedule cutoff (env.order.apply (successRuns schedule.id runs))
  | .error _ => []

/-- How a pruning ends when it does not return. -/
inductive PruneEndsIn (schedule : BackupSchedule) (env : Circumstances) (runs : List BackupRun)
    (i : Interrupt Exc) : Prop where
  | cutoff : keepCutoff schedule.retention_days env.pruned_at = .error e → i = .exception e →
      PruneEndsIn schedule env runs i
  | selection : (env.fate .selectRuns).EndsIn i → PruneEndsIn schedule env runs i
  | deletion : r ∈ doomed schedule env runs → DeletionEndsIn env i r →
      PruneEndsIn schedule env runs i

/-- What a pruning leaves. -/
structure Pruning (sched : BackupScheduler b Data) (schedule : BackupSchedule)
    (sink : StorageSink) (env : Circumstances) (s : BackupState b Data) (o : Outcome Exc Unit)
    (s' : BackupState b Data) : Prop where
  pruned : PrunedBy sched sink env (doomed schedule env s.runs.rows) s s'
  cutoff : ∀ u, o = .returned u →
    ∃ cutoff, keepCutoff schedule.retention_days env.pruned_at = .ok cutoff
  gone : ∀ u, o = .returned u → ∀ r ∈ doomed schedule env s.runs.rows, s'.runs.find r.id = none
  ended : ∀ i, o = .stopped i → PruneEndsIn schedule env s.runs.rows i

theorem prune_wp (schedule : BackupSchedule) (sink : StorageSink) (env : Circumstances)
    (s : BackupState b Data) : Coroutine.wp StatusKept (sched.prune schedule sink env)
      (Pruning sched schedule sink env s) s := by
  rw [prune]
  apply Coroutine.wp_reading_bind
  · intro e he
    refine ⟨.refl, nofun, nofun, ?_⟩
    rintro _ ⟨⟩
    exact .cutoff he rfl
  · intro cutoff hcutoff
    apply Coroutine.wp_seq (M := fun o s' => s' = s ∧
      (∀ runs, o = .returned runs → runs = env.order.apply (successRuns schedule.id s.runs.rows)) ∧
        ∀ i, o = .stopped i → (env.fate .selectRuns).EndsIn i)
    · apply Coroutine.wp_await
      · rintro _ ⟨⟩
        refine ⟨statusKept_of_runs rfl, fun _ => ⟨rfl, ?_, nofun⟩, fun i hi => ⟨rfl, nofun, ?_⟩⟩
        · rintro _ ⟨⟩
          rfl
        · rintro _ ⟨⟩
          exact .inr hi
      · intro e he
        cases he
      · intro i hi
        refine ⟨rfl, nofun, ?_⟩
        rintro _ ⟨⟩
        exact .inl hi
    · rintro runs s' ⟨rfl, hruns, -⟩
      have hdoomed : doomed schedule env s'.runs.rows = condemned schedule cutoff runs := by
        rw [doomed, hcutoff, hruns runs rfl]
      apply Coroutine.wp_mono (deleteRuns_wp sink env _ s')
      rintro o s'' ⟨hpruned, hgone, hends⟩
      refine ⟨hdoomed ▸ hpruned, fun _ _ => ⟨cutoff, hcutoff⟩, hdoomed ▸ hgone, fun i hi => ?_⟩
      obtain ⟨r, hr, hend⟩ := hends i hi
      exact .deletion (hdoomed ▸ hr) hend
    · rintro i s' ⟨rfl, -, hends⟩
      refine ⟨.refl, nofun, nofun, ?_⟩
      rintro _ ⟨⟩
      exact .selection (hends i rfl)

/-! ## Recording a backup -/

/-- The schedule has no rule that prunes. -/
def Unpruned (schedule : BackupSchedule) : Prop :=
  nonzero schedule.retention_days = none ∧ nonzero schedule.keep_last = none

instance (schedule : BackupSchedule) : Decidable (Unpruned schedule) :=
  inferInstanceAs (Decidable (_ ∧ _))

/-- What recording a backup leaves: the success or not, the next run or not, the pruning. -/
inductive Recording (sched : BackupScheduler b Data) (schedule : BackupSchedule)
    (env : Circumstances) (sink : StorageSink) (f : BackupRun → BackupRun)
    (s : BackupState b Data) : Outcome Exc Unit → BackupState b Data → Prop where
  | unrecorded : env.fate .markSuccess = .early i → Recording sched schedule env sink f s (.stopped i) s
  | recorded : env.fate .markSuccess = .late i ∨
      (env.fate .markSuccess = .done ∧
        ((∃ e, sched.advanced schedule env.started_at = .error e ∧ i = .exception e) ∨
          env.fate .advance = .early i)) →
      Recording sched schedule env sink f s (.stopped i) (s.updateRun env.run_id f)
  | advanced : env.fate .markSuccess = .done →
      sched.advanced schedule env.started_at = .ok step → env.fate .advance = .late i →
      Recording sched schedule env sink f s (.stopped i)
        ((s.updateRun env.run_id f).updateSchedule schedule.id step)
  | complete : env.fate .markSuccess = .done →
      sched.advanced schedule env.started_at = .ok step → env.fate .advance = .done →
      Unpruned schedule → Recording sched schedule env sink f s (.returned ())
        ((s.updateRun env.run_id f).updateSchedule schedule.id step)
  | pruned : env.fate .markSuccess = .done →
      sched.advanced schedule env.started_at = .ok step → env.fate .advance = .done →
      ¬ Unpruned schedule →
      Pruning sched schedule sink env
        ((s.updateRun env.run_id f).updateSchedule schedule.id step) o t →
      Recording sched schedule env sink f s o t

theorem recordBackup_wp (taken : BackupBlob Data × StorageSink × String)
    (hs : InProgress sched schedule env s₀ s) :
    Coroutine.wp StatusKept (sched.recordBackup schedule env taken)
      (Recording sched schedule env taken.2.1 (succeeded taken.1 taken.2.2 env.finished_at) s) s := by
  rw [recordBackup, Coroutine.wp_bind]
  apply Coroutine.wp_await
  · rintro _ ⟨⟩
    have hkept := (hs.update (succeeded taken.1 taken.2.2 env.finished_at) fun _ => rfl).1
    refine ⟨hkept, fun hrecorded => ?_, fun i hi => .recorded (.inl hi)⟩
    apply Coroutine.wp_reading_bind
    · exact fun e he => .recorded (.inr ⟨hrecorded, .inl ⟨e, he, rfl⟩⟩)
    · intro step hstep
      rw [Coroutine.wp_bind]
      apply Coroutine.wp_await
      · rintro _ ⟨⟩
        refine ⟨statusKept_of_runs (BackupState.updateSchedule_runs ..), fun hadvanced => ?_,
          fun i hi => .advanced hrecorded hstep hi⟩
        simp only [Outcome.elim_returned]
        split
        · rename_i h
          exact (Coroutine.wp_pure _).2 (.complete hrecorded hstep hadvanced h)
        · rename_i h
          apply Coroutine.wp_mono (prune_wp schedule taken.2.1 env _)
          exact fun o s' => .pruned hrecorded hstep hadvanced h
      · intro e he
        cases he
      · exact fun i hi => .recorded (.inr ⟨hrecorded, .inr hi⟩)
  · intro e he
    cases he
  · exact fun i hi => .unrecorded hi

/-- The run as a success leaves it. -/
def successRun (sched : BackupScheduler b Data) (schedule : BackupSchedule) (env : Circumstances)
    (taken : BackupBlob Data × StorageSink × String) : BackupRun :=
  succeeded taken.1 taken.2.2 env.finished_at (sched.newRun schedule env)

/-- The tables after a success, before the pruning. -/
theorem recorded_runs (hs : InProgress sched schedule env s₀ s)
    (taken : BackupBlob Data × StorageSink × String) :
    (s.updateRun env.run_id (succeeded taken.1 taken.2.2 env.finished_at)).runs =
      s₀.runs.upsert (sched.successRun schedule env taken) := by
  obtain ⟨-, status, hruns⟩ := hs.update (succeeded taken.1 taken.2.2 env.finished_at) fun _ => rfl
  exact hruns

/-! ## The whole dispatch -/

/-- What the `try` block leaves. -/
inductive Attempt (sched : BackupScheduler b Data) (schedule : BackupSchedule)
    (env : Circumstances) (s₀ s : BackupState b Data) :
    Outcome Exc Unit → BackupState b Data → Prop where
  | untaken : Underway sched schedule env s₀ s t → TakingEndsIn sched schedule env s.db i →
      Attempt sched schedule env s₀ s (.stopped i) t
  | taken : Taken sched schedule env s taken t → InProgress sched schedule env s₀ t →
      Recording sched schedule env taken.2.1 (succeeded taken.1 taken.2.2 env.finished_at) t o u →
      Attempt sched schedule env s₀ s o u

theorem runBackup_wp (hs : InProgress sched schedule env s₀ s) :
    Coroutine.wp StatusKept (sched.runBackup schedule env) (Attempt sched schedule env s₀ s) s := by
  rw [runBackup]
  apply Coroutine.wp_seq (takeBackup_wp hs)
  · intro taken t ht
    apply Coroutine.wp_mono (recordBackup_wp taken ht.underway.inProgress)
    exact fun o u => .taken (ht.taken taken rfl) ht.underway.inProgress
  · exact fun i t ht => .untaken ht.underway (ht.ended i rfl)

/-- The new run is not inserted. -/
def Uncreated (env : Circumstances) (s : BackupState b Data) (i : Interrupt Exc) : Prop :=
  env.fate .markPending = .early i ∨ (s.runs.find env.run_id).isSome = true

/-- The new run is pending and nothing more happens to it. -/
def Abandoned (env : Circumstances) (i : Interrupt Exc) : Prop :=
  env.fate .markPending = .late i ∨ (env.fate .refresh).EndsIn i

def pendingState (sched : BackupScheduler b Data) (schedule : BackupSchedule)
    (env : Circumstances) (s : BackupState b Data) : BackupState b Data :=
  { s with runs := s.runs.upsert (sched.newRun schedule env) }

theorem inProgress_pending (sched : BackupScheduler b Data) (schedule : BackupSchedule)
    (env : Circumstances) (s : BackupState b Data) :
    InProgress sched schedule env s (sched.pendingState schedule env s) :=
  ⟨rfl, .pending, nofun, rfl⟩

/-- What inserting the new run leaves. -/
inductive Creation (sched : BackupScheduler b Data) (schedule : BackupSchedule)
    (env : Circumstances) (s : BackupState b Data) : Outcome Exc Unit → BackupState b Data → Prop where
  | uncreated : Uncreated env s i → Creation sched schedule env s (.stopped i) s
  | abandoned : s.runs.find env.run_id = none → Abandoned env i →
      Creation sched schedule env s (.stopped i) (sched.pendingState schedule env s)
  | created : s.runs.find env.run_id = none → env.fate .markPending = .done →
      env.fate .refresh = .done →
      Creation sched schedule env s (.returned ()) (sched.pendingState schedule env s)

theorem markRunPending_wp (sched : BackupScheduler b Data) (schedule : BackupSchedule)
    (env : Circumstances) (s : BackupState b Data) :
    Coroutine.wp StatusKept (sched.markRunPending schedule env)
      (Creation sched schedule env s) s := by
  rw [markRunPending, Coroutine.wp_bind]
  cases hfind : s.runs.find env.run_id with
  | some run =>
    have hinsert : sched.insertPending schedule env s =
        .error (.integrityError "UNIQUE constraint failed: backup_runs.id") := by
      rw [insertPending, hfind]
    have hused : ∀ i, Uncreated env s i := fun _ => .inr (by rw [hfind]; rfl)
    apply Coroutine.wp_await
    · intro r hr
      rw [hinsert] at hr
      cases hr
    · exact fun _ _ => .uncreated (hused _)
    · exact fun _ _ => .uncreated (hused _)
  | none =>
    have hinsert : sched.insertPending schedule env s =
        .ok ((), sched.pendingState schedule env s) := by
      rw [insertPending, hfind]
      rfl
    apply Coroutine.wp_await
    · intro r hr
      rw [hinsert] at hr
      cases hr
      refine ⟨statusKept_insert hfind rfl, fun hpending => ?_, fun i hi => .abandoned hfind (.inl hi)⟩
      apply Coroutine.wp_await
      · rintro _ ⟨⟩
        exact ⟨statusKept_of_runs rfl, fun h => .created hfind hpending h,
          fun i hi => .abandoned hfind (.inr (.inr hi))⟩
      · intro e he
        cases he
      · exact fun i hi => .abandoned hfind (.inr (.inl hi))
    · intro e he
      rw [hinsert] at he
      cases he
    · exact fun i hi => .uncreated (.inl hi)

/-- What a dispatch leaves. An exception of the `try` block makes the run a failed one. -/
inductive Dispatching (sched : BackupScheduler b Data) (schedule : BackupSchedule)
    (env : Circumstances) (s : BackupState b Data) :
    Outcome Exc String → BackupState b Data → Prop where
  | unstarted : Creation sched schedule env s (.stopped i) t →
      Dispatching sched schedule env s (.stopped i) t
  | returned : Creation sched schedule env s (.returned ()) t →
      Attempt sched schedule env s t (.returned ()) u →
      Dispatching sched schedule env s (.returned env.run_id) u
  | cancelled : Creation sched schedule env s (.returned ()) t →
      Attempt sched schedule env s t (.stopped .cancellation) u →
      Dispatching sched schedule env s (.stopped .cancellation) u
  | unmarked : Creation sched schedule env s (.returned ()) t →
      Attempt sched schedule env s t (.stopped (.exception e)) u →
      env.fate .markFailed = .early i → Dispatching sched schedule env s (.stopped i) u
  | failed : Creation sched schedule env s (.returned ()) t →
      Attempt sched schedule env s t (.stopped (.exception e)) u →
      (env.fate .markFailed = .done ∧ o = .returned env.run_id ∨
        ∃ i, env.fate .markFailed = .late i ∧ o = .stopped i) →
      Dispatching sched schedule env s o
        (u.updateRun env.run_id (failedWith e.text env.failed_at))

theorem inProgress_of_created (h : Creation sched schedule env s (.returned ()) s') :
    InProgress sched schedule env s s' := by
  cases h
  exact inProgress_pending sched schedule env s

theorem dispatch_wp (sched : BackupScheduler b Data) (schedule : BackupSchedule)
    (env : Circumstances) (s : BackupState b Data) :
    Coroutine.wp (fun _ _ => True) (sched.dispatch schedule env)
      (Dispatching sched schedule env s) s := by
  rw [dispatch]
  apply Coroutine.wp_seq (Coroutine.wp_weaken (markRunPending_wp sched schedule env s)
    fun _ _ _ => trivial)
  · intro u t ht
    apply Coroutine.wp_seq (M := fun o u =>
      Dispatching sched schedule env s (o.elim (fun _ => .returned env.run_id) .stopped) u)
    · apply Coroutine.wp_try (Coroutine.wp_weaken (runBackup_wp (inProgress_of_created ht))
        fun _ _ _ => trivial)
      · exact fun _ u hu => .returned ht hu
      · intro e u hu
        apply Coroutine.wp_await
        · rintro _ ⟨⟩
          exact ⟨trivial, fun hd => .failed ht hu (.inl ⟨hd, rfl⟩),
            fun i hi => .failed ht hu (.inr ⟨i, hi, rfl⟩)⟩
        · intro e he
          cases he
        · exact fun i hi => .unmarked ht hu hi
      · exact fun u hu => .cancelled ht hu
    · intro _ u hu
      exact (Coroutine.wp_pure _).2 hu
    · exact fun i u hu => hu
  · exact fun i t ht => .unstarted ht

/-! ## A dispatch that completes -/

/-- The run is inserted and the `try` block comes to its end. -/
def Completes (sched : BackupScheduler b Data) (schedule : BackupSchedule) (env : Circumstances)
    (s : BackupState b Data) : Prop :=
  (sched.markRunPending schedule env s).outcome = .returned () ∧
    (sched.runBackup schedule env (sched.pendingState schedule env s)).outcome = .returned ()

variable {u : BackupState b Data}

theorem final_of_created (h : (sched.markRunPending schedule env s).outcome = .returned ()) :
    s.runs.find env.run_id = none ∧
      (sched.markRunPending schedule env).final s = sched.pendingState schedule env s := by
  have hcreation := (markRunPending_wp sched schedule env s).2
  rw [h] at hcreation
  generalize (sched.markRunPending schedule env).final s = t at hcreation
  cases hcreation with
  | created hfind _ _ => exact ⟨hfind, rfl⟩

theorem Completes.attempt (h : Completes sched schedule env s) :
    Attempt sched schedule env s (sched.pendingState schedule env s) (.returned ())
      ((sched.dispatch schedule env).final s) := by
  have hattempt := (runBackup_wp (inProgress_pending sched schedule env s)).2
  rw [h.2] at hattempt
  rw [dispatch, Coroutine.final_bind, h.1, Outcome.elim_returned, Coroutine.final_bind,
    (final_of_created h.1).2]
  have hhandle : (Coroutine.handle (sched.runBackup schedule env) (markRunFailed env)).final
      (sched.pendingState schedule env s) =
        (sched.runBackup schedule env).final (sched.pendingState schedule env s) := by
    rw [Coroutine.final_handle, h.2, Outcome.except_returned]
  rw [hhandle]
  cases (Coroutine.handle (sched.runBackup schedule env) (markRunFailed env)
      (sched.pendingState schedule env s)).outcome with
  | returned _ => exact hattempt
  | stopped _ => exact hattempt

theorem Completes.backup (h : Completes sched schedule env s) :
    ∃ taken, sched.backupOf schedule env s.db = .ok taken := by
  have hattempt := h.attempt
  generalize (sched.dispatch schedule env).final s = u at hattempt
  cases hattempt with
  | taken htaken _ _ => exact ⟨_, htaken.backup⟩

end BackupScheduler

end ScottyCore
