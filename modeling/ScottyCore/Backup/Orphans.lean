import ScottyCore.Backup.SinkLedger

namespace ScottyCore
open Python Async TransitionSystem BackupScheduler
set_option autoImplicit true

variable {b : Backend} {Data : Type}

/-! ## Blobs without a run -/

/-- Every blob that the sinks hold stands where a stored run says, a run of a status that counts.
Retention looks at successes only. -/
def NoOrphans (sched : BackupScheduler b Data) (live : RunStatus → Prop)
    (s : BackupState b Data) : Prop :=
  ∀ e ∈ s.stored.rows, ∃ r ∈ s.runs.rows, live r.status ∧
    placeOf sched.libs s.schedules r = some e.1

instance (sched : BackupScheduler b Data) (live : RunStatus → Prop) [DecidablePred live]
    (s : BackupState b Data) : Decidable (NoOrphans sched live s) :=
  inferInstanceAs (Decidable (∀ e ∈ s.stored.rows, ∃ r ∈ s.runs.rows, _))

/-- Nothing raises once a success is recorded. -/
structure NothingRaises (sched : BackupScheduler b Data) (schedule : BackupSchedule)
    (env : Circumstances) : Prop where
  success : ∀ e, env.fate .markSuccess ≠ .late (.exception e)
  next : ∃ step, sched.advanced schedule env.started_at = .ok step
  advance : ∀ e, ¬ (env.fate .advance).EndsIn (.exception e)
  cutoff : ∃ cutoff, keepCutoff schedule.retention_days env.pruned_at = .ok cutoff
  selection : ∀ e, ¬ (env.fate .selectRuns).EndsIn (.exception e)
  deletion : ∀ run_id e, ¬ (env.fate (.deleteRow run_id)).EndsIn (.exception e)

/-- The sink deletes the blob of a run that is pruned, or the row stays. -/
def Dropped (sched : BackupScheduler b Data) (sink : StorageSink) (env : Circumstances)
    (r : BackupRun) : Prop :=
  (∃ i, env.fate (.deleteRow r.id) = .early i) ∨
    (∀ e, env.fate (.deleteBlob r.id) ≠ .early (.exception e)) ∧
      ∃ locator, nonempty r.sink_locator = some locator ∧
        sink.holdsLocator sched.libs locator = true

/-- What is put is recorded, unless a run that counts has its place anyway, and what is pruned is
deleted. -/
structure Tidy (sched : BackupScheduler b Data) (live : RunStatus → Prop) (s : BackupState b Data)
    (d : BackupSchedule × Circumstances) : Prop where
  recorded : ∀ taken, sched.backupOf d.1 d.2 s.db = .ok taken →
    (∃ r ∈ s.runs.rows, live r.status ∧
      placeOf sched.libs s.schedules r = some (taken.2.1.place sched.libs taken.2.2)) ∨
    (∀ i, d.2.fate .put ≠ .late i) ∧ ∀ i, d.2.fate .markSuccess ≠ .early i
  settled : live .failed ∨ NothingRaises sched d.1 d.2
  dropped : ∀ taken, sched.backupOf d.1 d.2 s.db = .ok taken →
    ∀ r ∈ doomed d.1 d.2 (s.runs.upsert (sched.successRun d.1 d.2 taken)).rows,
      Dropped sched taken.2.1 d.2 r

section

variable {sched : BackupScheduler b Data} {live : RunStatus → Prop} {schedule : BackupSchedule}
variable {env : Circumstances} {s t u : BackupState b Data} {sink : StorageSink}
variable {taken : BackupBlob Data × StorageSink × String}

/-- Fewer blobs, and all the runs. -/
theorem NoOrphans.sub (h : NoOrphans sched live s) (hs : SchedulesKept s t)
    (hruns : ∀ r ∈ s.runs.rows, r ∈ t.runs.rows)
    (hstored : ∀ e ∈ t.stored.rows, e ∈ s.stored.rows) : NoOrphans sched live t := by
  intro e he
  obtain ⟨r, hr, hlive, hplace⟩ := h e (hstored e he)
  exact ⟨r, hruns r hr, hlive, (placeOf_congr hs r).trans hplace⟩

theorem mem_upsert_of_fresh {runs : KeyedTable BackupRun BackupRun.id} {run : BackupRun}
    (hfresh : runs.find run.id = none) (hr : r ∈ runs.rows) : r ∈ (runs.upsert run).rows := by
  rw [KeyedTable.mem_upsert_iff]
  refine .inr ⟨hr, fun hid => ?_⟩
  rw [← hid, KeyedTable.find_of_mem hr] at hfresh
  cases hfresh

/-- Another blob, with a run of its own. -/
theorem NoOrphans.put (h : NoOrphans sched live s) (hs : SchedulesKept s t)
    (hruns : ∀ r ∈ s.runs.rows, r ∈ t.runs.rows) {place : Place} {data : Data}
    (hstored : t.stored = s.stored.upsert (place, data)) {run : BackupRun}
    (hrun : run ∈ t.runs.rows) (hlive : live run.status)
    (hplace : placeOf sched.libs s.schedules run = some place) :
    NoOrphans sched live t := by
  intro e he
  rw [hstored, KeyedTable.mem_upsert_iff] at he
  rcases he with rfl | ⟨he, -⟩
  · exact ⟨run, hrun, hlive, (placeOf_congr hs run).trans hplace⟩
  · obtain ⟨r, hr, hlive', hplace'⟩ := h e he
    exact ⟨r, hruns r hr, hlive', (placeOf_congr hs r).trans hplace'⟩

/-! ## Pruning -/

theorem not_held_of_delete_error {libs : BackupLibraries Data} {stored : Stored Data}
    (h : sink.delete libs locator stored = .error e)
    (hheld : sink.holdsLocator libs locator = true) :
    stored.find (sink.place libs locator) = none := by
  rw [StorageSink.delete, if_pos hheld] at h
  split at h
  · cases h
  · rename_i hnone
    exact Option.not_isSome_iff_eq_none.1 hnone

/-- The blob of a run, deleted or not. -/
structure BlobGone (sched : BackupScheduler b Data) (sink : StorageSink) (env : Circumstances)
    (r : BackupRun) (s t : BackupState b Data) (returned : Prop) : Prop where
  schedules : t.schedules = s.schedules
  runs : t.runs = s.runs
  stored : ∀ e ∈ t.stored.rows, e ∈ s.stored.rows
  gone : returned → (∀ e, env.fate (.deleteBlob r.id) ≠ .early (.exception e)) →
    ∀ locator, nonempty r.sink_locator = some locator →
      sink.holdsLocator sched.libs locator = true →
        t.stored.find (sink.place sched.libs locator) = none

theorem deleteBlob_gone (sink : StorageSink) (env : Circumstances) (r : BackupRun)
    (s : BackupState b Data) : Coroutine.wp (fun _ _ => True) (sched.deleteBlob sink env r)
      (fun o t => BlobGone sched sink env r s t (∃ v, o = .returned v)) s := by
  rw [deleteBlob]
  cases hl : nonempty r.sink_locator with
  | none =>
    rw [Coroutine.wp_pure]
    refine ⟨rfl, rfl, fun _ => id, fun _ _ locator hlocator => ?_⟩
    cases hl.symm.trans hlocator
  | some locator =>
    have hcall : Coroutine.wp (fun _ _ => True) (.await (env.fate (.deleteBlob r.id)) fun s =>
        (sink.delete sched.libs locator s.stored).map fun stored =>
          ((), { s with stored := stored }))
        (fun o t => BlobGone sched sink env r s t (o ≠ .stopped .cancellation)) s := by
      apply Coroutine.wp_await
      · intro q hq
        obtain ⟨stored, hdelete, rfl⟩ := map_eq_ok.1 hq
        have hgone : ∀ returned,
            BlobGone sched sink env r s { s with stored := stored } returned := by
          intro returned
          refine ⟨rfl, rfl, fun e he => ?_, fun _ _ locator' hlocator _ => ?_⟩
          · simp only [delete_eq_erase hdelete] at he
            exact List.mem_of_mem_filter he
          · cases hl.symm.trans hlocator
            simp only [delete_eq_erase hdelete]
            rw [KeyedTable.find_erase, if_pos rfl]
        exact ⟨trivial, fun _ => hgone _, fun _ _ => hgone _⟩
      · intro e he
        refine ⟨rfl, rfl, fun _ => id, fun _ _ locator' hlocator hheld => ?_⟩
        cases hl.symm.trans hlocator
        exact not_held_of_delete_error (map_eq_error.1 he) hheld
      · intro i hi
        refine ⟨rfl, rfl, fun _ => id, fun hreturned hfate => ?_⟩
        cases i with
        | exception e => exact (hfate e hi).elim
        | cancellation => exact (hreturned rfl).elim
    have hweaken : ∀ {o : Outcome Exc Unit} {t returned},
        BlobGone sched sink env r s t (o ≠ .stopped .cancellation) →
          (returned → o ≠ .stopped .cancellation) → BlobGone sched sink env r s t returned :=
      fun h hreturned => ⟨h.schedules, h.runs, h.stored, fun hr => h.gone (hreturned hr)⟩
    apply Coroutine.wp_try hcall
    · exact fun _ _ h => hweaken h fun _ he => by cases he
    · exact fun _ _ h => (Coroutine.wp_pure ()).2 (hweaken h fun _ he => by cases he)
    · intro t h
      apply hweaken h
      rintro ⟨_, hv⟩
      cases hv

/-- The row of a run goes with its blob. -/
theorem NoOrphans.erase (h : NoOrphans sched live s) (hs : BlobGone sched sink env r s t True)
    (hrow : ∀ row, s.runs.find r.id = some row → row = r)
    (hsink : sinkOf s.schedules r = some sink)
    (hfate : ∀ e, env.fate (.deleteBlob r.id) ≠ .early (.exception e))
    (hlocator : nonempty r.sink_locator = some locator)
    (hheld : sink.holdsLocator sched.libs locator = true) :
    NoOrphans sched live { t with runs := t.runs.erase r.id } := by
  intro e he
  obtain ⟨q, hq, hlive, hplace⟩ := h e (hs.stored e he)
  have hplace' : placeOf sched.libs t.schedules q = some e.1 := by
    rw [hs.schedules]
    exact hplace
  by_cases hid : q.id = r.id
  · have hgone := hs.gone trivial hfate locator hlocator hheld
    obtain rfl : q = r := hrow q (hid ▸ KeyedTable.find_of_mem hq)
    rw [placeOf, hsink, (Option.filter_eq_some_iff.1 hlocator).1] at hplace
    have hheld' : t.stored.find e.1 = some e := KeyedTable.find_of_mem he
    rw [← Option.some.inj hplace, hgone] at hheld'
    cases hheld'
  · refine ⟨q, ?_, hlive, hplace'⟩
    apply List.mem_filter.2
    rw [hs.runs]
    exact ⟨hq, decide_eq_true hid⟩

/-- What a pruning may start from: the rows as they were read, in the sink of their schedule. -/
structure Prunable (sched : BackupScheduler b Data) (sink : StorageSink) (env : Circumstances)
    (s : BackupState b Data) (r : BackupRun) : Prop where
  row : ∀ row, s.runs.find r.id = some row → row = r
  placed : sinkOf s.schedules r = some sink
  dropped : Dropped sched sink env r

/-- What a deletion leaves, however it ends. -/
structure StillReferenced (sched : BackupScheduler b Data) (live : RunStatus → Prop)
    (s t : BackupState b Data) : Prop where
  referenced : NoOrphans sched live t
  schedules : t.schedules = s.schedules
  runs : ∀ r ∈ t.runs.rows, r ∈ s.runs.rows

theorem Prunable.of_referenced (h : Prunable sched sink env s r)
    (ht : StillReferenced sched live s t) : Prunable sched sink env t r where
  row row hrow := by
    have hfind := KeyedTable.find_of_mem (ht.runs row (KeyedTable.mem_of_find hrow))
    rw [KeyedTable.key_of_find hrow] at hfind
    exact h.row row hfind
  placed := by
    rw [ht.schedules]
    exact h.placed
  dropped := h.dropped

theorem deleteRun_tidy (h : NoOrphans sched live s) (hr : Prunable sched sink env s r) :
    Coroutine.wp (fun _ _ => True) (sched.deleteRun sink env r)
      (fun _ t => StillReferenced sched live s t) s := by
  have hkept : ∀ {t returned}, BlobGone sched sink env r s t returned →
      StillReferenced sched live s t := by
    intro t returned ht
    refine ⟨h.sub (schedulesKept_of_eq ht.schedules) ?_ ht.stored, ht.schedules, ?_⟩
    · intro q hq
      rwa [ht.runs]
    · intro q hq
      rwa [ht.runs] at hq
  rw [deleteRun]
  apply Coroutine.wp_seq (deleteBlob_gone sink env r s)
  · intro v t ht
    have hgone : BlobGone sched sink env r s t True :=
      ⟨ht.schedules, ht.runs, ht.stored, fun _ => ht.gone ⟨v, rfl⟩⟩
    apply Coroutine.wp_await
    · intro q hq
      cases hq
      rcases hr.dropped with ⟨i, hi⟩ | ⟨hfate, locator, hlocator, hheld⟩
      · refine ⟨trivial, fun hd => ?_, fun j hj => ?_⟩
        · cases hi.symm.trans hd
        · cases hi.symm.trans hj
      · have herased : StillReferenced sched live s { t with runs := t.runs.erase r.id } := by
          refine ⟨h.erase hgone hr.row hr.placed hfate hlocator hheld, ht.schedules, ?_⟩
          intro q hq
          have hmem := List.mem_of_mem_filter hq
          rwa [ht.runs] at hmem
        exact ⟨trivial, fun _ => herased, fun _ _ => herased⟩
    · intro e he
      cases he
    · exact fun _ _ => hkept ht
  · exact fun i t ht => hkept ht

theorem deleteRuns_tidy (h : NoOrphans sched live s) {runs : List BackupRun}
    (hruns : ∀ r ∈ runs, Prunable sched sink env s r) :
    Coroutine.wp (fun _ _ => True) (sched.deleteRuns sink env runs)
      (fun _ t => NoOrphans sched live t) s := by
  induction runs generalizing s with
  | nil => exact (Coroutine.wp_pure ()).2 h
  | cons r runs ih =>
    rw [deleteRuns]
    apply Coroutine.wp_seq (deleteRun_tidy h (hruns r List.mem_cons_self))
    · intro _ t ht
      apply ih ht.referenced
      exact fun q hq => (hruns q (List.mem_cons_of_mem r hq)).of_referenced ht
    · exact fun _ _ ht => ht.referenced

theorem prune_tidy (h : NoOrphans sched live s)
    (hruns : ∀ r ∈ doomed schedule env s.runs.rows, Prunable sched sink env s r) :
    Coroutine.wp (fun _ _ => True) (sched.prune schedule sink env)
      (fun _ t => NoOrphans sched live t) s := by
  rw [prune]
  apply Coroutine.wp_reading_bind
  · exact fun _ _ => h
  · intro cutoff hcutoff
    rw [Coroutine.wp_bind]
    apply Coroutine.wp_await
    · intro q hq
      cases hq
      refine ⟨trivial, fun _ => ?_, fun _ _ => h⟩
      apply deleteRuns_tidy h
      rw [doomed, hcutoff] at hruns
      exact hruns
    · intro e he
      cases he
    · exact fun _ _ => h

/-! ## One dispatch -/

/-- A put that takes no effect late leaves nothing in the sink unless it returns. -/
theorem takeBackup_unput (hput : ∀ i, env.fate .put ≠ .late i) :
    Coroutine.wp (fun _ _ => True) (sched.takeBackup schedule env)
      (fun o t => ∀ i, o = .stopped i → t.stored = s.stored) s := by
  rw [takeBackup]
  apply Coroutine.wp_await_bind (I := fun t => t.stored = s.stored) rfl
  · exact fun _ _ ht _ _ _ => ht
  · rintro _ ⟨⟩
    exact ⟨trivial, BackupState.updateRun_stored ..⟩
  rintro - _ ⟨⟩
  apply Coroutine.wp_await_bind (I := fun t => t.stored = s.stored)
    (BackupState.updateRun_stored ..)
  · exact fun _ _ ht _ _ _ => ht
  · intro r hr
    obtain ⟨bundle, -, rfl⟩ := map_eq_ok.1 hr
    exact ⟨trivial, BackupState.updateRun_stored ..⟩
  intro _ r hr
  obtain ⟨bundle, -, rfl⟩ := map_eq_ok.1 hr
  apply Coroutine.wp_await_bind (I := fun t => t.stored = s.stored)
    (BackupState.updateRun_stored ..)
  · exact fun _ _ ht _ _ _ => ht
  · rintro _ ⟨⟩
    exact ⟨trivial, BackupState.updateRun_stored ..⟩
  rintro - _ ⟨⟩
  -- the encryption, if any, keeps the state
  apply Coroutine.wp_seq (M := fun _ t => t.stored = s.stored)
  · rw [sealBundle]
    split
    · apply Coroutine.wp_await
      · intro r hr
        obtain ⟨data, -, rfl⟩ := map_eq_ok.1 hr
        exact ⟨trivial, fun _ => BackupState.updateRun_stored .., fun _ _ =>
          BackupState.updateRun_stored ..⟩
      · exact fun _ _ => BackupState.updateRun_stored ..
      · exact fun _ _ => BackupState.updateRun_stored ..
    · exact (Coroutine.wp_pure _).2 (BackupState.updateRun_stored ..)
  · intro data t ht
    apply Coroutine.wp_reading_bind
    · exact fun _ _ _ _ => ht
    · intro sink _
      rw [Coroutine.wp_bind]
      apply Coroutine.wp_await
      · intro r hr
        refine ⟨trivial, fun _ => ?_, fun i hi => (hput i hi).elim⟩
        rw [Outcome.elim_returned, Coroutine.wp_pure]
        intro _ h
        cases h
      · exact fun _ _ _ _ => ht
      · exact fun _ _ _ _ => ht
  · exact fun _ _ ht _ _ => ht

/-- What recording a backup leaves, from what it leaves at each commit. -/
theorem recordBackup_tidy
    (hunrecorded : ∀ i, env.fate .markSuccess = .early i → NoOrphans sched live t)
    (hrecorded : NoOrphans sched live
      (t.updateRun env.run_id (succeeded taken.1 taken.2.2 env.finished_at)))
    (hruns : ∀ step, sched.advanced schedule env.started_at = .ok step →
      ∀ r ∈ doomed schedule env
        (t.updateRun env.run_id (succeeded taken.1 taken.2.2 env.finished_at)).runs.rows,
        Prunable sched taken.2.1 env ((t.updateRun env.run_id
          (succeeded taken.1 taken.2.2 env.finished_at)).updateSchedule schedule.id step) r) :
    Coroutine.wp (fun _ _ => True) (sched.recordBackup schedule env taken)
      (fun _ u => NoOrphans sched live u) t := by
  rw [recordBackup, Coroutine.wp_bind]
  apply Coroutine.wp_await
  · intro q hq
    cases hq
    refine ⟨trivial, fun _ => ?_, fun _ _ => hrecorded⟩
    rw [Outcome.elim_returned]
    apply Coroutine.wp_reading_bind
    · exact fun _ _ => hrecorded
    · intro step hstep
      have hadvanced : NoOrphans sched live ((t.updateRun env.run_id
          (succeeded taken.1 taken.2.2 env.finished_at)).updateSchedule schedule.id step) := by
        apply hrecorded.sub (schedulesKept_update _ _ (advanced_timeless hstep))
        · intro r hr
          rwa [BackupState.updateSchedule_runs]
        · intro e he
          rwa [BackupState.updateSchedule_stored] at he
      rw [Coroutine.wp_bind]
      apply Coroutine.wp_await
      · intro q hq
        cases hq
        refine ⟨trivial, fun _ => ?_, fun _ _ => hadvanced⟩
        simp only [Outcome.elim_returned]
        split
        · exact (Coroutine.wp_pure _).2 hadvanced
        · apply prune_tidy hadvanced
          rw [BackupState.updateSchedule_runs]
          exact hruns step hstep
      · intro e he
        cases he
      · exact fun _ _ => hrecorded
  · intro e he
    cases he
  · exact hunrecorded

/-- The blob of a dispatch stands at the place of a run that counts. -/
theorem NoOrphans.claimed (h : NoOrphans sched live s) (hs : SchedulesKept s t)
    (hruns : ∀ r ∈ s.runs.rows, r ∈ t.runs.rows) {place : Place} {data : Data}
    (hstored : t.stored = s.stored.upsert (place, data))
    (hclaimed : ∃ r ∈ s.runs.rows, live r.status ∧
      placeOf sched.libs s.schedules r = some place) : NoOrphans sched live t := by
  obtain ⟨r, hr, hlive, hplace⟩ := hclaimed
  exact h.put hs hruns hstored (hruns r hr) hlive hplace

theorem InProgress.others (hfresh : s.runs.find env.run_id = none)
    (ht : InProgress sched schedule env s t) : ∀ r ∈ s.runs.rows, r ∈ t.runs.rows := by
  obtain ⟨-, status, -, hruns⟩ := ht
  intro r hr
  rw [hruns]
  exact mem_upsert_of_fresh hfresh hr

theorem runBackup_tidy (hlive : live .success) (h : NoOrphans sched live s)
    (hloaded : Loaded s schedule) (hfresh : s.runs.find env.run_id = none)
    (htidy : Tidy sched live s (schedule, env)) :
    Coroutine.wp (fun _ _ => True) (sched.runBackup schedule env)
      (fun _ u => NoOrphans sched live u) (sched.pendingState schedule env s) := by
  have hpending := inProgress_pending sched schedule env s
  rw [runBackup]
  have htake := Coroutine.wp_weaken (takeBackup_wp hpending) fun _ _ _ => trivial
  have hput : Coroutine.wp (fun _ _ => True) (sched.takeBackup schedule env)
      (fun o t => (∀ i, env.fate .put ≠ .late i) → ∀ i, o = .stopped i → t.stored = s.stored)
      (sched.pendingState schedule env s) := by
    by_cases hlate : ∀ i, env.fate .put ≠ .late i
    · exact Coroutine.wp_mono (takeBackup_unput hlate) fun _ _ ht _ => ht
    · exact ⟨htake.1, fun hnot => (hlate hnot).elim⟩
  apply Coroutine.wp_seq (Coroutine.wp_and htake hput)
  · rintro taken t ⟨htaking, -⟩
    have ht := htaking.underway.inProgress
    have htaken := htaking.taken taken rfl
    have hkept : SchedulesKept s t := schedulesKept_of_eq ht.1
    have hothers := InProgress.others hfresh ht
    have hbackup : sched.backupOf schedule env s.db = .ok taken := htaken.backup
    have hrows := recorded_runs ht taken
    have hkept' : SchedulesKept s (t.updateRun env.run_id
        (succeeded taken.1 taken.2.2 env.finished_at)) :=
      hkept.trans (schedulesKept_of_eq (BackupState.updateRun_schedules ..))
    apply recordBackup_tidy
    · intro i hi
      rcases htidy.recorded taken hbackup with hclaimed | ⟨-, hearly⟩
      · exact h.claimed hkept hothers htaken.stored hclaimed
      · exact (hearly i hi).elim
    · apply h.put hkept'
      · intro r hr
        rw [hrows]
        exact mem_upsert_of_fresh hfresh hr
      · rw [BackupState.updateRun_stored]
        exact htaken.stored
      · rw [hrows, KeyedTable.mem_upsert_iff]
        exact .inl rfl
      · exact hlive
      · rw [placeOf, sinkOf_newRun hloaded rfl, (backupOf_eq_ok hbackup).1]
        rfl
    · intro step hstep r hr
      rw [hrows] at hr
      obtain ⟨hmem, hid, -⟩ := mem_of_doomed hr
      refine ⟨fun row hrow => ?_, ?_, htidy.dropped taken hbackup r hr⟩
      · rw [BackupState.updateSchedule_runs, hrows, KeyedTable.find_of_mem hmem] at hrow
        exact (Option.some.inj hrow).symm
      · have hadvanced :=
          hkept'.trans (schedulesKept_update _ schedule.id (advanced_timeless hstep))
        rw [sinkOf_newRun (hadvanced.loaded hloaded) hid, (backupOf_eq_ok hbackup).1]
        rfl
  · rintro i t ⟨htaking, hunput⟩
    have ht := htaking.underway.inProgress
    have hkept : SchedulesKept s t := schedulesKept_of_eq ht.1
    have hothers := InProgress.others hfresh ht
    have hsame : t.stored = s.stored → NoOrphans sched live t := by
      intro hstored
      apply h.sub hkept hothers
      intro e he
      rwa [hstored] at he
    rcases htaking.underway.stored with hstored | ⟨taken, htaken, hstored⟩
    · exact hsame hstored
    · rcases htidy.recorded taken htaken with hclaimed | hrecorded
      · exact h.claimed hkept hothers hstored hclaimed
      · exact hsame (hunput hrecorded.1 i rfl)

/-- An exception comes before the success is recorded. -/
theorem NothingRaises.inProgress (h : NothingRaises sched schedule env)
    (ha : Attempt sched schedule env s (sched.pendingState schedule env s)
      (.stopped (.exception e)) u) : InProgress sched schedule env s u := by
  cases ha with
  | untaken ht _ => exact ht.inProgress
  | taken _ ht hrecording =>
    obtain ⟨step, hstep⟩ := h.next
    obtain ⟨cutoff, hcutoff⟩ := h.cutoff
    cases hrecording with
    | unrecorded _ => exact ht
    | recorded hi =>
      rcases hi with hi | ⟨-, ⟨e', he', -⟩ | hi⟩
      · exact (h.success _ hi).elim
      · cases hstep.symm.trans he'
      · exact (h.advance _ (.inl hi)).elim
    | advanced _ _ hi => exact (h.advance _ (.inr hi)).elim
    | pruned _ _ _ _ hpruning =>
      cases hpruning.ended _ rfl with
      | cutoff he' _ => cases hcutoff.symm.trans he'
      | selection hi => exact (h.selection _ hi).elim
      | deletion _ hi =>
        rcases hi with hi | ⟨hi, -⟩
        · exact (h.deletion _ _ hi).elim
        · cases hi

/-- A failed run counts, or refers to nothing. -/
theorem NoOrphans.failed (h : NoOrphans sched live u)
    (hsettled : live .failed ∨ InProgress sched schedule env s u) (err : String) :
    NoOrphans sched live (u.updateRun env.run_id (failedWith err env.failed_at)) := by
  intro e he
  rw [BackupState.updateRun_stored] at he
  obtain ⟨r, hr, hlive, hplace⟩ := h e he
  rw [BackupState.updateRun_schedules, BackupState.updateRun]
  cases hrun : u.runs.find env.run_id with
  | none => exact ⟨r, hr, hlive, hplace⟩
  | some run =>
    by_cases hid : r.id = env.run_id
    · obtain rfl : r = run := by
        rw [← hid, KeyedTable.find_of_mem hr] at hrun
        exact Option.some.inj hrun
      rcases hsettled with hfailed | ⟨-, status, -, hruns⟩
      · refine ⟨failedWith err env.failed_at r, ?_, hfailed, hplace⟩
        rw [KeyedTable.mem_upsert_iff]
        exact .inl rfl
      · rw [hruns, KeyedTable.mem_upsert_iff] at hr
        rcases hr with rfl | ⟨-, hne⟩
        · obtain ⟨sink, -, hlocator⟩ := Option.bind_eq_some_iff.1 hplace
          cases hlocator
        · exact (hne hid).elim
    · refine ⟨r, ?_, hlive, hplace⟩
      rw [KeyedTable.mem_upsert_iff]
      refine .inr ⟨hr, ?_⟩
      have hrun' : run.id = env.run_id := KeyedTable.key_of_find hrun
      rw [failedWith, hrun']
      exact hid

theorem dispatch_tidy (hlive : live .success) (h : NoOrphans sched live s)
    (hloaded : Loaded s schedule) (htidy : Tidy sched live s (schedule, env)) :
    Coroutine.wp (fun _ _ => True) (sched.dispatch schedule env)
      (fun _ u => NoOrphans sched live u) s := by
  rw [dispatch]
  apply Coroutine.wp_seq (Coroutine.wp_weaken (markRunPending_wp sched schedule env s)
    fun _ _ _ => trivial)
  · intro _ t ht
    cases ht with
    | created hfresh _ _ =>
      have hattempt := Coroutine.wp_weaken (runBackup_wp (inProgress_pending sched schedule env s))
        fun _ _ _ => trivial
      apply Coroutine.wp_seq (M := fun _ u => NoOrphans sched live u)
      · apply Coroutine.wp_try
          (Coroutine.wp_and hattempt (runBackup_tidy hlive h hloaded hfresh htidy))
        · exact fun _ _ hu => hu.2
        · rintro e u ⟨ha, hu⟩
          have hsettled := htidy.settled.imp_right fun hnothing => hnothing.inProgress ha
          apply Coroutine.wp_await
          · intro q hq
            cases hq
            exact ⟨trivial, fun _ => hu.failed hsettled _, fun _ _ => hu.failed hsettled _⟩
          · intro e' he
            cases he
          · exact fun _ _ => hu
        · exact fun _ hu => hu.2
      · exact fun _ _ hu => (Coroutine.wp_pure _).2 hu
      · exact fun _ _ hu => hu
  · intro i t ht
    cases ht with
    | uncreated _ => exact h
    | abandoned hfresh _ =>
      exact h.sub (schedulesKept_of_eq rfl) (fun _ hr => mem_upsert_of_fresh hfresh hr) fun _ => id

end

/-- After a run of tidy dispatches every blob that the sinks hold has a run that refers to it: any
run, or a success, which retention can reach. -/
theorem no_orphans {sched : BackupScheduler b Data} {live : RunStatus → Prop}
    {s₀ s : BackupState b Data} (hlive : live .success) (h₀ : NoOrphans sched live s₀)
    (h : Run (Guarded (DispatchStep sched) (Tidy sched live)) s₀ ds s) :
    NoOrphans sched live s := by
  apply h.invariant h₀
  rintro t d u ht ⟨⟨hloaded, rfl⟩, htidy⟩
  exact (dispatch_tidy hlive ht hloaded htidy).2

theorem noOrphans_withSchedule (live : RunStatus → Prop) :
    NoOrphans .plain live (.withSchedule hourly) := fun _ he => absurd he List.not_mem_nil

theorem nothingRaises_hourly : NothingRaises .plain hourly (.plain "run" tenUtc) where
  success e h := by cases h
  next := ⟨_, rfl⟩
  advance e h := by rcases h with h | h <;> cases h
  cutoff := ⟨none, rfl⟩
  selection e h := by rcases h with h | h <;> cases h
  deletion _ e h := by rcases h with h | h <;> cases h

theorem tidy_hourly : Tidy .plain (· = .success) (.withSchedule hourly)
    (hourly, .plain "run" tenUtc) where
  recorded _ _ := .inr ⟨(fun _ h => by cases h), fun _ h => by cases h⟩
  settled := .inr nothingRaises_hourly
  dropped _ _ _ hr := by cases hr

theorem no_orphans_hourly : NoOrphans .plain (· = .success)
    ((BackupScheduler.plain.dispatch hourly (.plain "run" tenUtc)).final (.withSchedule hourly)) :=
  no_orphans rfl (noOrphans_withSchedule _)
    (.single (a := (hourly, Circumstances.plain "run" tenUtc)) ⟨⟨rfl, rfl⟩, tidy_hourly⟩)

/-- The database fails when the success is to be recorded. -/
def unrecordable : Circumstances :=
  { Circumstances.plain "run" tenUtc with
    fate := fun p =>
      if p = .markSuccess then .early (.exception (.runtimeError "database is locked")) else .done }

/-- The blob is in the sink, and the run that failed has no locator. -/
theorem orphan_left : ¬ ∀ (s₀ : BackupState .sqlite Bytes) ds s,
    NoOrphans .plain (fun _ => True) s₀ → Run (DispatchStep .plain) s₀ ds s →
      NoOrphans .plain (fun _ => True) s := by
  intro h
  have hdispatch : DispatchStep .plain (.withSchedule hourly) (hourly, unrecordable) _ :=
    ⟨rfl, rfl⟩
  exact absurd (h _ _ _ (noOrphans_withSchedule _) (.single hdispatch)) (by decide +kernel)

end ScottyCore
