import ScottyCore.Backup.Dispatch
import ScottyCore.Lib.Run

namespace ScottyCore
open Python Async TransitionSystem
set_option autoImplicit true

variable {b : Backend} {Data : Type}

/-! ## The schedules -/

/-- A schedule without what a dispatch changes of it. -/
def BackupSchedule.timeless (schedule : BackupSchedule) : BackupSchedule :=
  { schedule with next_run_at := none, is_active := true }

@[simp] theorem BackupSchedule.timeless_id (schedule : BackupSchedule) :
    schedule.timeless.id = schedule.id := rfl

/-- The schedule is stored, perhaps with another time of its next run. -/
def Loaded (s : BackupState b Data) (schedule : BackupSchedule) : Prop :=
  (s.schedules.find schedule.id).map BackupSchedule.timeless = some schedule.timeless

/-- Only the times of the schedules differ. -/
def SchedulesKept (s s' : BackupState b Data) : Prop :=
  ∀ key, (s'.schedules.find key).map BackupSchedule.timeless =
    (s.schedules.find key).map BackupSchedule.timeless

theorem schedulesKept_of_eq {s s' : BackupState b Data} (h : s'.schedules = s.schedules) :
    SchedulesKept s s' := fun _ => by rw [h]

theorem SchedulesKept.trans {s s' s'' : BackupState b Data} (h : SchedulesKept s s')
    (h' : SchedulesKept s' s'') : SchedulesKept s s'' := fun key => (h' key).trans (h key)

theorem SchedulesKept.loaded {s s' : BackupState b Data} (h : SchedulesKept s s')
    (hs : Loaded s schedule) : Loaded s' schedule := (h schedule.id).trans hs

theorem Loaded.find {s : BackupState b Data} (h : Loaded s schedule) :
    ∃ row, s.schedules.find schedule.id = some row ∧ row.timeless = schedule.timeless :=
  Option.map_eq_some_iff.1 h

theorem loaded_of_mem {s : BackupState b Data} (h : schedule ∈ s.schedules.rows) :
    Loaded s schedule := by
  rw [Loaded, KeyedTable.find_of_mem h]
  rfl

theorem schedulesKept_update (s : BackupState b Data) (schedule_id : String)
    {f : BackupSchedule → BackupSchedule} (hf : ∀ row, (f row).timeless = row.timeless) :
    SchedulesKept s (s.updateSchedule schedule_id f) := by
  intro key
  rw [BackupState.updateSchedule]
  split
  · rename_i row hrow
    have hid : (f row).id = row.id := by
      rw [← BackupSchedule.timeless_id, hf row, BackupSchedule.timeless_id]
    simp only [KeyedTable.find_upsert]
    split
    · rename_i hkey
      rw [hkey, hid, KeyedTable.key_of_find hrow, hrow, Option.map_some, hf row, Option.map_some]
    · rfl
  · rfl

namespace BackupScheduler

variable {sched : BackupScheduler b Data} {schedule : BackupSchedule} {env : Circumstances}
variable {s s' t : BackupState b Data}

theorem advanced_timeless (h : sched.advanced schedule base = .ok step) (row : BackupSchedule) :
    (step row).timeless = row.timeless := by
  rw [advanced] at h
  split at h
  · cases h
    rfl
  · obtain ⟨nxt, -, hstep⟩ := bind_eq_ok.1 h
    cases hstep
    rfl

theorem Recording.schedules (h : Recording sched schedule env sink f s o t) :
    SchedulesKept s t := by
  have hrecorded : SchedulesKept s (s.updateRun env.run_id f) :=
    schedulesKept_of_eq (BackupState.updateRun_schedules ..)
  have hadvanced : ∀ {step}, sched.advanced schedule env.started_at = .ok step →
      SchedulesKept s ((s.updateRun env.run_id f).updateSchedule schedule.id step) := fun hstep =>
    hrecorded.trans (schedulesKept_update _ _ (advanced_timeless hstep))
  cases h with
  | unrecorded _ => exact schedulesKept_of_eq rfl
  | recorded _ => exact hrecorded
  | advanced _ hstep _ => exact hadvanced hstep
  | complete _ hstep _ _ => exact hadvanced hstep
  | pruned _ hstep _ _ hpruning =>
    exact (hadvanced hstep).trans (schedulesKept_of_eq hpruning.pruned.schedules)

theorem Attempt.schedules (h : Attempt sched schedule env s s' o t) : SchedulesKept s t := by
  cases h with
  | untaken ht _ => exact schedulesKept_of_eq ht.inProgress.1
  | taken _ ht hrecording => exact (schedulesKept_of_eq ht.1).trans hrecording.schedules

/-- A dispatch changes of the schedules only the times. -/
theorem Dispatching.schedules (h : Dispatching sched schedule env s o t) : SchedulesKept s t := by
  cases h with
  | unstarted hc =>
    cases hc with
    | uncreated _ => exact schedulesKept_of_eq rfl
    | abandoned _ _ => exact schedulesKept_of_eq rfl
  | returned _ ha => exact ha.schedules
  | cancelled _ ha => exact ha.schedules
  | unmarked _ ha _ => exact ha.schedules
  | failed _ ha _ =>
    exact ha.schedules.trans (schedulesKept_of_eq (BackupState.updateRun_schedules ..))

/-! ## Ticks -/

theorem dispatchAll_run {step : BackupState b Data → α → BackupState b Data → Prop}
    {label : BackupSchedule → α} (env : BackupSchedule → Circumstances)
    (hstep : ∀ s schedule, Loaded s schedule →
      step s (label schedule) ((sched.dispatch schedule (env schedule)).final s))
    (schedules : List BackupSchedule) (h : ∀ schedule ∈ schedules, Loaded s schedule) :
    ∃ moves, Run step s moves ((sched.dispatchAll env schedules).final s) := by
  induction schedules generalizing s with
  | nil => exact ⟨[], .nil⟩
  | cons schedule schedules ih =>
    have hfirst : Run step s [label schedule] ((sched.dispatch schedule (env schedule)).final s) :=
      .single (hstep s schedule (h schedule List.mem_cons_self))
    have hkept : ∀ x ∈ schedules, Loaded ((sched.dispatch schedule (env schedule)).final s) x :=
      fun x hx => (dispatch_wp sched schedule (env schedule) s).2.schedules.loaded
        (h x (List.mem_cons_of_mem _ hx))
    obtain ⟨moves, hrest⟩ := ih hkept
    rw [dispatchAll, Coroutine.final_bind]
    cases (sched.dispatch schedule (env schedule) s).outcome with
    | stopped i => exact ⟨_, hfirst⟩
    | returned run_id =>
      refine ⟨[label schedule] ++ moves, hfirst.append ?_⟩
      rw [Outcome.elim_returned, Coroutine.final_bind]
      cases (sched.dispatchAll env schedules
        ((sched.dispatch schedule (env schedule)).final s)).outcome with
      | returned _ => exact hrest
      | stopped _ => exact hrest

/-- A tick is a run of dispatches of stored schedules, however it ends. -/
theorem tickOnce_run {step : BackupState b Data → α → BackupState b Data → Prop}
    {label : BackupSchedule → α} (now : DateTime) (env : BackupSchedule → Circumstances)
    (hstep : ∀ s schedule, Loaded s schedule →
      step s (label schedule) ((sched.dispatch schedule (env schedule)).final s))
    (s : BackupState b Data) : ∃ moves, Run step s moves ((sched.tickOnce now env).final s) := by
  rw [tickOnce, Coroutine.final_bind]
  apply dispatchAll_run env hstep
  intro schedule hdue
  exact loaded_of_mem (List.mem_filter.1 hdue).1

end BackupScheduler

end ScottyCore
