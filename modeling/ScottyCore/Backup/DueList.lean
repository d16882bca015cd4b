import ScottyCore.Backup.Schedules

namespace ScottyCore
open Python Async TransitionSystem
set_option autoImplicit true

variable {b : Backend} {Data : Type}

/-! ## A tick among other requests -/

/-- No schedule of this id is stored, or not an active one. -/
def withdrawn (schedule_id : String) (s : BackupState b Data) : Bool :=
  match s.schedules.find schedule_id with
  | some row => !row.is_active
  | none => true

/-- What one awaited call of a dispatch commits after the run was created. -/
inductive DispatchMove (sched : BackupScheduler b Data) (schedule : BackupSchedule)
    (env : Circumstances) : BackupState b Data → BackupState b Data → Prop where
  | mark : (∀ run, (f run).id = run.id) →
      DispatchMove sched schedule env s (s.updateRun env.run_id f)
  | write : DispatchMove sched schedule env s { s with db := db, stored := stored }
  | advance : sched.advanced schedule env.started_at = .ok step →
      DispatchMove sched schedule env s (s.updateSchedule schedule.id step)
  | prune : DispatchMove sched schedule env s { s with runs := s.runs.erase run_id }

/-- Where `tick_once` stands: the schedules that wait, and the one that is dispatched, with whether
it was withdrawn when its dispatch began. -/
inductive TickPhase where
  | idle
  | due (waiting : List BackupSchedule)
  | starting (schedule : BackupSchedule) (env : Circumstances) (gone : Bool)
    (waiting : List BackupSchedule)
  | running (schedule : BackupSchedule) (env : Circumstances) (waiting : List BackupSchedule)

/-- The schedules of the due list whose dispatch has not begun. -/
def TickPhase.waiting : TickPhase → List String
  | idle => []
  | due schedules | starting _ _ _ schedules | running _ _ schedules =>
    schedules.map BackupSchedule.id

/-- The schedule whose dispatch is under way. -/
def TickPhase.current : TickPhase → List String
  | idle | due _ => []
  | starting schedule _ _ _ | running schedule _ _ => [schedule.id]

/-- An installation with one tick, and what no step reads back: the dispatches begun, by their
schedules, and the runs created, each with whether the schedule was withdrawn at the beginning. -/
structure TickState (b : Backend) (Data : Type) where
  store : BackupState b Data
  phase : TickPhase
  begun : List (String × Bool)
  created : List (String × Bool)

inductive TickAction where
  | read (now : DateTime) | dispatch (env : Circumstances) | create | move | finish | abort
  | delete (schedule_id : String) | deactivate (schedule_id : String) | other

/-- One step of `tick_once`, of a request, or of the rest of the installation. -/
inductive TickStep (sched : BackupScheduler b Data) (orchestrator : String) :
    TickState b Data → TickAction → TickState b Data → Prop where
  | read : s.phase = .idle →
      TickStep sched orchestrator s (.read now)
        { s with phase := .due (BackupScheduler.dueSchedules now s.store.schedules.rows) }
  | dispatch : s.phase = .due (schedule :: waiting) →
      TickStep sched orchestrator s (.dispatch env)
        { s with
          phase := .starting schedule env (withdrawn schedule.id s.store) waiting
          begun := (schedule.id, withdrawn schedule.id s.store) :: s.begun }
  | create : s.phase = .starting schedule env gone waiting →
      sched.insertPending schedule env s.store = .ok ((), store) →
      TickStep sched orchestrator s .create
        { s with
          store := store
          phase := .running schedule env waiting
          created := (env.run_id, gone) :: s.created }
  | move : s.phase = .running schedule env waiting →
      DispatchMove sched schedule env s.store store →
      TickStep sched orchestrator s .move { s with store := store }
  | finish : s.phase = .running schedule env waiting →
      TickStep sched orchestrator s .finish { s with phase := .due waiting }
  -- the list is empty, or an exception or a cancellation leaves `tick_once`
  | abort : TickStep sched orchestrator s .abort { s with phase := .idle }
  | delete : deleteSchedule orchestrator schedule_id s.store = .ok store →
      TickStep sched orchestrator s (.delete schedule_id) { s with store := store }
  | deactivate : s.store.schedules.find schedule_id = some row →
      TickStep sched orchestrator s (.deactivate schedule_id)
        { s with
          store := s.store.updateSchedule schedule_id fun row => { row with is_active := false } }
  -- nothing else takes a schedule away
  | other : (∀ schedule_id, withdrawn schedule_id store = true →
        withdrawn schedule_id s.store = true) →
      TickStep sched orchestrator s .other { s with store := store }

/-- No dispatch began for a schedule that was withdrawn by then, and no run was created for one. -/
def NoneWithdrawn (s : TickState b Data) : Prop :=
  (∀ e ∈ s.begun, e.2 = false) ∧ ∀ e ∈ s.created, e.2 = false

/-- The condition on a step: no schedule is deleted or deactivated while it waits in the due
list. -/
def WithdrawalGuard (s : TickState b Data) : TickAction → Prop
  | .delete schedule_id | .deactivate schedule_id => schedule_id ∉ s.phase.waiting
  | _ => True

/-- An installation before a tick. -/
structure TickStart (s : TickState b Data) : Prop where
  phase : s.phase = .idle
  begun : s.begun = []
  created : s.created = []

/-! ## The commits of a dispatch -/

namespace BackupScheduler

variable {sched : BackupScheduler b Data} {schedule : BackupSchedule} {env : Circumstances}

theorem keeps_unchanged (fate : Fate Exc) : Coroutine.Keeps (DispatchMove sched schedule env)
    (fun _ => True) (.await fate fun s => .ok ((), s)) := by
  apply Coroutine.Keeps.await
  intro s r _ hr
  cases hr
  exact ⟨.write, trivial⟩

theorem keeps_updateRun (fate : Fate Exc) {f : BackupRun → BackupRun}
    (hf : ∀ run, (f run).id = run.id) : Coroutine.Keeps (DispatchMove sched schedule env)
      (fun _ => True) (.await fate fun s => .ok ((), s.updateRun env.run_id f)) := by
  apply Coroutine.Keeps.await
  intro s r _ hr
  cases hr
  exact ⟨.mark hf, trivial⟩

theorem keeps_deleteRun (sink : StorageSink) (r : BackupRun) : Coroutine.Keeps
    (DispatchMove sched schedule env) (fun _ => True) (sched.deleteRun sink env r) := by
  have hblob : Coroutine.Keeps (DispatchMove sched schedule env) (fun _ => True)
      (sched.deleteBlob sink env r) := by
    rw [deleteBlob]
    split
    · apply Coroutine.Keeps.handle
      · apply Coroutine.Keeps.await
        intro s r _ hr
        obtain ⟨stored, -, rfl⟩ := map_eq_ok.1 hr
        exact ⟨.write, trivial⟩
      · exact fun _ => .pure ()
    · exact .pure ()
  apply hblob.bind
  intro _
  apply Coroutine.Keeps.await
  intro s r _ hr
  cases hr
  exact ⟨.prune, trivial⟩

theorem keeps_deleteRuns (sink : StorageSink) (runs : List BackupRun) : Coroutine.Keeps
    (DispatchMove sched schedule env) (fun _ => True) (sched.deleteRuns sink env runs) := by
  induction runs with
  | nil => exact .pure ()
  | cons r runs ih => exact (keeps_deleteRun sink r).bind fun _ => ih

/-- Each commit of the `try` block is a move of the dispatch. -/
theorem keeps_runBackup : Coroutine.Keeps (DispatchMove sched schedule env) (fun _ => True)
    (sched.runBackup schedule env) := by
  have htake : Coroutine.Keeps (DispatchMove sched schedule env) (fun _ => True)
      (sched.takeBackup schedule env) := by
    refine (keeps_updateRun _ ?_).bind fun _ => Coroutine.Keeps.bind ?_ ?_
    · exact fun _ => rfl
    · apply Coroutine.Keeps.await
      intro s r _ hr
      obtain ⟨_, -, rfl⟩ := map_eq_ok.1 hr
      exact ⟨.write, trivial⟩
    · intro bundle
      apply (keeps_unchanged _).bind
      intro _
      apply Coroutine.Keeps.bind
      · rw [sealBundle]
        split
        · apply Coroutine.Keeps.await
          intro s r _ hr
          obtain ⟨_, -, rfl⟩ := map_eq_ok.1 hr
          exact ⟨.write, trivial⟩
        · exact .pure _
      · intro data
        apply (Coroutine.Keeps.reading _).bind
        intro sink
        apply Coroutine.Keeps.bind
        · apply Coroutine.Keeps.await
          intro s r _ hr
          obtain ⟨_, -, rfl⟩ := map_eq_ok.1 hr
          exact ⟨.write, trivial⟩
        · exact fun _ => .pure _
  apply htake.bind
  intro taken
  refine (keeps_updateRun _ ?_).bind fun _ s _ => ?_
  · exact fun _ => rfl
  refine Coroutine.wp_reading_bind (fun _ _ => trivial) fun step hstep => ?_
  have hadvance : Coroutine.Keeps (DispatchMove sched schedule env) (fun _ => True)
      (.await (env.fate .advance) fun s => .ok ((), s.updateSchedule schedule.id step)) := by
    apply Coroutine.Keeps.await
    intro s r _ hr
    cases hr
    exact ⟨.advance hstep, trivial⟩
  refine hadvance.bind (fun _ => ?_) s trivial
  split
  · exact .pure ()
  · refine (Coroutine.Keeps.reading _).bind fun cutoff => Coroutine.Keeps.bind ?_ fun runs => ?_
    · apply Coroutine.Keeps.await
      intro s r _ hr
      cases hr
      exact ⟨.write, trivial⟩
    · exact keeps_deleteRuns _ _

/-- What a dispatch commits: its run, and then its moves. -/
theorem dispatch_commits (s : BackupState b Data) :
    Linked (fun s s' => sched.insertPending schedule env s = .ok ((), s') ∨
      DispatchMove sched schedule env s s') s (sched.dispatch schedule env s).states := by
  have hfailed : ∀ exc, Coroutine.Keeps (DispatchMove sched schedule env) (fun _ => True)
      (markRunFailed env exc) := fun exc => keeps_updateRun _ fun _ => rfl
  have hmoves : Coroutine.Keeps (fun s s' => sched.insertPending schedule env s = .ok ((), s') ∨
      DispatchMove sched schedule env s s') (fun _ => True) (sched.dispatch schedule env) := by
    refine Coroutine.Keeps.bind (Coroutine.Keeps.bind ?_ fun _ => ?_) fun _ =>
      Coroutine.Keeps.bind (Coroutine.Keeps.handle ?_ fun exc => ?_) fun _ => .pure _
    · apply Coroutine.Keeps.await
      intro s r _ hr
      exact ⟨.inl hr, trivial⟩
    · exact fun s hs => Coroutine.wp_weaken (keeps_unchanged _ s hs) fun _ _ => .inr
    · exact fun s hs => Coroutine.wp_weaken (keeps_runBackup s hs) fun _ _ => .inr
    · exact fun s hs => Coroutine.wp_weaken (hfailed exc s hs) fun _ _ => .inr
  exact (hmoves s trivial).1

end BackupScheduler

/-! ## The schedules that wait -/

theorem withdrawn_congr {s s' : BackupState b Data}
    (h : s'.schedules.find schedule_id = s.schedules.find schedule_id) :
    withdrawn schedule_id s' = withdrawn schedule_id s := by
  rw [withdrawn, withdrawn, h]

theorem withdrawn_updateSchedule (s : BackupState b Data) {f : BackupSchedule → BackupSchedule}
    (hf : ∀ row, (f row).id = row.id) (hne : schedule_id ≠ schedule_id') :
    withdrawn schedule_id (s.updateSchedule schedule_id' f) = withdrawn schedule_id s := by
  apply withdrawn_congr
  rw [BackupState.updateSchedule]
  cases hrow : s.schedules.find schedule_id' with
  | none => rfl
  | some row =>
    have hid : (f row).id = schedule_id' := (hf row).trans (KeyedTable.key_of_find hrow)
    exact KeyedTable.find_upsert_of_ne _ (hid ▸ hne)

theorem withdrawn_insertPending {sched : BackupScheduler b Data} {s s' : BackupState b Data}
    (h : sched.insertPending schedule env s = .ok ((), s')) (schedule_id : String) :
    withdrawn schedule_id s' = withdrawn schedule_id s := by
  rw [BackupScheduler.insertPending] at h
  split at h
  · cases h
  · cases h
    rfl

/-- A dispatch withdraws at most its own schedule. -/
theorem DispatchMove.withdrawn {sched : BackupScheduler b Data} {s s' : BackupState b Data}
    (h : DispatchMove sched schedule env s s') (hne : schedule_id ≠ schedule.id) :
    withdrawn schedule_id s' = withdrawn schedule_id s := by
  cases h with
  | mark => exact withdrawn_congr (by rw [BackupState.updateRun_schedules])
  | write => rfl
  | advance hstep =>
    apply withdrawn_updateSchedule s _ hne
    intro row
    rw [← BackupSchedule.timeless_id, BackupScheduler.advanced_timeless hstep row,
      BackupSchedule.timeless_id]
  | prune => rfl

theorem withdrawn_delete {s s' : BackupState b Data}
    (h : deleteSchedule orchestrator schedule_id s = .ok s') (hne : schedule_id' ≠ schedule_id) :
    withdrawn schedule_id' s' = withdrawn schedule_id' s := by
  rw [deleteSchedule] at h
  split at h
  · cases h
  · split at h
    · cases h
    · cases h
      apply withdrawn_congr
      rw [KeyedTable.find_erase, if_neg hne]

theorem dueSchedules_live {s : BackupState b Data}
    (h : schedule ∈ BackupScheduler.dueSchedules now s.schedules.rows) :
    withdrawn schedule.id s = false := by
  obtain ⟨hrow, hdue⟩ := List.mem_filter.1 h
  rw [Bool.and_eq_true] at hdue
  rw [withdrawn, KeyedTable.find_of_mem hrow]
  simp only [hdue.1, Bool.not_true]

/-! ## No dispatch of a withdrawn schedule -/

/-- The schedules that wait are stored and active, and each of them once. -/
structure TickInv (s : TickState b Data) : Prop where
  law : NoneWithdrawn s
  starting : ∀ schedule env gone waiting, s.phase = .starting schedule env gone waiting →
    gone = false
  nodup : (s.phase.current ++ s.phase.waiting).Nodup
  live : ∀ schedule_id ∈ s.phase.waiting, withdrawn schedule_id s.store = false

theorem TickInv.store {s : TickState b Data} {store : BackupState b Data} (h : TickInv s)
    (hkept : ∀ schedule_id ∈ s.phase.waiting, withdrawn schedule_id store = true →
      withdrawn schedule_id s.store = true) : TickInv { s with store := store } := by
  refine ⟨h.law, h.starting, h.nodup, ?_⟩
  intro schedule_id hid
  by_contra hgone
  have hlive := h.live schedule_id hid
  rw [hkept schedule_id hid (Bool.of_not_eq_false hgone)] at hlive
  cases hlive

theorem TickInv.not_current {s : TickState b Data} (h : TickInv s)
    (hcurrent : s.phase.current = [schedule_id']) (hid : schedule_id ∈ s.phase.waiting) :
    schedule_id ≠ schedule_id' := by
  intro he
  subst he
  have hnodup := h.nodup
  rw [hcurrent, List.singleton_append, List.nodup_cons] at hnodup
  exact hnodup.1 hid

theorem dueSchedules_nodup (now : DateTime) (s : BackupState b Data) :
    ((BackupScheduler.dueSchedules now s.schedules.rows).map BackupSchedule.id).Nodup :=
  s.schedules.nodup.sublist (List.filter_sublist.map _)

theorem tickInv_step {sched : BackupScheduler b Data} {s s' : TickState b Data} (h : TickInv s)
    (hstep : Guarded (TickStep sched orchestrator) WithdrawalGuard s a s') : TickInv s' := by
  obtain ⟨hstep, hguard⟩ := hstep
  cases hstep with
  | read hphase =>
    refine ⟨h.law, (fun _ _ _ _ he => by cases he), dueSchedules_nodup _ s.store, ?_⟩
    intro schedule_id hid
    obtain ⟨schedule, hdue, rfl⟩ := List.mem_map.1 hid
    exact dueSchedules_live hdue
  | @dispatch _ env schedule waiting hphase =>
    have hlive : withdrawn schedule.id s.store = false := by
      apply h.live
      rw [hphase]
      exact List.mem_cons_self
    have hnodup := h.nodup
    rw [hphase] at hnodup
    refine ⟨⟨?_, h.law.2⟩, ?_, hnodup, ?_⟩
    · intro e he
      rcases List.mem_cons.1 he with rfl | he
      · exact hlive
      · exact h.law.1 e he
    · intro _ _ _ _ he
      cases he
      exact hlive
    · intro schedule_id hid
      apply h.live
      rw [hphase]
      exact List.mem_cons_of_mem _ hid
  | @create schedule env store _ waiting gone hphase hinsert =>
    have hgone := h.starting _ _ _ _ hphase
    have hnodup := h.nodup
    have hlive := h.live
    rw [hphase] at hnodup hlive
    refine ⟨⟨h.law.1, ?_⟩, (fun _ _ _ _ he => by cases he), hnodup, ?_⟩
    · intro e he
      rcases List.mem_cons.1 he with rfl | he
      · exact hgone
      · exact h.law.2 e he
    · intro schedule_id hid
      rw [withdrawn_insertPending hinsert]
      exact hlive schedule_id hid
  | @move schedule env store _ waiting hphase hmove =>
    apply h.store
    intro schedule_id hid hgone
    rwa [← hmove.withdrawn (h.not_current (congrArg TickPhase.current hphase) hid)]
  | finish hphase =>
    have hnodup := h.nodup
    have hlive := h.live
    rw [hphase] at hnodup hlive
    exact ⟨h.law, (fun _ _ _ _ he => by cases he), (List.nodup_cons.1 hnodup).2, hlive⟩
  | abort =>
    exact ⟨h.law, (fun _ _ _ _ he => by cases he), List.nodup_nil, fun _ hid => by cases hid⟩
  | @delete gone_id store _ hdelete =>
    apply h.store
    intro schedule_id hid hgone
    have hne : schedule_id ≠ gone_id := by
      intro he
      exact hguard (he ▸ hid)
    rwa [← withdrawn_delete hdelete hne]
  | @deactivate row _ gone_id hrow =>
    apply h.store
    intro schedule_id hid hgone
    have hne : schedule_id ≠ gone_id := by
      intro he
      exact hguard (he ▸ hid)
    rw [withdrawn_updateSchedule s.store ?_ hne] at hgone
    · exact hgone
    · exact fun _ => rfl
  | other hkept => exact h.store fun schedule_id _ => hkept schedule_id

/-- An installation whose scheduler is asleep. -/
def TickState.asleep (store : BackupState .sqlite Bytes) : TickState .sqlite Bytes :=
  ⟨store, .idle, [], []⟩

theorem tickStart_asleep (store : BackupState .sqlite Bytes) : TickStart (TickState.asleep store) :=
  ⟨rfl, rfl, rfl⟩

/-- A tick up to its first dispatch. -/
theorem first_dispatch (orchestrator : String) {store : BackupState .sqlite Bytes}
    (env : Circumstances)
    (hdue : BackupScheduler.dueSchedules now store.schedules.rows = schedule :: waiting) :
    Run (Guarded (TickStep .plain orchestrator) WithdrawalGuard) (.asleep store)
      [.read now, .dispatch env]
      ⟨store, .starting schedule env (withdrawn schedule.id store) waiting,
        [(schedule.id, withdrawn schedule.id store)], []⟩ := by
  have hread : TickStep .plain orchestrator (.asleep store) (.read now)
      ⟨store, .due (schedule :: waiting), [], []⟩ := hdue ▸ .read rfl
  exact .snoc (.single ⟨hread, trivial⟩) ⟨.dispatch rfl, trivial⟩

def nightly : BackupSchedule := .platform "nightly" (some "0 * * * *")

/-- An installation with two schedules. -/
def BackupState.hourlyNightly : BackupState .sqlite Bytes :=
  { withSchedule nightly with schedules := (withSchedule nightly).schedules.upsert hourly }

end ScottyCore
