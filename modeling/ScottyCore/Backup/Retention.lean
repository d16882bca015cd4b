import ScottyCore.Backup.Dispatch

namespace ScottyCore
open Python Async BackupScheduler
set_option autoImplicit true

variable {b : Backend} {Data : Type}

/-! ## The law -/

/-- A run is not older than a number of days when the runs are pruned. -/
def Young (env : Circumstances) (days : Int) (r : BackupRun) : Prop :=
  env.pruned_at.instant - days * 86400000000 ≤ r.created_at.instant

instance : Decidable (Young env days r) := inferInstanceAs (Decidable (_ ≤ _))

/-- One of the two rules keeps a run, or there is no rule. -/
def Retained (schedule : BackupSchedule) (env : Circumstances) (history : List BackupRun)
    (r : BackupRun) : Prop :=
  (schedule.retention_days = none ∧ schedule.keep_last = none) ∨
    (∃ k, schedule.keep_last = some k ∧ r ∈ history.take k.toNat) ∨
    ∃ days, schedule.retention_days = some days ∧ Young env days r

/-- Of the successes of a schedule, the latest first, those remain that are retained, and the
newest is one of them. -/
structure RetentionLaw (schedule : BackupSchedule) (env : Circumstances)
    (history : List BackupRun) (s' : BackupState b Data) : Prop where
  exactly : ∀ r, r ∈ successRuns schedule.id s'.runs.rows ↔
    r ∈ history ∧ Retained schedule env history r
  newest : ∃ r ∈ successRuns schedule.id s'.runs.rows, r.id = env.run_id

/-- The successes of a schedule as a database orders them when the new one is recorded. -/
def historyWith (sched : BackupScheduler b Data) (schedule : BackupSchedule) (env : Circumstances)
    (s : BackupState b Data) (taken : BackupBlob Data × StorageSink × String) : List BackupRun :=
  env.order.apply
    (successRuns schedule.id (s.runs.upsert (sched.successRun schedule env taken)).rows)

/-- The new run is retained, and a zero or a negative number makes no difference. -/
structure Retainable (schedule : BackupSchedule) (env : Circumstances)
    (history : List BackupRun) : Prop where
  newest : ∃ r ∈ history, r.id = env.run_id ∧ Retained schedule env history r
  unpruned : Unpruned schedule →
    (schedule.retention_days = none ∧ schedule.keep_last = none) ∨
      (schedule.retention_days = some 0 ∧ ∀ r ∈ history, Young env 0 r)
  zero : schedule.retention_days = some 0 → ∀ k, nonzero schedule.keep_last = some k →
    ∀ r ∈ history, Young env 0 r → r ∈ firstRuns history k
  negative : ∀ k, schedule.keep_last = some k → k < 0 → ∀ r ∈ firstRuns history k,
    ∃ days, schedule.retention_days = some days ∧ Young env days r

/-! ## What the pruning keeps -/

/-- What the code keeps, a zero being no number. -/
def KeptBy (schedule : BackupSchedule) (env : Circumstances) (history : List BackupRun)
    (r : BackupRun) : Prop :=
  Unpruned schedule ∨
    (∃ k, nonzero schedule.keep_last = some k ∧ r ∈ firstRuns history k) ∨
    ∃ days, nonzero schedule.retention_days = some days ∧ Young env days r

section

variable {schedule : BackupSchedule} {env : Circumstances} {history : List BackupRun}
variable {r : BackupRun}

theorem nonzero_eq_some : nonzero n = some k ↔ n = some k ∧ k ≠ 0 := by
  rw [nonzero, Option.filter_eq_some_iff]
  simp only [decide_eq_true_eq]

theorem keepCutoff_eq_ok (h : keepCutoff days now = .ok cutoff) :
    (nonzero days = none ∧ cutoff = none) ∨
      ∃ n c, nonzero days = some n ∧ cutoff = some c ∧ c.instant = now.instant - n * 86400000000 := by
  rw [keepCutoff] at h
  split at h
  · rename_i hdays
    cases h
    exact .inl ⟨hdays, rfl⟩
  · rename_i n hdays
    split at h
    · obtain ⟨c, hc, rfl⟩ := map_eq_ok.1 h
      cases hadd : now.add (-(n * 86400000000)) with
      | error e =>
        rw [hadd] at hc
        cases hc
      | ok sum =>
        rw [hadd] at hc
        cases hc
        exact .inr ⟨n, c, hdays, rfl, DateTime.instant_add hadd⟩
    · cases h

theorem kept_iff (hunpruned : ¬ Unpruned schedule)
    (hcutoff : keepCutoff schedule.retention_days env.pruned_at = .ok cutoff) :
    kept schedule.keep_last cutoff history r = true ↔ KeptBy schedule env history r := by
  rw [kept.eq_def, Bool.or_eq_true, KeptBy, or_iff_right hunpruned]
  apply or_congr
  · cases nonzero schedule.keep_last with
    | none => simp only [Bool.false_eq_true, reduceCtorEq, false_and, exists_false]
    | some k => simp only [decide_eq_true_eq, Option.some.injEq, exists_eq_left']
  · rcases keepCutoff_eq_ok hcutoff with ⟨hdays, rfl⟩ | ⟨n, c, hdays, rfl, hc⟩
    · simp only [hdays, Bool.false_eq_true, reduceCtorEq, false_and, exists_false]
    · simp only [hdays, decide_eq_true_eq, Option.some.injEq, exists_eq_left', Young, hc]

theorem mem_condemned (hunpruned : ¬ Unpruned schedule)
    (hcutoff : keepCutoff schedule.retention_days env.pruned_at = .ok cutoff) :
    r ∈ condemned schedule cutoff history ↔ r ∈ history ∧ ¬ KeptBy schedule env history r := by
  rw [condemned, if_neg]
  · rw [List.mem_filter, ← kept_iff hunpruned hcutoff, Bool.not_eq_true', Bool.not_eq_true]
  · rintro ⟨rfl, hlast⟩
    rcases keepCutoff_eq_ok hcutoff with ⟨hdays, -⟩ | ⟨_, _, _, hsome, -⟩
    · exact hunpruned ⟨hdays, by rw [hlast]; rfl⟩
    · cases hsome

end

namespace BackupScheduler

variable {sched : BackupScheduler b Data} {schedule : BackupSchedule} {env : Circumstances}
variable {s s' : BackupState b Data} {taken : BackupBlob Data × StorageSink × String}

theorem mem_historyWith : r ∈ historyWith sched schedule env s taken ↔
    r ∈ successRuns schedule.id (s.runs.upsert (sched.successRun schedule env taken)).rows :=
  (env.order.perm _).mem_iff

theorem successRun_mem_historyWith :
    sched.successRun schedule env taken ∈ historyWith sched schedule env s taken := by
  rw [mem_historyWith, successRuns, List.mem_filter, KeyedTable.mem_upsert_iff]
  exact ⟨.inl rfl, decide_eq_true ⟨rfl, rfl⟩⟩

/-- Which runs are there after a dispatch that completes. -/
theorem Completes.rows (h : Completes sched schedule env s)
    (htaken : sched.backupOf schedule env s.db = .ok taken) :
    ∀ r, r ∈ ((sched.dispatch schedule env).final s).runs.rows ↔
      r ∈ (s.runs.upsert (sched.successRun schedule env taken)).rows ∧
        (r ∈ historyWith sched schedule env s taken →
          KeptBy schedule env (historyWith sched schedule env s taken) r) := by
  intro r
  have hattempt := h.attempt
  generalize (sched.dispatch schedule env).final s = s' at hattempt
  cases hattempt with
  | @taken taken' t _ _ htaken' ht hrecording =>
    cases htaken.symm.trans htaken'.backup
    have hruns := recorded_runs ht taken
    cases hrecording with
    | complete _ _ _ hunpruned =>
      rw [BackupState.updateSchedule_runs, hruns]
      exact (and_iff_left fun _ => .inl hunpruned).symm
    | @pruned step _ _ _ _ _ hunpruned hpruning =>
      obtain ⟨cutoff, hcutoff⟩ := hpruning.cutoff () rfl
      have hgone := hpruning.gone () rfl
      have hrows := hpruning.pruned.rows
      have hdoomed : doomed schedule env (s.runs.upsert (sched.successRun schedule env taken)).rows =
          condemned schedule cutoff (historyWith sched schedule env s taken) := by
        rw [doomed, hcutoff]
        rfl
      simp only [BackupState.updateSchedule_runs, hruns, hdoomed] at hgone hrows
      constructor
      · intro hr
        have hfind := KeyedTable.find_of_mem hr
        have hmem : r ∈ (s.runs.upsert (sched.successRun schedule env taken)).rows := by
          rcases hrows r.id with heq | ⟨-, hnone⟩
          · exact KeyedTable.mem_of_find (heq ▸ hfind)
          · cases hfind.symm.trans hnone
        refine ⟨hmem, fun hhistory => ?_⟩
        by_contra hkept
        cases hfind.symm.trans (hgone r ((mem_condemned hunpruned hcutoff).2 ⟨hhistory, hkept⟩))
      · rintro ⟨hmem, hkept⟩
        rcases hrows r.id with heq | ⟨⟨q, hq, hid⟩, -⟩
        · exact KeyedTable.mem_of_find (heq.trans (KeyedTable.find_of_mem hmem))
        · obtain ⟨hhistory, hnot⟩ := (mem_condemned hunpruned hcutoff).1 hq
          cases KeyedTable.eq_of_mem (List.mem_filter.1 (mem_historyWith.1 hhistory)).1 hmem hid
          exact (hnot (hkept hhistory)).elim

theorem Completes.remaining (h : Completes sched schedule env s)
    (htaken : sched.backupOf schedule env s.db = .ok taken) :
    r ∈ successRuns schedule.id ((sched.dispatch schedule env).final s).runs.rows ↔
      r ∈ historyWith sched schedule env s taken ∧
        KeptBy schedule env (historyWith sched schedule env s taken) r := by
  rw [successRuns, List.mem_filter, h.rows htaken r, mem_historyWith, successRuns, List.mem_filter]
  constructor
  · rintro ⟨⟨hr, hkept⟩, hself⟩
    exact ⟨⟨hr, hself⟩, hkept ⟨hr, hself⟩⟩
  · rintro ⟨⟨hr, hself⟩, hkept⟩
    exact ⟨⟨hr, fun _ => hkept⟩, hself⟩

end BackupScheduler

/-! ## When the law holds -/

section

variable {schedule : BackupSchedule} {env : Circumstances} {history : List BackupRun}
variable {r : BackupRun}

theorem Retainable.retained_of_kept (h : Retainable schedule env history) (hr : r ∈ history)
    (hkept : KeptBy schedule env history r) : Retained schedule env history r := by
  rcases hkept with hunpruned | ⟨k, hk, hmem⟩ | ⟨days, hdays, hyoung⟩
  · rcases h.unpruned hunpruned with hneither | ⟨hdays, hall⟩
    · exact .inl hneither
    · exact .inr (.inr ⟨0, hdays, hall r hr⟩)
  · obtain ⟨hk, -⟩ := nonzero_eq_some.1 hk
    by_cases hneg : k < 0
    · exact .inr (.inr (h.negative k hk hneg r hmem))
    · rw [firstRuns, if_pos (by omega)] at hmem
      exact .inr (.inl ⟨k, hk, hmem⟩)
  · exact .inr (.inr ⟨days, (nonzero_eq_some.1 hdays).1, hyoung⟩)

/-- A positive number is read alike by the law and by the code. -/
theorem mem_take_toNat (h : r ∈ history.take k.toNat) : k ≠ 0 ∧ r ∈ firstRuns history k := by
  have hpos : 0 < k := by
    by_contra hle
    rw [Int.toNat_of_nonpos (by omega), List.take_zero] at h
    cases h
  rw [firstRuns, if_pos hpos.le]
  exact ⟨hpos.ne', h⟩

theorem Retainable.kept_of_retained (h : Retainable schedule env history) (hr : r ∈ history)
    (hretained : Retained schedule env history r) : KeptBy schedule env history r := by
  rcases hretained with ⟨hdays, hlast⟩ | ⟨k, hk, hmem⟩ | ⟨days, hdays, hyoung⟩
  · left
    rw [Unpruned, hdays, hlast]
    exact ⟨rfl, rfl⟩
  · obtain ⟨hne, hmem⟩ := mem_take_toNat hmem
    exact .inr (.inl ⟨k, nonzero_eq_some.2 ⟨hk, hne⟩, hmem⟩)
  · by_cases hzero : days = 0
    · cases hzero
      cases hlast : nonzero schedule.keep_last with
      | none => exact .inl ⟨by rw [hdays]; rfl, hlast⟩
      | some k => exact .inr (.inl ⟨k, hlast, h.zero hdays k hlast r hr hyoung⟩)
    · exact .inr (.inr ⟨days, nonzero_eq_some.2 ⟨hdays, hzero⟩, hyoung⟩)

theorem retainable_of_law {sched : BackupScheduler b Data} {s : BackupState b Data}
    (h : Completes sched schedule env s) (htaken : sched.backupOf schedule env s.db = .ok taken)
    (hlaw : RetentionLaw schedule env (historyWith sched schedule env s taken)
      ((sched.dispatch schedule env).final s)) :
    Retainable schedule env (historyWith sched schedule env s taken) := by
  have hexactly : ∀ {r}, r ∈ historyWith sched schedule env s taken →
      (KeptBy schedule env (historyWith sched schedule env s taken) r ↔
        Retained schedule env (historyWith sched schedule env s taken) r) := by
    intro r hr
    have hiff := (h.remaining htaken (r := r)).symm.trans (hlaw.exactly r)
    rwa [and_iff_right hr, and_iff_right hr] at hiff
  have hnewest : ∃ r ∈ historyWith sched schedule env s taken, r.id = env.run_id ∧
      Retained schedule env (historyWith sched schedule env s taken) r := by
    obtain ⟨r, hr, hid⟩ := hlaw.newest
    obtain ⟨hmem, hretained⟩ := (hlaw.exactly r).1 hr
    exact ⟨r, hmem, hid, hretained⟩
  refine ⟨hnewest, ?_, ?_, ?_⟩
  · intro hunpruned
    have hretained : ∀ {r}, r ∈ historyWith sched schedule env s taken →
        (schedule.retention_days = none ∧ schedule.keep_last = none) ∨
          (schedule.retention_days = some 0 ∧ Young env 0 r) := by
      intro r hr
      rcases (hexactly hr).1 (.inl hunpruned) with hneither | ⟨k, hk, hmem⟩ | ⟨days, hdays, hyoung⟩
      · exact .inl hneither
      · cases hunpruned.2.symm.trans (nonzero_eq_some.2 ⟨hk, (mem_take_toNat hmem).1⟩)
      · by_cases hzero : days = 0
        · cases hzero
          exact .inr ⟨hdays, hyoung⟩
        · cases hunpruned.1.symm.trans (nonzero_eq_some.2 ⟨hdays, hzero⟩)
    by_cases hneither : schedule.retention_days = none ∧ schedule.keep_last = none
    · exact .inl hneither
    · obtain ⟨r, hr, -⟩ := hnewest
      exact .inr ⟨((hretained hr).resolve_left hneither).1,
        fun r hr => ((hretained hr).resolve_left hneither).2⟩
  · intro hdays k hk r hr hyoung
    rcases (hexactly hr).2 (.inr (.inr ⟨0, hdays, hyoung⟩)) with hunpruned | ⟨k', hk', hmem⟩ | hold
    · cases hunpruned.2.symm.trans hk
    · cases hk'.symm.trans hk
      exact hmem
    · obtain ⟨days, hdays', -⟩ := hold
      rw [hdays] at hdays'
      cases hdays'
  · intro k hk hneg r hr
    have hmem : r ∈ historyWith sched schedule env s taken := by
      rw [firstRuns, if_neg (by omega)] at hr
      exact List.mem_of_mem_take hr
    have hkept : KeptBy schedule env (historyWith sched schedule env s taken) r :=
      .inr (.inl ⟨k, nonzero_eq_some.2 ⟨hk, by omega⟩, hr⟩)
    rcases (hexactly hmem).1 hkept with ⟨-, hlast⟩ | ⟨k', hk', htake⟩ | hyoung
    · cases hlast.symm.trans hk
    · cases hk'.symm.trans hk
      rw [Int.toNat_of_nonpos (by omega), List.take_zero] at htake
      cases htake
    · exact hyoung

theorem hourly_completes :
    Completes .plain hourly (.plain "run" tenUtc) (.withSchedule hourly) := by
  constructor
  all_goals decide +kernel

/-- The law for every dispatch that completes. -/
def RetentionHolds (sched : BackupScheduler b Data) : Prop :=
  ∀ schedule env s taken, Completes sched schedule env s →
    sched.backupOf schedule env s.db = .ok taken →
      RetentionLaw schedule env (historyWith sched schedule env s taken)
        ((sched.dispatch schedule env).final s)

def lastOnly : BackupSchedule :=
  { BackupSchedule.platform "lastOnly" (some "0 * * * *") with keep_last := some 1 }

end

end ScottyCore
