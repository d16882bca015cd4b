import Mathlib.Data.List.Dedup
import ScottyCore.Lib.Registry
import ScottyCore.Lib.Run
import ScottyCore.Sync.PushDelta

namespace ScottyCore
open Concurrency Python TransitionSystem
set_option autoImplicit true

/-! ## The tasks of `MeshSyncEngine` -/

def listEnabledPeers (sync_peers : KeyedTable SyncPeer SyncPeer.id) : List SyncPeer :=
  sync_peers.rows.filter SyncPeer.enabled

/-- The tasks of an engine and the events that wake them. -/
structure EngineTables where
  tasks : Registry String
  kick_events : KeyedTable (String × Bool) Prod.fst

namespace EngineTables

def createTask (t : EngineTables) (peer_id : String) : EngineTables :=
  ⟨t.tasks.spawn peer_id, t.kick_events.upsert (peer_id, false)⟩

/-- `_start_peer_task` -/
def startPeerTask (t : EngineTables) (peer_id : String) : EngineTables :=
  match t.tasks.find peer_id with
  | some task => if task.finished then t.createTask peer_id else t
  | none => t.createTask peer_id

/-- `_stop_peer_task` -/
def stopPeerTask (t : EngineTables) (peer_id : String) : EngineTables :=
  ⟨t.tasks.stop peer_id, t.kick_events.erase peer_id⟩

def kick (t : EngineTables) (peer_id : String) : EngineTables :=
  match t.kick_events.find peer_id with
  | some _ => { t with kick_events := t.kick_events.upsert (peer_id, true) }
  | none => t

theorem kick_tasks (t : EngineTables) (peer_id : String) : (t.kick peer_id).tasks = t.tasks := by
  rw [kick]
  cases t.kick_events.find peer_id <;> rfl

/-- The end of `start`, with the list that it read. -/
def startAll (t : EngineTables) (enabled : List String) : EngineTables :=
  enabled.foldl startPeerTask t

/-- The end of `on_peer_config_change`, with the set that it read. -/
def reconcile (t : EngineTables) (enabled : List String) : EngineTables :=
  let running := t.tasks.names.rows.map Prod.fst
  (running.filter (· ∉ enabled)).foldl stopPeerTask (t.startAll (enabled.filter (· ∉ running)))

end EngineTables

/-- Who reads the list of enabled peers. -/
inductive PeerReader where
  | start | reconcile
  deriving DecidableEq

/-- A call that waits for the database, or for the tasks that it asked to stop. -/
inductive EngineCall where
  | reading (reader : PeerReader)
  | read (reader : PeerReader) (enabled : List String)
  | stopping (gathered : List Nat)
  deriving DecidableEq

/-- What the last step completed. -/
inductive Completed where
  | nothing | reconciled | stopped

/-- The peers of the database, the engine, its calls under way, and what the last step completed,
which no step reads back. -/
structure EngineState where
  sync_peers : KeyedTable SyncPeer SyncPeer.id
  running : Bool
  tables : EngineTables
  calls : List EngineCall
  completed : Completed

abbrev EngineState.tasks (s : EngineState) : Registry String := s.tables.tasks

def EngineState.enabledIds (s : EngineState) : List String :=
  (listEnabledPeers s.sync_peers).map SyncPeer.id

/-- A task ends. -/
def EngineState.finish (s : EngineState) (i : Nat) : EngineState :=
  { s with tables := { s.tables with tasks := s.tasks.finish i } }

inductive EngineAction where
  | configure | call (reader : PeerReader) | read (reader : PeerReader) | abort
  | start (enabled : List String) | reconcile (enabled : List String)
  | stop | gathered (idxs : List Nat) | kick (peer_id : String) | ends (i : Nat) | dies (i : Nat)

/-- One step of the engine, of one of its tasks, or of the peers' configuration. -/
inductive EngineStep : EngineState → EngineAction → EngineState → Prop where
  | configure : EngineStep s .configure { s with sync_peers := sync_peers, completed := .nothing }
  | callStart : EngineStep s (.call .start)
      { s with running := true, calls := .reading .start :: s.calls, completed := .nothing }
  | callReconcile : EngineStep s (.call .reconcile)
      { s with calls := .reading .reconcile :: s.calls, completed := .nothing }
  | read : .reading reader ∈ s.calls →
      EngineStep s (.read reader)
        { s with
          calls := .read reader s.enabledIds :: s.calls.erase (.reading reader)
          completed := .nothing }
  -- the database fails, or the caller is cancelled
  | abort : EngineStep s .abort { s with calls := s.calls.erase call, completed := .nothing }
  | start : .read .start enabled ∈ s.calls →
      EngineStep s (.start enabled)
        { s with
          tables := s.tables.startAll enabled
          calls := s.calls.erase (.read .start enabled)
          completed := .nothing }
  | reconcile : .read .reconcile enabled ∈ s.calls →
      EngineStep s (.reconcile enabled)
        { s with
          tables := s.tables.reconcile enabled
          calls := s.calls.erase (.read .reconcile enabled)
          completed := .reconciled }
  | stopEmpty : s.tasks.names.rows = [] →
      EngineStep s .stop { s with running := false, completed := .stopped }
  | stop : s.tasks.names.rows ≠ [] →
      EngineStep s .stop
        { s with
          running := false
          tables := { s.tables with tasks := s.tasks.cancelAll }
          calls := .stopping (s.tasks.names.rows.map Prod.snd) :: s.calls
          completed := .nothing }
  | gathered : .stopping idxs ∈ s.calls →
      (∀ i ∈ idxs, ∀ t, s.tasks.objects[i]? = some t → t.finished = true) →
      EngineStep s (.gathered idxs)
        { s with
          tables := { s.tables with tasks := s.tasks.clear }
          calls := s.calls.erase (.stopping idxs)
          completed := .stopped }
  | kick : EngineStep s (.kick peer_id)
      { s with tables := s.tables.kick peer_id, completed := .nothing }
  -- a task that was asked to, or whose engine does not run, returns
  | ends : s.tasks.objects[i]? = some t → t.finished = false →
      t.cancelled = true ∨ s.running = false →
      EngineStep s (.ends i) (s.finish i)
  -- an exception leaves the loop: recording an error of the cycle fails
  | dies : s.tasks.objects[i]? = some t → t.finished = false →
      EngineStep s (.dies i) { s.finish i with completed := .nothing }

namespace EngineState

/-! ## What a reconciliation promises -/

/-- The database has the peer, enabled. -/
def Enabled (s : EngineState) (peer_id : String) : Prop :=
  ∃ p ∈ listEnabledPeers s.sync_peers, p.id = peer_id

/-- Each enabled peer has one task that has not ended, and no other peer has any. -/
def TasksMatch (s : EngineState) : Prop :=
  ∀ peer_id, (s.Enabled peer_id → ∃! i, s.tasks.Unfinished i peer_id) ∧
    (¬ s.Enabled peer_id → ∀ i, ¬ s.tasks.Unfinished i peer_id)

/-- After a reconciliation of a running engine the tasks match the peers, and after `stop` none
is left. -/
def Law (s : EngineState) : Prop :=
  match s.completed with
  | .nothing => True
  | .reconciled => s.running = true → s.TasksMatch
  | .stopped => ∀ i peer_id, ¬ s.tasks.Unfinished i peer_id

/-- The condition on a step: a reconciliation has read the enabled peers as they still are, and
no task that is registered for one of them has ended or was asked to; `stop` has gathered every
task that is registered. -/
def Guard (s : EngineState) : EngineAction → Prop
  | .reconcile enabled => s.running = true →
      (∀ peer_id, peer_id ∈ enabled ↔ s.Enabled peer_id) ∧
        ∀ peer_id i t, s.Enabled peer_id → (peer_id, i) ∈ s.tasks.names.rows →
          s.tasks.objects[i]? = some t → t.Active
  | .gathered idxs => ∀ peer_id i, (peer_id, i) ∈ s.tasks.names.rows → i ∈ idxs
  | _ => True

end EngineState

/-! ## Starting and stopping tasks -/

namespace EngineTables

variable {t : EngineTables}

theorem not_serves_of_find (h : ∀ task, t.tasks.find peer_id = some task → task.finished = true) :
    ¬ t.tasks.Serves peer_id := by
  intro ⟨i, task, hi, htask, hactive⟩
  have hfind : t.tasks.find peer_id = some task := by
    rw [Registry.find, KeyedTable.find_of_mem hi]
    exact htask
  have hfinished := h task hfind
  rw [hactive.2] at hfinished
  cases hfinished

/-- A peer's task is started unless a registered one has not ended. -/
theorem startPeerTask_cases (t : EngineTables) (peer_id : String) :
    (t.startPeerTask peer_id = t ∧ ∃ i, (peer_id, i) ∈ t.tasks.names.rows) ∨
      (t.startPeerTask peer_id = t.createTask peer_id ∧ ¬ t.tasks.Serves peer_id) := by
  rw [startPeerTask]
  cases htask : t.tasks.find peer_id with
  | none =>
    exact .inr ⟨rfl, not_serves_of_find fun task h => by rw [htask] at h; cases h⟩
  | some task =>
    by_cases hfinished : task.finished = true
    · refine .inr ⟨if_pos hfinished, not_serves_of_find fun task' h => ?_⟩
      rw [htask] at h
      cases h
      exact hfinished
    · refine .inl ⟨if_neg hfinished, ?_⟩
      obtain ⟨x, hx, _⟩ := Option.bind_eq_some_iff.1 htask
      have hrow := KeyedTable.mem_of_find hx
      rw [← KeyedTable.key_of_find hx]
      exact ⟨x.2, hrow⟩

/-- What starting a task for each of some peers does, when none of them is registered. -/
structure Started (t t' : EngineTables) (peers : List String) : Prop where
  registered : t.tasks.Registered → t'.tasks.Registered
  serves : ∀ peer_id, t.tasks.Serves peer_id → t'.tasks.Serves peer_id
  active : ∀ (i : Nat) (task : TaskObject String), t'.tasks.objects[i]? = some task → task.Active →
    t.tasks.objects[i]? = some task ∨ task.name ∈ peers

theorem started_startPeerTask (t : EngineTables) (peer_id : String) :
    Started t (t.startPeerTask peer_id) [peer_id] := by
  rcases startPeerTask_cases t peer_id with ⟨h, _⟩ | ⟨h, hk⟩
  · rw [h]
    exact ⟨id, fun _ => id, fun i task htask _ => .inl htask⟩
  · rw [h]
    refine ⟨fun hreg => hreg.spawn hk, fun _ => Registry.Serves.spawn, ?_⟩
    intro i task htask _
    rcases Registry.getElem?_spawn htask with hold | ⟨_, rfl⟩
    · exact .inl hold
    · exact .inr List.mem_cons_self

theorem started_startAll (t : EngineTables) (peers : List String) :
    Started t (t.startAll peers) peers := by
  induction peers generalizing t with
  | nil => exact ⟨id, fun _ => id, fun i task htask _ => .inl htask⟩
  | cons peer_id peers ih =>
    have hfirst := started_startPeerTask t peer_id
    have hrest := ih (t.startPeerTask peer_id)
    refine ⟨fun hreg => hrest.registered (hfirst.registered hreg),
      fun k hk => hrest.serves k (hfirst.serves k hk), ?_⟩
    intro i task htask hactive
    rcases hrest.active i task htask hactive with hmid | hname
    · rcases hfirst.active i task hmid hactive with hold | hname
      · exact .inl hold
      · exact .inr (List.mem_cons.2 (.inl (List.mem_singleton.1 hname)))
    · exact .inr (List.mem_cons_of_mem _ hname)

/-- The peer has no registered task, or an active one. -/
def Free (t : EngineTables) (peer_id : String) : Prop :=
  (∀ i, (peer_id, i) ∉ t.tasks.names.rows) ∨ t.tasks.Serves peer_id

theorem Free.startPeerTask (h : t.Free peer_id) : (t.startPeerTask first).Free peer_id := by
  rcases startPeerTask_cases t first with ⟨he, _⟩ | ⟨he, _⟩
  · rwa [he]
  · rw [he]
    rcases h with h | h
    · by_cases hname : peer_id = first
      · exact .inr (hname ▸ Registry.serves_spawn_self)
      · left
        intro i hi
        rcases KeyedTable.mem_upsert_iff.1 hi with hi | ⟨hi, _⟩
        · exact hname (congrArg Prod.fst hi)
        · exact h i hi
    · exact .inr h.spawn

theorem Free.serves (h : t.Free peer_id) : (t.startPeerTask peer_id).tasks.Serves peer_id := by
  rcases startPeerTask_cases t peer_id with ⟨he, i, hi⟩ | ⟨he, _⟩
  · rw [he]
    rcases h with h | h
    · exact (h i hi).elim
    · exact h
  · rw [he]
    exact Registry.serves_spawn_self

theorem serves_startAll {peers : List String} (hmem : peer_id ∈ peers) (hfree : t.Free peer_id) :
    (t.startAll peers).tasks.Serves peer_id := by
  induction peers generalizing t with
  | nil => cases hmem
  | cons first peers ih =>
    rcases List.mem_cons.1 hmem with rfl | hmem
    · exact (started_startAll _ peers).serves _ hfree.serves
    · exact ih hmem hfree.startPeerTask

/-- What stopping the tasks of some peers does. -/
structure Stopped (t t' : EngineTables) (peers : List String) : Prop where
  registered : t'.tasks.Registered
  serves : ∀ peer_id, t.tasks.Serves peer_id → peer_id ∉ peers → t'.tasks.Serves peer_id
  active : ∀ (i : Nat) (task : TaskObject String), t'.tasks.objects[i]? = some task → task.Active →
    t.tasks.objects[i]? = some task ∧ task.name ∉ peers

theorem stopped_stopAll (h : t.tasks.Registered) (peers : List String) :
    Stopped t (peers.foldl stopPeerTask t) peers := by
  induction peers generalizing t with
  | nil => exact ⟨h, fun _ hk _ => hk, fun i task htask _ => ⟨htask, List.not_mem_nil⟩⟩
  | cons first peers ih =>
    obtain ⟨hreg, hserves, hactive⟩ := ih (t := t.stopPeerTask first) h.stop
    refine ⟨hreg, ?_, ?_⟩
    · intro peer_id hk hmem
      rw [List.mem_cons, not_or] at hmem
      exact hserves peer_id (hk.stop hmem.1) hmem.2
    · intro i task htask ha
      obtain ⟨hmid, hrest⟩ := hactive i task htask ha
      obtain ⟨hold, hfirst⟩ := Registry.active_stop h hmid ha
      refine ⟨hold, ?_⟩
      rw [List.mem_cons, not_or]
      exact ⟨hfirst, hrest⟩

/-- After a reconciliation every peer of the list has an active task, if its registered ones are
active, and no other peer has. -/
theorem reconcile_tasks (h : t.tasks.Registered) (enabled : List String) :
    (t.reconcile enabled).tasks.Registered ∧
      (∀ peer_id ∈ enabled, t.Free peer_id → (t.reconcile enabled).tasks.Serves peer_id) ∧
      ∀ (i : Nat) (task : TaskObject String), (t.reconcile enabled).tasks.objects[i]? = some task →
        task.Active → task.name ∈ enabled := by
  let running := t.tasks.names.rows.map Prod.fst
  let started := t.startAll (enabled.filter (· ∉ running))
  have hstarted : Started t started (enabled.filter (· ∉ running)) := started_startAll t _
  obtain ⟨hreg, hserves, hactive⟩ := stopped_stopAll (hstarted.registered h)
    (running.filter (· ∉ enabled))
  refine ⟨hreg, ?_, ?_⟩
  · intro peer_id hmem hfree
    have hkept : peer_id ∉ running.filter (· ∉ enabled) := by
      intro hstop
      exact of_decide_eq_true (List.mem_filter.1 hstop).2 hmem
    apply hserves peer_id _ hkept
    by_cases hrunning : peer_id ∈ running
    · rcases hfree with hnone | hk
      · obtain ⟨⟨_, i⟩, hi, rfl⟩ := List.mem_map.1 hrunning
        exact (hnone i hi).elim
      · exact hstarted.serves peer_id hk
    · exact serves_startAll (List.mem_filter.2 ⟨hmem, decide_eq_true hrunning⟩) hfree
  · intro i task htask ha
    obtain ⟨hmid, hkept⟩ := hactive i task htask ha
    rcases hstarted.active i task hmid ha with hold | hname
    · by_contra hout
      have hrunning : task.name ∈ running := List.mem_map.2 ⟨_, h i task hold ha, rfl⟩
      exact hkept (List.mem_filter.2 ⟨hrunning, decide_eq_true hout⟩)
    · exact (List.mem_filter.1 hname).1

end EngineTables

/-! ## The law over all runs -/

/-- Every active task is registered; after a reconciliation exactly the enabled peers have one,
and after `stop` there is none. -/
structure PeerTasksOk (s : EngineState) : Prop where
  registered : s.tasks.Registered
  reconciled : s.completed = .reconciled → s.running = true →
    (∀ peer_id, s.Enabled peer_id → s.tasks.Serves peer_id) ∧
      ∀ (i : Nat) (task : TaskObject String), s.tasks.objects[i]? = some task → task.Active →
        s.Enabled task.name
  stopped : s.completed = .stopped →
    ∀ (i : Nat) (task : TaskObject String), s.tasks.objects[i]? = some task → ¬ task.Active

theorem PeerTasksOk.of_registered {s : EngineState} (h : s.tasks.Registered)
    (hnothing : s.completed = .nothing) : PeerTasksOk s := by
  refine ⟨h, ?_, ?_⟩
  · intro hc
    cases hnothing.symm.trans hc
  · intro hc
    cases hnothing.symm.trans hc

theorem PeerTasksOk.of_stopped {s : EngineState} (h : s.tasks.Registered)
    (hstopped : s.completed = .stopped)
    (hnone : ∀ (i : Nat) (task : TaskObject String), s.tasks.objects[i]? = some task →
      ¬ task.Active) : PeerTasksOk s := by
  refine ⟨h, ?_, fun _ => hnone⟩
  intro hc
  cases hstopped.symm.trans hc

theorem peerTasksOk_reconcile {s : EngineState} (h : PeerTasksOk s)
    (hguard : s.Guard (.reconcile enabled)) :
    PeerTasksOk { s with
      tables := s.tables.reconcile enabled
      calls := calls
      completed := .reconciled } := by
  obtain ⟨hreg, hserves, hactive⟩ := EngineTables.reconcile_tasks h.registered enabled
  refine ⟨hreg, ?_, fun he => by cases he⟩
  intro _ hrunning
  obtain ⟨hfresh, hregistered⟩ := hguard hrunning
  refine ⟨?_, fun i task htask ha => (hfresh task.name).1 (hactive i task htask ha)⟩
  intro peer_id henabled
  apply hserves peer_id ((hfresh peer_id).2 henabled)
  by_cases hrow : ∃ i, (peer_id, i) ∈ s.tasks.names.rows
  · obtain ⟨i, hi⟩ := hrow
    obtain ⟨task, htask, _⟩ := s.tasks.named peer_id i hi
    exact .inr ⟨i, task, hi, htask, hregistered peer_id i task henabled hi htask⟩
  · exact .inl fun i hi => hrow ⟨i, hi⟩

theorem peerTasksOk_gathered {s : EngineState} (h : PeerTasksOk s)
    (hguard : s.Guard (.gathered idxs))
    (hended : ∀ i ∈ idxs, ∀ t, s.tasks.objects[i]? = some t → t.finished = true) :
    PeerTasksOk { s with
      tables := { s.tables with tasks := s.tasks.clear }
      calls := calls
      completed := .stopped } := by
  have hnone : ∀ (i : Nat) (task : TaskObject String), s.tasks.objects[i]? = some task →
      ¬ task.Active := by
    intro i task htask
    exact h.registered.not_active (fun k j t hrow ht => hended j (hguard k j hrow) t ht) htask
  exact .of_stopped (fun i task htask ha => (hnone i task htask ha).elim) rfl hnone

/-- The end of a task that was asked to stop, or of one of an engine that does not run. -/
theorem peerTasksOk_ends {s : EngineState} (h : PeerTasksOk s) (ht : s.tasks.objects[i]? = some t)
    (hmay : t.cancelled = true ∨ s.running = false) : PeerTasksOk (s.finish i) := by
  have hback : ∀ (j : Nat) (task : TaskObject String), (s.finish i).tasks.objects[j]? = some task →
      task.Active → s.tasks.objects[j]? = some task := by
    intro j task htask ha
    exact (Registry.active_modify Registry.not_active_finished htask ha).1
  refine ⟨h.registered.finish, ?_,
    fun he j task htask ha => h.stopped he j task (hback j task htask ha) ha⟩
  intro he hrunning
  have hinactive : ¬ t.Active := by
    intro ha
    rcases hmay with hcancelled | hstopped
    · exact Bool.noConfusion (ha.1.symm.trans hcancelled)
    · exact Bool.noConfusion (hrunning.symm.trans hstopped)
  obtain ⟨hserves, hactive⟩ := h.reconciled he hrunning
  exact ⟨fun peer_id henabled => (hserves peer_id henabled).finish ht hinactive,
    fun j task htask ha => hactive j task (hback j task htask ha) ha⟩

theorem peerTasksOk_step {s s' : EngineState} (h : PeerTasksOk s)
    (hstep : Guarded EngineStep EngineState.Guard s a s') : PeerTasksOk s' := by
  obtain ⟨hstep, hguard⟩ := hstep
  cases hstep with
  | configure => exact .of_registered h.registered rfl
  | callStart => exact .of_registered h.registered rfl
  | callReconcile => exact .of_registered h.registered rfl
  | read => exact .of_registered h.registered rfl
  | abort => exact .of_registered h.registered rfl
  | start =>
    exact .of_registered ((EngineTables.started_startAll s.tables _).registered h.registered) rfl
  | reconcile => exact peerTasksOk_reconcile h hguard
  | stopEmpty hnames =>
    refine .of_stopped h.registered rfl fun i task htask => h.registered.not_active ?_ htask
    intro k j t hrow
    rw [hnames] at hrow
    cases hrow
  | stop => exact .of_registered h.registered.cancelAll rfl
  | gathered hcall hended => exact peerTasksOk_gathered h hguard hended
  | @kick _ peer_id =>
    apply PeerTasksOk.of_registered _ rfl
    rw [EngineState.tasks, EngineTables.kick_tasks]
    exact h.registered
  | ends ht hunfinished hmay => exact peerTasksOk_ends h ht hmay
  | dies => exact .of_registered h.registered.finish rfl

theorem PeerTasksOk.tasksMatch {s : EngineState} (h : PeerTasksOk s)
    (hdone : s.completed = .reconciled)
    (hrunning : s.running = true) (hdrained : s.tasks.Drained) : s.TasksMatch := by
  obtain ⟨hserves, hactive⟩ := h.reconciled hdone hrunning
  intro peer_id
  constructor
  · intro henabled
    obtain ⟨i, task, hi, htask, ha⟩ := hserves peer_id henabled
    obtain ⟨task', htask', hname⟩ := s.tasks.named peer_id i hi
    obtain rfl : task' = task := Option.some.inj (htask'.symm.trans htask)
    refine ⟨i, ⟨task', htask, hname, ha.2⟩, ?_⟩
    rintro j ⟨other, hother, hname', hf⟩
    exact h.registered.unique htask ha hother (hdrained.active hother hf) (hname'.trans hname.symm)
  · rintro hdisabled i ⟨task, htask, rfl, hf⟩
    exact hdisabled (hactive i task htask (hdrained.active htask hf))

theorem PeerTasksOk.drained {s : EngineState} (h : PeerTasksOk s)
    (hdone : s.completed = .reconciled)
    (hrunning : s.running = true) (hmatch : s.TasksMatch) : s.tasks.Drained := by
  obtain ⟨hserves, _⟩ := h.reconciled hdone hrunning
  intro task hmem hcancelled
  by_contra hf
  obtain ⟨i, hi⟩ := List.getElem?_of_mem hmem
  have hunfinished : s.tasks.Unfinished i task.name := ⟨task, hi, rfl, Bool.of_not_eq_true hf⟩
  by_cases henabled : s.Enabled task.name
  · obtain ⟨j, other, hj, hother, ha⟩ := hserves task.name henabled
    obtain ⟨other', hother', hname⟩ := s.tasks.named task.name j hj
    obtain rfl : other' = other := Option.some.inj (hother'.symm.trans hother)
    obtain rfl : j = i := ((hmatch task.name).1 henabled).unique ⟨other', hother, hname, ha.2⟩
      hunfinished
    obtain rfl : other' = task := Option.some.inj (hother.symm.trans hi)
    exact Bool.noConfusion (ha.1.symm.trans hcancelled)
  · exact (hmatch task.name).2 henabled i hunfinished

/-- After a completed reconciliation or `stop`, the law holds once what was asked to stop has
ended, and not before. -/
theorem PeerTasksOk.law_iff {s : EngineState} (h : PeerTasksOk s) (hdone : s.completed ≠ .nothing)
    (hrunning : s.completed = .reconciled → s.running = true) : s.Law ↔ s.tasks.Drained := by
  rw [EngineState.Law]
  match hc : s.completed with
  | .nothing => exact (hdone hc).elim
  | .reconciled =>
    have hr := hrunning hc
    exact ⟨fun hmatch => h.drained hc hr (hmatch hr), fun hdrained _ => h.tasksMatch hc hr hdrained⟩
  | .stopped =>
    constructor
    · intro hnone task hmem _
      obtain ⟨i, hi⟩ := List.getElem?_of_mem hmem
      by_contra hf
      exact hnone i task.name ⟨task, hi, rfl, Bool.of_not_eq_true hf⟩
    · rintro hdrained i peer_id ⟨task, htask, _, hf⟩
      exact h.stopped hc i task htask (hdrained.active htask hf)

/-- An engine before its start. -/
structure EngineState.Fresh (s : EngineState) : Prop where
  tasks : s.tasks = .empty
  completed : s.completed = .nothing

/-- In every run whose reconciliations read the peers as they are and find no task of theirs
ended, and in which no task is started while `stop` waits, the tasks are those of the enabled
peers after each reconciliation and none after `stop`, exactly when those asked to stop have
ended. -/
theorem tasks_match_iff {s₀ s : EngineState} (h₀ : s₀.Fresh)
    (hrun : Run (Guarded EngineStep EngineState.Guard) s₀ as s) (hdone : s.completed ≠ .nothing)
    (hrunning : s.completed = .reconciled → s.running = true) : s.Law ↔ s.tasks.Drained := by
  have hok : PeerTasksOk s := by
    refine hrun.invariant (I := PeerTasksOk) (.of_registered ?_ h₀.completed) peerTasksOk_step
    rw [h₀.tasks]
    intro i t ht
    cases ht
  exact hok.law_iff hdone hrunning

/-! ## A dead task -/

section

variable {G : EngineState → EngineAction → Prop}

/-- A call of `start` with nothing in between. -/
def EngineState.started (s : EngineState) : EngineState :=
  { s with running := true, tables := s.tables.startAll s.enabledIds, completed := .nothing }

/-- A call of `on_peer_config_change` with nothing in between. -/
def EngineState.reconciled (s : EngineState) : EngineState :=
  { s with tables := s.tables.reconcile s.enabledIds, completed := .reconciled }

theorem start_run (s : EngineState)
    (hG : ∀ s, G s (.call .start) ∧ G s (.read .start) ∧ ∀ enabled, G s (.start enabled)) :
    Run (Guarded EngineStep G) s [.call .start, .read .start, .start s.enabledIds] s.started := by
  let called : EngineState :=
    { s with running := true, calls := .reading .start :: s.calls, completed := .nothing }
  let read : EngineState := { called with calls := .read .start s.enabledIds :: s.calls }
  have h₁ : EngineStep s (.call .start) called := .callStart
  have h₂ : EngineStep called (.read .start) read := by
    have h : EngineStep called (.read .start) _ := .read List.mem_cons_self
    rwa [List.erase_cons_head] at h
  have h₃ : EngineStep read (.start s.enabledIds) s.started := by
    have h : EngineStep read (.start s.enabledIds) _ := .start List.mem_cons_self
    rwa [List.erase_cons_head] at h
  exact .snoc (.snoc (.single ⟨h₁, (hG s).1⟩) ⟨h₂, (hG called).2.1⟩) ⟨h₃, (hG read).2.2 _⟩

theorem reconcile_run (s : EngineState)
    (hG : ∀ s, G s (.call .reconcile) ∧ G s (.read .reconcile))
    (hreconcile : G
      { s with calls := .read .reconcile s.enabledIds :: s.calls, completed := .nothing }
      (.reconcile s.enabledIds)) :
    Run (Guarded EngineStep G) s [.call .reconcile, .read .reconcile, .reconcile s.enabledIds]
      s.reconciled := by
  let called : EngineState :=
    { s with calls := .reading .reconcile :: s.calls, completed := .nothing }
  let read : EngineState := { called with calls := .read .reconcile s.enabledIds :: s.calls }
  have h₁ : EngineStep s (.call .reconcile) called := .callReconcile
  have h₂ : EngineStep called (.read .reconcile) read := by
    have h : EngineStep called (.read .reconcile) _ := .read List.mem_cons_self
    rwa [List.erase_cons_head] at h
  have h₃ : EngineStep read (.reconcile s.enabledIds) s.reconciled := by
    have h : EngineStep read (.reconcile s.enabledIds) _ := .reconcile List.mem_cons_self
    rwa [List.erase_cons_head] at h
  exact .snoc (.snoc (.single ⟨h₁, (hG s).1⟩) ⟨h₂, (hG called).2⟩) ⟨h₃, hreconcile⟩

end

def onePeer : KeyedTable SyncPeer SyncPeer.id :=
  (∅ : KeyedTable SyncPeer SyncPeer.id).upsert freshPeer

def idleEngine (sync_peers : KeyedTable SyncPeer SyncPeer.id) : EngineState :=
  ⟨sync_peers, false, ⟨.empty, ∅⟩, [], .nothing⟩

/-- A peer is created while the engine runs. -/
theorem tasks_match_created : ∃ as s,
    Run (Guarded EngineStep EngineState.Guard) (idleEngine ∅) as s ∧
      s.Enabled "peer" ∧ s.completed = .reconciled ∧ (s.Law ↔ s.tasks.Drained) := by
  let created : EngineState := { (idleEngine ∅).started with sync_peers := onePeer }
  have hstart : Run (Guarded EngineStep EngineState.Guard) (idleEngine ∅) _
      (idleEngine ∅).started := start_run _ fun _ => ⟨trivial, trivial, fun _ => trivial⟩
  have hcreate : Run (Guarded EngineStep EngineState.Guard) (idleEngine ∅).started [.configure]
      created := .single ⟨.configure, trivial⟩
  have hguard : EngineState.Guard
      { created with
        calls := .read .reconcile created.enabledIds :: created.calls
        completed := .nothing }
      (.reconcile created.enabledIds) :=
    fun _ => ⟨fun _ => List.mem_map, fun peer_id i t _ h => by cases h⟩
  have hreconcile : Run (Guarded EngineStep EngineState.Guard) created _ created.reconciled :=
    reconcile_run created (fun _ => ⟨trivial, trivial⟩) hguard
  have hrun := (hstart.append hcreate).append hreconcile
  exact ⟨_, _, hrun, ⟨freshPeer, List.mem_cons_self, rfl⟩, rfl,
    tasks_match_iff ⟨rfl, rfl⟩ hrun (fun h => by cases h) fun _ => rfl⟩

/-- In every run the tasks are those of the enabled peers after each reconciliation. -/
def TasksFollowPeers : Prop :=
  ∀ s₀ as s, EngineState.Fresh s₀ → Run EngineStep s₀ as s → s.Law

/-- A peer whose task died is not served again. -/
theorem dead_task_kept : ¬ TasksFollowPeers := by
  intro h
  let dead : EngineState := { (idleEngine onePeer).started.finish 0 with completed := .nothing }
  have hstart : Run EngineStep (idleEngine onePeer) _ (idleEngine onePeer).started :=
    (start_run (G := fun _ _ => True) _ fun _ => ⟨trivial, trivial, fun _ => trivial⟩).of_guarded
  have hdie : EngineStep (idleEngine onePeer).started (.dies 0) dead := .dies rfl rfl
  have hreconcile : Run EngineStep dead _ dead.reconciled :=
    (reconcile_run (G := fun _ _ => True) dead (fun _ => ⟨trivial, trivial⟩) trivial).of_guarded
  have hlaw := h _ _ _ ⟨rfl, rfl⟩ ((hstart.snoc hdie).append hreconcile) rfl "peer"
  have hobjects : dead.reconciled.tasks.objects = [⟨"peer", false, true⟩] := by decide
  obtain ⟨i, ⟨task, htask, _, hf⟩, _⟩ := hlaw.1 ⟨freshPeer, List.mem_cons_self, rfl⟩
  have hmem := List.mem_of_getElem? htask
  rw [hobjects, List.mem_singleton] at hmem
  subst hmem
  cases hf

end ScottyCore
