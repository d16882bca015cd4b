import ScottyCore.Tasks.Lifecycle
import ScottyCore.Tasks.Views

namespace ScottyCore.BackgroundTasks
open Broadcast TransitionSystem
set_option autoImplicit true

variable {V : Type} {e e' : TaskEngine V} {c : TaskCall V} {v v' : TaskView V} {task_id : String}

/-- Whoever listens has been told of everything that was emitted. -/
def Settled (t : Topic (TaskEvent V)) : Prop := t.Heard → t.scheduled = []

def HasRoom (t : Topic (TaskEvent V)) : Prop :=
  ∀ q ∈ t.queues, q.subscribed = true → q.items.length < TaskEngine.maxsize

/-- Nobody listens to a task that has finished. -/
def Unheard (v : TaskView V) : Prop := v.topic.Heard → v.runner ≠ .finished

/-- The condition on a step: a new identifier is new, a cancellation comes after the first step of
the runner, no scheduled event waits when another is put on the queues of subscribers at once, they
have room for the `done` event, and none of them hears of a task that has finished. -/
def DeliverySafe (e : TaskEngine V) : TaskCall V → Prop
  | .submit task_id _ _ _ _ => task_id ∉ e.ids
  | .cancel task_id => ∀ i b, e.tasks task_id = some i → (e.view task_id).runner ≠ .created b
  | .finish i _ _ => ∀ o : TaskObject V, e.objects[i]? = some o →
      Settled (e.topics o.task.id) ∧ HasRoom (e.topics o.task.id)
  | .emitOutput task_id _ => Unheard (e.view task_id)
  | .updateProgress task_id _ _ => Unheard (e.view task_id)
  | .askQuestion task_id _ => Unheard (e.view task_id) ∧ Settled (e.topics task_id)
  | _ => True

/-- What a subscriber of a task was given. -/
structure DeliveredTo (v : TaskView V) (q : Queue (TaskEvent V)) : Prop where
  order : q.seen.Sublist v.topic.emitted
  last : ClosesAt TaskEvent.isDone q.seen
  once : v.runner = .finished → q.subscribed = true → q.seen.countP TaskEvent.isDone = 1

/-! ## One task between two steps -/

structure DeliveryOk (v : TaskView V) : Prop where
  order : InOrder v.topic
  closing : Closing TaskEvent.isDone v.topic
  quiet : v.runner ≠ .finished → ∀ event ∈ v.topic.emitted, event.isDone = false
  entered : v.runner ≠ .created true

/-- The condition on a step, for the task that it changes. -/
def ViewSafe (v : TaskView V) : TaskCall V → Prop
  | .cancel _ => ∀ b, v.runner ≠ .created b
  | .finish _ _ _ => Settled v.topic ∧ HasRoom v.topic
  | .emitOutput _ _ => Unheard v
  | .updateProgress _ _ _ => Unheard v
  | .askQuestion _ _ => Unheard v ∧ Settled v.topic
  | _ => True

theorem DeliverySafe.draws_new (h : DeliverySafe e c) : e.DrawsNew c := by
  rintro task_id name task_type metadata now rfl
  exact h

/-- A step that changes a task meets the condition for that task. -/
theorem DeliverySafe.view (h : DeliverySafe e c) (hnamed : e.Named)
    (hstep : ViewStep task_id (e.tasks task_id) (e.view task_id) c v') :
    v' = e.view task_id ∨ ViewSafe (e.view task_id) c := by
  have htopic := e.topic_view task_id
  generalize hslot : e.tasks task_id = slot at hstep
  generalize hv : e.view task_id = v at hstep htopic
  cases hstep with
  | same => exact .inl rfl
  | start => exact .inr trivial
  | drop => exact .inr trivial
  | cancel =>
    right
    intro b
    exact hv ▸ h _ b hslot
  | finish =>
    right
    have hid := (hnamed task_id _).1 hslot
    rw [TaskEngine.ids, List.getElem?_map, Option.map_eq_some_iff] at hid
    obtain ⟨o, ho, rfl⟩ := hid
    obtain ⟨hsettled, hroom⟩ := h o ho
    exact ⟨htopic ▸ hsettled, htopic ▸ hroom⟩
  | emitOutput =>
    right
    exact hv ▸ h
  | updateProgress =>
    right
    exact hv ▸ h
  | askQuestion =>
    right
    exact ⟨hv ▸ h.1, htopic ▸ h.2⟩
  | notify => exact .inr trivial
  | subscribe => exact .inr trivial
  | take => exact .inr trivial
  | unsubscribe => exact .inr trivial

theorem DeliveryOk.step (h : DeliveryOk v) (hstep : ViewStep task_id slot v c v')
    (hsafe : ViewSafe v c) : DeliveryOk v' := by
  obtain ⟨horder, hclosing, hquiet, hentered⟩ := h
  cases hstep with
  | same => exact ⟨horder, hclosing, hquiet, hentered⟩
  | start =>
    exact ⟨horder, hclosing, fun _ => hquiet (fun hc => by cases hc), fun hc => by cases hc⟩
  | drop => exact (hentered rfl).elim
  | cancel => exact (hsafe _ rfl).elim
  | finish =>
    have hopen := hquiet fun hc => by cases hc
    exact ⟨horder.emitNow _ hsafe.1, hclosing.emitNow horder _ (fun _ => hopen) hsafe.1,
      fun hc => (hc rfl).elim, fun hc => by cases hc⟩
  | emitOutput =>
    refine ⟨horder.emitLater _, hclosing.emitLater horder rfl ?_, ?_, hentered⟩
    · exact fun hheard => hquiet (hsafe hheard)
    · exact fun hrunner => quiet_concat (hquiet hrunner) rfl
  | updateProgress =>
    refine ⟨horder.emitLater _, hclosing.emitLater horder rfl ?_, ?_, hentered⟩
    · exact fun hheard => hquiet (hsafe hheard)
    · exact fun hrunner => quiet_concat (hquiet hrunner) rfl
  | askQuestion =>
    refine ⟨horder.emitNow _ hsafe.2, hclosing.emitNow horder _ ?_ hsafe.2, ?_, hentered⟩
    · exact fun hheard => hquiet (hsafe.1 hheard)
    · exact fun hrunner => quiet_concat (hquiet hrunner) rfl
  | notify =>
    refine ⟨horder.deliver, hclosing.deliver, ?_, hentered⟩
    rw [emitted_deliver]
    exact hquiet
  | subscribe => exact ⟨horder.subscribe, hclosing.subscribe, hquiet, hentered⟩
  | take => exact ⟨horder.take _, hclosing.take _, hquiet, hentered⟩
  | unsubscribe => exact ⟨horder.unsubscribe _, hclosing.unsubscribe _, hquiet, hentered⟩

/-! ## One subscriber -/

theorem follows_step (h : ViewStep task_id slot v c v') : Follows v.topic v'.topic := by
  cases h with
  | same => exact .of_queues rfl
  | start => exact .of_queues rfl
  | drop => exact .of_queues rfl
  | cancel => exact .of_queues rfl
  | finish => exact follows_notify _ _
  | emitOutput => exact .of_queues rfl
  | updateProgress => exact .of_queues rfl
  | askQuestion => exact follows_notify _ _
  | notify => exact follows_deliver _
  | subscribe => exact follows_subscribe _
  | take => exact follows_take _ _
  | unsubscribe => exact follows_unsubscribe _ _

/-- A subscriber from before the end was told of it. -/
def Told (k : Nat) (v : TaskView V) : Prop :=
  ∃ q : Queue (TaskEvent V), v.topic.queues[k]? = some q ∧
    (v.runner = .finished → q.subscribed = true → ∃ a ∈ q.seen, TaskEvent.isDone a = true)

theorem Told.step (h : Told k v) (hstep : ViewStep task_id slot v c v') (hsafe : ViewSafe v c)
    (hok : DeliveryOk v) : Told k v' := by
  obtain ⟨q, hq, htold⟩ := h
  obtain ⟨q', hq', hseen, hsub⟩ := follows_step hstep k q hq
  by_cases hrunner : v.runner = .finished
  · refine ⟨q', hq', fun _ hsub' => ?_⟩
    obtain ⟨a, ha, hdone⟩ := htold hrunner (hsub hsub')
    exact ⟨a, hseen.subset ha, hdone⟩
  · refine ⟨q', hq', fun hfinished hsub' => ?_⟩
    cases hstep with
    | same => exact (hrunner hfinished).elim
    | start => cases hfinished
    | drop => exact (hok.entered rfl).elim
    | cancel => cases hfinished
    | finish =>
      have hroom := hsafe.2 q (List.mem_of_getElem? hq) (hsub hsub')
      rw [Topic.emitNow, Topic.notify, List.getElem?_map, hq] at hq'
      cases hq'
      rw [seen_push_of_room _ (hsub hsub') hroom]
      exact ⟨_, List.mem_concat_self, rfl⟩
    | emitOutput => exact (hrunner hfinished).elim
    | updateProgress => exact (hrunner hfinished).elim
    | askQuestion => exact (hrunner hfinished).elim
    | notify => exact (hrunner hfinished).elim
    | subscribe => exact (hrunner hfinished).elim
    | take => exact (hrunner hfinished).elim
    | unsubscribe => exact (hrunner hfinished).elim

theorem Told.delivered (h : Told k v) (hok : DeliveryOk v) :
    ∃ q : Queue (TaskEvent V), v.topic.queues[k]? = some q ∧ DeliveredTo v q := by
  obtain ⟨q, hq, htold⟩ := h
  have hlast := hok.closing.last q (List.mem_of_getElem? hq)
  refine ⟨q, hq, hok.order.seen q (List.mem_of_getElem? hq), hlast, ?_⟩
  exact fun hfinished hsub => hlast.countP (htold hfinished hsub)

/-! ## Runs -/

/-- What holds of an engine between two steps, for every identifier. -/
structure EngineDelivers (e : TaskEngine V) : Prop where
  named : e.Named
  views : ∀ task_id, DeliveryOk (e.view task_id)

theorem engineDelivers_new : EngineDelivers ({} : TaskEngine V) := by
  constructor
  · intro task_id i
    exact iff_of_false (fun hi => by cases hi) (fun hi => by cases hi)
  · intro task_id
    refine ⟨.empty, .empty, ?_, ?_⟩
    · intro _ event hevent
      cases hevent
    · intro hc
      cases hc

theorem EngineDelivers.step (h : EngineDelivers e)
    (hstep : Guarded TaskEngine.Step DeliverySafe e c e') : EngineDelivers e' := by
  obtain ⟨hstep, hsafe⟩ := hstep
  refine ⟨h.named.step hstep hsafe.draws_new, ?_⟩
  intro task_id
  have hview := TaskEngine.step_view h.named hstep hsafe.draws_new task_id
  rcases hsafe.view h.named hview with hsame | hview_safe
  · rw [hsame]
    exact h.views task_id
  · exact (h.views task_id).step hview hview_safe

theorem told_run (h : Run (Guarded TaskEngine.Step DeliverySafe) e cs e') (hok : EngineDelivers e)
    (htold : Told k (e.view task_id)) : EngineDelivers e' ∧ Told k (e'.view task_id) := by
  induction h with
  | nil => exact ⟨hok, htold⟩
  | snoc hrun hstep ih =>
    obtain ⟨hok', htold'⟩ := ih
    refine ⟨hok'.step hstep, ?_⟩
    have hview := TaskEngine.step_view hok'.named hstep.1 hstep.2.draws_new task_id
    rcases hstep.2.view hok'.named hview with hsame | hview_safe
    · rw [hsame]
      exact htold'
    · exact htold'.step hview hview_safe (hok'.views task_id)

/-- A subscriber that is there before the task has finished. -/
theorem subscriber_delivered {k : Nat}
    (h : Run (Guarded TaskEngine.Step DeliverySafe) ({} : TaskEngine V) cs e)
    (h' : Run (Guarded TaskEngine.Step DeliverySafe) e cs' e')
    (hrunner : (e.view task_id).runner ≠ .finished)
    (hq : (e.view task_id).topic.queues[k]? = some q) :
    ∃ q' : Queue (TaskEvent V), (e'.view task_id).topic.queues[k]? = some q' ∧
      DeliveredTo (e'.view task_id) q' := by
  have hok := h.invariant engineDelivers_new fun hok hstep => hok.step hstep
  have htold : Told k (e.view task_id) := ⟨q, hq, fun hfinished => (hrunner hfinished).elim⟩
  obtain ⟨hok', htold'⟩ := told_run h' hok htold
  exact htold'.delivered (hok'.views task_id)

/-! ## A task that returns right after a line of output -/

def reportStarted : List (TaskCall Unit) :=
  [submitReport] ++ [.start 0 "2024-01-01T00:00:01"] ++ [.subscribe "1f3a9c2e"]

/-- The engine with a report that runs and has a subscriber. -/
def reportRunning : TaskEngine Unit where
  objects := [{
    task := { id := "1f3a9c2e", name := "Report", task_type := "generic", status := .running,
              created_at := "2024-01-01T00:00:00", started_at := some "2024-01-01T00:00:01",
              metadata := [] }
    runner := .running }]
  tasks := Function.update (fun _ => none) "1f3a9c2e" (some 0)
  topics := Function.update (fun _ => {}) "1f3a9c2e" { queues := [{}] }

def reportEnded : List (TaskCall Unit) :=
  [.emitOutput "1f3a9c2e" "12 rows"] ++ [.finish 0 (.returned none) "2024-01-01T00:00:02"] ++
    [.notify "1f3a9c2e"]

theorem output_after_done : ∃ (e : TaskEngine Unit) (q : Queue (TaskEvent Unit)),
    Run TaskEngine.Step {} reportStarted reportRunning ∧
      (reportRunning.view "1f3a9c2e").runner ≠ .finished ∧
      reportRunning.topics "1f3a9c2e" = { queues := [{}] } ∧
      Run TaskEngine.Step reportRunning reportEnded e ∧
      (e.view "1f3a9c2e").topic.queues = [q] ∧ ¬ DeliveredTo (e.view "1f3a9c2e") q := by
  refine ⟨_, _, .snoc (.snoc (.single rfl) rfl) rfl, fun hc => ?_, rfl,
    .snoc (.snoc (.single rfl) rfl) rfl, rfl, ?_⟩
  · cases hc
  · intro h
    have hnil := h.last [] _ [.output "12 rows"] rfl rfl
    cases hnil

def reportSettled : List (TaskCall Unit) :=
  [.emitOutput "1f3a9c2e" "12 rows"] ++ [.notify "1f3a9c2e"] ++
    [.finish 0 (.returned none) "2024-01-01T00:00:02"]

/-- The same task, where the line is put on the queue before the end. -/
theorem settled_report_delivered : ∃ (e : TaskEngine Unit) (q : Queue (TaskEvent Unit)),
    (e.view "1f3a9c2e").runner = .finished ∧ (e.view "1f3a9c2e").topic.queues[0]? = some q ∧
      q.seen ≠ [] ∧ DeliveredTo (e.view "1f3a9c2e") q := by
  have hsubmitted : Run (Guarded TaskEngine.Step DeliverySafe) ({} : TaskEngine Unit)
      [submitReport] _ :=
    .single ⟨rfl, fun hmem => by cases hmem⟩
  have hstarted : Run (Guarded TaskEngine.Step DeliverySafe) {} reportStarted reportRunning :=
    .snoc (.snoc hsubmitted ⟨rfl, trivial⟩) ⟨rfl, trivial⟩
  have hwritten : Run (Guarded TaskEngine.Step DeliverySafe) reportRunning
      ([.emitOutput "1f3a9c2e" "12 rows"] ++ [.notify "1f3a9c2e"]) _ :=
    .snoc (.single ⟨rfl, fun _ hc => by cases hc⟩) ⟨rfl, trivial⟩
  have hended : Run (Guarded TaskEngine.Step DeliverySafe) reportRunning reportSettled _ :=
    .snoc hwritten ⟨rfl, by
      rintro _ ⟨⟩
      refine ⟨fun _ => rfl, ?_⟩
      intro q hq _
      rw [List.mem_singleton.1 hq]
      decide⟩
  have hrunner : (reportRunning.view "1f3a9c2e").runner ≠ .finished := fun hc => by cases hc
  have hqueue : (reportRunning.view "1f3a9c2e").topic.queues = [{}] := rfl
  obtain ⟨q, hq, hdelivered⟩ :=
    subscriber_delivered hstarted hended hrunner (congrArg (·[0]?) hqueue)
  refine ⟨_, q, rfl, hq, ?_, hdelivered⟩
  cases hq
  exact List.cons_ne_nil _ _

end ScottyCore.BackgroundTasks
