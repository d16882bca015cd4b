import ScottyCore.Lib.Run
import ScottyCore.Tasks.Engine

namespace ScottyCore.BackgroundTasks
open Broadcast TransitionSystem
set_option autoImplicit true

variable {V : Type} {e e' : TaskEngine V} {c : TaskCall V} {o : TaskObject V} {i : Nat}

def TaskEvent.isDone : TaskEvent V → Bool
  | done .. => true
  | _ => false

/-- How many `done` events were emitted under an identifier. -/
def doneCount (e : TaskEngine V) (task_id : String) : Nat :=
  (e.topics task_id).emitted.countP TaskEvent.isDone

/-- The status of a task tells whether its `asyncio.Task` has finished. -/
structure LifecycleOf (e : TaskEngine V) (o : TaskObject V) : Prop where
  terminal : o.task.status.IsTerminal ↔ o.runner = .finished
  completed : o.task.completed_at.isSome = true ↔ o.task.status.IsTerminal
  done : doneCount e o.task.id = if o.runner = .finished then 1 else 0

/-- The condition on a step: a new identifier is new, a cancellation comes after the first step of
the runner, and a body ends in a way that `_run` handles, with no question open or asked later. -/
structure LifecycleSafe (e : TaskEngine V) (c : TaskCall V) : Prop where
  fresh : ∀ task_id name task_type metadata now,
    c = .submit task_id name task_type metadata now → ∀ o ∈ e.objects, o.task.id ≠ task_id
  started : ∀ task_id i o, c = .cancel task_id → e.find task_id = some (i, o) →
    ∀ b, o.runner ≠ .created b
  ended : ∀ i how now, c = .finish i how now → how ≠ .broken
  answered : ∀ i how now, c = .finish i how now →
    ∀ a ∈ e.asks, a.task = i → a.pending = false
  asked : ∀ task_id question i o, c = .askQuestion task_id question →
    e.find task_id = some (i, o) → o.runner ≠ .finished

/-! ## The engine between two steps -/

structure EngineOk (e : TaskEngine V) : Prop where
  table : ∀ task_id i, e.tasks task_id = some i →
    ∃ o : TaskObject V, e.objects[i]? = some o ∧ o.task.id = task_id
  distinct : ∀ (i j : Nat) (o o' : TaskObject V), e.objects[i]? = some o → e.objects[j]? = some o' →
    o.task.id = o'.task.id → i = j
  asks : ∀ a ∈ e.asks, a.pending = true →
    ∃ o : TaskObject V, e.objects[a.task]? = some o ∧ o.runner ≠ .finished
  unheard : ∀ task_id, (∀ o ∈ e.objects, o.task.id ≠ task_id) → doneCount e task_id = 0
  entered : ∀ o ∈ e.objects, o.runner ≠ .created true
  life : ∀ o ∈ e.objects, LifecycleOf e o

/-- What a step keeps of the engine and of the tasks that have ended. -/
structure StepKeeps (e e' : TaskEngine V) : Prop where
  ok : EngineOk e'
  status : ∀ (i : Nat) (o : TaskObject V), e.objects[i]? = some o → o.task.status.IsTerminal →
    ∃ o' : TaskObject V, e'.objects[i]? = some o' ∧ o'.task.status = o.task.status

theorem LifecycleOf.of_count (h : LifecycleOf e o)
    (hcount : doneCount e' o.task.id = doneCount e o.task.id) : LifecycleOf e' o :=
  ⟨h.terminal, h.completed, hcount.trans h.done⟩

theorem EngineOk.find (h : EngineOk e) (hfind : e.find task_id = some (i, o)) :
    e.objects[i]? = some o ∧ o.task.id = task_id := by
  obtain ⟨j, hj, hmap⟩ := Option.bind_eq_some_iff.1 hfind
  obtain ⟨o', ho', hpair⟩ := Option.map_eq_some_iff.1 hmap
  obtain ⟨rfl, rfl⟩ := Prod.mk.inj hpair
  obtain ⟨o, ho, hid⟩ := h.table task_id j hj
  rw [ho'] at ho
  cases ho
  exact ⟨ho', hid⟩

/-- Nothing changes but the events that are not `done`. -/
theorem EngineOk.keep (h : EngineOk e) (hobjects : e'.objects = e.objects)
    (htasks : e'.tasks = e.tasks)
    (hasks : ∀ a ∈ e'.asks, a.pending = true → ∃ a' ∈ e.asks, a'.pending = true ∧ a'.task = a.task)
    (hcount : ∀ task_id, doneCount e' task_id = doneCount e task_id) : StepKeeps e e' := by
  refine ⟨⟨?_, ?_, ?_, ?_, ?_, ?_⟩, ?_⟩
  · rw [htasks, hobjects]
    exact h.table
  · rw [hobjects]
    exact h.distinct
  · intro a ha hpending
    obtain ⟨a', ha', hpending', htask⟩ := hasks a ha hpending
    rw [hobjects, ← htask]
    exact h.asks a' ha' hpending'
  · intro task_id hnone
    rw [hobjects] at hnone
    rw [hcount]
    exact h.unheard task_id hnone
  · rw [hobjects]
    exact h.entered
  · intro o ho
    rw [hobjects] at ho
    exact (h.life o ho).of_count (hcount _)
  · intro i o ho _
    rw [hobjects]
    exact ⟨o, ho, rfl⟩

/-- One object changes, with the events of its identifier. -/
theorem EngineOk.modify (h : EngineOk e) (ho : e.objects[i]? = some o)
    {g : TaskObject V → TaskObject V} (hobjects : e'.objects = e.objects.modify i g)
    (htasks : e'.tasks = e.tasks) (hid : (g o).task.id = o.task.id)
    (hasks : ∀ a ∈ e'.asks, a.pending = true → (a.task = i → (g o).runner ≠ .finished) ∧
      (a.task ≠ i → ∃ o' : TaskObject V, e.objects[a.task]? = some o' ∧ o'.runner ≠ .finished))
    (hcount : ∀ task_id, task_id ≠ o.task.id → doneCount e' task_id = doneCount e task_id)
    (hentered : (g o).runner ≠ .created true) (hlife : LifecycleOf e' (g o))
    (hstatus : o.task.status.IsTerminal → (g o).task.status = o.task.status) :
    StepKeeps e e' := by
  have hself : e'.objects[i]? = some (g o) := by
    rw [hobjects, List.getElem?_modify_eq, ho]
    rfl
  have hother : ∀ j, j ≠ i → e'.objects[j]? = e.objects[j]? := by
    intro j hj
    rw [hobjects, List.getElem?_modify_ne _ _ (Ne.symm hj)]
  have hget : ∀ (j : Nat) (p : TaskObject V), e'.objects[j]? = some p →
      ∃ p' : TaskObject V, e.objects[j]? = some p' ∧ p.task.id = p'.task.id := by
    intro j p hp
    by_cases hj : j = i
    · rw [hj, hself] at hp
      cases hp
      exact ⟨o, hj ▸ ho, hid⟩
    · rw [hother j hj] at hp
      exact ⟨p, hp, rfl⟩
  refine ⟨⟨?_, ?_, ?_, ?_, ?_, ?_⟩, ?_⟩
  · intro task_id j hj
    rw [htasks] at hj
    obtain ⟨p, hp, hpid⟩ := h.table task_id j hj
    by_cases hji : j = i
    · rw [hji, ho] at hp
      cases hp
      exact ⟨g o, hji ▸ hself, hid.trans hpid⟩
    · exact ⟨p, (hother j hji).trans hp, hpid⟩
  · intro j k p q hp hq hsame
    obtain ⟨p', hp', hpid⟩ := hget j p hp
    obtain ⟨q', hq', hqid⟩ := hget k q hq
    exact h.distinct j k p' q' hp' hq' ((hpid.symm.trans hsame).trans hqid)
  · intro a ha hpending
    obtain ⟨hsame, hdiff⟩ := hasks a ha hpending
    by_cases hai : a.task = i
    · exact ⟨g o, hai ▸ hself, hsame hai⟩
    · obtain ⟨o', ho', hrunner⟩ := hdiff hai
      exact ⟨o', (hother _ hai).trans ho', hrunner⟩
  · intro task_id hnone
    have hne : ∀ p ∈ e.objects, p.task.id ≠ task_id := by
      intro p hp hpid
      obtain ⟨j, hj⟩ := List.mem_iff_getElem?.1 hp
      by_cases hji : j = i
      · rw [hji, ho] at hj
        cases hj
        exact hnone (g o) (List.mem_of_getElem? hself) (hid.trans hpid)
      · exact hnone p (List.mem_of_getElem? ((hother j hji).trans hj)) hpid
    rw [hcount task_id (hne o (List.mem_of_getElem? ho)).symm]
    exact h.unheard task_id hne
  · intro p hp
    obtain ⟨j, hj⟩ := List.mem_iff_getElem?.1 hp
    by_cases hji : j = i
    · rw [hji, hself] at hj
      cases hj
      exact hentered
    · rw [hother j hji] at hj
      exact h.entered p (List.mem_of_getElem? hj)
  · intro p hp
    obtain ⟨j, hj⟩ := List.mem_iff_getElem?.1 hp
    by_cases hji : j = i
    · rw [hji, hself] at hj
      cases hj
      exact hlife
    · rw [hother j hji] at hj
      apply (h.life p (List.mem_of_getElem? hj)).of_count
      apply hcount
      intro hsame
      exact hji (h.distinct j i p o hj ho hsame)
  · intro j p hp hterminal
    by_cases hji : j = i
    · rw [hji, ho] at hp
      cases hp
      exact ⟨g o, hji ▸ hself, hstatus hterminal⟩
    · exact ⟨p, (hother j hji).trans hp, rfl⟩

/-! ## The steps -/

theorem doneCount_setTopic (e : TaskEngine V) (task_id : String) (t : Topic (TaskEvent V))
    (other : String) : doneCount (e.setTopic task_id t) other =
      if other = task_id then t.emitted.countP TaskEvent.isDone else doneCount e other := by
  rw [doneCount, TaskEngine.topics_setTopic]
  split
  · rfl
  · rfl

/-- Where the events of a topic stay, or are followed by one that is not `done`. -/
theorem doneCount_quiet (e : TaskEngine V) (task_id other : String) {t : Topic (TaskEvent V)}
    (h : t.emitted.countP TaskEvent.isDone = doneCount e task_id) :
    doneCount (e.setTopic task_id t) other = doneCount e other := by
  rw [doneCount_setTopic]
  by_cases hsame : other = task_id
  · rw [if_pos hsame, h, hsame]
  · rw [if_neg hsame]

theorem countP_concat_quiet {events : List (TaskEvent V)} {event : TaskEvent V}
    (h : event.isDone = false) :
    (events ++ [event]).countP TaskEvent.isDone = events.countP TaskEvent.isDone := by
  rw [List.countP_append, List.countP_singleton, h]
  rfl

/-- An event that is not `done` leaves the events quiet. -/
theorem quiet_concat {events : List (TaskEvent V)} {event : TaskEvent V}
    (h : ∀ a ∈ events, a.isDone = false) (hevent : event.isDone = false) :
    ∀ a ∈ events ++ [event], a.isDone = false := by
  intro a ha
  rcases List.mem_append.1 ha with ha | ha
  · exact h a ha
  · rw [List.mem_singleton.1 ha]
    exact hevent

theorem emitted_deliver (t : Topic α) : (t.deliver n).emitted = t.emitted := by
  rw [Topic.deliver]
  split
  · rfl
  · rfl

namespace EngineOk

theorem topic (h : EngineOk e) (task_id : String) {t : Topic (TaskEvent V)}
    (ht : t.emitted = (e.topics task_id).emitted) : StepKeeps e (e.setTopic task_id t) := by
  refine h.keep rfl rfl (fun a ha hpending => ⟨a, ha, hpending, rfl⟩) ?_
  intro other
  apply doneCount_quiet
  rw [ht, doneCount]

theorem submit (h : EngineOk e) (name task_type : String) (metadata : List (String × V))
    (now : String) (hfresh : ∀ o ∈ e.objects, o.task.id ≠ task_id) :
    StepKeeps e (e.submit task_id name task_type metadata now) := by
  obtain ⟨new, hobjects, hid, hrunner, hlife⟩ : ∃ new : TaskObject V,
      (e.submit task_id name task_type metadata now).objects = e.objects ++ [new] ∧
      new.task.id = task_id ∧ new.runner = .created false ∧
      LifecycleOf (e.submit task_id name task_type metadata now) new := by
    refine ⟨_, rfl, rfl, rfl, ?_, ?_, ?_⟩
    · exact iff_of_false TaskStatus.not_terminal_pending (fun hrunner => by cases hrunner)
    · exact iff_of_false (fun hsome => by cases hsome) TaskStatus.not_terminal_pending
    · exact h.unheard task_id hfresh
  have hold : ∀ (i : Nat) (o : TaskObject V), e.objects[i]? = some o →
      (e.objects ++ [new])[i]? = some o := by
    intro i o ho
    rw [List.getElem?_append_left (List.getElem?_eq_some_iff.1 ho).1, ho]
  have hcases : ∀ (i : Nat) (o : TaskObject V), (e.objects ++ [new])[i]? = some o →
      e.objects[i]? = some o ∨ i = e.objects.length ∧ o = new := by
    intro i o ho
    rcases Nat.lt_trichotomy i e.objects.length with hlt | rfl | hgt
    · rw [List.getElem?_append_left hlt] at ho
      exact .inl ho
    · rw [List.getElem?_concat_length] at ho
      cases ho
      exact .inr ⟨rfl, rfl⟩
    · rw [List.getElem?_eq_none (by rw [List.length_append, List.length_singleton]; omega)] at ho
      cases ho
  refine ⟨⟨?_, ?_, ?_, ?_, ?_, ?_⟩, ?_⟩
  · intro other i hi
    rw [hobjects]
    have hupdate : Function.update e.tasks task_id (some e.objects.length) other = some i := hi
    rw [Function.update_apply] at hupdate
    split at hupdate
    · rename_i hother
      cases hupdate
      exact ⟨new, List.getElem?_concat_length, hid.trans hother.symm⟩
    · obtain ⟨o, ho, hoid⟩ := h.table other i hupdate
      exact ⟨o, hold i o ho, hoid⟩
  · rw [hobjects]
    intro i j o o' ho ho' hsame
    rcases hcases i o ho with hi | ⟨rfl, rfl⟩
    · rcases hcases j o' ho' with hj | ⟨rfl, rfl⟩
      · exact h.distinct i j o o' hi hj hsame
      · exact (hfresh o (List.mem_of_getElem? hi) (hsame.trans hid)).elim
    · rcases hcases j o' ho' with hj | ⟨rfl, rfl⟩
      · exact (hfresh o' (List.mem_of_getElem? hj) (hsame.symm.trans hid)).elim
      · rfl
  · intro a ha hpending
    obtain ⟨o, ho, hrun⟩ := h.asks a ha hpending
    rw [hobjects]
    exact ⟨o, hold _ o ho, hrun⟩
  · rw [hobjects]
    intro other hnone
    apply h.unheard other
    intro o ho
    exact hnone o (List.mem_append_left _ ho)
  · rw [hobjects]
    intro o ho
    rcases List.mem_append.1 ho with ho | ho
    · exact h.entered o ho
    · rw [List.mem_singleton.1 ho, hrunner]
      intro hcreated
      cases hcreated
  · rw [hobjects]
    intro o ho
    rcases List.mem_append.1 ho with ho | ho
    · exact (h.life o ho).of_count rfl
    · rw [List.mem_singleton.1 ho]
      exact hlife
  · rw [hobjects]
    intro i o ho _
    exact ⟨o, hold i o ho, rfl⟩

/-- The asks stay, and the runner of the object that changes does not finish. -/
theorem asks_of_runner (h : EngineOk e) (ho : e.objects[i]? = some o) {runner : Runner}
    (hrunner : o.runner ≠ .finished → runner ≠ .finished) :
    ∀ a ∈ e.asks, a.pending = true → (a.task = i → runner ≠ .finished) ∧
      (a.task ≠ i → ∃ o' : TaskObject V, e.objects[a.task]? = some o' ∧ o'.runner ≠ .finished) := by
  intro a ha hpending
  obtain ⟨o', ho', hrun⟩ := h.asks a ha hpending
  refine ⟨?_, fun _ => ⟨o', ho', hrun⟩⟩
  rintro rfl
  rw [ho] at ho'
  cases ho'
  exact hrunner hrun

/-- Before the end the status may change, while it does not become terminal. -/
theorem turn (h : EngineOk e) (ho : e.objects[i]? = some o) {g : TaskObject V → TaskObject V}
    (hobjects : e'.objects = e.objects.modify i g) (htasks : e'.tasks = e.tasks)
    (hasks : e'.asks = e.asks) (hid : (g o).task.id = o.task.id)
    (hcount : ∀ task_id, doneCount e' task_id = doneCount e task_id)
    (hrunner : o.runner ≠ .finished) (hrunner' : (g o).runner ≠ .finished)
    (hentered : (g o).runner ≠ .created true) (hstatus : ¬ (g o).task.status.IsTerminal)
    (hcompleted : (g o).task.completed_at = o.task.completed_at) : StepKeeps e e' := by
  have hlife := h.life o (List.mem_of_getElem? ho)
  have hopen : ¬ o.task.status.IsTerminal := fun hterminal => hrunner (hlife.terminal.1 hterminal)
  apply h.modify ho hobjects htasks hid
  · rw [hasks]
    exact h.asks_of_runner ho fun _ => hrunner'
  · exact fun task_id _ => hcount task_id
  · exact hentered
  · refine ⟨iff_of_false hstatus hrunner', ?_, ?_⟩
    · rw [hcompleted]
      exact iff_of_false (fun hsome => hopen (hlife.completed.1 hsome)) hstatus
    · rw [hid, hcount, hlife.done, if_neg hrunner, if_neg hrunner']
  · exact fun hterminal => (hopen hterminal).elim

/-- What is no part of the lifecycle may change at any time. -/
theorem touch (h : EngineOk e) (ho : e.objects[i]? = some o) {g : TaskObject V → TaskObject V}
    (hobjects : e'.objects = e.objects.modify i g) (htasks : e'.tasks = e.tasks)
    (hasks : e'.asks = e.asks) (hid : (g o).task.id = o.task.id)
    (hcount : ∀ task_id, doneCount e' task_id = doneCount e task_id)
    (hrunner : (g o).runner = o.runner) (hstatus : (g o).task.status = o.task.status)
    (hcompleted : (g o).task.completed_at = o.task.completed_at) : StepKeeps e e' := by
  have hlife := h.life o (List.mem_of_getElem? ho)
  apply h.modify ho hobjects htasks hid
  · rw [hasks, hrunner]
    exact h.asks_of_runner ho id
  · exact fun task_id _ => hcount task_id
  · rw [hrunner]
    exact h.entered o (List.mem_of_getElem? ho)
  · refine ⟨?_, ?_, ?_⟩
    · rw [hstatus, hrunner]
      exact hlife.terminal
    · rw [hcompleted, hstatus]
      exact hlife.completed
    · rw [hid, hcount, hrunner]
      exact hlife.done
  · exact fun _ => hstatus

theorem start (h : EngineOk e) (hstart : e.start i now = some e') : StepKeeps e e' := by
  rw [TaskEngine.start] at hstart
  split at hstart
  · rename_i task ho
    cases hstart
    have hobjects : ((e.setRunner i .running).setTask i fun task =>
        { task with status := .running, started_at := some now }).objects =
        e.objects.modify i fun o => { o with
          task := { o.task with status := .running, started_at := some now }
          runner := .running } := by
      rw [TaskEngine.setTask, TaskEngine.setRunner, List.modify_modify_eq]
      rfl
    exact h.turn ho hobjects rfl rfl rfl (fun _ => rfl) (fun h => by cases h) (fun h => by cases h)
      (fun h => by cases h) TaskStatus.not_terminal_running rfl
  · cases hstart

theorem drop (h : EngineOk e) (hdrop : e.drop i = some e') : StepKeeps e e' := by
  rw [TaskEngine.drop] at hdrop
  split at hdrop
  · rename_i task ho
    exact (h.entered _ (List.mem_of_getElem? ho) rfl).elim
  · cases hdrop

theorem cancel (h : EngineOk e) (task_id : String)
    (hstarted : ∀ i o, e.find task_id = some (i, o) → ∀ b, o.runner ≠ .created b) :
    StepKeeps e (e.cancel task_id).2 := by
  have hsame : (e.cancel task_id).2 = e := by
    rw [TaskEngine.cancel]
    split
    · rename_i i task b hfind
      exact (hstarted i _ hfind b rfl).elim
    · rfl
    · rfl
  rw [hsame]
  exact h.keep rfl rfl (fun a ha hpending => ⟨a, ha, hpending, rfl⟩) fun _ => rfl

theorem finish (h : EngineOk e) (hfinish : e.finish i how now = some e') (hhow : how ≠ .broken)
    (hasks : ∀ a ∈ e.asks, a.task = i → a.pending = false) : StepKeeps e e' := by
  rw [TaskEngine.finish] at hfinish
  split at hfinish
  · rename_i task ho
    cases hfinish
    dsimp only
    have hlife := h.life _ (List.mem_of_getElem? ho)
    have hterminal : (TaskEngine.afterBody task how).status.IsTerminal := by
      cases how with
      | returned => exact .inl rfl
      | cancelled => exact .inr (.inr rfl)
      | failed => exact .inr (.inl rfl)
      | broken => exact (hhow rfl).elim
    have hid : (TaskEngine.afterBody task how).id = task.id := by
      cases how with
      | returned => rfl
      | cancelled => rfl
      | failed => rfl
      | broken => rfl
    have hobjects : ((e.setRunner i .finished).setTask i fun _ =>
        { TaskEngine.afterBody task how with completed_at := some now }).objects =
        e.objects.modify i fun _ =>
          ⟨{ TaskEngine.afterBody task how with completed_at := some now }, .finished⟩ := by
      rw [TaskEngine.setTask, TaskEngine.setRunner, List.modify_modify_eq]
      rfl
    refine h.modify ho hobjects rfl hid ?_ ?_ (fun h => by cases h) ⟨?_, ?_, ?_⟩ ?_
    · intro a ha hpending
      refine ⟨?_, fun _ => h.asks a ha hpending⟩
      intro hai
      rw [hasks a ha hai] at hpending
      cases hpending
    · intro other hother
      rw [doneCount_setTopic, if_neg fun hsame => hother (hsame.trans hid)]
      rfl
    · exact iff_of_true hterminal rfl
    · exact iff_of_true rfl hterminal
    · have hnone := hlife.done
      rw [if_neg fun h => by cases h] at hnone
      rw [doneCount_setTopic, if_pos rfl, if_pos rfl, hid, Topic.emitNow, Topic.notify,
        List.countP_append, List.countP_singleton]
      rw [doneCount] at hnone
      rw [hnone]
      rfl
    · intro hbefore
      cases hlife.terminal.1 hbefore
  · cases hfinish

theorem emitOutput (h : EngineOk e) (task_id line : String) :
    StepKeeps e (e.emitOutput task_id line) := by
  rw [TaskEngine.emitOutput]
  split
  · exact h.keep rfl rfl (fun a ha hpending => ⟨a, ha, hpending, rfl⟩) fun _ => rfl
  · rename_i i o hfind
    exact h.touch (h.find hfind).1 rfl rfl rfl rfl
      (fun _ => doneCount_quiet _ _ _ (countP_concat_quiet rfl)) rfl rfl rfl

theorem updateProgress (h : EngineOk e) (task_id : String) (progress : Int) (status_text : String) :
    StepKeeps e (e.updateProgress task_id progress status_text) := by
  rw [TaskEngine.updateProgress]
  split
  · exact h.keep rfl rfl (fun a ha hpending => ⟨a, ha, hpending, rfl⟩) fun _ => rfl
  · rename_i i task runner hfind
    exact h.touch (h.find hfind).1 rfl rfl rfl rfl
      (fun _ => doneCount_quiet _ _ _ (countP_concat_quiet rfl)) rfl rfl rfl

theorem askQuestion (h : EngineOk e) (task_id : String) (question : Question)
    (hasked : ∀ i o, e.find task_id = some (i, o) → o.runner ≠ .finished) :
    StepKeeps e (e.askQuestion task_id question) := by
  rw [TaskEngine.askQuestion]
  split
  · exact h.keep rfl rfl (fun a ha hpending => ⟨a, ha, hpending, rfl⟩) fun _ => rfl
  · rename_i i o hfind
    have ho := (h.find hfind).1
    have hrunner := hasked i o hfind
    have hlife := h.life o (List.mem_of_getElem? ho)
    have hopen : ¬ o.task.status.IsTerminal := fun hterminal => hrunner (hlife.terminal.1 hterminal)
    have hcount : ∀ other, doneCount (e.setTopic task_id
        ((e.topics task_id).emitNow TaskEngine.maxsize (.question question))) other =
        doneCount e other := fun _ => doneCount_quiet _ _ _ (countP_concat_quiet rfl)
    dsimp only
    refine h.modify ho rfl rfl rfl ?_ (fun other _ => hcount other) ?_ ⟨?_, ?_, ?_⟩ ?_
    · intro a ha hpending
      rcases List.mem_append.1 ha with ha | ha
      · exact h.asks_of_runner ho id a ha hpending
      · rw [List.mem_singleton.1 ha]
        exact ⟨fun _ => hrunner, fun hne => (hne rfl).elim⟩
    · exact h.entered o (List.mem_of_getElem? ho)
    · exact iff_of_false TaskStatus.not_terminal_waiting hrunner
    · exact iff_of_false (fun hsome => hopen (hlife.completed.1 hsome))
        TaskStatus.not_terminal_waiting
    · exact (hcount o.task.id).trans hlife.done
    · exact fun hterminal => (hopen hterminal).elim

theorem endAsk (h : EngineOk e) (hend : e.endAsk k = some e') : StepKeeps e e' := by
  rw [TaskEngine.endAsk] at hend
  split at hend
  · rename_i task_id i answer hask
    cases hend
    obtain ⟨o, ho, hrunner⟩ := h.asks _ (List.mem_of_getElem? hask) rfl
    have hlife := h.life o (List.mem_of_getElem? ho)
    have hopen : ¬ o.task.status.IsTerminal := fun hterminal => hrunner (hlife.terminal.1 hterminal)
    refine h.modify ho rfl rfl rfl ?_ (fun _ _ => rfl) ?_ ⟨?_, ?_, hlife.done⟩ ?_
    · intro a ha hpending
      rcases mem_modify ha with ha | ⟨b, -, rfl⟩
      · exact h.asks_of_runner ho id a ha hpending
      · cases hpending
    · exact h.entered o (List.mem_of_getElem? ho)
    · exact iff_of_false TaskStatus.not_terminal_running hrunner
    · exact iff_of_false (fun hsome => hopen (hlife.completed.1 hsome))
        TaskStatus.not_terminal_running
    · exact fun hterminal => (hopen hterminal).elim
  · cases hend

theorem submitAnswer (h : EngineOk e) (task_id answer : String) :
    StepKeeps e (e.submitAnswer task_id answer).2 := by
  rw [TaskEngine.submitAnswer]
  split
  · exact h.keep rfl rfl (fun a ha hpending => ⟨a, ha, hpending, rfl⟩) fun _ => rfl
  · split
    · refine h.keep rfl rfl ?_ fun _ => rfl
      intro a ha hpending
      rcases mem_modify ha with ha | ⟨b, hb, rfl⟩
      · exact ⟨a, ha, hpending, rfl⟩
      · exact ⟨b, hb, hpending, rfl⟩
    · exact h.keep rfl rfl (fun a ha hpending => ⟨a, ha, hpending, rfl⟩) fun _ => rfl

theorem step (h : EngineOk e) (hstep : e.Step c e') (hsafe : LifecycleSafe e c) :
    StepKeeps e e' := by
  cases c with
  | submit task_id name task_type metadata now =>
    cases hstep
    exact h.submit name task_type metadata now (hsafe.fresh _ _ _ _ _ rfl)
  | start i now => exact h.start hstep
  | drop i => exact h.drop hstep
  | finish i how now => exact h.finish hstep (hsafe.ended _ _ _ rfl) (hsafe.answered _ _ _ rfl)
  | cancel task_id =>
    cases hstep
    exact h.cancel task_id fun i o => hsafe.started task_id i o rfl
  | emitOutput task_id line =>
    cases hstep
    exact h.emitOutput task_id line
  | updateProgress task_id progress status_text =>
    cases hstep
    exact h.updateProgress task_id progress status_text
  | askQuestion task_id question =>
    cases hstep
    exact h.askQuestion task_id question fun i o => hsafe.asked task_id question i o rfl
  | endAsk k => exact h.endAsk hstep
  | submitAnswer task_id answer =>
    cases hstep
    exact h.submitAnswer task_id answer
  | notify task_id =>
    cases hstep
    exact h.topic task_id (emitted_deliver _)
  | subscribe task_id =>
    cases hstep
    exact h.topic task_id rfl
  | take task_id k =>
    cases hstep
    exact h.topic task_id rfl
  | unsubscribe task_id k =>
    cases hstep
    exact h.topic task_id rfl

end EngineOk

/-! ## Runs -/

theorem engineOk_new : EngineOk ({} : TaskEngine V) := by
  refine ⟨?_, ?_, ?_, fun _ _ => rfl, ?_, ?_⟩
  · intro task_id i hi
    cases hi
  · intro i j o o' ho
    cases ho
  · intro a ha
    cases ha
  · intro o ho
    cases ho
  · intro o ho
    cases ho

theorem engineOk_run (h : Run (Guarded TaskEngine.Step LifecycleSafe) e cs e') (hok : EngineOk e) :
    EngineOk e' :=
  h.invariant hok fun hok hstep => (hok.step hstep.1 hstep.2).ok

theorem status_run (h : Run (Guarded TaskEngine.Step LifecycleSafe) e cs e') (hok : EngineOk e)
    (ho : e.objects[i]? = some o) (hterminal : o.task.status.IsTerminal) :
    ∃ o' : TaskObject V, e'.objects[i]? = some o' ∧ o'.task.status = o.task.status := by
  induction h with
  | nil => exact ⟨o, ho, rfl⟩
  | snoc hrun hstep ih =>
    obtain ⟨o₁, ho₁, hsame⟩ := ih
    have hkeeps := (engineOk_run hrun hok).step hstep.1 hstep.2
    obtain ⟨o₂, ho₂, hsame'⟩ := hkeeps.status i o₁ ho₁ (hsame ▸ hterminal)
    exact ⟨o₂, ho₂, hsame'.trans hsame⟩

/-- The lifecycle of every task of an engine, now and later. -/
structure LifecycleHolds (e e' : TaskEngine V) : Prop where
  now : ∀ o ∈ e.objects, LifecycleOf e o
  later : ∀ (i : Nat) (o : TaskObject V), e.objects[i]? = some o → o.task.status.IsTerminal →
    ∃ o' : TaskObject V, e'.objects[i]? = some o' ∧ o'.task.status = o.task.status

theorem task_lifecycle (h : Run (Guarded TaskEngine.Step LifecycleSafe) ({} : TaskEngine V) cs e)
    (h' : Run (Guarded TaskEngine.Step LifecycleSafe) e cs' e') : LifecycleHolds e e' := by
  have hok := engineOk_run h engineOk_new
  exact ⟨hok.life, fun i o ho hterminal => status_run h' hok ho hterminal⟩

/-! ## Cancelled before the first step, and finished -/

def submitReport : TaskCall Unit := .submit "1f3a9c2e" "Report" "generic" [] "2024-01-01T00:00:00"

theorem cancelled_task_stays_pending : ¬ ∀ (cs cs' : List (TaskCall Unit)) (e e' : TaskEngine Unit),
    Run TaskEngine.Step {} cs e → Run TaskEngine.Step e cs' e' → LifecycleHolds e e' := by
  intro h
  have hrun : Run TaskEngine.Step ({} : TaskEngine Unit)
      ([submitReport] ++ [.cancel "1f3a9c2e"] ++ [.drop 0]) _ :=
    .snoc (.snoc (.single rfl) rfl) rfl
  have hlife := (h _ [] _ _ hrun .nil).now _ List.mem_cons_self
  have hterminal := hlife.terminal.2 rfl
  revert hterminal
  exact TaskStatus.not_terminal_pending

theorem safe_submit (h : ∀ o ∈ e.objects, o.task.id ≠ task_id) :
    LifecycleSafe e (.submit task_id name task_type metadata now) := by
  constructor
  · rintro _ _ _ _ _ ⟨⟩
    exact h
  · intro _ _ _ hc
    cases hc
  · intro _ _ _ hc
    cases hc
  · intro _ _ _ hc
    cases hc
  · intro _ _ _ _ hc
    cases hc

/-- The calls on which there is no condition. -/
def TaskCall.isFree : TaskCall V → Bool
  | submit .. => false
  | finish .. => false
  | cancel _ => false
  | askQuestion .. => false
  | _ => true

theorem safe_free (e : TaskEngine V) (h : c.isFree = true) : LifecycleSafe e c := by
  constructor
  · rintro _ _ _ _ _ rfl
    cases h
  · rintro _ _ _ rfl
    cases h
  · rintro _ _ _ rfl
    cases h
  · rintro _ _ _ rfl
    cases h
  · rintro _ _ _ _ rfl
    cases h

theorem safe_finish (now : String) (hhow : how ≠ .broken)
    (h : ∀ a ∈ e.asks, a.task = i → a.pending = false) : LifecycleSafe e (.finish i how now) := by
  constructor
  · intro _ _ _ _ _ hc
    cases hc
  · intro _ _ _ hc
    cases hc
  · rintro _ _ _ ⟨⟩
    exact hhow
  · rintro _ _ _ ⟨⟩
    exact h
  · intro _ _ _ _ hc
    cases hc

/-- A task that is submitted, starts and returns. -/
theorem returned_task_lifecycle : ∃ e : TaskEngine Unit, e.objects ≠ [] ∧ LifecycleHolds e e := by
  have hsubmitted : Run (Guarded TaskEngine.Step LifecycleSafe) ({} : TaskEngine Unit)
      [submitReport] _ :=
    .single ⟨rfl, safe_submit fun o ho => by cases ho⟩
  have hstarted : Run (Guarded TaskEngine.Step LifecycleSafe) ({} : TaskEngine Unit)
      ([submitReport] ++ [.start 0 "2024-01-01T00:00:01"]) _ :=
    .snoc hsubmitted ⟨rfl, safe_free _ rfl⟩
  have hreturned : Run (Guarded TaskEngine.Step LifecycleSafe) ({} : TaskEngine Unit)
      ([submitReport] ++ [.start 0 "2024-01-01T00:00:01"] ++
        [.finish 0 (.returned none) "2024-01-01T00:00:02"]) _ :=
    .snoc hstarted ⟨rfl, safe_finish _ (fun h => by cases h) fun a ha => by cases ha⟩
  exact ⟨_, List.cons_ne_nil _ _, task_lifecycle hreturned .nil⟩

end ScottyCore.BackgroundTasks
