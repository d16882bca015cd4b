import ScottyCore.Lib.Run
import ScottyCore.Tasks.Engine

namespace ScottyCore.BackgroundTasks
open Broadcast TransitionSystem
set_option autoImplicit true

variable {V : Type} {e e' : TaskEngine V} {c : TaskCall V} {i : Nat} {task_id : String}

/-! ## One task of an engine -/

/-- A task as its runner, its output and its subscribers see it. -/
structure TaskView (V : Type) where
  runner : Runner
  lines : List String
  topic : Topic (TaskEvent V)

/-- What a step of the engine does to one task, which is the object at `slot`. -/
inductive ViewStep (task_id : String) : Option Nat → TaskView V → TaskCall V → TaskView V → Prop
  where
  | same : ViewStep task_id slot v call v
  | start : ViewStep task_id (some j) ⟨.created false, lines, t⟩ (.start j now) ⟨.running, lines, t⟩
  | drop : ViewStep task_id (some j) ⟨.created true, lines, t⟩ (.drop j) ⟨.finished, lines, t⟩
  | cancel : ViewStep task_id (some j) ⟨.created b, lines, t⟩ (.cancel task_id)
      ⟨.created true, lines, t⟩
  | finish : ViewStep task_id (some j) ⟨.running, lines, t⟩ (.finish j how now)
      ⟨.finished, lines, t.emitNow TaskEngine.maxsize (.done status result error)⟩
  | emitOutput : ViewStep task_id (some j) ⟨runner, lines, t⟩ (.emitOutput task_id line)
      ⟨runner, lines ++ [line], t.emitLater (.output line)⟩
  | updateProgress : ViewStep task_id (some j) ⟨runner, lines, t⟩
      (.updateProgress task_id progress status_text)
      ⟨runner, lines, t.emitLater (.progress progress' status_text')⟩
  | askQuestion : ViewStep task_id (some j) ⟨runner, lines, t⟩ (.askQuestion task_id question)
      ⟨runner, lines, t.emitNow TaskEngine.maxsize (.question question)⟩
  | notify : ViewStep task_id slot ⟨runner, lines, t⟩ (.notify task_id)
      ⟨runner, lines, t.deliver TaskEngine.maxsize⟩
  | subscribe : ViewStep task_id slot ⟨runner, lines, t⟩ (.subscribe task_id)
      ⟨runner, lines, t.subscribe⟩
  | take : ViewStep task_id slot ⟨runner, lines, t⟩ (.take task_id k) ⟨runner, lines, t.take k⟩
  | unsubscribe : ViewStep task_id slot ⟨runner, lines, t⟩ (.unsubscribe task_id k)
      ⟨runner, lines, t.unsubscribe k⟩

namespace TaskEngine

/-- An identifier without a task looks as if its task had just been submitted. -/
def view (e : TaskEngine V) (task_id : String) : TaskView V :=
  match e.find task_id with
  | some (_, o) => ⟨o.runner, o.task.output_lines, e.topics task_id⟩
  | none => ⟨.created false, [], e.topics task_id⟩

/-- The identifiers of the tasks, in the order in which they were submitted. -/
def ids (e : TaskEngine V) : List String := e.objects.map fun o => o.task.id

/-- The table leads to the task of every identifier. -/
def Named (e : TaskEngine V) : Prop :=
  ∀ task_id i, e.tasks task_id = some i ↔ e.ids[i]? = some task_id

/-- A new identifier is new. -/
def DrawsNew (e : TaskEngine V) (c : TaskCall V) : Prop :=
  ∀ task_id name task_type metadata now,
    c = .submit task_id name task_type metadata now → task_id ∉ e.ids

theorem map_modify_of_same {α : Type u} {β : Type v} (l : List α) (i : Nat) {f : α → α} {g : α → β}
    (h : ∀ x, l[i]? = some x → g (f x) = g x) : (l.modify i f).map g = l.map g := by
  apply List.ext_getElem?
  intro j
  rw [List.getElem?_map, List.getElem?_map]
  by_cases hj : i = j
  · rw [← hj, List.getElem?_modify_eq]
    cases hx : l[i]? with
    | none => rfl
    | some x => exact congrArg some (h x hx)
  · rw [List.getElem?_modify_ne _ _ hj]

theorem ids_setTask (i : Nat) (f : Task V → Task V)
    (h : ∀ o, e.objects[i]? = some o → (f o.task).id = o.task.id) : (e.setTask i f).ids = e.ids :=
  map_modify_of_same e.objects i h

theorem ids_setRunner (e : TaskEngine V) (i : Nat) (runner : Runner) :
    (e.setRunner i runner).ids = e.ids :=
  map_modify_of_same e.objects i fun _ _ => rfl

theorem ids_setTopic (e : TaskEngine V) (task_id : String) (t : Topic (TaskEvent V)) :
    (e.setTopic task_id t).ids = e.ids := rfl

theorem id_afterBody (task : Task V) (how : BodyEnd V) : (afterBody task how).id = task.id := by
  cases how with
  | returned => rfl
  | cancelled => rfl
  | failed => rfl
  | broken => rfl

theorem lines_afterBody (task : Task V) (how : BodyEnd V) :
    (afterBody task how).output_lines = task.output_lines := by
  cases how with
  | returned => rfl
  | cancelled => rfl
  | failed => rfl
  | broken => rfl

/-- Only `submit` changes the table and the identifiers. -/
theorem ids_step (h : e.Step c e')
    (hsubmit : ∀ task_id name task_type metadata now,
      c ≠ .submit task_id name task_type metadata now) :
    e'.tasks = e.tasks ∧ e'.ids = e.ids := by
  cases c with
  | submit => exact (hsubmit _ _ _ _ _ rfl).elim
  | start i now =>
    rw [Step, perform, start] at h
    split at h
    · cases h
      exact ⟨rfl, (ids_setTask i _ fun _ _ => rfl).trans (ids_setRunner e i _)⟩
    · cases h
  | drop i =>
    rw [Step, perform, drop] at h
    split at h
    · cases h
      exact ⟨rfl, ids_setRunner e i _⟩
    · cases h
  | finish i how now =>
    rw [Step, perform, finish] at h
    split at h
    · rename_i task ho
      cases h
      refine ⟨rfl, (ids_setTopic _ _ _).trans ((ids_setTask i _ ?_).trans
        (ids_setRunner e i .finished))⟩
      intro o ho'
      rw [setRunner, List.getElem?_modify_eq, ho] at ho'
      cases ho'
      exact id_afterBody task how
    · cases h
  | cancel task_id =>
    cases h
    rw [cancel]
    split
    · exact ⟨rfl, ids_setRunner e _ _⟩
    · exact ⟨rfl, rfl⟩
    · exact ⟨rfl, rfl⟩
  | emitOutput task_id line =>
    cases h
    rw [emitOutput]
    split
    · exact ⟨rfl, rfl⟩
    · exact ⟨rfl, (ids_setTopic _ _ _).trans (ids_setTask _ _ fun _ _ => rfl)⟩
  | updateProgress task_id progress status_text =>
    cases h
    rw [updateProgress]
    split
    · exact ⟨rfl, rfl⟩
    · rename_i i task runner hfind
      refine ⟨rfl, (ids_setTopic _ _ _).trans (ids_setTask i _ ?_)⟩
      intro o ho
      obtain ⟨j, -, hmap⟩ := Option.bind_eq_some_iff.1 hfind
      obtain ⟨o', ho', hpair⟩ := Option.map_eq_some_iff.1 hmap
      obtain ⟨rfl, rfl⟩ := Prod.mk.inj hpair
      rw [ho'] at ho
      cases ho
      rfl
  | askQuestion task_id question =>
    cases h
    rw [askQuestion]
    split
    · exact ⟨rfl, rfl⟩
    · exact ⟨rfl, map_modify_of_same e.objects _ fun _ _ => rfl⟩
  | endAsk k =>
    rw [Step, perform, endAsk] at h
    split at h
    · cases h
      exact ⟨rfl, map_modify_of_same e.objects _ fun _ _ => rfl⟩
    · cases h
  | submitAnswer task_id answer =>
    cases h
    rw [submitAnswer]
    split
    · exact ⟨rfl, rfl⟩
    · split
      · exact ⟨rfl, rfl⟩
      · exact ⟨rfl, rfl⟩
  | notify =>
    cases h
    exact ⟨rfl, rfl⟩
  | subscribe =>
    cases h
    exact ⟨rfl, rfl⟩
  | take =>
    cases h
    exact ⟨rfl, rfl⟩
  | unsubscribe =>
    cases h
    exact ⟨rfl, rfl⟩

/-- Objects keep their place. -/
theorem ids_start (h : e.Step c e') : e.ids <+: e'.ids := by
  by_cases hsubmit : ∃ task_id name task_type metadata now,
      c = .submit task_id name task_type metadata now
  · obtain ⟨task_id, name, task_type, metadata, now, rfl⟩ := hsubmit
    cases h
    rw [submit, ids, ids, List.map_append]
    exact List.prefix_append _ _
  · have hids := (ids_step h fun _ _ _ _ _ hc => hsubmit ⟨_, _, _, _, _, hc⟩).2
    exact hids ▸ List.prefix_rfl

theorem Named.step (h : Named e) (hstep : e.Step c e') (hnew : e.DrawsNew c) : Named e' := by
  by_cases hsubmit : ∃ task_id name task_type metadata now,
      c = .submit task_id name task_type metadata now
  · obtain ⟨task_id, name, task_type, metadata, now, rfl⟩ := hsubmit
    have hfresh : task_id ∉ e.ids := hnew _ _ _ _ _ rfl
    have hlen : e.objects.length = e.ids.length := (List.length_map _).symm
    cases hstep
    have hids : (e.submit task_id name task_type metadata now).ids = e.ids ++ [task_id] := by
      rw [submit, ids, ids, List.map_append]
      rfl
    intro other i
    have htasks : (e.submit task_id name task_type metadata now).tasks other =
        if other = task_id then some e.objects.length else e.tasks other :=
      Function.update_apply _ _ _ _
    rw [htasks, hids, hlen, List.getElem?_append]
    by_cases hi : i < e.ids.length
    · rw [if_pos hi, ← h other i]
      split
      · rename_i hother
        rw [hother, h task_id i]
        exact iff_of_false (fun hlast => (Option.some.inj hlast ▸ hi).false)
          fun hmem => hfresh (List.mem_of_getElem? hmem)
      · exact Iff.rfl
    · have hold : e.tasks other ≠ some i := by
        intro hother
        exact hi (List.getElem?_eq_some_iff.1 ((h other i).1 hother)).1
      rw [if_neg hi]
      split
      · rename_i hother
        rw [hother]
        apply Iff.intro
        · intro hlast
          rw [← Option.some.inj hlast, Nat.sub_self]
          rfl
        · intro hlast
          have hlt := (List.getElem?_eq_some_iff.1 hlast).1
          rw [List.length_singleton] at hlt
          exact congrArg some (by omega)
      · rename_i hother
        apply iff_of_false hold
        intro hlast
        exact hother (List.mem_singleton.1 (List.mem_of_getElem? hlast))
  · obtain ⟨htasks, hids⟩ := ids_step hstep fun _ _ _ _ _ hc => hsubmit ⟨_, _, _, _, _, hc⟩
    intro other i
    rw [htasks, hids]
    exact h other i

/-- The table keeps leading to the same task. -/
theorem Named.tasks_step (h : Named e) (hstep : e.Step c e') (hnew : e.DrawsNew c)
    (hi : e.tasks task_id = some i) : e'.tasks task_id = some i := by
  rw [h.step hstep hnew]
  have hold := (h task_id i).1 hi
  obtain ⟨later, hlater⟩ := ids_start hstep
  rw [← hlater, List.getElem?_append_left (List.getElem?_eq_some_iff.1 hold).1, hold]

/-! ## A step, seen from one task -/

theorem find_eq_some {o : TaskObject V} :
    e.find task_id = some (i, o) ↔ e.tasks task_id = some i ∧ e.objects[i]? = some o := by
  rw [find, Option.bind_eq_some_iff]
  constructor
  · rintro ⟨j, hj, hmap⟩
    obtain ⟨o', ho', hpair⟩ := Option.map_eq_some_iff.1 hmap
    obtain ⟨rfl, rfl⟩ := Prod.mk.inj hpair
    exact ⟨hj, ho'⟩
  · rintro ⟨hi, ho⟩
    exact ⟨i, hi, Option.map_eq_some_iff.2 ⟨o, ho, rfl⟩⟩

theorem view_of_find {o : TaskObject V} (hfind : e.find task_id = some (i, o)) :
    e.view task_id = ⟨o.runner, o.task.output_lines, e.topics task_id⟩ := by
  rw [view, hfind]

theorem topic_view (e : TaskEngine V) (task_id : String) :
    (e.view task_id).topic = e.topics task_id := by
  rw [view]
  split
  · rfl
  · rfl

theorem view_setTopic (e : TaskEngine V) (task_id : String) (t : Topic (TaskEvent V)) :
    (e.setTopic task_id t).view task_id = { e.view task_id with topic := t } := by
  have hfind : (e.setTopic task_id t).find task_id = e.find task_id := rfl
  rw [view, view, hfind, topics_setTopic, if_pos rfl]
  cases e.find task_id with
  | none => rfl
  | some x => rfl

theorem view_congr (hfind : e'.find task_id = e.find task_id)
    (htopic : e'.topics task_id = e.topics task_id) : e'.view task_id = e.view task_id := by
  rw [view, view, hfind, htopic]

theorem find_congr (htasks : e'.tasks task_id = e.tasks task_id)
    (hobject : ∀ i, e.tasks task_id = some i → e'.objects[i]? = e.objects[i]?) :
    e'.find task_id = e.find task_id := by
  rw [find, find, htasks]
  cases hi : e.tasks task_id with
  | none => rfl
  | some i => rw [Option.bind_some, Option.bind_some, hobject i hi]

theorem Named.tasks_id {o : TaskObject V} (h : Named e) (ho : e.objects[i]? = some o) :
    e.tasks o.task.id = some i := by
  rw [h, ids, List.getElem?_map, ho]
  rfl

theorem Named.id_of_find {o : TaskObject V} (h : Named e) (hfind : e.find task_id = some (i, o)) :
    o.task.id = task_id := by
  obtain ⟨hi, ho⟩ := find_eq_some.1 hfind
  have hid := (h task_id i).1 hi
  rw [ids, List.getElem?_map, ho] at hid
  exact Option.some.inj hid

theorem viewStep_same (hfind : e'.find task_id = e.find task_id)
    (htopic : e'.topics task_id = e.topics task_id) :
    ViewStep task_id slot (e.view task_id) c (e'.view task_id) :=
  view_congr hfind htopic ▸ .same

/-- One object changes, with the topic of its task. -/
theorem viewStep_modify {o : TaskObject V} (h : Named e) (ho : e.objects[i]? = some o)
    {g : TaskObject V → TaskObject V} (htasks : e'.tasks = e.tasks)
    (hobjects : e'.objects = e.objects.modify i g)
    (htopics : ∀ other, other ≠ o.task.id → e'.topics other = e.topics other)
    (hstep : o.task.id = task_id →
      ViewStep task_id (some i) ⟨o.runner, o.task.output_lines, e.topics task_id⟩ c
        ⟨(g o).runner, (g o).task.output_lines, e'.topics task_id⟩) :
    ViewStep task_id (e.tasks task_id) (e.view task_id) c (e'.view task_id) := by
  by_cases hid : o.task.id = task_id
  · have hi : e.tasks task_id = some i := hid ▸ h.tasks_id ho
    have ho' : e'.objects[i]? = some (g o) := by
      rw [hobjects, List.getElem?_modify_eq, ho]
      rfl
    have hi' : e'.tasks task_id = some i := htasks ▸ hi
    rw [view_of_find (find_eq_some.2 ⟨hi, ho⟩), view_of_find (find_eq_some.2 ⟨hi', ho'⟩), hi]
    exact hstep hid
  · apply viewStep_same
    · apply find_congr (congrFun htasks task_id)
      intro j hj
      rw [hobjects, List.getElem?_modify_ne]
      rintro rfl
      exact hid (h.id_of_find (find_eq_some.2 ⟨hj, ho⟩))
    · exact htopics task_id fun hsame => hid hsame.symm

/-- The task under an identifier changes, with its topic. -/
theorem viewStep_found {o : TaskObject V} {other : String} {t : Topic (TaskEvent V)} (h : Named e)
    (hfind : e.find other = some (i, o)) {g : TaskObject V → TaskObject V}
    (htasks : e'.tasks = e.tasks) (hobjects : e'.objects = e.objects.modify i g)
    (htopics : ∀ x, e'.topics x = if x = other then t else e.topics x)
    (hstep : ViewStep other (some i) ⟨o.runner, o.task.output_lines, e.topics other⟩ c
      ⟨(g o).runner, (g o).task.output_lines, t⟩) :
    ViewStep task_id (e.tasks task_id) (e.view task_id) c (e'.view task_id) := by
  have hid := h.id_of_find hfind
  apply viewStep_modify h (find_eq_some.1 hfind).2 htasks hobjects
  · intro x hx
    rw [htopics, if_neg fun hsame => hx (hsame.trans hid.symm)]
  · intro htask
    cases hid.symm.trans htask
    rw [htopics, if_pos rfl]
    exact hstep

/-- The topic of one identifier changes. -/
theorem viewStep_topic {other : String} {t : Topic (TaskEvent V)}
    (hstep : other = task_id → ∀ runner lines,
      ViewStep task_id (e.tasks task_id) ⟨runner, lines, e.topics task_id⟩ c ⟨runner, lines, t⟩) :
    ViewStep task_id (e.tasks task_id) (e.view task_id) c ((e.setTopic other t).view task_id) := by
  by_cases hother : task_id = other
  · rw [view, view, topics_setTopic, if_pos hother]
    have hfind : (e.setTopic other t).find task_id = e.find task_id := rfl
    rw [hfind]
    cases e.find task_id with
    | none => exact hstep hother.symm _ _
    | some x => exact hstep hother.symm _ _
  · refine viewStep_same rfl ?_
    rw [topics_setTopic, if_neg hother]

/-- What a step of the engine does to a task. -/
theorem step_view (h : Named e) (hstep : e.Step c e') (hnew : e.DrawsNew c) (task_id : String) :
    ViewStep task_id (e.tasks task_id) (e.view task_id) c (e'.view task_id) := by
  cases c with
  | submit other name task_type metadata now =>
    have hfresh : other ∉ e.ids := hnew _ _ _ _ _ rfl
    cases hstep
    by_cases hother : task_id = other
    · have hnone : e.find task_id = none := by
        rw [find, hother]
        cases hi : e.tasks other with
        | none => rfl
        | some i => exact (hfresh (List.mem_of_getElem? ((h other i).1 hi))).elim
      have hfind : (e.submit other name task_type metadata now).find task_id = some (e.objects.length,
          { task := { id := other, name, task_type, created_at := now, metadata } }) := by
        rw [find_eq_some, hother]
        exact ⟨Function.update_self _ _ _, List.getElem?_concat_length⟩
      rw [view_of_find hfind, view, hnone]
      exact .same
    · refine viewStep_same (find_congr (Function.update_of_ne hother _ _) ?_) rfl
      intro i hi
      have hold := (h task_id i).1 hi
      rw [ids, List.getElem?_map, Option.map_eq_some_iff] at hold
      obtain ⟨o, ho, -⟩ := hold
      exact List.getElem?_append_left (List.getElem?_eq_some_iff.1 ho).1
  | start j now =>
    rw [Step, perform, start] at hstep
    split at hstep
    · rename_i task hj
      cases hstep
      exact viewStep_modify h hj rfl (List.modify_modify_eq _ _ _ _) (fun _ _ => rfl)
        fun _ => .start
    · cases hstep
  | drop j =>
    rw [Step, perform, drop] at hstep
    split at hstep
    · rename_i task hj
      cases hstep
      exact viewStep_modify h hj rfl rfl (fun _ _ => rfl) fun _ => .drop
    · cases hstep
  | finish j how now =>
    rw [Step, perform, finish] at hstep
    split at hstep
    · rename_i task hj
      cases hstep
      have hid := id_afterBody task how
      refine viewStep_modify h hj rfl (List.modify_modify_eq _ _ _ _) ?_ ?_
      · intro other hother
        rw [topics_setTopic, if_neg fun hsame => hother (hsame.trans hid)]
        rfl
      · intro htask
        rw [topics_setTopic, if_pos (hid.trans htask).symm, hid.trans htask]
        have hlines := lines_afterBody task how
        dsimp only [Function.comp_apply]
        rw [hlines]
        exact .finish
    · cases hstep
  | cancel other =>
    cases hstep
    rw [cancel]
    split
    · rename_i j task b hfind
      refine viewStep_modify h (find_eq_some.1 hfind).2 rfl rfl (fun _ _ => rfl) ?_
      intro htask
      rw [h.id_of_find hfind] at htask
      exact htask ▸ .cancel
    · exact .same
    · exact .same
  | emitOutput other line =>
    cases hstep
    rw [emitOutput]
    split
    · exact .same
    · rename_i j o hfind
      exact viewStep_found h hfind rfl rfl (topics_setTopic _ _ _) .emitOutput
  | updateProgress other progress status_text =>
    cases hstep
    rw [updateProgress]
    split
    · exact .same
    · rename_i j task runner hfind
      exact viewStep_found h hfind rfl rfl (topics_setTopic _ _ _) .updateProgress
  | askQuestion other question =>
    cases hstep
    rw [askQuestion]
    split
    · exact .same
    · rename_i j o hfind
      exact viewStep_found h hfind rfl rfl (topics_setTopic _ _ _) .askQuestion
  | endAsk k =>
    rw [Step, perform, endAsk] at hstep
    split at hstep
    · rename_i other j answer hask
      cases hstep
      cases hj : e.objects[j]? with
      | none =>
        refine viewStep_same (find_congr rfl ?_) rfl
        intro i hi
        apply List.getElem?_modify_ne
        rintro rfl
        have hold := (h task_id j).1 hi
        rw [ids, List.getElem?_map, hj] at hold
        cases hold
      | some o => exact viewStep_modify h hj rfl rfl (fun _ _ => rfl) fun _ => .same
    · cases hstep
  | submitAnswer other answer =>
    cases hstep
    rw [submitAnswer]
    split
    · exact .same
    · split
      · exact .same
      · exact .same
  | notify other =>
    cases hstep
    apply viewStep_topic
    rintro rfl runner lines
    exact .notify
  | subscribe other =>
    cases hstep
    apply viewStep_topic
    rintro rfl runner lines
    exact .subscribe
  | take other k =>
    cases hstep
    apply viewStep_topic
    rintro rfl runner lines
    exact .take
  | unsubscribe other k =>
    cases hstep
    apply viewStep_topic
    rintro rfl runner lines
    exact .unsubscribe

end TaskEngine

end ScottyCore.BackgroundTasks
