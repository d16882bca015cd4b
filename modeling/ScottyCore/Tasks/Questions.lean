import ScottyCore.Tasks.Views

namespace ScottyCore.BackgroundTasks
open TransitionSystem
set_option autoImplicit true

/-- How a call of `ask_question` ends; a timeout returns the empty text. -/
inductive AskEnd where
  | answered (answer : String)
  | timedOut
  | cancelled
  deriving DecidableEq

/-- The wait of a call of `ask_question`: whether its time is up, whether it was cancelled, and how
it ended. -/
structure Wait where
  question : Question := ⟨"", none⟩
  expired : Bool := false
  cancelled : Bool := false
  ended : Option AskEnd := none

/-- The engine, with the wait of each of its asks. -/
structure QuestionEngine (V : Type) where
  engine : TaskEngine V := {}
  waits : Nat → Wait := fun _ => {}

/-- What happens to the questions: the time of a wait is up, its coroutine is cancelled, and what
waits goes on, each in a step of its own. -/
inductive QuestionCall (V : Type) where
  | askQuestion (task_id : String) (question : Question)
  | expire (k : Nat)
  | cancelAsk (k : Nat)
  | resume (k : Nat)
  | submitAnswer (task_id answer : String)
  | other (call : TaskCall V)

/-- What a step returns; an answer that is accepted is set for one ask. -/
inductive QuestionResult where
  | done
  | ended (how : AskEnd)
  | submitted (k : Option Nat)
  deriving DecidableEq

/-- The calls that the steps of the questions take the place of. -/
def TaskCall.isAsking : TaskCall V → Bool
  | askQuestion .. => true
  | endAsk .. => true
  | submitAnswer .. => true
  | _ => false

def TaskEngine.pendingQuestions (e : TaskEngine V) : List (Option Question) :=
  e.objects.map fun o => o.task.pending_question

/-- What `pending_question` of a task shows. -/
def TaskEngine.shown (e : TaskEngine V) (i : Nat) : Option Question :=
  (e.pendingQuestions[i]?).join

namespace QuestionEngine

variable {V : Type}

/-- `ask_question` up to its wait. -/
def askQuestion (task_id : String) (question : Question) (s : QuestionEngine V) :
    QuestionEngine V :=
  match s.engine.find task_id with
  | none => s
  | some _ =>
    { engine := s.engine.askQuestion task_id question
      waits := Function.update s.waits s.engine.asks.length { question } }

/-- The coroutine that waits is to be interrupted. What `wait_for` waits for is cancelled, unless
it is done already. -/
def interrupt (k : Nat) (f : Wait → Wait) (s : QuestionEngine V) : Option (QuestionEngine V) :=
  match s.engine.asks[k]? with
  | some ⟨_, _, _, true⟩ => some { s with waits := Function.update s.waits k (f (s.waits k)) }
  | _ => none

/-- What `wait_for` gives when it goes on: an interruption wins over an answer. -/
def waitEnd (a : Ask) (w : Wait) : Option AskEnd :=
  if w.cancelled then some .cancelled else if w.expired then some .timedOut
  else a.answer.map .answered

/-- The rest of `ask_question`. -/
def resume (k : Nat) (s : QuestionEngine V) : Option (AskEnd × QuestionEngine V) :=
  match s.engine.asks[k]? with
  | none => none
  | some a =>
    match waitEnd a (s.waits k), s.engine.endAsk k with
    | some how, some engine =>
      some (how, { engine, waits := Function.update s.waits k { s.waits k with ended := how } })
    | _, _ => none

/-- `submit_answer`, with the ask whose future it sets: a future that was cancelled is done. -/
def submitAnswer (task_id answer : String) (s : QuestionEngine V) :
    Option Nat × QuestionEngine V :=
  match s.engine.answer_futures task_id with
  | none => (none, s)
  | some k =>
    if (s.waits k).expired ∨ (s.waits k).cancelled then (none, s) else
    match s.engine.submitAnswer task_id answer with
    | (true, engine) => (some k, { s with engine })
    | (false, _) => (none, s)

def perform (c : QuestionCall V) (s : QuestionEngine V) :
    Option (QuestionResult × QuestionEngine V) :=
  match c with
  | .askQuestion task_id question => some (.done, s.askQuestion task_id question)
  | .expire k => (s.interrupt k fun w => { w with expired := true }).map (.done, ·)
  | .cancelAsk k => (s.interrupt k fun w => { w with cancelled := true }).map (.done, ·)
  | .resume k => (s.resume k).map fun x => (.ended x.1, x.2)
  | .submitAnswer task_id answer =>
    let x := s.submitAnswer task_id answer
    some (.submitted x.1, x.2)
  | .other c =>
    if c.isAsking then none else (s.engine.perform c).map fun engine => (.done, { s with engine })

def Step (s : QuestionEngine V) (x : QuestionCall V × QuestionResult) (s' : QuestionEngine V) :
    Prop :=
  s.perform x.1 = some (x.2, s')

/-! ## The law -/

/-- Which ask an accepted answer was set for, and for which task. -/
def delivered : QuestionCall V × QuestionResult → Option (Nat × String × String)
  | (.submitAnswer task_id answer, .submitted (some k)) => some (k, task_id, answer)
  | _ => none

/-- An ask of a task has returned an answer, or returns it when it goes on. -/
def Reaches (s : QuestionEngine V) (k : Nat) (task_id answer : String) : Prop :=
  ∃ a, s.engine.asks[k]? = some a ∧ a.task_id = task_id ∧
    if a.pending then ∃ s', s.resume k = some (.answered answer, s')
    else (s.waits k).ended = some (.answered answer)

/-- An ask whose future is not done. -/
def IsWaiting (s : QuestionEngine V) (k : Nat) (a : Ask) : Prop :=
  s.engine.asks[k]? = some a ∧ a.pending = true ∧ waitEnd a (s.waits k) = none

/-- Each accepted answer is returned by one ask and no other one, and while an ask of a task waits,
the task shows a question that waits and that takes an answer. -/
structure AnswersReachOne (history : List (QuestionCall V × QuestionResult))
    (s : QuestionEngine V) : Prop where
  reaches : ∀ k task_id answer, (k, task_id, answer) ∈ history.filterMap delivered →
    s.Reaches k task_id answer
  once : ((history.filterMap delivered).map Prod.fst).Nodup
  only : ∀ k answer, (s.waits k).ended = some (.answered answer) →
    ∃ task_id, (k, task_id, answer) ∈ history.filterMap delivered
  answerable : ∀ k a, s.IsWaiting k a → ∃ j b, s.IsWaiting j b ∧ b.task = a.task ∧
    s.engine.shown a.task = some (s.waits j).question ∧
    ∀ answer, (s.submitAnswer a.task_id answer).1 = some j

/-- The condition on a step: no ask of a task begins while another one of it has not returned, and
an ask that has its answer is not interrupted before it goes on. -/
structure QuestionSafe (s : QuestionEngine V) (x : QuestionCall V × QuestionResult) : Prop where
  alone : ∀ task_id question, x.1 = .askQuestion task_id question →
    ∀ a ∈ s.engine.asks, a.task_id = task_id → a.pending = false
  unanswered : ∀ k, x.1 = .expire k ∨ x.1 = .cancelAsk k →
    ∀ a, s.engine.asks[k]? = some a → a.answer = none

end QuestionEngine

/-! ## What the steps of the engine do to the questions -/

variable {V : Type} {e e' : TaskEngine V} {c : TaskCall V} {i : Nat} {task_id : String}

namespace TaskEngine

theorem shown_congr (h : e'.pendingQuestions = e.pendingQuestions) (i : Nat) :
    e'.shown i = e.shown i := by
  rw [shown, shown, h]

theorem pendingQuestions_setTask (j : Nat) (f : Task V → Task V)
    (h : ∀ o, e.objects[j]? = some o → (f o.task).pending_question = o.task.pending_question) :
    (e.setTask j f).pendingQuestions = e.pendingQuestions :=
  map_modify_of_same e.objects j h

theorem pendingQuestions_setRunner (e : TaskEngine V) (j : Nat) (runner : Runner) :
    (e.setRunner j runner).pendingQuestions = e.pendingQuestions :=
  map_modify_of_same e.objects j fun _ _ => rfl

theorem pendingQuestions_setTopic (e : TaskEngine V) (task_id : String)
    (t : Broadcast.Topic (TaskEvent V)) :
    (e.setTopic task_id t).pendingQuestions = e.pendingQuestions := rfl

theorem question_afterBody (task : Task V) (how : BodyEnd V) :
    (afterBody task how).pending_question = task.pending_question := by
  cases how with
  | returned => rfl
  | cancelled => rfl
  | failed => rfl
  | broken => rfl

/-- One task changes, and shows another question. -/
theorem shown_setTask (f : Task V → Task V) (question : Option Question)
    (h : ∀ task, (f task).pending_question = question) (hi : i < e.objects.length) (j : Nat) :
    (e.setTask i f).shown j = if j = i then question else e.shown j := by
  rw [shown, pendingQuestions, setTask, shown, pendingQuestions, List.getElem?_map,
    List.getElem?_map]
  by_cases hj : j = i
  · rw [if_pos hj, hj, List.getElem?_modify_eq, List.getElem?_eq_getElem hi]
    exact h _
  · rw [if_neg hj, List.getElem?_modify_ne _ _ (Ne.symm hj)]

theorem shown_submit (task_id name task_type : String) (metadata : List (String × V))
    (now : String) (e : TaskEngine V) (i : Nat) :
    (e.submit task_id name task_type metadata now).shown i = e.shown i := by
  rw [shown, shown, submit, pendingQuestions, pendingQuestions, List.map_append,
    List.getElem?_append]
  split
  · rfl
  · rename_i hi
    rw [List.getElem?_eq_none (Nat.le_of_not_lt hi)]
    cases i - (e.objects.map fun o => o.task.pending_question).length with
    | zero => rfl
    | succ n => rfl

/-- The other calls leave every question as it is. -/
theorem quiet_step (h : e.Step c e') (hc : c.isAsking = false) :
    e'.asks = e.asks ∧ e'.answer_futures = e.answer_futures ∧ ∀ i, e'.shown i = e.shown i := by
  cases c with
  | submit =>
    cases h
    exact ⟨rfl, rfl, shown_submit _ _ _ _ _ e⟩
  | start j now =>
    rw [Step, perform, start] at h
    split at h
    · cases h
      exact ⟨rfl, rfl, shown_congr ((pendingQuestions_setTask j _ fun _ _ => rfl).trans
        (pendingQuestions_setRunner e j _))⟩
    · cases h
  | drop j =>
    rw [Step, perform, drop] at h
    split at h
    · cases h
      exact ⟨rfl, rfl, shown_congr (pendingQuestions_setRunner e j _)⟩
    · cases h
  | finish j how now =>
    rw [Step, perform, finish] at h
    split at h
    · rename_i task ho
      cases h
      refine ⟨rfl, rfl, shown_congr ((pendingQuestions_setTopic _ _ _).trans
        ((pendingQuestions_setTask j _ ?_).trans (pendingQuestions_setRunner e j .finished)))⟩
      intro o ho'
      rw [setRunner, List.getElem?_modify_eq, ho] at ho'
      cases ho'
      exact question_afterBody task how
    · cases h
  | cancel task_id =>
    cases h
    rw [cancel]
    split
    · exact ⟨rfl, rfl, shown_congr (pendingQuestions_setRunner e _ _)⟩
    · exact ⟨rfl, rfl, fun _ => rfl⟩
    · exact ⟨rfl, rfl, fun _ => rfl⟩
  | emitOutput task_id line =>
    cases h
    rw [emitOutput]
    split
    · exact ⟨rfl, rfl, fun _ => rfl⟩
    · exact ⟨rfl, rfl, shown_congr ((pendingQuestions_setTopic _ _ _).trans
        (pendingQuestions_setTask _ _ fun _ _ => rfl))⟩
  | updateProgress task_id progress status_text =>
    cases h
    rw [updateProgress]
    split
    · exact ⟨rfl, rfl, fun _ => rfl⟩
    · rename_i j task runner hfind
      refine ⟨rfl, rfl, shown_congr ((pendingQuestions_setTopic _ _ _).trans
        (pendingQuestions_setTask j _ ?_))⟩
      intro o ho
      rw [(find_eq_some.1 hfind).2] at ho
      cases ho
      rfl
  | askQuestion => cases hc
  | endAsk => cases hc
  | submitAnswer => cases hc
  | notify =>
    cases h
    exact ⟨rfl, rfl, fun _ => rfl⟩
  | subscribe =>
    cases h
    exact ⟨rfl, rfl, fun _ => rfl⟩
  | take =>
    cases h
    exact ⟨rfl, rfl, fun _ => rfl⟩
  | unsubscribe =>
    cases h
    exact ⟨rfl, rfl, fun _ => rfl⟩

theorem shown_askQuestion (hfind : e.find task_id = some (i, o)) (question : Question) (j : Nat) :
    (e.askQuestion task_id question).shown j = if j = i then some question else e.shown j := by
  have hi := (List.getElem?_eq_some_iff.1 (find_eq_some.1 hfind).2).1
  rw [← shown_setTask (fun task => { task with status := .waiting, pending_question := question })
    (some question) (fun _ => rfl) hi j, askQuestion, hfind]
  rfl

theorem endAsk_of_pending (ha : e.asks[k]? = some a) (hpending : a.pending = true)
    (hi : a.task < e.objects.length) : ∃ e', e.endAsk k = some e' ∧
      e'.asks = e.asks.modify k (fun a => { a with pending := false }) ∧
      e'.answer_futures = Function.update e.answer_futures a.task_id none ∧
      ∀ j, e'.shown j = if j = a.task then none else e.shown j := by
  obtain ⟨task_id, i, answer, pending⟩ := a
  obtain rfl : pending = true := hpending
  rw [endAsk, ha]
  refine ⟨_, rfl, rfl, rfl, ?_⟩
  intro j
  rw [← shown_setTask (fun task => { task with status := .running, pending_question := none })
    none (fun _ => rfl) hi j]
  rfl

theorem submitAnswer_of_slot (hslot : e.answer_futures task_id = some k)
    (ha : e.asks[k]? = some a) (answer : String) : e.submitAnswer task_id answer =
      if a.answer = none then
        (true, { e with asks := e.asks.modify k fun a => { a with answer := some answer } })
      else (false, e) := by
  obtain ⟨other, i, old, pending⟩ := a
  rw [submitAnswer, hslot]
  dsimp only
  rw [ha]
  cases old with
  | none => rfl
  | some old => rfl

/-- The table leads to tasks of their identifiers. -/
def Tabled (e : TaskEngine V) : Prop :=
  ∀ task_id i, e.tasks task_id = some i → e.ids[i]? = some task_id

theorem Tabled.step (h : Tabled e) (hstep : e.Step c e') : Tabled e' := by
  by_cases hsubmit : ∃ task_id name task_type metadata now,
      c = .submit task_id name task_type metadata now
  · obtain ⟨task_id, name, task_type, metadata, now, rfl⟩ := hsubmit
    cases hstep
    intro other i hi
    have htasks : (e.submit task_id name task_type metadata now).tasks other =
        if other = task_id then some e.objects.length else e.tasks other :=
      Function.update_apply _ _ _ _
    have hids : (e.submit task_id name task_type metadata now).ids = e.ids ++ [task_id] := by
      rw [submit, ids, ids, List.map_append]
      rfl
    have hlen : e.objects.length = e.ids.length := (List.length_map _).symm
    rw [htasks] at hi
    rw [hids]
    split at hi
    · rename_i hother
      rw [← Option.some.inj hi, hlen, List.getElem?_concat_length, hother]
    · have hold := h other i hi
      rw [List.getElem?_append_left (List.getElem?_eq_some_iff.1 hold).1, hold]
  · obtain ⟨htasks, hids⟩ := ids_step hstep fun _ _ _ _ _ hc => hsubmit ⟨_, _, _, _, _, hc⟩
    intro other i
    rw [htasks, hids]
    exact h other i

end TaskEngine

end ScottyCore.BackgroundTasks
