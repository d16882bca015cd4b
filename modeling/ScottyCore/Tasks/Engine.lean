import Mathlib.Logic.Function.Basic
import ScottyCore.Lib.Broadcast

namespace ScottyCore
open Broadcast
set_option autoImplicit true

inductive TaskStatus where
  | pending
  | running
  | completed
  | failed
  | cancelled
  | waiting
  deriving DecidableEq

namespace TaskStatus

def value : TaskStatus → String
  | pending => "pending"
  | running => "running"
  | completed => "completed"
  | failed => "failed"
  | cancelled => "cancelled"
  | waiting => "waiting"

def IsTerminal (s : TaskStatus) : Prop := s = completed ∨ s = failed ∨ s = cancelled

instance (s : TaskStatus) : Decidable s.IsTerminal := inferInstanceAs (Decidable (_ ∨ _ ∨ _))

theorem not_terminal_pending : ¬ pending.IsTerminal := by decide

theorem not_terminal_running : ¬ running.IsTerminal := by decide

theorem not_terminal_waiting : ¬ waiting.IsTerminal := by decide

end TaskStatus

structure Question where
  question : String
  options : Option (List String)
  deriving DecidableEq

namespace BackgroundTasks

/-- `Task`; results and metadata are arbitrary values. -/
structure Task (V : Type) where
  id : String
  name : String
  task_type : String
  status : TaskStatus := .pending
  progress : Int := 0
  status_text : String := ""
  result : Option V := none
  error : String := ""
  output_lines : List String := []
  created_at : String
  started_at : Option String := none
  completed_at : Option String := none
  metadata : List (String × V)
  pending_question : Option Question := none
  deriving DecidableEq

/-- What `_notify` is given. -/
inductive TaskEvent (V : Type) where
  | output (line : String)
  | progress (value : Int) (status_text : String)
  | question (question : Question)
  | done (status : String) (result : Option V) (error : String)
  deriving DecidableEq

/-- The `asyncio.Task` of a task: before its first step, with a cancellation that was requested or
not, between its first step and its last, or finished. -/
inductive Runner where
  | created (cancelled : Bool)
  | running
  | finished
  deriving DecidableEq

/-- A task, as an object, with the `asyncio.Task` that runs it. -/
structure TaskObject (V : Type) where
  task : Task V
  runner : Runner := .created false
  deriving DecidableEq

/-- A call of `ask_question` that has begun, with the task it was made for. -/
structure Ask where
  task_id : String
  task : Nat
  answer : Option String := none
  pending : Bool := true
  deriving DecidableEq

/-- The engine. The tables `_tasks` and `_running` always hold the last task of an identifier, so
they are one table of objects; `topics` holds the queues of `_subscribers` and the notifications
that were scheduled. -/
structure TaskEngine (V : Type) where
  objects : List (TaskObject V) := []
  tasks : String → Option Nat := fun _ => none
  asks : List Ask := []
  answer_futures : String → Option Nat := fun _ => none
  topics : String → Topic (TaskEvent V) := fun _ => {}

/-- How the body of a task ends: it returns, is cancelled, raises an exception with a text, or
raises what `except Exception` does not catch or cannot print. -/
inductive BodyEnd (V : Type) where
  | returned (result : Option V)
  | cancelled
  | failed (error : String)
  | broken

namespace TaskEngine

variable {V : Type}

/-- The size of a subscriber's queue. -/
def maxsize : Nat := 256

/-- The task under an identifier, and which object it is. -/
def find (e : TaskEngine V) (task_id : String) : Option (Nat × TaskObject V) :=
  (e.tasks task_id).bind fun i => (e.objects[i]?).map fun o => (i, o)

def getTask (e : TaskEngine V) (task_id : String) : Option (Task V) :=
  (e.find task_id).map fun x => x.2.task

def setTopic (task_id : String) (t : Topic (TaskEvent V)) (e : TaskEngine V) : TaskEngine V :=
  { e with topics := Function.update e.topics task_id t }

theorem topics_setTopic (task_id : String) (t : Topic (TaskEvent V)) (e : TaskEngine V)
    (other : String) : (e.setTopic task_id t).topics other =
      if other = task_id then t else e.topics other :=
  Function.update_apply _ _ _ _

def setTask (i : Nat) (f : Task V → Task V) (e : TaskEngine V) : TaskEngine V :=
  { e with objects := e.objects.modify i fun o => { o with task := f o.task } }

def setRunner (i : Nat) (runner : Runner) (e : TaskEngine V) : TaskEngine V :=
  { e with objects := e.objects.modify i fun o => { o with runner } }

/-- `submit`; the new identifier is drawn. -/
def submit (task_id name task_type : String) (metadata : List (String × V)) (now : String)
    (e : TaskEngine V) : TaskEngine V :=
  { e with
    objects := e.objects ++
      [{ task := { id := task_id, name, task_type, created_at := now, metadata } }]
    tasks := Function.update e.tasks task_id (some e.objects.length) }

/-! ### `_run` -/

/-- The first step of a runner that nobody cancelled. -/
def start (i : Nat) (now : String) (e : TaskEngine V) : Option (TaskEngine V) :=
  match e.objects[i]? with
  | some ⟨_, .created false⟩ =>
    some ((e.setRunner i .running).setTask i fun task =>
      { task with status := .running, started_at := some now })
  | _ => none

/-- The first step of a runner that was cancelled before: `_run` is not entered. -/
def drop (i : Nat) (e : TaskEngine V) : Option (TaskEngine V) :=
  match e.objects[i]? with
  | some ⟨_, .created true⟩ => some (e.setRunner i .finished)
  | _ => none

/-- What the handlers of `_run` leave of a task. -/
def afterBody (task : Task V) : BodyEnd V → Task V
  | .returned result => { task with result, status := .completed, progress := 100 }
  | .cancelled => { task with status := .cancelled }
  | .failed error => { task with error, status := .failed }
  | .broken => task

/-- The body ends and the runner with it. Nothing is awaited in between. -/
def finish (i : Nat) (how : BodyEnd V) (now : String) (e : TaskEngine V) : Option (TaskEngine V) :=
  match e.objects[i]? with
  | some ⟨task, .running⟩ =>
    let task := { afterBody task how with completed_at := some now }
    let event := TaskEvent.done task.status.value task.result task.error
    some (((e.setRunner i .finished).setTask i fun _ => task).setTopic task.id
      ((e.topics task.id).emitNow maxsize event))
  | _ => none

/-- Whether a cancellation was requested. A running body is free to react. -/
def cancel (task_id : String) (e : TaskEngine V) : Bool × TaskEngine V :=
  match e.find task_id with
  | some (i, ⟨_, .created _⟩) => (true, e.setRunner i (.created true))
  | some (_, ⟨_, .running⟩) => (true, e)
  | _ => (false, e)

/-! ### In-task helpers -/

def emitOutput (task_id line : String) (e : TaskEngine V) : TaskEngine V :=
  match e.find task_id with
  | none => e
  | some (i, _) =>
    (e.setTask i fun task => { task with output_lines := task.output_lines ++ [line] }).setTopic
      task_id ((e.topics task_id).emitLater (.output line))

def updateProgress (task_id : String) (progress : Int) (status_text : String) (e : TaskEngine V) :
    TaskEngine V :=
  match e.find task_id with
  | none => e
  | some (i, ⟨task, _⟩) =>
    let task := { task with
      progress := min 100 (max 0 progress)
      status_text := if status_text ≠ "" then status_text else task.status_text }
    (e.setTask i fun _ => task).setTopic task_id
      ((e.topics task_id).emitLater (.progress task.progress task.status_text))

/-- `ask_question` up to its wait; an unknown task raises. -/
def askQuestion (task_id : String) (question : Question) (e : TaskEngine V) : TaskEngine V :=
  match e.find task_id with
  | none => e
  | some (i, _) =>
    let e := e.setTask i fun task =>
      { task with status := .waiting, pending_question := some question }
    let e : TaskEngine V := { e with
      asks := e.asks ++ [⟨task_id, i, none, true⟩]
      answer_futures := Function.update e.answer_futures task_id (some e.asks.length) }
    e.setTopic task_id ((e.topics task_id).emitNow maxsize (.question question))

/-- The rest of `ask_question`, however its wait ends. -/
def endAsk (k : Nat) (e : TaskEngine V) : Option (TaskEngine V) :=
  match e.asks[k]? with
  | some ⟨task_id, i, _, true⟩ =>
    let e : TaskEngine V := { e with
      asks := e.asks.modify k fun a => { a with pending := false }
      answer_futures := Function.update e.answer_futures task_id none }
    some (e.setTask i fun task => { task with status := .running, pending_question := none })
  | _ => none

def submitAnswer (task_id answer : String) (e : TaskEngine V) : Bool × TaskEngine V :=
  match e.answer_futures task_id with
  | none => (false, e)
  | some k =>
    match e.asks[k]? with
    | some ⟨_, _, none, _⟩ =>
      (true, { e with asks := e.asks.modify k fun a => { a with answer := some answer } })
    | _ => (false, e)

end TaskEngine

/-- The calls of the engine, the steps of the runners and of the notifications. -/
inductive TaskCall (V : Type) where
  | submit (task_id name task_type : String) (metadata : List (String × V)) (now : String)
  | start (i : Nat) (now : String)
  | drop (i : Nat)
  | finish (i : Nat) (how : BodyEnd V) (now : String)
  | cancel (task_id : String)
  | emitOutput (task_id line : String)
  | updateProgress (task_id : String) (progress : Int) (status_text : String)
  | askQuestion (task_id : String) (question : Question)
  | endAsk (k : Nat)
  | submitAnswer (task_id answer : String)
  | notify (task_id : String)
  | subscribe (task_id : String)
  | take (task_id : String) (k : Nat)
  | unsubscribe (task_id : String) (k : Nat)

open TaskEngine in
/-- One step, where it can be taken. -/
def TaskEngine.perform (c : TaskCall V) (e : TaskEngine V) : Option (TaskEngine V) :=
  match c with
  | .submit task_id name task_type metadata now =>
    some (e.submit task_id name task_type metadata now)
  | .start i now => e.start i now
  | .drop i => e.drop i
  | .finish i how now => e.finish i how now
  | .cancel task_id => some (e.cancel task_id).2
  | .emitOutput task_id line => some (e.emitOutput task_id line)
  | .updateProgress task_id progress status_text =>
    some (e.updateProgress task_id progress status_text)
  | .askQuestion task_id question => some (e.askQuestion task_id question)
  | .endAsk k => e.endAsk k
  | .submitAnswer task_id answer => some (e.submitAnswer task_id answer).2
  | .notify task_id => some (e.setTopic task_id ((e.topics task_id).deliver maxsize))
  | .subscribe task_id => some (e.setTopic task_id (e.topics task_id).subscribe)
  | .take task_id k => some (e.setTopic task_id ((e.topics task_id).take k))
  | .unsubscribe task_id k => some (e.setTopic task_id ((e.topics task_id).unsubscribe k))

def TaskEngine.Step (e : TaskEngine V) (c : TaskCall V) (e' : TaskEngine V) : Prop :=
  e.perform c = some e'

end BackgroundTasks

end ScottyCore
