import ScottyCore.Tasks.Lifecycle
import ScottyCore.Tasks.Views

namespace ScottyCore.TaskStream
open BackgroundTasks Broadcast TransitionSystem
set_option autoImplicit true

/-- What is sent to the client. -/
inductive Message (V : Type) where
  | snapshot (task : BackgroundTasks.Task V)
  | event (event : TaskEvent V)
  | done (status : String)
  | error (message : String)
  | ping

/-- Where `task_stream` waits. -/
inductive Phase where
  | connecting
  | accepting
  | snapshot (i : Nat)
  | streaming (k : Nat)
  | sending (k : Nat) (last : Bool)
  | closing
  | closed
  | broken
  deriving DecidableEq

/-- The subscriber's queue, while the handler is in its `try`. -/
def Phase.queue : Phase → Option Nat
  | streaming k => some k
  | sending k _ => some k
  | _ => none

/-- One connection, next to the engine. -/
structure Stream (V : Type) where
  engine : TaskEngine V
  task_id : String
  token : Option String
  phase : Phase := .connecting
  messages : List (Message V) := []

/-- What the connection does, and what everything else does to the engine. -/
inductive StreamCall (V : Type) where
  | engine (c : TaskCall V)
  | handshake
  | resume
  | take
  | timeout
  | disconnect

/-- Reading from a queue and giving it up are left to the subscriber who has it. -/
def queueOf {V : Type} : TaskCall V → Option (String × Nat)
  | .take task_id k => some (task_id, k)
  | .unsubscribe task_id k => some (task_id, k)
  | _ => none

namespace Stream

variable {V : Type} (decodes : String → Bool) (encodes : V → Bool)

def topic (s : Stream V) : Topic (TaskEvent V) := s.engine.topics s.task_id

def queue (s : Stream V) : Option (String × Nat) := s.phase.queue.map fun k => (s.task_id, k)

/-- The end of the handler, with its `finally`. -/
def leave (phase : Phase) (s : Stream V) : Stream V :=
  match s.phase.queue with
  | none => { s with phase }
  | some k => { s with engine := s.engine.setTopic s.task_id (s.topic.unsubscribe k), phase }

/-- Whether `json.dumps` takes a message; results and metadata are arbitrary values. -/
def dumps : Message V → Bool
  | .snapshot task => task.result.all encodes && task.metadata.all fun x => encodes x.2
  | .event (.done _ result _) => result.all encodes
  | _ => true

/-- `send_json` up to its wait; what it raises ends the handler. -/
def sendJson (message : Message V) (phase : Phase) (s : Stream V) : Stream V :=
  if dumps encodes message then { s with messages := s.messages ++ [message], phase }
  else s.leave .broken

/-- `task_stream` up to `accept`. -/
def handshake (s : Stream V) : Stream V :=
  match s.token with
  | none => { s with phase := .accepting }
  | some token =>
    if token ≠ "" ∧ decodes token = false then { s with phase := .closing }
    else { s with phase := .accepting }

/-- From the end of one wait to the next. -/
def resume (s : Stream V) : Option (Stream V) :=
  match s.phase with
  | .accepting =>
    match s.engine.find s.task_id with
    | none => some (s.sendJson encodes (.error "Task not found") .closing)
    | some (i, o) => some (s.sendJson encodes (.snapshot o.task) (.snapshot i))
  | .snapshot i =>
    match s.engine.objects[i]? with
    | none => none
    | some o =>
      if o.task.status.IsTerminal then some (s.sendJson encodes (.done o.task.status.value) .closing)
      else some { s with
        engine := s.engine.setTopic s.task_id s.topic.subscribe
        phase := .streaming s.topic.queues.length }
  | .sending _ true => some (s.leave .closed)
  | .sending k false => some { s with phase := .streaming k }
  | .closing => some { s with phase := .closed }
  | _ => none

/-- `queue.get` returns an event, which is sent. -/
def take (s : Stream V) : Option (Stream V) :=
  match s.phase with
  | .streaming k =>
    match s.topic.queues[k]? with
    | some ⟨event :: _, _, _⟩ =>
      some (sendJson encodes (.event event) (.sending k event.isDone)
        { s with engine := s.engine.setTopic s.task_id (s.topic.take k) })
    | _ => none
  | _ => none

/-- `queue.get` waited thirty seconds for an empty queue. -/
def timeout (s : Stream V) : Option (Stream V) :=
  match s.phase with
  | .streaming k =>
    match s.topic.queues[k]? with
    | some ⟨[], _, _⟩ => some (s.sendJson encodes .ping (.sending k false))
    | _ => none
  | _ => none

def perform (c : StreamCall V) (s : Stream V) : Option (Stream V) :=
  match c with
  | .engine c =>
    if queueOf c ≠ none ∧ queueOf c = s.queue then none
    else (s.engine.perform c).map fun engine => { s with engine }
  | .handshake => if s.phase = .connecting then some (s.handshake decodes) else none
  | .resume => s.resume encodes
  | .take => s.take encodes
  | .timeout => s.timeout encodes
  | .disconnect =>
    if s.phase = .connecting ∨ s.phase = .closed ∨ s.phase = .broken then none
    else some (s.leave .broken)

def Step (s : Stream V) (c : StreamCall V) (s' : Stream V) : Prop :=
  s.perform decodes encodes c = some s'

end Stream

end ScottyCore.TaskStream
