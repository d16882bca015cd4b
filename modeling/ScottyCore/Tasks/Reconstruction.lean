import ScottyCore.Tasks.Stream

namespace ScottyCore.TaskStream
open BackgroundTasks Broadcast TransitionSystem
set_option autoImplicit true

variable {V : Type} {e : TaskEngine V} {decodes : String → Bool} {encodes : V → Bool} {s s' : Stream V}
  {c : TaskCall V} {v v' : TaskView V} {task_id : String} {k : Nat} {sent : List String}

/-! ## Lines -/

def outputLine : TaskEvent V → Option String
  | .output line => some line
  | _ => none

def outputs (events : List (TaskEvent V)) : List String := events.filterMap outputLine

/-- The output lines that a message carries. -/
def messageLines : Message V → List String
  | .snapshot task => task.output_lines
  | .event event => outputs [event]
  | _ => []

def Stream.sentLines (s : Stream V) : List String := s.messages.flatMap messageLines

def messageIsDone : Message V → Bool
  | .event event => event.isDone
  | .done _ => true
  | _ => false

def Stream.SentDone (s : Stream V) : Prop := ∃ m ∈ s.messages, messageIsDone m = true

/-- The queue whose events are still to be sent. -/
def Phase.listens : Phase → Option Nat
  | streaming k => some k
  | sending k false => some k
  | _ => none

/-- The connection is open and `done` was not sent. -/
def Phase.Open (phase : Phase) : Prop :=
  phase = accepting ∨ (∃ i, phase = snapshot i) ∨ ∃ k, phase.listens = some k

def StreamCall.isOwn : StreamCall V → Bool
  | engine _ => false
  | _ => true

/-! ## The condition on a step -/

/-- Where the connection listens to a task: its queue has room for a line that is put there and for
`done`, no line waits when the task ends, and no line comes later. -/
def OutputSafe (s : Stream V) : TaskCall V → Prop
  | .finish i _ _ => s.engine.tasks s.task_id = some i → ∀ (k : Nat) (q : Queue (TaskEvent V)),
      s.phase.listens = some k → s.topic.queues[k]? = some q →
      outputs s.topic.scheduled = [] ∧ q.items.length < TaskEngine.maxsize
  | .notify task_id => task_id = s.task_id → ∀ (k : Nat) (q : Queue (TaskEvent V)) line,
      s.phase.listens = some k → s.topic.queues[k]? = some q →
      s.topic.scheduled.head? = some (.output line) → q.items.length < TaskEngine.maxsize
  | .emitOutput task_id _ => task_id = s.task_id → s.phase.listens ≠ none →
      (s.engine.view task_id).runner ≠ .finished
  | _ => True

/-- The condition on a step; between the snapshot and the subscription, the lines that the snapshot
lacks are those whose notifications still wait. -/
def StreamSafe (s : Stream V) : StreamCall V → Prop
  | .engine c => LifecycleSafe s.engine c ∧ OutputSafe s c
  | .resume => ∀ (i : Nat) (o : TaskObject V), s.phase = .snapshot i →
      s.engine.objects[i]? = some o →
      s.sentLines ++ (if o.task.status.IsTerminal then [] else outputs s.topic.scheduled) =
        o.task.output_lines
  | _ => True

/-! ## One task and one queue -/

/-- A task that has not finished has no `done` event on a queue. -/
structure ViewOk (v : TaskView V) : Prop where
  scheduled : ∀ event ∈ v.topic.scheduled, event.isDone = false
  items : v.runner ≠ .finished → ∀ q ∈ v.topic.queues, ∀ event ∈ q.items, event.isDone = false

/-- The first `done` event of a queue has no line behind it. -/
def Ends (events : List (TaskEvent V)) : Prop :=
  ∃ before event after, events = before ++ event :: after ∧ event.isDone = true ∧
    (∀ a ∈ before, a.isDone = false) ∧ outputs after = []

/-- What was sent, what is on the queue and what waits are the lines of the task. -/
def Listening (k : Nat) (sent : List String) (v : TaskView V) : Prop :=
  ∃ q : Queue (TaskEvent V), v.topic.queues[k]? = some q ∧ q.subscribed = true ∧
    sent ++ outputs (q.items ++ v.topic.scheduled) = v.lines ∧
    (v.runner = .finished → Ends q.items ∧ outputs v.topic.scheduled = [])

theorem outputs_append (events events' : List (TaskEvent V)) :
    outputs (events ++ events') = outputs events ++ outputs events' :=
  List.filterMap_append

theorem outputs_cons (event : TaskEvent V) (events : List (TaskEvent V)) :
    outputs (event :: events) = outputs [event] ++ outputs events :=
  outputs_append [event] events

theorem outputs_of_none {event : TaskEvent V} (h : outputLine event = none) : outputs [event] = [] :=
  List.filterMap_cons_none h

theorem outputLine_eq_none {event : TaskEvent V} (h : outputs [event] = []) :
    outputLine event = none := by
  cases hevent : outputLine event with
  | none => rfl
  | some line =>
    rw [outputs, List.filterMap_cons_some hevent] at h
    cases h

theorem eq_output_of_line {event : TaskEvent V} (h : outputLine event = some line) :
    event = .output line := by
  cases event with
  | output => exact congrArg _ (Option.some.inj h)
  | progress => cases h
  | question => cases h
  | done => cases h

theorem Ends.concat {events : List (TaskEvent V)} {event : TaskEvent V} (h : Ends events)
    (hevent : outputLine event = none) : Ends (events ++ [event]) := by
  obtain ⟨before, d, after, rfl, hdone, hbefore, hafter⟩ := h
  refine ⟨before, d, after ++ [event], ?_, hdone, hbefore, ?_⟩
  · rw [List.append_assoc, List.cons_append]
  · rw [outputs_append, hafter, outputs_of_none hevent]
    rfl

/-- An event that is no line changes no lines on a queue, whether it is put there or not. -/
theorem outputs_push {event : TaskEvent V} (hevent : outputLine event = none) (n : Nat)
    (q : Queue (TaskEvent V)) : outputs (q.push n event).items = outputs q.items := by
  rcases items_push event q with h | h
  · rw [h]
  · rw [h, outputs_append, outputs_of_none hevent, List.append_nil]

theorem Ends.push {q : Queue (TaskEvent V)} {event : TaskEvent V} (h : Ends q.items)
    (hevent : outputLine event = none) (n : Nat) : Ends (q.push n event).items := by
  rcases items_push event q with hsame | hpushed
  · rw [hsame]
    exact h
  · rw [hpushed]
    exact h.concat hevent

theorem ViewOk.notify {t : Topic (TaskEvent V)} {event : TaskEvent V} {n : Nat}
    (h : ∀ q ∈ t.queues, ∀ a ∈ q.items, a.isDone = false) (hevent : event.isDone = false) :
    ∀ q ∈ (t.notify n event).queues, ∀ a ∈ q.items, a.isDone = false := by
  intro q' hq' a ha
  obtain ⟨q, hq, rfl⟩ := List.mem_map.1 hq'
  rcases items_push event q with hsame | hpushed
  · rw [hsame] at ha
    exact h q hq a ha
  · rw [hpushed] at ha
    rcases List.mem_append.1 ha with ha | ha
    · exact h q hq a ha
    · rw [List.mem_singleton.1 ha]
      exact hevent

theorem ViewOk.step (h : ViewOk v) (hstep : ViewStep task_id slot v c v') : ViewOk v' := by
  obtain ⟨hscheduled, hitems⟩ := h
  cases hstep with
  | same => exact ⟨hscheduled, hitems⟩
  | start => exact ⟨hscheduled, fun _ => hitems fun hc => by cases hc⟩
  | drop => exact ⟨hscheduled, fun hc => (hc rfl).elim⟩
  | cancel => exact ⟨hscheduled, fun _ => hitems fun hc => by cases hc⟩
  | finish => exact ⟨hscheduled, fun hc => (hc rfl).elim⟩
  | emitOutput => exact ⟨quiet_concat hscheduled rfl, hitems⟩
  | updateProgress => exact ⟨quiet_concat hscheduled rfl, hitems⟩
  | askQuestion => exact ⟨hscheduled, fun hrunner => ViewOk.notify (hitems hrunner) rfl⟩
  | notify =>
    rw [Topic.deliver]
    split
    · exact ⟨hscheduled, hitems⟩
    · rename_i event scheduled hwaits
      rw [hwaits] at hscheduled
      have hevent := hscheduled event List.mem_cons_self
      exact ⟨fun a ha => hscheduled a (List.mem_cons_of_mem _ ha),
        fun hrunner => ViewOk.notify (hitems hrunner) hevent⟩
  | subscribe =>
    refine ⟨hscheduled, fun hrunner q hq => ?_⟩
    rcases List.mem_append.1 hq with hq | hq
    · exact hitems hrunner q hq
    · rw [List.mem_singleton.1 hq]
      intro a ha
      cases ha
  | take =>
    refine ⟨hscheduled, fun hrunner q hq => ?_⟩
    rcases mem_modify hq with hq | ⟨p, hp, rfl⟩
    · exact hitems hrunner q hq
    · intro a ha
      exact hitems hrunner p hp a (mem_items_take ha)
  | unsubscribe =>
    refine ⟨hscheduled, fun hrunner q hq => ?_⟩
    rcases mem_modify hq with hq | ⟨p, hp, rfl⟩
    · exact hitems hrunner q hq
    · exact hitems hrunner p hp

/-- The condition on a step of the engine, for the task and the queue that it changes. -/
def QueueSafe (k : Nat) (v : TaskView V) : TaskCall V → Prop
  | .finish _ _ _ => ∀ q : Queue (TaskEvent V), v.topic.queues[k]? = some q →
      outputs v.topic.scheduled = [] ∧ q.items.length < TaskEngine.maxsize
  | .notify _ => ∀ (q : Queue (TaskEvent V)) line, v.topic.queues[k]? = some q →
      v.topic.scheduled.head? = some (.output line) → q.items.length < TaskEngine.maxsize
  | .emitOutput _ _ => v.runner ≠ .finished
  | _ => True

theorem getElem?_notify {t : Topic α} {q : Queue α} (hq : t.queues[k]? = some q) (n : Nat) (a : α) :
    (t.notify n a).queues[k]? = some (q.push n a) := by
  rw [Topic.notify, List.getElem?_map, hq]
  rfl

/-- An event that is no line is put on the queues. -/
theorem Listening.push {t : Topic (TaskEvent V)} {event : TaskEvent V} {n : Nat} {emitted}
    (h : Listening k sent ⟨runner, lines, t⟩) (hevent : outputLine event = none) :
    Listening k sent ⟨runner, lines, { t with emitted }.notify n event⟩ := by
  obtain ⟨q, hq, hsub, hlines, hends⟩ := h
  refine ⟨q.push n event, getElem?_notify hq n event, (subscribed_push event q).trans hsub, ?_, ?_⟩
  · rw [outputs_append, outputs_push hevent, ← outputs_append]
    exact hlines
  · intro hfinished
    exact ⟨(hends hfinished).1.push hevent n, (hends hfinished).2⟩

theorem Listening.deliver {t : Topic (TaskEvent V)} (h : Listening k sent ⟨runner, lines, t⟩)
    (hsafe : ∀ (q : Queue (TaskEvent V)) line, t.queues[k]? = some q →
      t.scheduled.head? = some (.output line) → q.items.length < n) :
    Listening k sent ⟨runner, lines, t.deliver n⟩ := by
  rw [Topic.deliver]
  split
  · exact h
  rename_i event scheduled hwaits
  obtain ⟨q, hq, hsub, hlines, hends⟩ := h
  dsimp only at hq hlines hends
  rw [hwaits] at hsafe hlines hends
  refine ⟨q.push n event, getElem?_notify hq n event, (subscribed_push event q).trans hsub, ?_, ?_⟩
  · cases hevent : outputLine event with
    | none =>
      rw [outputs_append, outputs_cons, outputs_of_none hevent, List.nil_append] at hlines
      rw [outputs_append, outputs_push hevent]
      exact hlines
    | some line =>
      have hroom := hsafe q line hq (congrArg some (eq_output_of_line hevent))
      rw [items_push_of_room event hsub hroom, List.append_assoc]
      exact hlines
  · intro hfinished
    obtain ⟨hitems, hclear⟩ := hends hfinished
    rw [outputs_cons, List.append_eq_nil_iff] at hclear
    exact ⟨hitems.push (outputLine_eq_none hclear.1) n, hclear.2⟩

theorem Listening.step (h : Listening k sent v) (hstep : ViewStep task_id slot v c v')
    (hown : queueOf c ≠ some (task_id, k)) (hsafe : QueueSafe k v c) (hok : ViewOk v)
    (hentered : v.runner ≠ .created true) : Listening k sent v' := by
  have hall := h
  obtain ⟨q, hq, hsub, hlines, hends⟩ := h
  cases hstep with
  | same => exact hall
  | start => exact ⟨q, hq, hsub, hlines, fun hc => by cases hc⟩
  | drop => exact (hentered rfl).elim
  | cancel => exact ⟨q, hq, hsub, hlines, fun hc => by cases hc⟩
  | finish =>
    obtain ⟨hclear, hroom⟩ := hsafe q hq
    have hopen := hok.items (fun hc => by cases hc) q (List.mem_of_getElem? hq)
    refine ⟨_, getElem?_notify hq _ _, (subscribed_push _ q).trans hsub, ?_, fun _ => ⟨?_, hclear⟩⟩
    · rw [outputs_append, outputs_push rfl, ← outputs_append]
      exact hlines
    · rw [items_push_of_room _ hsub hroom]
      exact ⟨q.items, _, [], rfl, rfl, hopen, rfl⟩
  | emitOutput =>
    refine ⟨q, hq, hsub, ?_, fun hfinished => (hsafe hfinished).elim⟩
    dsimp only [Topic.emitLater]
    rw [← List.append_assoc, outputs_append, ← List.append_assoc]
    exact congrArg (· ++ [_]) hlines
  | updateProgress =>
    refine ⟨q, hq, hsub, ?_, fun hfinished => ⟨(hends hfinished).1, ?_⟩⟩
    · dsimp only [Topic.emitLater]
      rw [← List.append_assoc, outputs_append, outputs_of_none rfl, List.append_nil]
      exact hlines
    · dsimp only [Topic.emitLater]
      rw [outputs_append, outputs_of_none rfl, List.append_nil]
      exact (hends hfinished).2
  | askQuestion => exact Listening.push hall rfl
  | notify => exact Listening.deliver hall hsafe
  | subscribe =>
    refine ⟨q, ?_, hsub, hlines, hends⟩
    exact (List.getElem?_append_left (List.getElem?_eq_some_iff.1 hq).1).trans hq
  | take =>
    refine ⟨q, ?_, hsub, hlines, hends⟩
    rw [← hq]
    apply List.getElem?_modify_ne
    rintro rfl
    exact hown rfl
  | unsubscribe =>
    refine ⟨q, ?_, hsub, hlines, hends⟩
    rw [← hq]
    apply List.getElem?_modify_ne
    rintro rfl
    exact hown rfl

/-! ## The connection -/

/-- What holds of the engine, seen from a connection. -/
structure EngineFine (s : Stream V) : Prop where
  ok : EngineOk s.engine
  named : s.engine.Named
  view : ViewOk (s.engine.view s.task_id)

structure StreamOk (s : Stream V) : Prop where
  fine : EngineFine s
  snapshot : ∀ i, s.phase = .snapshot i → s.engine.tasks s.task_id = some i
  listening : ∀ k, s.phase.listens = some k →
    Listening k s.sentLines (s.engine.view s.task_id)

theorem entered_view (h : EngineOk e) (task_id : String) :
    (e.view task_id).runner ≠ .created true := by
  rw [TaskEngine.view]
  split
  · rename_i i o hfind
    exact h.entered o (List.mem_of_getElem? (h.find hfind).1)
  · intro hc
    cases hc

theorem draws_new_of_safe {e : TaskEngine V} (h : LifecycleSafe e c) : e.DrawsNew c := by
  intro task_id name task_type metadata now hc hmem
  obtain ⟨o, ho, hid⟩ := List.mem_map.1 hmem
  exact h.fresh task_id name task_type metadata now hc o ho hid

/-- A step that changes a task meets the condition for that task. -/
theorem OutputSafe.view (h : OutputSafe s c) (hk : s.phase.listens = some k)
    (hstep : ViewStep s.task_id (s.engine.tasks s.task_id) (s.engine.view s.task_id) c v') :
    v' = s.engine.view s.task_id ∨ QueueSafe k (s.engine.view s.task_id) c := by
  have htopic : s.topic = (s.engine.view s.task_id).topic :=
    (s.engine.topic_view s.task_id).symm
  generalize hslot : s.engine.tasks s.task_id = slot at hstep
  generalize hv : s.engine.view s.task_id = v at hstep htopic
  cases hstep with
  | same => exact .inl rfl
  | start => exact .inr trivial
  | drop => exact .inr trivial
  | cancel => exact .inr trivial
  | finish =>
    right
    have hqueue := h hslot k
    rw [htopic] at hqueue
    exact fun q hq => hqueue q hk hq
  | emitOutput =>
    right
    exact hv ▸ h rfl (by rw [hk]; exact Option.some_ne_none k)
  | updateProgress => exact .inr trivial
  | askQuestion => exact .inr trivial
  | notify =>
    right
    have hqueue := h rfl k
    rw [htopic] at hqueue
    exact fun q line hq => hqueue q line hk hq
  | subscribe => exact .inr trivial
  | take => exact .inr trivial
  | unsubscribe => exact .inr trivial

theorem StreamOk.engine {e : TaskEngine V} (h : StreamOk s) (hstep : s.engine.Step c e)
    (hown : ∀ k, s.phase.listens = some k → queueOf c ≠ some (s.task_id, k))
    (hsafe : LifecycleSafe s.engine c) (houtput : OutputSafe s c) :
    StreamOk { s with engine := e } := by
  have hnew := draws_new_of_safe hsafe
  have hview := TaskEngine.step_view h.fine.named hstep hnew s.task_id
  refine ⟨⟨(h.fine.ok.step hstep hsafe).ok, h.fine.named.step hstep hnew,
    h.fine.view.step hview⟩, ?_, ?_⟩
  · intro i hi
    exact h.fine.named.tasks_step hstep hnew (h.snapshot i hi)
  · intro k hk
    rcases houtput.view hk hview with hsame | hqueue
    · dsimp only
      rw [hsame]
      exact h.listening k hk
    · exact (h.listening k hk).step hview (hown k hk) hqueue h.fine.view
        (entered_view h.fine.ok s.task_id)

theorem queue_of_listens {phase : Phase} (h : phase.listens = some k) : phase.queue = some k := by
  cases phase with
  | streaming j => exact h
  | sending j last =>
    cases last with
    | true => cases h
    | false => exact h
  | _ => cases h

/-- The connection changes its topic. -/
theorem EngineFine.topic (h : EngineFine s) {t : Topic (TaskEvent V)}
    (ht : t.emitted = s.topic.emitted)
    (hstep : ViewStep s.task_id none ⟨runner, lines, s.topic⟩ c ⟨runner, lines, t⟩)
    (hview : s.engine.view s.task_id = ⟨runner, lines, s.topic⟩) :
    EngineFine { s with engine := s.engine.setTopic s.task_id t } := by
  refine ⟨(h.ok.topic s.task_id ht).ok, h.named, ?_⟩
  rw [TaskEngine.view_setTopic, hview]
  exact (hview ▸ h.view).step hstep

theorem view_eq (s : Stream V) :
    ∃ runner lines, s.engine.view s.task_id = ⟨runner, lines, s.topic⟩ := by
  refine ⟨(s.engine.view s.task_id).runner, (s.engine.view s.task_id).lines, ?_⟩
  rw [Stream.topic, ← TaskEngine.topic_view]

theorem EngineFine.leave (h : EngineFine s) (phase : Phase) : EngineFine (s.leave phase) := by
  obtain ⟨runner, lines, hview⟩ := view_eq s
  rw [Stream.leave]
  split
  · exact ⟨h.ok, h.named, h.view⟩
  · rename_i k hk
    have hfine := h.topic (t := s.topic.unsubscribe k) rfl .unsubscribe hview
    exact ⟨hfine.ok, hfine.named, hfine.view⟩

theorem phase_leave (phase : Phase) (s : Stream V) : (s.leave phase).phase = phase := by
  rw [Stream.leave]
  split
  · rfl
  · rfl

theorem messages_leave (phase : Phase) (s : Stream V) : (s.leave phase).messages = s.messages := by
  rw [Stream.leave]
  split
  · rfl
  · rfl

theorem StreamOk.leave (h : EngineFine s) (hsnapshot : ∀ i, phase ≠ .snapshot i)
    (hlistens : phase.listens = none) : StreamOk (s.leave phase) := by
  refine ⟨h.leave phase, ?_, ?_⟩
  · intro i hi
    rw [phase_leave] at hi
    exact (hsnapshot i hi).elim
  · intro k hk
    rw [phase_leave, hlistens] at hk
    cases hk

theorem StreamOk.sendJson {message : Message V} (h : EngineFine s)
    (hsent : StreamOk { s with messages := s.messages ++ [message], phase }) :
    StreamOk (s.sendJson encodes message phase) := by
  rw [Stream.sendJson]
  split
  · exact hsent
  · exact .leave h (fun _ hc => by cases hc) rfl

/-- Phases in which nothing is expected of the engine. -/
theorem StreamOk.idle {messages : List (Message V)} (h : EngineFine s)
    (hsnapshot : ∀ i, phase ≠ .snapshot i) (hlistens : phase.listens = none) :
    StreamOk { s with messages, phase } := by
  refine ⟨⟨h.ok, h.named, h.view⟩, ?_, ?_⟩
  · intro i hi
    exact (hsnapshot i hi).elim
  · intro k hk
    rw [hlistens] at hk
    cases hk

theorem sentLines_concat (s : Stream V) (message : Message V) (engine : TaskEngine V)
    (phase : Phase) :
    Stream.sentLines { s with engine, phase, messages := s.messages ++ [message] } =
      s.sentLines ++ messageLines message := by
  rw [Stream.sentLines, Stream.sentLines, List.flatMap_append, List.flatMap_singleton]

theorem StreamOk.resume (h : StreamOk s) (hstep : s.resume encodes = some s')
    (hsafe : StreamSafe s .resume) : StreamOk s' := by
  obtain ⟨runner, lines, hview⟩ := view_eq s
  rw [Stream.resume] at hstep
  split at hstep
  · split at hstep
    · cases hstep
      exact .sendJson h.fine (.idle h.fine (fun _ hc => by cases hc) rfl)
    · rename_i i o hfind
      cases hstep
      refine .sendJson h.fine ⟨⟨h.fine.ok, h.fine.named, h.fine.view⟩, ?_, fun _ hc => by cases hc⟩
      rintro _ ⟨⟩
      exact (TaskEngine.find_eq_some.1 hfind).1
  · rename_i i hphase
    split at hstep
    · cases hstep
    rename_i o ho
    split at hstep
    · cases hstep
      exact .sendJson h.fine (.idle h.fine (fun _ hc => by cases hc) rfl)
    · rename_i hopen
      cases hstep
      have hfine := h.fine.topic (t := s.topic.subscribe) rfl .subscribe hview
      refine ⟨⟨hfine.ok, hfine.named, hfine.view⟩, (fun _ hc => by cases hc), ?_⟩
      rintro _ ⟨⟩
      have hlines := hsafe i o hphase ho
      rw [if_neg hopen] at hlines
      have hfind := TaskEngine.find_eq_some.2 ⟨h.snapshot i hphase, ho⟩
      have hlife := h.fine.ok.life o (List.mem_of_getElem? ho)
      dsimp only
      rw [TaskEngine.view_setTopic, TaskEngine.view_of_find hfind]
      refine ⟨{}, List.getElem?_concat_length, rfl, hlines, ?_⟩
      intro hfinished
      exact (hopen (hlife.terminal.2 hfinished)).elim
  · cases hstep
    exact .leave h.fine (fun _ hc => by cases hc) rfl
  · rename_i k hphase
    cases hstep
    refine ⟨⟨h.fine.ok, h.fine.named, h.fine.view⟩, (fun _ hc => by cases hc), ?_⟩
    rintro _ ⟨⟩
    exact h.listening k (by rw [hphase]; rfl)
  · cases hstep
    exact .idle h.fine (fun _ hc => by cases hc) rfl
  · cases hstep

theorem Ends.tail {event : TaskEvent V} {events : List (TaskEvent V)} (h : Ends (event :: events))
    (hevent : event.isDone = false) : Ends events := by
  obtain ⟨before, d, after, hevents, hdone, hbefore, hafter⟩ := h
  cases before with
  | nil =>
    obtain ⟨rfl, -⟩ := List.cons.inj hevents
    rw [hdone] at hevent
    cases hevent
  | cons b before =>
    obtain ⟨-, rfl⟩ := List.cons.inj hevents
    exact ⟨before, d, after, rfl, hdone, fun a ha => hbefore a (List.mem_cons_of_mem _ ha), hafter⟩

theorem Listening.take {t : Topic (TaskEvent V)} {items : List (TaskEvent V)}
    (h : Listening k sent ⟨runner, lines, t⟩)
    (hqueue : t.queues[k]? = some ⟨event :: items, received, sub⟩) (hevent : event.isDone = false) :
    Listening k (sent ++ outputs [event]) ⟨runner, lines, t.take k⟩ := by
  obtain ⟨q, hq, hsub, hlines, hends⟩ := h
  dsimp only at hq hlines hends
  rw [hqueue] at hq
  cases hq
  refine ⟨⟨items, received ++ [event], sub⟩, ?_, hsub, ?_, ?_⟩
  · rw [Topic.take, List.getElem?_modify_eq, hqueue]
    rfl
  · rw [List.append_assoc, ← outputs_append]
    exact hlines
  · intro hfinished
    exact ⟨(hends hfinished).1.tail hevent, (hends hfinished).2⟩

theorem StreamOk.take (h : StreamOk s) (hstep : s.take encodes = some s') : StreamOk s' := by
  obtain ⟨runner, lines, hview⟩ := view_eq s
  rw [Stream.take] at hstep
  split at hstep
  · rename_i k hphase
    split at hstep
    · rename_i event items received sub hqueue
      cases hstep
      have hfine := h.fine.topic (t := s.topic.take k) rfl .take hview
      apply StreamOk.sendJson hfine
      refine ⟨⟨hfine.ok, hfine.named, hfine.view⟩, (fun _ hc => by cases hc), ?_⟩
      intro j hj
      cases hevent : event.isDone with
      | true =>
        rw [hevent] at hj
        cases hj
      | false =>
        rw [hevent] at hj
        cases hj
        have hlistens := h.listening k (by rw [hphase]; rfl)
        dsimp only
        rw [sentLines_concat, TaskEngine.view_setTopic, hview]
        exact (hview ▸ hlistens).take hqueue hevent
    · cases hstep
  · cases hstep

theorem StreamOk.timeout (h : StreamOk s) (hstep : s.timeout encodes = some s') : StreamOk s' := by
  rw [Stream.timeout] at hstep
  split at hstep
  · rename_i k hphase
    split at hstep
    · cases hstep
      refine .sendJson h.fine ⟨⟨h.fine.ok, h.fine.named, h.fine.view⟩, (fun _ hc => by cases hc), ?_⟩
      rintro _ ⟨⟩
      have hping : messageLines (.ping : Message V) = [] := rfl
      rw [sentLines_concat, hping, List.append_nil]
      exact h.listening k (by rw [hphase]; rfl)
    · cases hstep
  · cases hstep

theorem StreamOk.step {c : StreamCall V} (h : StreamOk s)
    (hstep : Guarded (Stream.Step decodes encodes) StreamSafe s c s') : StreamOk s' := by
  obtain ⟨hstep, hsafe⟩ := hstep
  cases c with
  | engine c =>
    rw [Stream.Step, Stream.perform] at hstep
    split at hstep
    · cases hstep
    rename_i hforeign
    obtain ⟨e, he, rfl⟩ := Option.map_eq_some_iff.1 hstep
    apply h.engine he _ hsafe.1 hsafe.2
    intro k hk hown
    rw [hown, Stream.queue, queue_of_listens hk] at hforeign
    exact hforeign ⟨Option.some_ne_none _, rfl⟩
  | handshake =>
    rw [Stream.Step, Stream.perform] at hstep
    split at hstep
    · cases hstep
      rw [Stream.handshake]
      split
      · exact .idle h.fine (fun _ hc => by cases hc) rfl
      · split
        · exact .idle h.fine (fun _ hc => by cases hc) rfl
        · exact .idle h.fine (fun _ hc => by cases hc) rfl
    · cases hstep
  | resume => exact h.resume hstep hsafe
  | take => exact h.take hstep
  | timeout => exact h.timeout hstep
  | disconnect =>
    rw [Stream.Step, Stream.perform] at hstep
    split at hstep
    · cases hstep
    · cases hstep
      exact .leave h.fine (fun _ hc => by cases hc) rfl

/-! ## `done` -/

theorem outputs_done {event : TaskEvent V} (h : event.isDone = true) : outputs [event] = [] := by
  cases event with
  | done => rfl
  | _ => cases h

/-- When `done` is taken from the queue, every line was sent. -/
theorem Listening.done {t : Topic (TaskEvent V)} {items : List (TaskEvent V)}
    (h : Listening k sent ⟨runner, lines, t⟩) (hok : ViewOk ⟨runner, lines, t⟩)
    (hqueue : t.queues[k]? = some ⟨event :: items, received, sub⟩) (hevent : event.isDone = true) :
    sent = lines := by
  obtain ⟨q, hq, hsub, hlines, hends⟩ := h
  dsimp only at hq hlines hends
  rw [hqueue] at hq
  cases hq
  have hfinished : runner = .finished := by
    by_contra hrunner
    have hopen := hok.items hrunner _ (List.mem_of_getElem? hqueue) event List.mem_cons_self
    rw [hevent] at hopen
    cases hopen
  obtain ⟨⟨before, d, after, hevents, hdone, hbefore, hafter⟩, hclear⟩ := hends hfinished
  cases before with
  | nil =>
    obtain ⟨rfl, rfl⟩ := List.cons.inj hevents
    rw [outputs_append, outputs_cons, outputs_done hevent, hafter, hclear] at hlines
    rw [← hlines]
    exact (List.append_nil sent).symm
  | cons b before =>
    obtain ⟨rfl, -⟩ := List.cons.inj hevents
    rw [hbefore event List.mem_cons_self] at hevent
    cases hevent

theorem not_sentDone (h : ¬ s.SentDone) (hmessages : s'.messages = s.messages) : ¬ s'.SentDone := by
  rw [Stream.SentDone, hmessages]
  exact h

/-- `send_json` sends a `done` that was not sent before. -/
theorem sentDone_sendJson {message : Message V} (h : (s.sendJson encodes message phase).SentDone)
    (hbefore : ¬ s.SentDone) :
    s.sendJson encodes message phase = { s with messages := s.messages ++ [message], phase } ∧
      messageIsDone message = true := by
  rw [Stream.sendJson] at h ⊢
  split at h
  · rename_i hdumps
    obtain ⟨m, hm, hdone⟩ := h
    rcases List.mem_append.1 hm with hm | hm
    · exact (hbefore ⟨m, hm, hdone⟩).elim
    · rw [if_pos hdumps]
      exact ⟨rfl, List.mem_singleton.1 hm ▸ hdone⟩
  · exact (not_sentDone hbefore (messages_leave _ _) h).elim

theorem messages_handshake (s : Stream V) : (s.handshake decodes).messages = s.messages := by
  rw [Stream.handshake]
  split
  · rfl
  · split
    · rfl
    · rfl

theorem lines_of_done {c : StreamCall V} (h : StreamOk s)
    (hstep : Guarded (Stream.Step decodes encodes) StreamSafe s c s') (hbefore : ¬ s.SentDone)
    (hafter : s'.SentDone) : s'.sentLines = (s'.engine.view s'.task_id).lines := by
  obtain ⟨hstep, hsafe⟩ := hstep
  cases c with
  | engine c =>
    rw [Stream.Step, Stream.perform] at hstep
    split at hstep
    · cases hstep
    · obtain ⟨e, -, rfl⟩ := Option.map_eq_some_iff.1 hstep
      exact (not_sentDone hbefore rfl hafter).elim
  | handshake =>
    rw [Stream.Step, Stream.perform] at hstep
    split at hstep
    · cases hstep
      exact (not_sentDone hbefore (messages_handshake s) hafter).elim
    · cases hstep
  | resume =>
    rw [Stream.Step, Stream.perform, Stream.resume] at hstep
    split at hstep
    · split at hstep
      · cases hstep
        cases (sentDone_sendJson hafter hbefore).2
      · cases hstep
        cases (sentDone_sendJson hafter hbefore).2
    · rename_i i hphase
      split at hstep
      · cases hstep
      rename_i o ho
      split at hstep
      · rename_i hterminal
        cases hstep
        have hlines := hsafe i o hphase ho
        rw [if_pos hterminal] at hlines
        have hfind := TaskEngine.find_eq_some.2 ⟨h.snapshot i hphase, ho⟩
        rw [(sentDone_sendJson hafter hbefore).1]
        dsimp only
        rw [sentLines_concat, TaskEngine.view_of_find hfind]
        exact hlines
      · cases hstep
        exact (not_sentDone hbefore rfl hafter).elim
    · cases hstep
      exact (not_sentDone hbefore (messages_leave _ s) hafter).elim
    · cases hstep
      exact (not_sentDone hbefore rfl hafter).elim
    · cases hstep
      exact (not_sentDone hbefore rfl hafter).elim
    · cases hstep
  | take =>
    obtain ⟨runner, lines, hview⟩ := view_eq s
    rw [Stream.Step, Stream.perform, Stream.take] at hstep
    split at hstep
    · rename_i k hphase
      split at hstep
      · rename_i event items received sub hqueue
        cases hstep
        obtain ⟨hsent, hdone⟩ := sentDone_sendJson hafter hbefore
        have hlistens := h.listening k (by rw [hphase]; rfl)
        rw [hsent]
        dsimp only
        rw [sentLines_concat, TaskEngine.view_setTopic, hview, messageLines, outputs_done hdone,
          List.append_nil]
        exact Listening.done (hview ▸ hlistens) (hview ▸ h.fine.view) hqueue hdone
      · cases hstep
    · cases hstep
  | timeout =>
    rw [Stream.Step, Stream.perform, Stream.timeout] at hstep
    split at hstep
    · split at hstep
      · cases hstep
        cases (sentDone_sendJson hafter hbefore).2
      · cases hstep
    · cases hstep
  | disconnect =>
    rw [Stream.Step, Stream.perform] at hstep
    split at hstep
    · cases hstep
    · cases hstep
      exact (not_sentDone hbefore (messages_leave _ s) hafter).elim

end ScottyCore.TaskStream
