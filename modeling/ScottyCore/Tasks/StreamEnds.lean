import ScottyCore.Tasks.Reconstruction

namespace ScottyCore.TaskStream
open BackgroundTasks Broadcast TransitionSystem
set_option autoImplicit true

variable {V : Type} {decodes : String → Bool} {encodes : V → Bool} {s s' : Stream V}
  {v v' : TaskView V} {k n : Nat}

/-- A `done` event is on the queue, behind some others. -/
def Ahead (k n : Nat) (v : TaskView V) : Prop :=
  ∃ (q : Queue (TaskEvent V)) (before : List (TaskEvent V)) (event : TaskEvent V)
    (after : List (TaskEvent V)), v.topic.queues[k]? = some q ∧
    q.items = before ++ event :: after ∧ event.isDone = true ∧ before.length = n

/-- How many steps of its own a connection is away from `done`, once the task has finished. -/
inductive Remaining (s : Stream V) : Nat → Prop where
  | accepting : s.phase = .accepting → Remaining s 2
  | snapshot : s.phase = .snapshot i → Remaining s 1
  | streaming : s.phase = .streaming j → Ahead j m (s.engine.view s.task_id) →
      Remaining s (2 * m + 1)
  | sending : s.phase = .sending j false → Ahead j m (s.engine.view s.task_id) →
      Remaining s (2 * m + 2)

/-! ## What every step keeps -/

structure Kept (s s' : Stream V) : Prop where
  task_id : s'.task_id = s.task_id
  ended : (s.engine.view s.task_id).runner = .finished →
    (s'.engine.view s.task_id).runner = .finished
  messages : s.messages <+: s'.messages
  broken : s.phase = .broken → s'.phase = .broken

theorem Kept.leave (s : Stream V) (h : s.phase = .broken → phase = .broken) :
    Kept s (s.leave phase) := by
  rw [Stream.leave]
  split
  · exact ⟨rfl, id, List.prefix_rfl, h⟩
  · refine ⟨rfl, ?_, List.prefix_rfl, h⟩
    intro hended
    rw [TaskEngine.view_setTopic]
    exact hended

theorem Kept.sendJson (message : Message V) (s : Stream V) (h : s.phase ≠ .broken) :
    Kept s (s.sendJson encodes message phase) := by
  rw [Stream.sendJson]
  split
  · exact ⟨rfl, id, List.prefix_append _ _, fun hbroken => (h hbroken).elim⟩
  · exact .leave s fun _ => rfl

theorem Kept.topic (t : Topic (TaskEvent V)) (h : s.phase ≠ .broken)
    (h' : Kept { s with engine := s.engine.setTopic s.task_id t } s') : Kept s s' := by
  refine ⟨h'.task_id, ?_, h'.messages, fun hbroken => (h hbroken).elim⟩
  intro hended
  apply h'.ended
  rw [TaskEngine.view_setTopic]
  exact hended

theorem Kept.phase (h : s.phase ≠ .broken) (phase : Phase) : Kept s { s with phase } :=
  ⟨rfl, id, List.prefix_rfl, fun hbroken => (h hbroken).elim⟩

theorem finished_step (h : ViewStep task_id slot v c v') (hfinished : v.runner = .finished) :
    v'.runner = .finished := by
  cases h with
  | same => exact hfinished
  | start => cases hfinished
  | drop => rfl
  | cancel => cases hfinished
  | finish => rfl
  | emitOutput => exact hfinished
  | updateProgress => exact hfinished
  | askQuestion => exact hfinished
  | notify => exact hfinished
  | subscribe => exact hfinished
  | take => exact hfinished
  | unsubscribe => exact hfinished

theorem kept_step {c : StreamCall V} (h : StreamOk s)
    (hstep : Guarded (Stream.Step decodes encodes) StreamSafe s c s') : Kept s s' := by
  obtain ⟨hstep, hsafe⟩ := hstep
  cases c with
  | engine c =>
    rw [Stream.Step, Stream.perform] at hstep
    split at hstep
    · cases hstep
    · obtain ⟨e, he, rfl⟩ := Option.map_eq_some_iff.1 hstep
      refine ⟨rfl, ?_, List.prefix_rfl, id⟩
      exact finished_step
        (TaskEngine.step_view h.fine.named he (draws_new_of_safe hsafe.1) s.task_id)
  | handshake =>
    rw [Stream.Step, Stream.perform] at hstep
    split at hstep
    · rename_i hphase
      have hnot : s.phase ≠ .broken := by
        rw [hphase]
        intro hc
        cases hc
      cases hstep
      rw [Stream.handshake]
      split
      · exact .phase hnot _
      · split
        · exact .phase hnot _
        · exact .phase hnot _
    · cases hstep
  | resume =>
    have hnot : s.phase ≠ .broken := by
      intro hphase
      rw [Stream.Step, Stream.perform, Stream.resume, hphase] at hstep
      cases hstep
    rw [Stream.Step, Stream.perform, Stream.resume] at hstep
    split at hstep
    · split at hstep
      · cases hstep
        exact .sendJson _ s hnot
      · cases hstep
        exact .sendJson _ s hnot
    · split at hstep
      · cases hstep
      · split at hstep
        · cases hstep
          exact .sendJson _ s hnot
        · cases hstep
          exact .topic s.topic.subscribe hnot
            ⟨rfl, id, List.prefix_rfl, fun hbroken => (hnot hbroken).elim⟩
    · cases hstep
      exact .leave s fun hbroken => (hnot hbroken).elim
    · cases hstep
      exact .phase hnot _
    · cases hstep
      exact .phase hnot _
    · cases hstep
  | take =>
    rw [Stream.Step, Stream.perform, Stream.take] at hstep
    split at hstep
    · rename_i k hphase
      have hnot : s.phase ≠ .broken := by
        rw [hphase]
        intro hc
        cases hc
      split at hstep
      · cases hstep
        exact .topic (s.topic.take k) hnot (.sendJson _ _ hnot)
      · cases hstep
    · cases hstep
  | timeout =>
    rw [Stream.Step, Stream.perform, Stream.timeout] at hstep
    split at hstep
    · rename_i k hphase
      have hnot : s.phase ≠ .broken := by
        rw [hphase]
        intro hc
        cases hc
      split at hstep
      · cases hstep
        exact .sendJson _ s hnot
      · cases hstep
    · cases hstep
  | disconnect =>
    rw [Stream.Step, Stream.perform] at hstep
    split at hstep
    · cases hstep
    · cases hstep
      exact .leave s fun _ => rfl

theorem sentDone_mono (h : s.SentDone) (hmessages : s.messages <+: s'.messages) :
    s'.SentDone := by
  obtain ⟨m, hm, hdone⟩ := h
  exact ⟨m, hmessages.subset hm, hdone⟩

/-! ## Towards `done` -/

theorem items_notify {t : Topic α} {q : Queue α} (hq : t.queues[k]? = some q) (n : Nat) (a : α) :
    ∃ q' : Queue α, (t.notify n a).queues[k]? = some q' ∧ q.items <+: q'.items := by
  refine ⟨_, getElem?_notify hq n a, ?_⟩
  rcases items_push a q with hsame | hpushed
  · exact hsame ▸ List.prefix_rfl
  · rw [hpushed]
    exact List.prefix_append _ _

/-- Nobody else takes from the queue. -/
theorem items_step {q : Queue (TaskEvent V)} (h : ViewStep task_id slot v c v')
    (hown : queueOf c ≠ some (task_id, k)) (hq : v.topic.queues[k]? = some q) :
    ∃ q' : Queue (TaskEvent V), v'.topic.queues[k]? = some q' ∧ q.items <+: q'.items := by
  cases h with
  | same => exact ⟨q, hq, List.prefix_rfl⟩
  | start => exact ⟨q, hq, List.prefix_rfl⟩
  | drop => exact ⟨q, hq, List.prefix_rfl⟩
  | cancel => exact ⟨q, hq, List.prefix_rfl⟩
  | finish => exact items_notify hq _ _
  | emitOutput => exact ⟨q, hq, List.prefix_rfl⟩
  | updateProgress => exact ⟨q, hq, List.prefix_rfl⟩
  | askQuestion => exact items_notify hq _ _
  | notify =>
    dsimp only [Topic.deliver]
    split
    · exact ⟨q, hq, List.prefix_rfl⟩
    · exact items_notify hq _ _
  | subscribe =>
    refine ⟨q, ?_, List.prefix_rfl⟩
    exact (List.getElem?_append_left (List.getElem?_eq_some_iff.1 hq).1).trans hq
  | take =>
    refine ⟨q, ?_, List.prefix_rfl⟩
    rw [← hq]
    apply List.getElem?_modify_ne
    rintro rfl
    exact hown rfl
  | unsubscribe =>
    refine ⟨q, ?_, List.prefix_rfl⟩
    rw [← hq]
    apply List.getElem?_modify_ne
    rintro rfl
    exact hown rfl

theorem Ahead.step (h : Ahead k n v) (hstep : ViewStep task_id slot v c v')
    (hown : queueOf c ≠ some (task_id, k)) : Ahead k n v' := by
  obtain ⟨q, before, event, after, hq, hitems, hdone, hlength⟩ := h
  obtain ⟨q', hq', later, hlater⟩ := items_step hstep hown hq
  refine ⟨q', before, event, after ++ later, hq', ?_, hdone, hlength⟩
  rw [← hlater, hitems, List.append_assoc, List.cons_append]

theorem Remaining.start (h : StreamOk s) (hopen : s.phase.Open)
    (hfinished : (s.engine.view s.task_id).runner = .finished) : ∃ n, Remaining s n := by
  rcases hopen with hphase | ⟨i, hphase⟩ | ⟨k, hk⟩
  · exact ⟨2, .accepting hphase⟩
  · exact ⟨1, .snapshot hphase⟩
  · obtain ⟨q, hq, -, -, hends⟩ := h.listening k hk
    obtain ⟨⟨before, event, after, hitems, hdone, -, -⟩, -⟩ := hends hfinished
    have hahead : Ahead k before.length (s.engine.view s.task_id) :=
      ⟨q, before, event, after, hq, hitems, hdone, rfl⟩
    cases hphase : s.phase with
    | streaming j =>
      rw [hphase] at hk
      cases hk
      exact ⟨_, .streaming hphase hahead⟩
    | sending j last =>
      rw [hphase] at hk
      cases last with
      | true => cases hk
      | false =>
        cases hk
        exact ⟨_, .sending hphase hahead⟩
    | _ =>
      rw [hphase] at hk
      cases hk

/-- What a message that is sent brings about. -/
theorem sendJson_cases (message : Message V) (phase : Phase) (s : Stream V) :
    (s.sendJson encodes message phase).phase = .broken ∨
      s.sendJson encodes message phase =
        { s with messages := s.messages ++ [message], phase } := by
  rw [Stream.sendJson]
  split
  · exact .inr rfl
  · exact .inl (phase_leave _ s)

/-- The connection broke, or `done` was sent, or it is nearer by the steps of its own. -/
def Nearer (own n : Nat) (s : Stream V) : Prop :=
  s.phase = .broken ∨ s.SentDone ∨ ∃ m, Remaining s m ∧ own + m ≤ n

theorem find_of_finished {e : TaskEngine V} {task_id : String}
    (h : (e.view task_id).runner = .finished) :
    ∃ i o, e.find task_id = some (i, o) ∧ o.runner = .finished := by
  cases hfind : e.find task_id with
  | none =>
    rw [TaskEngine.view, hfind] at h
    cases h
  | some x =>
    obtain ⟨i, o⟩ := x
    rw [TaskEngine.view_of_find hfind] at h
    exact ⟨i, o, rfl, h⟩

theorem Remaining.resume (h : Remaining s n) (hok : StreamOk s)
    (hfinished : (s.engine.view s.task_id).runner = .finished)
    (hstep : s.resume encodes = some s') : Nearer 1 n s' := by
  obtain ⟨i, o, hfind, hrunner⟩ := find_of_finished hfinished
  obtain ⟨hi, ho⟩ := TaskEngine.find_eq_some.1 hfind
  cases h with
  | accepting hphase =>
    rw [Stream.resume, hphase] at hstep
    dsimp only at hstep
    rw [hfind] at hstep
    cases hstep
    rcases sendJson_cases (.snapshot o.task) (.snapshot i) s with hbroken | hsent
    · exact .inl hbroken
    · rw [hsent]
      exact .inr (.inr ⟨1, .snapshot rfl, Nat.le_refl 2⟩)
  | @snapshot j hphase =>
    have hj := hok.snapshot j hphase
    rw [hi] at hj
    cases hj
    have hterminal := (hok.fine.ok.life o (List.mem_of_getElem? ho)).terminal.2 hrunner
    rw [Stream.resume, hphase] at hstep
    dsimp only at hstep
    rw [ho] at hstep
    dsimp only at hstep
    rw [if_pos hterminal] at hstep
    cases hstep
    rcases sendJson_cases (.done o.task.status.value) .closing s with hbroken | hsent
    · exact .inl hbroken
    · rw [hsent]
      exact .inr (.inl ⟨_, List.mem_concat_self, rfl⟩)
  | streaming hphase hahead =>
    rw [Stream.resume, hphase] at hstep
    cases hstep
  | @sending k m hphase hahead =>
    rw [Stream.resume, hphase] at hstep
    cases hstep
    refine .inr (.inr ⟨2 * m + 1, .streaming rfl hahead, ?_⟩)
    omega

theorem Ahead.take {event : TaskEvent V} {items : List (TaskEvent V)}
    (h : Ahead k n v) (hqueue : v.topic.queues[k]? = some ⟨event :: items, received, sub⟩) :
    event.isDone = true ∨ ∃ m, n = m + 1 ∧ Ahead k m { v with topic := v.topic.take k } := by
  obtain ⟨q, before, d, after, hq, hitems, hdone, hlength⟩ := h
  rw [hqueue] at hq
  cases hq
  cases before with
  | nil =>
    obtain ⟨rfl, -⟩ := List.cons.inj hitems
    exact .inl hdone
  | cons b before =>
    obtain ⟨-, rfl⟩ := List.cons.inj hitems
    refine .inr ⟨before.length, hlength.symm, ?_⟩
    refine ⟨⟨before ++ d :: after, received ++ [event], sub⟩, before, d, after, ?_, rfl, hdone, rfl⟩
    dsimp only [Topic.take]
    rw [List.getElem?_modify_eq, hqueue]
    rfl

theorem Remaining.take (h : Remaining s n) (hstep : s.take encodes = some s') : Nearer 1 n s' := by
  rw [Stream.take] at hstep
  split at hstep
  · rename_i k hphase
    split at hstep
    · rename_i event items received sub hqueue
      cases hstep
      rcases sendJson_cases (.event event) (.sending k event.isDone)
        { s with engine := s.engine.setTopic s.task_id (s.topic.take k) } with hbroken | hsent
      · exact .inl hbroken
      rw [hsent]
      cases h with
      | accepting hother => cases hphase.symm.trans hother
      | snapshot hother => cases hphase.symm.trans hother
      | sending hother => cases hphase.symm.trans hother
      | @streaming j m hother hahead =>
        cases hphase.symm.trans hother
        have htopic : (s.engine.view s.task_id).topic = s.topic := s.engine.topic_view s.task_id
        rcases hahead.take (htopic ▸ hqueue) with hdone | ⟨m, rfl, hahead'⟩
        · exact .inr (.inl ⟨_, List.mem_concat_self, hdone⟩)
        · cases hevent : event.isDone with
          | true => exact .inr (.inl ⟨_, List.mem_concat_self, hevent⟩)
          | false =>
            refine .inr (.inr ⟨2 * m + 2, .sending rfl ?_, by omega⟩)
            dsimp only
            rw [TaskEngine.view_setTopic]
            exact htopic ▸ hahead'
    · cases hstep
  · cases hstep

/-- A queue with `done` on it is not empty. -/
theorem Remaining.timeout (h : Remaining s n) : s.timeout encodes = none := by
  rw [Stream.timeout]
  split
  · rename_i k hphase
    split
    · rename_i received sub hqueue
      cases h with
      | accepting hother => cases hphase.symm.trans hother
      | snapshot hother => cases hphase.symm.trans hother
      | sending hother => cases hphase.symm.trans hother
      | @streaming j m hother hahead =>
        cases hphase.symm.trans hother
        obtain ⟨q, before, event, after, hq, hitems, -, -⟩ := hahead
        rw [TaskEngine.topic_view] at hq
        cases hqueue.symm.trans hq
        exact (List.append_ne_nil_of_right_ne_nil _ (List.cons_ne_nil _ _) hitems.symm).elim
    · rfl
  · rfl

theorem Remaining.step {c : StreamCall V} (h : Remaining s n) (hok : StreamOk s)
    (hfinished : (s.engine.view s.task_id).runner = .finished)
    (hstep : Guarded (Stream.Step decodes encodes) StreamSafe s c s') :
    Nearer (if c.isOwn then 1 else 0) n s' := by
  obtain ⟨hstep, hsafe⟩ := hstep
  cases c with
  | engine c =>
    rw [Stream.Step, Stream.perform] at hstep
    split at hstep
    · cases hstep
    rename_i hforeign
    obtain ⟨e, he, rfl⟩ := Option.map_eq_some_iff.1 hstep
    have hview := TaskEngine.step_view hok.fine.named he (draws_new_of_safe hsafe.1) s.task_id
    have hown : ∀ k, s.phase.queue = some k → queueOf c ≠ some (s.task_id, k) := by
      intro k hk hown
      rw [hown, Stream.queue, hk] at hforeign
      exact hforeign ⟨Option.some_ne_none _, rfl⟩
    refine .inr (.inr ⟨n, ?_, Nat.le_of_eq (Nat.zero_add n)⟩)
    cases h with
    | accepting hphase => exact .accepting hphase
    | snapshot hphase => exact .snapshot hphase
    | streaming hphase hahead =>
      exact .streaming hphase (hahead.step hview (hown _ (by rw [hphase]; rfl)))
    | sending hphase hahead =>
      exact .sending hphase (hahead.step hview (hown _ (by rw [hphase]; rfl)))
  | handshake =>
    rw [Stream.Step, Stream.perform] at hstep
    split at hstep
    · rename_i hphase
      cases h with
      | accepting hother => cases hphase.symm.trans hother
      | snapshot hother => cases hphase.symm.trans hother
      | sending hother => cases hphase.symm.trans hother
      | streaming hother => cases hphase.symm.trans hother
    · cases hstep
  | resume => exact h.resume hok hfinished hstep
  | take => exact h.take hstep
  | timeout =>
    rw [Stream.Step, Stream.perform, h.timeout] at hstep
    cases hstep
  | disconnect =>
    rw [Stream.Step, Stream.perform] at hstep
    split at hstep
    · cases hstep
    · cases hstep
      exact .inl (phase_leave _ s)

/-- A connection on its way to `done` has a step of its own to take. -/
theorem Remaining.enabled (h : Remaining s n) (hok : StreamOk s)
    (hfinished : (s.engine.view s.task_id).runner = .finished) :
    ∃ c : StreamCall V, c.isOwn = true ∧ ∃ s', s.Step decodes encodes c s' := by
  obtain ⟨i, o, hfind, hrunner⟩ := find_of_finished hfinished
  obtain ⟨hi, ho⟩ := TaskEngine.find_eq_some.1 hfind
  cases h with
  | accepting hphase =>
    have hresume : ∃ s', s.resume encodes = some s' := by
      rw [Stream.resume, hphase]
      dsimp only
      rw [hfind]
      exact ⟨_, rfl⟩
    exact ⟨.resume, rfl, hresume⟩
  | @snapshot j hphase =>
    have hj := hok.snapshot j hphase
    rw [hi] at hj
    cases hj
    have hterminal := (hok.fine.ok.life o (List.mem_of_getElem? ho)).terminal.2 hrunner
    have hresume : ∃ s', s.resume encodes = some s' := by
      rw [Stream.resume, hphase]
      dsimp only
      rw [ho]
      dsimp only
      rw [if_pos hterminal]
      exact ⟨_, rfl⟩
    exact ⟨.resume, rfl, hresume⟩
  | streaming hphase hahead =>
    obtain ⟨⟨items, received, sub⟩, before, event, after, hq, hitems, -, -⟩ := hahead
    rw [TaskEngine.topic_view] at hq
    have htake : ∃ s', s.take encodes = some s' := by
      rw [Stream.take, hphase]
      dsimp only at hitems ⊢
      rw [Stream.topic, hq, hitems]
      cases before with
      | nil => exact ⟨_, rfl⟩
      | cons => exact ⟨_, rfl⟩
    exact ⟨.take, rfl, htake⟩
  | sending hphase hahead =>
    have hresume : ∃ s', s.resume encodes = some s' := by
      rw [Stream.resume, hphase]
      exact ⟨_, rfl⟩
    exact ⟨.resume, rfl, hresume⟩

/-! ## Runs -/

theorem streamOk_new (task_id : String) (token : Option String) :
    StreamOk ({ engine := {}, task_id, token } : Stream V) := by
  refine ⟨⟨engineOk_new, ?_, ?_, ?_⟩, (fun _ hc => by cases hc), fun _ hc => by cases hc⟩
  · intro task_id i
    exact iff_of_false (fun hi => by cases hi) (fun hi => by cases hi)
  · intro event hevent
    cases hevent
  · intro _ q hq
    cases hq

theorem streamOk_run (h : Run (Guarded (Stream.Step decodes encodes) StreamSafe) s cs s')
    (hok : StreamOk s) : StreamOk s' :=
  h.invariant hok fun hok hstep => hok.step hstep

theorem kept_run (h : Run (Guarded (Stream.Step decodes encodes) StreamSafe) s cs s')
    (hok : StreamOk s) : Kept s s' := by
  induction h with
  | nil => exact ⟨rfl, id, List.prefix_rfl, id⟩
  | snoc hrun hstep ih =>
    have hnext := kept_step (streamOk_run hrun hok) hstep
    refine ⟨hnext.task_id.trans ih.task_id, ?_, ih.messages.trans hnext.messages,
      fun hbroken => hnext.broken (ih.broken hbroken)⟩
    intro hfinished
    rw [← ih.task_id]
    apply hnext.ended
    rw [ih.task_id]
    exact ih.ended hfinished

theorem nearer_run (h : Run (Guarded (Stream.Step decodes encodes) StreamSafe) s cs s')
    (hok : StreamOk s) (hfinished : (s.engine.view s.task_id).runner = .finished)
    (hremaining : Remaining s n) : Nearer (cs.countP StreamCall.isOwn) n s' := by
  induction h with
  | nil => exact .inr (.inr ⟨n, hremaining, Nat.le_of_eq (Nat.zero_add n)⟩)
  | @snoc cs t c u hrun hstep ih =>
    have hok' := streamOk_run hrun hok
    have hkept := kept_run hrun hok
    have hnext := kept_step hok' hstep
    rcases ih with hbroken | hsent | ⟨m, hm, hle⟩
    · exact .inl (hnext.broken hbroken)
    · exact .inr (.inl (sentDone_mono hsent hnext.messages))
    · have hfinished' := hkept.ended hfinished
      rw [← hkept.task_id] at hfinished'
      rcases hm.step hok' hfinished' hstep with hbroken | hsent | ⟨m', hm', hle'⟩
      · exact .inl hbroken
      · exact .inr (.inl hsent)
      · refine .inr (.inr ⟨m', hm', ?_⟩)
        rw [List.countP_append, List.countP_singleton]
        omega

/-- What a client can rely on, in a state of a connection: the lines that were sent are those of the
task when `done` is sent, and after the end of the task an open connection sends `done` within a
number of steps of its own, none of which anybody can prevent. -/
structure Reconstructs (decodes : String → Bool) (encodes : V → Bool) (s : Stream V) : Prop where
  lines : ∀ c s', Guarded (Stream.Step decodes encodes) StreamSafe s c s' → ¬ s.SentDone →
    s'.SentDone → s'.sentLines = (s'.engine.view s'.task_id).lines
  done : s.phase.Open → (s.engine.view s.task_id).runner = .finished → ∃ n, ∀ cs s',
    Run (Guarded (Stream.Step decodes encodes) StreamSafe) s cs s' → s'.phase ≠ .broken →
      s'.SentDone ∨ cs.countP StreamCall.isOwn < n ∧
        ∃ c : StreamCall V, c.isOwn = true ∧ ∃ t, s'.Step decodes encodes c t

theorem Remaining.pos (h : Remaining s n) : 0 < n := by
  cases h with
  | accepting => exact Nat.succ_pos 1
  | snapshot => exact Nat.succ_pos 0
  | streaming => exact Nat.succ_pos _
  | sending => exact Nat.succ_pos _

theorem stream_reconstructs {task_id : String} {token : Option String}
    (h : Run (Guarded (Stream.Step decodes encodes) StreamSafe)
      ({ engine := {}, task_id, token } : Stream V) cs s) : Reconstructs decodes encodes s := by
  have hok := streamOk_run h (streamOk_new task_id token)
  refine ⟨fun c s' hstep => lines_of_done hok hstep, ?_⟩
  intro hopen hfinished
  obtain ⟨n, hn⟩ := Remaining.start hok hopen hfinished
  refine ⟨n, ?_⟩
  intro cs' s' hrun hphase
  rcases nearer_run hrun hok hfinished hn with hbroken | hsent | ⟨m, hm, hle⟩
  · exact (hphase hbroken).elim
  · exact .inl hsent
  · have hkept := kept_run hrun hok
    have hfinished' := hkept.ended hfinished
    rw [← hkept.task_id] at hfinished'
    have hpos := hm.pos
    exact .inr ⟨by omega, hm.enabled (streamOk_run hrun hok) hfinished'⟩

/-! ## A line between the snapshot and the subscription -/

def reportConnection : Stream Unit := { engine := {}, task_id := "1f3a9c2e", token := none }

/-- A report that runs, and a connection that has sent its snapshot. -/
def reportSnapshot : List (StreamCall Unit) :=
  [.engine submitReport] ++ [.engine (.start 0 "2024-01-01T00:00:01")] ++ [.handshake] ++ [.resume]

def reportMissed : List (StreamCall Unit) :=
  reportSnapshot ++ [.engine (.emitOutput "1f3a9c2e" "12 rows")] ++
    [.engine (.notify "1f3a9c2e")] ++ [.resume] ++
    [.engine (.finish 0 (.returned none) "2024-01-01T00:00:02")]

theorem line_missed_before_subscription : ∃ s s' : Stream Unit,
    Run (Stream.Step (fun _ => true) fun _ => true) reportConnection reportMissed s ∧
      s.Step (fun _ => true) (fun _ => true) .take s' ∧ ¬ s.SentDone ∧ s'.SentDone ∧
      s'.sentLines = [] ∧ (s'.engine.view s'.task_id).lines = ["12 rows"] := by
  refine ⟨_, _, .snoc (.snoc (.snoc (.snoc (.snoc (.snoc (.snoc (.single rfl) rfl) rfl) rfl) rfl)
    rfl) rfl) rfl, rfl, ?_, ?_, rfl, rfl⟩
  · rintro ⟨m, hm, hdone⟩
    rw [List.mem_singleton.1 hm] at hdone
    cases hdone
  · exact ⟨_, List.mem_concat_self, rfl⟩

def reportStreamed : List (StreamCall Unit) :=
  reportSnapshot ++ [.resume] ++ [.engine (.emitOutput "1f3a9c2e" "12 rows")] ++
    [.engine (.notify "1f3a9c2e")] ++
    [.engine (.finish 0 (.returned none) "2024-01-01T00:00:02")] ++ [.take] ++ [.resume]

/-- The same report, where the line is written after the subscription. -/
theorem report_streamed : ∃ s s' : Stream Unit,
    Reconstructs (fun _ => true) (fun _ => true) s ∧ ¬ s.SentDone ∧
      s.Step (fun _ => true) (fun _ => true) .take s' ∧ s'.SentDone ∧
      s'.sentLines = ["12 rows"] := by
  have hstarted : Run (Guarded (Stream.Step (fun _ => true) fun _ => true) StreamSafe)
      reportConnection
      ([.engine submitReport] ++ [.engine (.start 0 "2024-01-01T00:00:01")]) _ :=
    .snoc (.single ⟨rfl, And.intro (safe_submit fun _ ho => by cases ho) trivial⟩)
      ⟨rfl, And.intro (safe_free _ rfl) trivial⟩
  have hsnapshot : Run (Guarded (Stream.Step (fun _ => true) fun _ => true) StreamSafe)
      reportConnection reportSnapshot _ :=
    .snoc (.snoc hstarted ⟨rfl, trivial⟩) ⟨rfl, fun _ _ hphase => by cases hphase⟩
  have hstreamed : Run (Guarded (Stream.Step (fun _ => true) fun _ => true) StreamSafe)
      reportConnection reportStreamed _ :=
    .snoc (.snoc (.snoc (.snoc (.snoc (.snoc hsnapshot
      ⟨rfl, fun _ _ hphase ho => by cases hphase; cases ho; rfl⟩)
      ⟨rfl, And.intro (safe_free _ rfl) fun _ _ hc => by cases hc⟩)
      ⟨rfl, And.intro (safe_free _ rfl) fun _ _ _ _ hk hq _ => by
        cases hk
        cases hq
        decide⟩)
      ⟨rfl, And.intro (safe_finish _ (fun hc => by cases hc) fun a ha => by cases ha)
        fun _ _ _ hk hq => by
          cases hk
          cases hq
          exact ⟨rfl, by decide⟩⟩)
      ⟨rfl, trivial⟩)
      ⟨rfl, fun _ _ hphase => by cases hphase⟩
  refine ⟨_, _, stream_reconstructs hstreamed, ?_, rfl, ?_, rfl⟩
  · rintro ⟨m, hm, hdone⟩
    rcases List.mem_append.1 hm with hm | hm
    · rw [List.mem_singleton.1 hm] at hdone
      cases hdone
    · rw [List.mem_singleton.1 hm] at hdone
      cases hdone
  · exact ⟨_, List.mem_concat_self, rfl⟩

end ScottyCore.TaskStream
