import ScottyCore.Tasks.Questions

namespace ScottyCore.BackgroundTasks
open TransitionSystem
set_option autoImplicit true

variable {V : Type} {e e' : TaskEngine V} {c : TaskCall V} {i : Nat} {task_id : String}

/-! ## One question at a time -/

namespace QuestionEngine

variable {s s' : QuestionEngine V} {ds : List (Nat × String × String)} {k : Nat} {a : Ask}

/-- The slots of a task belong to the ask that has not returned, and the accepted answers are those
that the asks hold. -/
structure OneQuestion (ds : List (Nat × String × String)) (s : QuestionEngine V) : Prop where
  table : s.engine.Tabled
  owner : ∀ (k : Nat) (a : Ask), s.engine.asks[k]? = some a →
    s.engine.ids[a.task]? = some a.task_id
  slot : ∀ task_id k, s.engine.answer_futures task_id = some k →
    ∃ a, s.engine.asks[k]? = some a ∧ a.task_id = task_id ∧ a.pending = true
  waiting : ∀ (k : Nat) (a : Ask), s.engine.asks[k]? = some a → a.pending = true →
    s.engine.answer_futures a.task_id = some k ∧
    s.engine.shown a.task = some (s.waits k).question ∧ (s.waits k).ended = none
  kept : ∀ (k : Nat) (a : Ask), s.engine.asks[k]? = some a → a.answer ≠ none →
    (s.waits k).expired = false ∧ (s.waits k).cancelled = false
  ended : ∀ (k : Nat) (a : Ask), s.engine.asks[k]? = some a → a.pending = false →
    ∀ answer, (s.waits k).ended = some (.answered answer) ↔ a.answer = some answer
  unasked : ∀ k, s.engine.asks[k]? = none → (s.waits k).ended = none
  delivered : ∀ k task_id answer, (k, task_id, answer) ∈ ds ↔
    ∃ a, s.engine.asks[k]? = some a ∧ a.task_id = task_id ∧ a.answer = some answer
  once : (ds.map Prod.fst).Nodup

namespace OneQuestion

theorem waitEnd_answered (h : OneQuestion ds s) (ha : s.engine.asks[k]? = some a)
    (hanswer : a.answer = some answer) : waitEnd a (s.waits k) = some (.answered answer) := by
  obtain ⟨hexpired, hcancelled⟩ := h.kept k a ha (by rw [hanswer]; exact Option.some_ne_none _)
  rw [waitEnd, hexpired, hcancelled, hanswer]
  rfl

theorem task_lt (h : OneQuestion ds s) (ha : s.engine.asks[k]? = some a) :
    a.task < s.engine.objects.length := by
  have hlt := (List.getElem?_eq_some_iff.1 (h.owner k a ha)).1
  rwa [TaskEngine.ids, List.length_map] at hlt

/-- An ask that holds an answer returns it. -/
theorem reaches (h : OneQuestion ds s) (hmem : (k, task_id, answer) ∈ ds) :
    s.Reaches k task_id answer := by
  obtain ⟨a, ha, hid, hanswer⟩ := (h.delivered k task_id answer).1 hmem
  refine ⟨a, ha, hid, ?_⟩
  split
  · rename_i hpending
    obtain ⟨e', hend, -⟩ := TaskEngine.endAsk_of_pending ha hpending (h.task_lt ha)
    rw [resume, ha]
    dsimp only
    rw [h.waitEnd_answered ha hanswer, hend]
    exact ⟨_, rfl⟩
  · rename_i hpending
    exact (h.ended k a ha (Bool.eq_false_iff.2 hpending) answer).2 hanswer

theorem only (h : OneQuestion ds s) (hended : (s.waits k).ended = some (.answered answer)) :
    ∃ task_id, (k, task_id, answer) ∈ ds := by
  cases ha : s.engine.asks[k]? with
  | none =>
    rw [h.unasked k ha] at hended
    cases hended
  | some a =>
    cases hpending : a.pending with
    | true =>
      rw [(h.waiting k a ha hpending).2.2] at hended
      cases hended
    | false =>
      have hanswer := (h.ended k a ha hpending answer).1 hended
      exact ⟨a.task_id, (h.delivered k a.task_id answer).2 ⟨a, ha, rfl, hanswer⟩⟩

theorem answerable (h : OneQuestion ds s) (hwait : s.IsWaiting k a) :
    s.engine.shown a.task = some (s.waits k).question ∧
      ∀ answer, (s.submitAnswer a.task_id answer).1 = some k := by
  obtain ⟨ha, hpending, hnone⟩ := hwait
  obtain ⟨hslot, hshown, -⟩ := h.waiting k a ha hpending
  refine ⟨hshown, ?_⟩
  intro answer
  rw [waitEnd] at hnone
  split at hnone
  · cases hnone
  rename_i hcancelled
  split at hnone
  · cases hnone
  rename_i hexpired
  rw [submitAnswer, hslot]
  dsimp only
  rw [if_neg (not_or.2 ⟨hexpired, hcancelled⟩), TaskEngine.submitAnswer_of_slot hslot ha,
    if_pos (Option.map_eq_none_iff.1 hnone)]

/-! ### One step -/

theorem interrupt_eq_some {f : Wait → Wait} (h : s.interrupt k f = some s') :
    ∃ a, s.engine.asks[k]? = some a ∧ a.pending = true ∧
      s' = { s with waits := Function.update s.waits k (f (s.waits k)) } := by
  rw [interrupt] at h
  split at h
  · rename_i ha
    exact ⟨_, ha, rfl, (Option.some.inj h).symm⟩
  · cases h

theorem resume_eq_some (h : s.resume k = some (how, s')) :
    ∃ a e', s.engine.asks[k]? = some a ∧ a.pending = true ∧
      waitEnd a (s.waits k) = some how ∧ s.engine.endAsk k = some e' ∧ s' =
        { engine := e', waits := Function.update s.waits k { s.waits k with ended := how } } := by
  rw [resume] at h
  split at h
  · cases h
  rename_i a ha
  split at h
  · rename_i how' e' hhow hend
    obtain ⟨rfl, rfl⟩ := Prod.mk.inj (Option.some.inj h)
    refine ⟨a, e', ha, ?_, hhow, hend, rfl⟩
    rw [TaskEngine.endAsk, ha] at hend
    split at hend
    · rename_i heq
      exact Option.some.inj heq ▸ rfl
    · cases hend
  · cases h

/-- An answer is refused, or set for the ask in the slot. -/
theorem submitAnswer_cases (s : QuestionEngine V) (task_id answer : String) :
    s.submitAnswer task_id answer = (none, s) ∨
    ∃ k a, s.engine.answer_futures task_id = some k ∧ s.engine.asks[k]? = some a ∧
      a.answer = none ∧ (s.waits k).expired = false ∧ (s.waits k).cancelled = false ∧
      s.submitAnswer task_id answer = (some k, { s with engine := { s.engine with
        asks := s.engine.asks.modify k fun a => { a with answer := some answer } } }) := by
  cases hslot : s.engine.answer_futures task_id with
  | none =>
    apply Or.inl
    rw [submitAnswer, hslot]
  | some k =>
    rw [submitAnswer, hslot]
    dsimp only
    split
    · exact .inl rfl
    rename_i hwait
    obtain ⟨hexpired, hcancelled⟩ := not_or.1 hwait
    cases ha : s.engine.asks[k]? with
    | none =>
      apply Or.inl
      rw [TaskEngine.submitAnswer, hslot]
      dsimp only
      rw [ha]
    | some a =>
      rw [TaskEngine.submitAnswer_of_slot hslot ha]
      by_cases hanswer : a.answer = none
      · rw [if_pos hanswer]
        exact .inr ⟨k, a, rfl, ha, hanswer, Bool.eq_false_iff.2 hexpired,
          Bool.eq_false_iff.2 hcancelled, rfl⟩
      · rw [if_neg hanswer]
        exact .inl rfl

theorem getElem?_of_modify {α : Type} {l : List α} {f : α → α} {j : Nat} {x : α}
    (h : (l.modify k f)[j]? = some x) : ∃ y, l[j]? = some y ∧ x = if k = j then f y else y := by
  rw [List.getElem?_modify] at h
  obtain ⟨y, hy, rfl⟩ := Option.map_eq_some_iff.1 h
  refine ⟨y, hy, ?_⟩
  split
  · rfl
  · rfl

theorem getElem?_of_concat {α : Type} {l : List α} {x y : α} (h : (l ++ [x])[k]? = some y) :
    k ≠ l.length ∧ l[k]? = some y ∨ k = l.length ∧ y = x := by
  rw [List.getElem?_append] at h
  split at h
  · rename_i hk
    exact .inl ⟨Nat.ne_of_lt hk, h⟩
  · rw [List.getElem?_singleton] at h
    split at h
    · exact .inr ⟨by omega, (Option.some.inj h).symm⟩
    · cases h

theorem getElem?_start {α : Type} {l l' : List α} (h : l <+: l') {j : Nat} {x : α}
    (hj : l[j]? = some x) : l'[j]? = some x := by
  obtain ⟨rest, rfl⟩ := h
  rw [List.getElem?_append_left (List.getElem?_eq_some_iff.1 hj).1, hj]

theorem quiet (h : OneQuestion ds s) (hstep : s.engine.Step c e') (hc : c.isAsking = false) :
    OneQuestion ds { s with engine := e' } := by
  obtain ⟨hasks, hslots, hshown⟩ := TaskEngine.quiet_step hstep hc
  refine ⟨h.table.step hstep, ?_, ?_, ?_, ?_, ?_, ?_, ?_, h.once⟩
  · intro k a ha
    rw [hasks] at ha
    exact getElem?_start (TaskEngine.ids_start hstep) (h.owner k a ha)
  · rw [hasks, hslots]
    exact h.slot
  · intro k a ha hpending
    rw [hasks] at ha
    rw [hslots, hshown]
    exact h.waiting k a ha hpending
  · rw [hasks]
    exact h.kept
  · rw [hasks]
    exact h.ended
  · rw [hasks]
    exact h.unasked
  · rw [hasks]
    exact h.delivered

/-- An ask of one task leaves the question of another. -/
theorem task_ne (h : OneQuestion ds s) (ha : s.engine.asks[k]? = some a)
    (hi : s.engine.ids[i]? = some task_id) (hne : a.task_id ≠ task_id) : a.task ≠ i := by
  intro hsame
  have howner := h.owner k a ha
  rw [hsame, hi] at howner
  exact hne (Option.some.inj howner).symm

theorem asked (h : OneQuestion ds s) (hfind : s.engine.find task_id = some (i, o))
    (halone : ∀ a ∈ s.engine.asks, a.task_id = task_id → a.pending = false)
    (question : Question) : OneQuestion ds
      { engine := s.engine.askQuestion task_id question
        waits := Function.update s.waits s.engine.asks.length { question } } := by
  have hstep : s.engine.Step (.askQuestion task_id question)
      (s.engine.askQuestion task_id question) := rfl
  have hids := (TaskEngine.ids_step hstep fun _ _ _ _ _ hc => by cases hc).2
  have hi := h.table task_id i (TaskEngine.find_eq_some.1 hfind).1
  have hasks : (s.engine.askQuestion task_id question).asks =
      s.engine.asks ++ [⟨task_id, i, none, true⟩] := by
    rw [TaskEngine.askQuestion, hfind]
    rfl
  have hslots : (s.engine.askQuestion task_id question).answer_futures =
      Function.update s.engine.answer_futures task_id (some s.engine.asks.length) := by
    rw [TaskEngine.askQuestion, hfind]
    rfl
  refine ⟨h.table.step hstep, ?_, ?_, ?_, ?_, ?_, ?_, ?_, h.once⟩
  · intro k a ha
    rw [hids]
    rcases getElem?_of_concat (hasks ▸ ha) with ⟨-, hold⟩ | ⟨-, rfl⟩
    · exact h.owner k a hold
    · exact hi
  · intro other k hslot
    rw [hasks]
    rw [hslots, Function.update_apply] at hslot
    split at hslot
    · rename_i hother
      obtain rfl := Option.some.inj hslot
      exact ⟨_, List.getElem?_concat_length, hother.symm, rfl⟩
    · obtain ⟨a, ha, hrest⟩ := h.slot other k hslot
      exact ⟨a, getElem?_start (List.prefix_append _ _) ha, hrest⟩
  · intro k a ha hpending
    dsimp only
    rw [hslots, TaskEngine.shown_askQuestion hfind]
    rcases getElem?_of_concat (hasks ▸ ha) with ⟨hk, hold⟩ | ⟨rfl, rfl⟩
    · have hother : a.task_id ≠ task_id := by
        intro hsame
        rw [halone a (List.mem_of_getElem? hold) hsame] at hpending
        cases hpending
      rw [Function.update_of_ne hother, if_neg (h.task_ne hold hi hother), Function.update_of_ne hk]
      exact h.waiting k a hold hpending
    · rw [Function.update_self, if_pos rfl, Function.update_self]
      exact ⟨rfl, rfl, rfl⟩
  · intro k a ha hanswer
    dsimp only
    rcases getElem?_of_concat (hasks ▸ ha) with ⟨hk, hold⟩ | ⟨-, rfl⟩
    · rw [Function.update_of_ne hk]
      exact h.kept k a hold hanswer
    · exact (hanswer rfl).elim
  · intro k a ha hpending
    dsimp only
    rcases getElem?_of_concat (hasks ▸ ha) with ⟨hk, hold⟩ | ⟨-, rfl⟩
    · rw [Function.update_of_ne hk]
      exact h.ended k a hold hpending
    · cases hpending
  · intro k ha
    dsimp only at ha ⊢
    rw [hasks, List.getElem?_eq_none_iff, List.length_append, List.length_singleton] at ha
    rw [Function.update_of_ne (by omega)]
    exact h.unasked k (List.getElem?_eq_none (by omega))
  · intro k other answer
    rw [h.delivered, hasks]
    constructor
    · rintro ⟨a, ha, hrest⟩
      exact ⟨a, getElem?_start (List.prefix_append _ _) ha, hrest⟩
    · rintro ⟨a, ha, hid, hanswer⟩
      rcases getElem?_of_concat ha with ⟨-, hold⟩ | ⟨-, rfl⟩
      · exact ⟨a, hold, hid, hanswer⟩
      · cases hanswer

/-- What is interrupted without an answer has not returned one. -/
theorem interrupted (h : OneQuestion ds s) (ha : s.engine.asks[k]? = some a)
    (hanswer : a.answer = none) {w : Wait} (hquestion : w.question = (s.waits k).question)
    (hended : w.ended = (s.waits k).ended) :
    OneQuestion ds { s with waits := Function.update s.waits k w } := by
  have hsame : ∀ j, (Function.update s.waits k w j).question = (s.waits j).question ∧
      (Function.update s.waits k w j).ended = (s.waits j).ended := by
    intro j
    rw [Function.update_apply]
    split
    · rename_i hj
      rw [hj]
      exact ⟨hquestion, hended⟩
    · exact ⟨rfl, rfl⟩
  refine ⟨h.table, h.owner, h.slot, ?_, ?_, ?_, ?_, h.delivered, h.once⟩
  · intro j b hb hpending
    rw [(hsame j).1, (hsame j).2]
    exact h.waiting j b hb hpending
  · intro j b hb hholds
    have hj : j ≠ k := by
      rintro rfl
      rw [ha] at hb
      exact hholds (Option.some.inj hb ▸ hanswer)
    dsimp only
    rw [Function.update_of_ne hj]
    exact h.kept j b hb hholds
  · intro j b hb hpending
    rw [(hsame j).2]
    exact h.ended j b hb hpending
  · intro j hj
    rw [(hsame j).2]
    exact h.unasked j hj

theorem resumed (h : OneQuestion ds s) (ha : s.engine.asks[k]? = some a)
    (hpending : a.pending = true) (hhow : waitEnd a (s.waits k) = some how)
    (hend : s.engine.endAsk k = some e') : OneQuestion ds
      { engine := e', waits := Function.update s.waits k { s.waits k with ended := how } } := by
  obtain ⟨e'', hend', hasks, hslots, hshown⟩ :=
    TaskEngine.endAsk_of_pending ha hpending (h.task_lt ha)
  obtain rfl := Option.some.inj (hend.symm.trans hend')
  have hstep : s.engine.Step (.endAsk k) e' := hend
  have hids := (TaskEngine.ids_step hstep fun _ _ _ _ _ hc => by cases hc).2
  have hslot := (h.waiting k a ha hpending).1
  -- Another ask that has not returned is one of another task.
  have hother : ∀ (j : Nat) (b : Ask), s.engine.asks[j]? = some b → b.pending = true → k ≠ j →
      b.task_id ≠ a.task_id := by
    intro j b hb hb' hj hsame
    have hslot' := (h.waiting j b hb hb').1
    rw [hsame, hslot] at hslot'
    exact hj (Option.some.inj hslot')
  refine ⟨h.table.step hstep, ?_, ?_, ?_, ?_, ?_, ?_, ?_, h.once⟩
  · intro j b hb
    rw [hids]
    obtain ⟨b', hb', rfl⟩ := getElem?_of_modify (hasks ▸ hb)
    split
    · exact h.owner j b' hb'
    · exact h.owner j b' hb'
  · intro task_id j hj
    rw [hslots, Function.update_apply] at hj
    split at hj
    · cases hj
    rename_i htask
    obtain ⟨b, hb, hid, hb'⟩ := h.slot task_id j hj
    refine ⟨b, ?_, hid, hb'⟩
    have hjk : k ≠ j := by
      rintro rfl
      rw [ha] at hb
      exact htask (hid.symm.trans (Option.some.inj hb ▸ rfl))
    rw [hasks, List.getElem?_modify_ne _ _ hjk]
    exact hb
  · intro j b hb hb'
    obtain ⟨b, hold, rfl⟩ := getElem?_of_modify (hasks ▸ hb)
    by_cases hj : k = j
    · rw [if_pos hj] at hb'
      cases hb'
    · rw [if_neg hj] at hb' ⊢
      have hne := hother j b hold hb' hj
      dsimp only
      rw [hslots, hshown, Function.update_of_ne hne, Function.update_of_ne (Ne.symm hj),
        if_neg (h.task_ne hold (h.owner k a ha) hne)]
      exact h.waiting j b hold hb'
  · intro j b hb hb'
    dsimp only
    obtain ⟨b, hold, rfl⟩ := getElem?_of_modify (hasks ▸ hb)
    by_cases hj : k = j
    · subst hj
      rw [if_pos rfl] at hb'
      rw [Function.update_self]
      exact h.kept k b hold hb'
    · rw [if_neg hj] at hb'
      rw [Function.update_of_ne (Ne.symm hj)]
      exact h.kept j b hold hb'
  · intro j b hb hb' answer
    dsimp only
    obtain ⟨b, hold, rfl⟩ := getElem?_of_modify (hasks ▸ hb)
    by_cases hj : k = j
    · subst hj
      rw [ha] at hold
      obtain rfl := Option.some.inj hold
      rw [if_pos rfl, Function.update_self]
      dsimp only
      rw [← hhow]
      constructor
      · intro hanswer
        rw [waitEnd] at hanswer
        split at hanswer
        · cases hanswer
        split at hanswer
        · cases hanswer
        obtain ⟨x, hx, hsame⟩ := Option.map_eq_some_iff.1 hanswer
        rw [hx, AskEnd.answered.inj hsame]
      · exact h.waitEnd_answered ha
    · rw [if_neg hj] at hb' ⊢
      rw [Function.update_of_ne (Ne.symm hj)]
      exact h.ended j b hold hb' answer
  · intro j hj
    have hold : s.engine.asks[j]? = none := by
      rw [hasks, List.getElem?_eq_none_iff, List.length_modify] at hj
      exact List.getElem?_eq_none hj
    have hjk : j ≠ k := by
      rintro rfl
      rw [ha] at hold
      cases hold
    dsimp only
    rw [Function.update_of_ne hjk]
    exact h.unasked j hold
  · intro j task_id answer
    rw [h.delivered, hasks]
    constructor
    · rintro ⟨b, hb, hid, hanswer⟩
      refine ⟨_, by rw [List.getElem?_modify, hb]; rfl, ?_⟩
      split
      · exact ⟨hid, hanswer⟩
      · exact ⟨hid, hanswer⟩
    · rintro ⟨b, hb, hid, hanswer⟩
      obtain ⟨b, hold, rfl⟩ := getElem?_of_modify hb
      refine ⟨b, hold, ?_⟩
      split at hid
      · rename_i hj
        rw [if_pos hj] at hanswer
        exact ⟨hid, hanswer⟩
      · rename_i hj
        rw [if_neg hj] at hanswer
        exact ⟨hid, hanswer⟩

theorem submitted (h : OneQuestion ds s) (hslot : s.engine.answer_futures task_id = some k)
    (ha : s.engine.asks[k]? = some a) (hnone : a.answer = none)
    (hexpired : (s.waits k).expired = false) (hcancelled : (s.waits k).cancelled = false)
    (answer : String) : OneQuestion (ds ++ [(k, task_id, answer)])
      { s with engine := { s.engine with
          asks := s.engine.asks.modify k fun a => { a with answer := some answer } } } := by
  obtain ⟨a', ha', hid, hpending⟩ := h.slot task_id k hslot
  obtain rfl := Option.some.inj (ha.symm.trans ha')
  refine ⟨h.table, ?_, ?_, ?_, ?_, ?_, ?_, ?_, ?_⟩
  · intro j b hb
    obtain ⟨b, hold, rfl⟩ := getElem?_of_modify hb
    split
    · exact h.owner j b hold
    · exact h.owner j b hold
  · intro other j hj
    obtain ⟨b, hb, hrest⟩ := h.slot other j hj
    refine ⟨_, by rw [List.getElem?_modify, hb]; rfl, ?_⟩
    split
    · exact hrest
    · exact hrest
  · intro j b hb hb'
    obtain ⟨b, hold, rfl⟩ := getElem?_of_modify hb
    split at hb'
    · rename_i hj
      rw [if_pos hj]
      exact h.waiting j b hold hb'
    · rename_i hj
      rw [if_neg hj]
      exact h.waiting j b hold hb'
  · intro j b hb hb'
    obtain ⟨b, hold, rfl⟩ := getElem?_of_modify hb
    by_cases hj : k = j
    · rw [← hj]
      exact ⟨hexpired, hcancelled⟩
    · rw [if_neg hj] at hb'
      exact h.kept j b hold hb'
  · intro j b hb hb' x
    obtain ⟨b, hold, rfl⟩ := getElem?_of_modify hb
    by_cases hj : k = j
    · subst hj
      rw [ha] at hold
      obtain rfl := Option.some.inj hold
      rw [if_pos rfl] at hb'
      cases hpending.symm.trans hb'
    · rw [if_neg hj] at hb' ⊢
      exact h.ended j b hold hb' x
  · intro j hj
    apply h.unasked j
    rw [List.getElem?_eq_none_iff, List.length_modify] at hj
    exact List.getElem?_eq_none hj
  · intro j other x
    rw [List.mem_append, List.mem_singleton, h.delivered]
    constructor
    · rintro (⟨b, hb, hid', hx⟩ | heq)
      · have hj : k ≠ j := by
          rintro rfl
          rw [ha] at hb
          rw [← Option.some.inj hb, hnone] at hx
          cases hx
        exact ⟨b, by rw [List.getElem?_modify_ne _ _ hj, hb], hid', hx⟩
      · obtain ⟨rfl, rfl, rfl⟩ : j = k ∧ other = task_id ∧ x = answer := by
          simpa only [Prod.mk.injEq] using heq
        exact ⟨{ a with answer := some x }, by rw [List.getElem?_modify_eq, ha]; rfl, hid, rfl⟩
    · rintro ⟨b, hb, hid', hx⟩
      obtain ⟨b, hold, rfl⟩ := getElem?_of_modify hb
      by_cases hj : k = j
      · subst hj
        rw [ha] at hold
        obtain rfl := Option.some.inj hold
        rw [if_pos rfl] at hid' hx
        exact .inr (by rw [← hid', ← Option.some.inj hx, ← hid])
      · rw [if_neg hj] at hid' hx
        exact .inl ⟨b, hold, hid', hx⟩
  · have hnew : k ∉ ds.map Prod.fst := by
      intro hmem
      obtain ⟨⟨j, other, x⟩, hd, rfl⟩ := List.mem_map.1 hmem
      obtain ⟨b, hb, -, hx⟩ := (h.delivered _ other x).1 hd
      rw [ha] at hb
      rw [← Option.some.inj hb, hnone] at hx
      cases hx
    rw [List.map_append, List.map_singleton, List.nodup_append]
    refine ⟨h.once, List.nodup_singleton k, ?_⟩
    intro j hj j' hj' hsame
    rw [hsame, List.mem_singleton.1 hj'] at hj
    exact hnew hj

theorem of_none {x : QuestionCall V × QuestionResult} (h : OneQuestion ds s)
    (hx : QuestionEngine.delivered x = none) :
    OneQuestion (ds ++ (QuestionEngine.delivered x).toList) s := by
  rwa [hx, Option.toList_none, List.append_nil]

theorem step {x : QuestionCall V × QuestionResult} (h : OneQuestion ds s) (hstep : s.Step x s')
    (hsafe : s.QuestionSafe x) :
    OneQuestion (ds ++ (QuestionEngine.delivered x).toList) s' := by
  obtain ⟨call, r⟩ := x
  cases call with
  | askQuestion task_id question =>
    obtain ⟨rfl, rfl⟩ := Prod.mk.inj (Option.some.inj hstep)
    apply of_none _ rfl
    rw [askQuestion]
    cases hfind : s.engine.find task_id with
    | none => exact h
    | some x => exact h.asked hfind (hsafe.alone task_id question rfl) question
  | expire k =>
    obtain ⟨s'', hinterrupt, heq⟩ := Option.map_eq_some_iff.1 hstep
    obtain ⟨rfl, rfl⟩ := Prod.mk.inj heq
    obtain ⟨a, ha, -, rfl⟩ := interrupt_eq_some hinterrupt
    exact of_none (h.interrupted ha (hsafe.unanswered k (.inl rfl) a ha) rfl rfl) rfl
  | cancelAsk k =>
    obtain ⟨s'', hinterrupt, heq⟩ := Option.map_eq_some_iff.1 hstep
    obtain ⟨rfl, rfl⟩ := Prod.mk.inj heq
    obtain ⟨a, ha, -, rfl⟩ := interrupt_eq_some hinterrupt
    exact of_none (h.interrupted ha (hsafe.unanswered k (.inr rfl) a ha) rfl rfl) rfl
  | resume k =>
    obtain ⟨⟨how, s''⟩, hresume, heq⟩ := Option.map_eq_some_iff.1 hstep
    obtain ⟨rfl, rfl⟩ := Prod.mk.inj heq
    obtain ⟨a, e', ha, hpending, hhow, hend, rfl⟩ := resume_eq_some hresume
    exact of_none (h.resumed ha hpending hhow hend) rfl
  | submitAnswer task_id answer =>
    obtain ⟨rfl, rfl⟩ := Prod.mk.inj (Option.some.inj hstep)
    rcases submitAnswer_cases s task_id answer with hnone | ⟨k, a, hslot, ha, hnone, hexpired,
      hcancelled, hsubmit⟩
    · rw [hnone]
      exact of_none h rfl
    · rw [hsubmit]
      exact h.submitted hslot ha hnone hexpired hcancelled answer
  | other c =>
    rw [Step, perform] at hstep
    split at hstep
    · cases hstep
    rename_i hc
    obtain ⟨e', hperform, heq⟩ := Option.map_eq_some_iff.1 hstep
    obtain ⟨rfl, rfl⟩ := Prod.mk.inj heq
    exact of_none (h.quiet hperform (Bool.eq_false_iff.2 hc)) rfl

end OneQuestion

theorem oneQuestion_new : OneQuestion [] ({} : QuestionEngine V) := by
  refine ⟨?_, ?_, ?_, ?_, ?_, ?_, ?_, ?_, List.nodup_nil⟩
  · intro task_id i hi
    cases hi
  · intro k a ha
    cases ha
  · intro task_id k hslot
    cases hslot
  · intro k a ha
    cases ha
  · intro k a ha
    cases ha
  · intro k a ha
    cases ha
  · intro k _
    rfl
  · intro k task_id answer
    apply iff_of_false List.not_mem_nil
    rintro ⟨a, ha, -⟩
    cases ha

theorem oneQuestion_run {history : List (QuestionCall V × QuestionResult)}
    (h : Run (Guarded Step QuestionSafe) ({} : QuestionEngine V) history s) :
    OneQuestion (history.filterMap delivered) s := by
  induction h with
  | nil => exact oneQuestion_new
  | snoc _ hstep ih =>
    rw [filterMap_concat]
    exact ih.step hstep.1 hstep.2

theorem answers_reach_one {history : List (QuestionCall V × QuestionResult)}
    (h : Run (Guarded Step QuestionSafe) ({} : QuestionEngine V) history s) :
    AnswersReachOne history s := by
  have hone := oneQuestion_run h
  refine ⟨fun _ _ _ => hone.reaches, hone.once, fun _ _ => hone.only, ?_⟩
  intro k a hwait
  obtain ⟨hshown, hsubmit⟩ := hone.answerable hwait
  exact ⟨k, a, hwait, rfl, hshown, hsubmit⟩

/-! ## Two questions of one task -/

/-- What the calls return, and the engine that they leave. -/
def runCalls : List (QuestionCall V) → QuestionEngine V →
    Option (List (QuestionCall V × QuestionResult) × QuestionEngine V)
  | [], s => some ([], s)
  | c :: cs, s => (s.perform c).bind fun x =>
    (runCalls cs x.2).map fun y => ((c, x.1) :: y.1, y.2)

theorem run_of_runCalls (P : QuestionEngine V → QuestionCall V × QuestionResult → Prop)
    (cs : List (QuestionCall V)) {history : List (QuestionCall V × QuestionResult)}
    (h : runCalls cs s = some (history, s'))
    (hP : ∀ begun c rest t started, cs = begun ++ c :: rest → runCalls begun s = some (started, t) →
      ∀ r, P t (c, r)) : Run (Guarded Step P) s history s' := by
  induction cs generalizing s history with
  | nil =>
    obtain ⟨rfl, rfl⟩ := Prod.mk.inj (Option.some.inj h)
    exact .nil
  | cons c cs ih =>
    obtain ⟨⟨r, t⟩, hperform, hmap⟩ := Option.bind_eq_some_iff.1 h
    obtain ⟨⟨rest, t'⟩, hrest, heq⟩ := Option.map_eq_some_iff.1 hmap
    obtain ⟨rfl, rfl⟩ := Prod.mk.inj heq
    have hfirst : Run (Guarded Step P) s [(c, r)] t :=
      .single ⟨hperform, hP [] c cs s [] rfl rfl r⟩
    apply hfirst.append
    apply ih hrest
    intro begun c' rest' t'' started hcs hbegun
    apply hP (c :: begun) c' rest' t'' ((c, r) :: started) (congrArg (c :: ·) hcs)
    rw [runCalls, hperform, Option.bind_some, hbegun]
    rfl

/-- A task that asks twice, where the second question is answered. -/
def overlappingAsks : List (QuestionCall Unit) :=
  [.other (.submit "1f3a9c2e" "Report" "generic" [] "2024-01-01T00:00:00"),
    .other (.start 0 "2024-01-01T00:00:01"), .askQuestion "1f3a9c2e" ⟨"Overwrite?", none⟩,
    .askQuestion "1f3a9c2e" ⟨"Send it?", none⟩, .submitAnswer "1f3a9c2e" "yes", .resume 1]

theorem first_question_lost : ¬ ∀ (history : List (QuestionCall Unit × QuestionResult))
    (s : QuestionEngine Unit), Run Step {} history s → AnswersReachOne history s := by
  intro h
  have hreach := h _ _ (run_of_runCalls (fun _ _ => True) overlappingAsks rfl
    fun _ _ _ _ _ _ _ _ => trivial).of_guarded
  obtain ⟨j, b, -, -, -, hsubmit⟩ :=
    hreach.answerable 0 ⟨"1f3a9c2e", 0, none, true⟩ ⟨rfl, rfl, rfl⟩
  cases hsubmit "no"

/-- The steps on which there is no condition. -/
theorem safe_of_free {c : QuestionCall V} (r : QuestionResult)
    (hask : ∀ task_id question, c ≠ .askQuestion task_id question)
    (hexpire : ∀ k, c ≠ .expire k) (hcancel : ∀ k, c ≠ .cancelAsk k) : s.QuestionSafe (c, r) := by
  constructor
  · intro task_id question hc
    exact (hask task_id question hc).elim
  · rintro k (hc | hc)
    · exact (hexpire k hc).elim
    · exact (hcancel k hc).elim

theorem question_answered : ∃ (history : List (QuestionCall Unit × QuestionResult))
    (s : QuestionEngine Unit), (s.waits 0).ended = some (.answered "yes") ∧
      AnswersReachOne history s := by
  refine ⟨_, _, ?_, answers_reach_one (run_of_runCalls QuestionSafe
    [.other (.submit "1f3a9c2e" "Report" "generic" [] "2024-01-01T00:00:00"),
      .askQuestion "1f3a9c2e" ⟨"Overwrite?", none⟩, .submitAnswer "1f3a9c2e" "yes", .resume 0]
    rfl ?_)⟩
  · rfl
  · intro begun c rest t started hcs hbegun r
    rcases begun with _ | ⟨c₁, _ | ⟨c₂, begun⟩⟩
    · obtain rfl := (List.cons.inj hcs).1
      exact safe_of_free r nofun nofun nofun
    · obtain ⟨rfl, htail⟩ := List.cons.inj hcs
      obtain rfl := (List.cons.inj htail).1
      obtain ⟨-, rfl⟩ := Prod.mk.inj (Option.some.inj hbegun)
      constructor
      · intro task_id question _ a ha
        cases ha
      · rintro k (hc | hc)
        · cases hc
        · cases hc
    · have hmem : c ∈ [.submitAnswer "1f3a9c2e" "yes", .resume 0] := by
        rw [(List.cons.inj (List.cons.inj hcs).2).2]
        exact List.mem_append_right begun List.mem_cons_self
      rcases List.mem_cons.1 hmem with rfl | hmem
      · exact safe_of_free r nofun nofun nofun
      · rw [List.mem_singleton.1 hmem]
        exact safe_of_free r nofun nofun nofun

end QuestionEngine

end ScottyCore.BackgroundTasks
