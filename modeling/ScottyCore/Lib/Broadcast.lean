import Mathlib.Data.List.Sublists

/-! Events for the bounded queues of subscribers, some put there at once and some scheduled. -/

namespace Broadcast
set_option autoImplicit true

/-- A queue, with what was taken from it. -/
structure Queue (α : Type u) where
  items : List α := []
  received : List α := []
  subscribed : Bool := true

/-- Everything that was put on a queue. -/
def Queue.seen (q : Queue α) : List α := q.received ++ q.items

structure Topic (α : Type u) where
  emitted : List α := []
  scheduled : List α := []
  queues : List (Queue α) := []

variable (capacity : Nat)

/-- `put_nowait`, where a full queue drops the event. -/
def Queue.push (a : α) (q : Queue α) : Queue α :=
  if q.subscribed ∧ q.items.length < capacity then { q with items := q.items ++ [a] } else q

def Queue.take (q : Queue α) : Queue α :=
  match q.items with
  | [] => q
  | a :: items => { q with items, received := q.received ++ [a] }

namespace Topic

def notify (a : α) (t : Topic α) : Topic α :=
  { t with queues := t.queues.map (Queue.push capacity a) }

/-- An event that is put on the queues at once. -/
def emitNow (a : α) (t : Topic α) : Topic α :=
  notify capacity a { t with emitted := t.emitted ++ [a] }

/-- An event that is scheduled behind those that wait. -/
def emitLater (a : α) (t : Topic α) : Topic α :=
  { t with emitted := t.emitted ++ [a], scheduled := t.scheduled ++ [a] }

/-- The first scheduled event is put on the queues. -/
def deliver (t : Topic α) : Topic α :=
  match t.scheduled with
  | [] => t
  | a :: scheduled => notify capacity a { t with scheduled }

def subscribe (t : Topic α) : Topic α := { t with queues := t.queues ++ [{}] }

def take (k : Nat) (t : Topic α) : Topic α := { t with queues := t.queues.modify k Queue.take }

def unsubscribe (k : Nat) (t : Topic α) : Topic α :=
  { t with queues := t.queues.modify k fun q => { q with subscribed := false } }

/-- Somebody is subscribed. -/
def Heard (t : Topic α) : Prop := ∃ q ∈ t.queues, q.subscribed = true

end Topic

/-! ## Order -/

/-- What is put on the queues, and what is still to come, is in the order of emission. -/
structure InOrder (t : Topic α) : Prop where
  scheduled : t.scheduled.Sublist t.emitted
  seen : ∀ q ∈ t.queues, q.seen.Sublist t.emitted
  ahead : ∀ q ∈ t.queues, q.subscribed = true → (q.seen ++ t.scheduled).Sublist t.emitted

variable {capacity : Nat} {t : Topic α} {q : Queue α}

theorem subscribed_push (a : α) (q : Queue α) : (q.push capacity a).subscribed = q.subscribed := by
  rw [Queue.push]
  split
  · rfl
  · rfl

theorem seen_push (a : α) (q : Queue α) : (q.push capacity a).seen = q.seen ∨
    q.subscribed = true ∧ (q.push capacity a).seen = q.seen ++ [a] := by
  rw [Queue.push]
  split
  · rename_i h
    exact .inr ⟨h.1, (List.append_assoc _ _ _).symm⟩
  · exact .inl rfl

theorem seen_push_of_room (a : α) (hsub : q.subscribed = true) (hroom : q.items.length < capacity) :
    (q.push capacity a).seen = q.seen ++ [a] := by
  rw [Queue.push, if_pos ⟨hsub, hroom⟩]
  exact (List.append_assoc _ _ _).symm

theorem items_push (a : α) (q : Queue α) :
    (q.push capacity a).items = q.items ∨ (q.push capacity a).items = q.items ++ [a] := by
  rw [Queue.push]
  split
  · exact .inr rfl
  · exact .inl rfl

theorem items_push_of_room (a : α) (hsub : q.subscribed = true) (hroom : q.items.length < capacity) :
    (q.push capacity a).items = q.items ++ [a] := by
  rw [Queue.push, if_pos ⟨hsub, hroom⟩]

theorem mem_items_take {a : α} (h : a ∈ q.take.items) : a ∈ q.items := by
  rw [Queue.take] at h
  split at h
  · exact h
  · rename_i b items hitems
    rw [hitems]
    exact List.mem_cons_of_mem b h

theorem seen_take (q : Queue α) : q.take.seen = q.seen := by
  rw [Queue.take]
  split
  · rfl
  · rename_i a items hitems
    rw [Queue.seen, Queue.seen, hitems, List.append_assoc, List.singleton_append]

theorem subscribed_take (q : Queue α) : q.take.subscribed = q.subscribed := by
  rw [Queue.take]
  split
  · rfl
  · rfl

theorem mem_modify {l : List β} {k : Nat} {f : β → β} {x : β} (h : x ∈ l.modify k f) :
    x ∈ l ∨ ∃ y ∈ l, x = f y := by
  obtain ⟨i, hi, rfl⟩ := List.getElem_of_mem h
  rw [List.length_modify] at hi
  rw [List.getElem_modify]
  split
  · exact .inr ⟨_, List.getElem_mem hi, rfl⟩
  · exact .inl (List.getElem_mem hi)

theorem InOrder.empty : InOrder ({} : Topic α) := by
  refine ⟨List.Sublist.refl _, ?_, ?_⟩
  · intro q hq
    cases hq
  · intro q hq
    cases hq

theorem InOrder.emitLater (h : InOrder t) (a : α) : InOrder (t.emitLater a) := by
  refine ⟨h.scheduled.append_right [a], ?_, ?_⟩
  · intro q hq
    exact (h.seen q hq).trans (List.sublist_append_left _ _)
  · intro q hq hsub
    rw [Topic.emitLater, ← List.append_assoc]
    exact (h.ahead q hq hsub).append_right [a]

/-- Where somebody listens, nothing may be scheduled ahead of an event that is put at once. -/
theorem InOrder.emitNow (h : InOrder t) (a : α) (hclear : t.Heard → t.scheduled = []) :
    InOrder (t.emitNow capacity a) := by
  have hseen : ∀ q ∈ t.queues, (q.push capacity a).seen.Sublist (t.emitted ++ [a]) := by
    intro q hq
    rcases seen_push a q with hsame | ⟨-, hpushed⟩
    · rw [hsame]
      exact (h.seen q hq).trans (List.sublist_append_left _ _)
    · rw [hpushed]
      exact (h.seen q hq).append_right [a]
  refine ⟨h.scheduled.trans (List.sublist_append_left _ _), ?_, ?_⟩
  · intro p hp
    obtain ⟨q, hq, rfl⟩ := List.mem_map.1 hp
    exact hseen q hq
  · intro p hp hsub
    obtain ⟨q, hq, rfl⟩ := List.mem_map.1 hp
    have hnone : (t.emitNow capacity a).scheduled = [] :=
      hclear ⟨q, hq, subscribed_push a q ▸ hsub⟩
    rw [hnone, List.append_nil]
    exact hseen q hq

theorem InOrder.deliver (h : InOrder t) : InOrder (t.deliver capacity) := by
  rw [Topic.deliver]
  split
  · exact h
  rename_i a scheduled hscheduled
  have hrest : scheduled.Sublist t.scheduled := hscheduled ▸ List.sublist_cons_self a scheduled
  refine ⟨hrest.trans h.scheduled, ?_, ?_⟩
  · intro p hp
    obtain ⟨q, hq, rfl⟩ := List.mem_map.1 hp
    rcases seen_push a q with hsame | ⟨hsub, hpushed⟩
    · rw [hsame]
      exact h.seen q hq
    · rw [hpushed]
      apply List.Sublist.trans _ (h.ahead q hq hsub)
      rw [hscheduled]
      exact List.Sublist.append_left (List.singleton_sublist.2 List.mem_cons_self) q.seen
  · intro p hp hsub
    obtain ⟨q, hq, rfl⟩ := List.mem_map.1 hp
    rcases seen_push a q with hsame | ⟨hsub', hpushed⟩
    · rw [hsame]
      exact (List.Sublist.append_left hrest q.seen).trans (h.ahead q hq (subscribed_push a q ▸ hsub))
    · have hahead := h.ahead q hq hsub'
      rwa [hscheduled, ← List.singleton_append, ← List.append_assoc, ← hpushed] at hahead

theorem InOrder.subscribe (h : InOrder t) : InOrder t.subscribe := by
  refine ⟨h.scheduled, ?_, ?_⟩
  · intro q hq
    rcases List.mem_append.1 hq with hq | hq
    · exact h.seen q hq
    · rw [List.mem_singleton.1 hq]
      exact List.nil_sublist _
  · intro q hq hsub
    rcases List.mem_append.1 hq with hq | hq
    · exact h.ahead q hq hsub
    · rw [List.mem_singleton.1 hq]
      exact h.scheduled

theorem InOrder.take (h : InOrder t) (k : Nat) : InOrder (t.take k) := by
  refine ⟨h.scheduled, ?_, ?_⟩
  · intro q hq
    rcases mem_modify hq with hq | ⟨p, hp, rfl⟩
    · exact h.seen q hq
    · rw [seen_take]
      exact h.seen p hp
  · intro q hq hsub
    rcases mem_modify hq with hq | ⟨p, hp, rfl⟩
    · exact h.ahead q hq hsub
    · rw [subscribed_take] at hsub
      rw [seen_take]
      exact h.ahead p hp hsub

theorem InOrder.unsubscribe (h : InOrder t) (k : Nat) : InOrder (t.unsubscribe k) := by
  refine ⟨h.scheduled, ?_, ?_⟩
  · intro q hq
    rcases mem_modify hq with hq | ⟨p, hp, rfl⟩
    · exact h.seen q hq
    · exact h.seen p hp
  · intro q hq hsub
    rcases mem_modify hq with hq | ⟨p, hp, rfl⟩
    · exact h.ahead q hq hsub
    · cases hsub

/-! ## Events that close -/

/-- Nothing follows an event that closes. -/
def ClosesAt (p : α → Bool) (l : List α) : Prop :=
  ∀ before a after, l = before ++ a :: after → p a = true → after = []

variable {p : α → Bool} {l : List α}

theorem closesAt_of_none (h : ∀ a ∈ l, p a = false) : ClosesAt p l := by
  intro before a after hl ha
  rw [h a (hl ▸ List.mem_append_right _ List.mem_cons_self)] at ha
  cases ha

theorem closesAt_concat (h : ∀ a ∈ l, p a = false) (a : α) : ClosesAt p (l ++ [a]) := by
  intro before b after hl hb
  rcases List.eq_nil_or_concat after with hnil | ⟨after', x, rfl⟩
  · exact hnil
  · rw [List.concat_eq_append, ← List.cons_append, ← List.append_assoc] at hl
    obtain ⟨rfl, -⟩ := List.append_inj' hl rfl
    rw [h b (List.mem_append_right _ List.mem_cons_self)] at hb
    cases hb

theorem ClosesAt.countP (h : ClosesAt p l) (hmem : ∃ a ∈ l, p a = true) : l.countP p = 1 := by
  obtain ⟨a, hal, ha⟩ := hmem
  obtain ⟨before, after, rfl⟩ := List.append_of_mem hal
  obtain rfl := h before a after rfl ha
  have hbefore : before.countP p = 0 := by
    rw [List.countP_eq_zero]
    intro b hb hpb
    obtain ⟨l₁, l₂, rfl⟩ := List.append_of_mem hb
    have hnil := h l₁ b (l₂ ++ [a]) (List.append_assoc _ _ _) hpb
    exact List.append_ne_nil_of_right_ne_nil _ (List.cons_ne_nil _ _) hnil
  rw [List.countP_append, hbefore, List.countP_singleton, ha]
  rfl

/-- An event that closes is the last of every queue, and no queue that has it waits for more. -/
structure Closing (p : α → Bool) (t : Topic α) : Prop where
  scheduled : ∀ a ∈ t.scheduled, p a = false
  last : ∀ q ∈ t.queues, ClosesAt p q.seen
  ended : ∀ q ∈ t.queues, q.subscribed = true → t.scheduled ≠ [] → ∀ a ∈ q.seen, p a = false

theorem Closing.empty : Closing p ({} : Topic α) := by
  refine ⟨?_, ?_, ?_⟩
  · intro a ha
    cases ha
  · intro q hq
    cases hq
  · intro q hq
    cases hq

theorem Closing.emitLater (h : Closing p t) (horder : InOrder t) (ha : p a = false)
    (hopen : t.Heard → ∀ b ∈ t.emitted, p b = false) : Closing p (t.emitLater a) := by
  refine ⟨?_, h.last, ?_⟩
  · intro b hb
    rcases List.mem_append.1 hb with hb | hb
    · exact h.scheduled b hb
    · rw [List.mem_singleton.1 hb]
      exact ha
  · intro q hq hsub _ b hb
    exact hopen ⟨q, hq, hsub⟩ b ((horder.seen q hq).subset hb)

theorem Closing.emitNow (h : Closing p t) (horder : InOrder t) (a : α)
    (hopen : t.Heard → ∀ b ∈ t.emitted, p b = false) (hclear : t.Heard → t.scheduled = []) :
    Closing p (t.emitNow capacity a) := by
  refine ⟨h.scheduled, ?_, ?_⟩
  · intro q' hq'
    obtain ⟨q, hq, rfl⟩ := List.mem_map.1 hq'
    rcases seen_push a q with hsame | ⟨hsub, hpushed⟩
    · rw [hsame]
      exact h.last q hq
    · rw [hpushed]
      apply closesAt_concat
      intro b hb
      exact hopen ⟨q, hq, hsub⟩ b ((horder.seen q hq).subset hb)
  · intro q' hq' hsub' hwaits
    obtain ⟨q, hq, rfl⟩ := List.mem_map.1 hq'
    exact (hwaits (hclear ⟨q, hq, subscribed_push a q ▸ hsub'⟩)).elim

theorem Closing.deliver (h : Closing p t) : Closing p (t.deliver capacity) := by
  rw [Topic.deliver]
  split
  · exact h
  rename_i a scheduled hscheduled
  have hwaits : t.scheduled ≠ [] := by
    rw [hscheduled]
    exact List.cons_ne_nil _ _
  refine ⟨?_, ?_, ?_⟩
  · intro b hb
    exact h.scheduled b (hscheduled ▸ List.mem_cons_of_mem _ hb)
  · intro q' hq'
    obtain ⟨q, hq, rfl⟩ := List.mem_map.1 hq'
    rcases seen_push a q with hsame | ⟨hsub, hpushed⟩
    · rw [hsame]
      exact h.last q hq
    · rw [hpushed]
      exact closesAt_concat (h.ended q hq hsub hwaits) a
  · intro q' hq' hsub' _ b hb
    obtain ⟨q, hq, rfl⟩ := List.mem_map.1 hq'
    have hold := h.ended q hq (subscribed_push a q ▸ hsub') hwaits
    rcases seen_push a q with hsame | ⟨-, hpushed⟩
    · rw [hsame] at hb
      exact hold b hb
    · rw [hpushed] at hb
      rcases List.mem_append.1 hb with hb | hb
      · exact hold b hb
      · rw [List.mem_singleton.1 hb]
        exact h.scheduled a (hscheduled ▸ List.mem_cons_self)

theorem Closing.subscribe (h : Closing p t) : Closing p t.subscribe := by
  have hnew : ∀ a ∈ ({} : Queue α).seen, p a = false := by
    intro a ha
    cases ha
  refine ⟨h.scheduled, ?_, ?_⟩
  · intro q hq
    rcases List.mem_append.1 hq with hq | hq
    · exact h.last q hq
    · rw [List.mem_singleton.1 hq]
      exact closesAt_of_none hnew
  · intro q hq hsub
    rcases List.mem_append.1 hq with hq | hq
    · exact h.ended q hq hsub
    · rw [List.mem_singleton.1 hq]
      exact fun _ => hnew

theorem Closing.take (h : Closing p t) (k : Nat) : Closing p (t.take k) := by
  refine ⟨h.scheduled, ?_, ?_⟩
  · intro q' hq'
    rcases mem_modify hq' with hq | ⟨q, hq, rfl⟩
    · exact h.last q' hq
    · rw [seen_take]
      exact h.last q hq
  · intro q' hq' hsub
    rcases mem_modify hq' with hq | ⟨q, hq, rfl⟩
    · exact h.ended q' hq hsub
    · rw [subscribed_take] at hsub
      rw [seen_take]
      exact h.ended q hq hsub

theorem Closing.unsubscribe (h : Closing p t) (k : Nat) : Closing p (t.unsubscribe k) := by
  refine ⟨h.scheduled, ?_, ?_⟩
  · intro q' hq'
    rcases mem_modify hq' with hq | ⟨q, hq, rfl⟩
    · exact h.last q' hq
    · exact h.last q hq
  · intro q' hq' hsub
    rcases mem_modify hq' with hq | ⟨q, hq, rfl⟩
    · exact h.ended q' hq hsub
    · cases hsub

/-! ## One queue of a topic -/

/-- The queues stay where they are, and what they were given stays given. -/
def Follows (t t' : Topic α) : Prop :=
  ∀ (k : Nat) (q : Queue α), t.queues[k]? = some q → ∃ q' : Queue α, t'.queues[k]? = some q' ∧
    q.seen <+: q'.seen ∧ (q'.subscribed = true → q.subscribed = true)

theorem Follows.of_queues (h : t'.queues = t.queues) : Follows t t' := by
  intro k q hq
  exact ⟨q, h ▸ hq, List.prefix_rfl, id⟩

theorem follows_notify (a : α) (t : Topic α) : Follows t (t.notify capacity a) := by
  intro k q hq
  refine ⟨q.push capacity a, ?_, ?_, ?_⟩
  · rw [Topic.notify, List.getElem?_map, hq]
    rfl
  · rcases seen_push a q with hsame | ⟨-, hpushed⟩
    · exact hsame ▸ List.prefix_rfl
    · rw [hpushed]
      exact List.prefix_append _ _
  · rw [subscribed_push]
    exact id

theorem follows_deliver (t : Topic α) : Follows t (t.deliver capacity) := by
  rw [Topic.deliver]
  split
  · exact .of_queues rfl
  · rename_i a scheduled hscheduled
    exact follows_notify a { t with scheduled }

theorem follows_subscribe (t : Topic α) : Follows t t.subscribe := by
  intro k q hq
  refine ⟨q, ?_, List.prefix_rfl, id⟩
  rw [Topic.subscribe, List.getElem?_append_left (List.getElem?_eq_some_iff.1 hq).1, hq]

theorem follows_modify {f : Queue α → Queue α} (k : Nat) (t : Topic α)
    (hseen : ∀ q, (f q).seen = q.seen)
    (hsub : ∀ q, (f q).subscribed = true → q.subscribed = true) :
    Follows t { t with queues := t.queues.modify k f } := by
  intro j q hq
  by_cases hj : k = j
  · refine ⟨f q, ?_, ?_, hsub q⟩
    · rw [hj, List.getElem?_modify_eq, hq]
      rfl
    · exact hseen q ▸ List.prefix_rfl
  · refine ⟨q, ?_, List.prefix_rfl, id⟩
    rw [List.getElem?_modify_ne _ _ hj, hq]

theorem follows_take (k : Nat) (t : Topic α) : Follows t (t.take k) :=
  follows_modify k t seen_take fun q hsub => subscribed_take q ▸ hsub

theorem follows_unsubscribe (k : Nat) (t : Topic α) : Follows t (t.unsubscribe k) :=
  follows_modify k t (fun _ => rfl) fun _ hsub => by cases hsub

end Broadcast
