import Mathlib.Logic.Basic

namespace Async
set_option autoImplicit true

/-! ## Coroutines over a state -/

/-- What ends a coroutine before it returns. -/
inductive Interrupt (ε : Type) where
  | exception (e : ε)
  | cancellation
  deriving DecidableEq

/-- How an awaited call ends. What is interrupted late has taken effect. -/
inductive Fate (ε : Type) where
  | done
  | early (i : Interrupt ε)
  | late (i : Interrupt ε)
  deriving DecidableEq

/-- The call is interrupted, whether it has taken effect or not. -/
def Fate.EndsIn (fate : Fate ε) (i : Interrupt ε) : Prop := fate = early i ∨ fate = late i

inductive Outcome (ε α : Type) where
  | returned (a : α)
  | stopped (i : Interrupt ε)
  deriving DecidableEq

def Outcome.elim (o : Outcome ε α) (r : α → β) (s : Interrupt ε → β) : β :=
  match o with
  | returned a => r a
  | stopped i => s i

@[simp] theorem Outcome.elim_returned (r : α → β) (s : Interrupt ε → β) :
    (returned a).elim r s = r a := rfl

@[simp] theorem Outcome.elim_stopped (r : α → β) (s : Interrupt ε → β) :
    (stopped i : Outcome ε α).elim r s = s i := rfl

/-- One continuation for an exception, another for everything else. -/
def Outcome.except (o : Outcome ε α) (h : ε → β) (k : Outcome ε α → β) : β :=
  match o with
  | stopped (.exception e) => h e
  | o => k o

@[simp] theorem Outcome.except_returned (h : ε → β) (k : Outcome ε α → β) :
    (returned a).except h k = k (.returned a) := rfl

@[simp] theorem Outcome.except_exception (h : ε → β) (k : Outcome ε α → β) :
    (stopped (.exception e)).except h k = h e := rfl

@[simp] theorem Outcome.except_cancellation (h : ε → β) (k : Outcome ε α → β) :
    (stopped .cancellation).except h k = k (.stopped .cancellation) := rfl

/-- An outcome, and the states that were committed on the way to it. -/
structure Passage (σ ε α : Type) where
  outcome : Outcome ε α
  states : List σ

def Coroutine (σ ε α : Type) : Type := σ → Passage σ ε α

def lastState (s : σ) : List σ → σ
  | [] => s
  | s' :: states => lastState s' states

theorem lastState_append (s : σ) (l l' : List σ) :
    lastState s (l ++ l') = lastState (lastState s l) l' := by
  induction l generalizing s with
  | nil => rfl
  | cons s' l ih => exact ih s'

/-- Each state is related to the one before it. -/
def Linked (R : σ → σ → Prop) (s : σ) : List σ → Prop
  | [] => True
  | s' :: states => R s s' ∧ Linked R s' states

theorem linked_append {R : σ → σ → Prop} (s : σ) (l l' : List σ) :
    Linked R s (l ++ l') ↔ Linked R s l ∧ Linked R (lastState s l) l' := by
  induction l generalizing s with
  | nil => exact (iff_of_eq (true_and _)).symm
  | cons s' l ih =>
    rw [List.cons_append, Linked, Linked, ih s', and_assoc]
    rfl

theorem Linked.weaken {R R' : σ → σ → Prop} (hR : ∀ s s', R s s' → R' s s') {l : List σ}
    (h : Linked R s l) : Linked R' s l := by
  induction l generalizing s with
  | nil => trivial
  | cons s' l ih => exact ⟨hR s s' h.1, ih h.2⟩

namespace Coroutine

variable {σ ε α β : Type}

def final (t : Coroutine σ ε α) (s : σ) : σ := lastState s (t s).states

protected def pure (a : α) : Coroutine σ ε α := fun _ => ⟨.returned a, []⟩

protected def bind (t : Coroutine σ ε α) (f : α → Coroutine σ ε β) : Coroutine σ ε β := fun s =>
  (t s).outcome.elim
    (fun a => ⟨(f a (t.final s)).outcome, (t s).states ++ (f a (t.final s)).states⟩)
    (fun i => ⟨.stopped i, (t s).states⟩)

instance : Monad (Coroutine σ ε) where
  pure := Coroutine.pure
  bind := Coroutine.bind

/-- What is computed from the state without an await. -/
def reading (f : σ → Except ε α) : Coroutine σ ε α := fun s =>
  match f s with
  | .ok a => ⟨.returned a, []⟩
  | .error e => ⟨.stopped (.exception e), []⟩

/-- An awaited call, which commits a state unless it fails or is interrupted early. -/
def await (fate : Fate ε) (f : σ → Except ε (α × σ)) : Coroutine σ ε α := fun s =>
  match fate with
  | .early i => ⟨.stopped i, []⟩
  | .done =>
    match f s with
    | .ok r => ⟨.returned r.1, [r.2]⟩
    | .error e => ⟨.stopped (.exception e), []⟩
  | .late i =>
    match f s with
    | .ok r => ⟨.stopped i, [r.2]⟩
    | .error e => ⟨.stopped (.exception e), []⟩

/-- `try: t except Exception as e: handler(e)`, which a cancellation passes. -/
def handle (t : Coroutine σ ε α) (handler : ε → Coroutine σ ε α) : Coroutine σ ε α := fun s =>
  (t s).outcome.except
    (fun e => ⟨(handler e (t.final s)).outcome, (t s).states ++ (handler e (t.final s)).states⟩)
    (fun o => ⟨o, (t s).states⟩)

@[simp] theorem final_pure (a : α) (s : σ) : (pure a : Coroutine σ ε α).final s = s := rfl

theorem final_bind (t : Coroutine σ ε α) (f : α → Coroutine σ ε β) (s : σ) :
    (t >>= f).final s = (t s).outcome.elim (fun a => (f a).final (t.final s))
      (fun _ => t.final s) := by
  change lastState s (Coroutine.bind t f s).states = _
  rw [Coroutine.bind]
  cases (t s).outcome with
  | returned a => exact lastState_append s _ _
  | stopped i => rfl

theorem final_handle (t : Coroutine σ ε α) (handler : ε → Coroutine σ ε α) (s : σ) :
    (handle t handler).final s = (t s).outcome.except (fun e => (handler e).final (t.final s))
      (fun _ => t.final s) := by
  change lastState s (handle t handler s).states = _
  rw [handle]
  cases (t s).outcome with
  | returned a => rfl
  | stopped i =>
    cases i with
    | exception e => exact lastState_append s _ _
    | cancellation => rfl

/-! ## Weakest preconditions -/

/-- From a state, each commit of a coroutine respects a relation and its end a postcondition. -/
def wp (R : σ → σ → Prop) (t : Coroutine σ ε α) (Q : Outcome ε α → σ → Prop) (s : σ) : Prop :=
  Linked R s (t s).states ∧ Q (t s).outcome (t.final s)

variable {R : σ → σ → Prop} {t : Coroutine σ ε α} {Q Q' : Outcome ε α → σ → Prop} {s : σ}

theorem wp_mono (h : wp R t Q s) (hQ : ∀ o s', Q o s' → Q' o s') : wp R t Q' s :=
  ⟨h.1, hQ _ _ h.2⟩

theorem wp_weaken {R' : σ → σ → Prop} (h : wp R t Q s) (hR : ∀ s s', R s s' → R' s s') :
    wp R' t Q s := ⟨h.1.weaken hR, h.2⟩

theorem wp_and {R' : σ → σ → Prop} (h : wp R t Q s) (h' : wp R' t Q' s) :
    wp R t (fun o s' => Q o s' ∧ Q' o s') s := ⟨h.1, h.2, h'.2⟩

@[simp] theorem wp_pure (a : α) : wp R (pure a) Q s ↔ Q (.returned a) s := iff_of_eq (true_and _)

theorem wp_bind (f : α → Coroutine σ ε β) (Q : Outcome ε β → σ → Prop) :
    wp R (t >>= f) Q s ↔
      wp R t (fun o s' => o.elim (fun a => wp R (f a) Q s') (fun i => Q (.stopped i) s')) s := by
  change wp R (Coroutine.bind t f) Q s ↔ _
  simp only [wp, Coroutine.bind, final]
  cases (t s).outcome with
  | returned a =>
    simp only [Outcome.elim_returned, linked_append, lastState_append, and_assoc]
  | stopped i => exact Iff.rfl

theorem wp_reading_ok {f : σ → Except ε α} (hf : f s = .ok a) :
    wp R (reading f) Q s ↔ Q (.returned a) s := by
  simp only [wp, reading, final, hf]
  exact iff_of_eq (true_and _)

theorem wp_reading_error {f : σ → Except ε α} (hf : f s = .error e) :
    wp R (reading f) Q s ↔ Q (.stopped (.exception e)) s := by
  simp only [wp, reading, final, hf]
  exact iff_of_eq (true_and _)

@[simp] theorem wp_await_early (i : Interrupt ε) (f : σ → Except ε (α × σ)) :
    wp R (await (.early i) f) Q s ↔ Q (.stopped i) s := iff_of_eq (true_and _)

theorem wp_await_error {f : σ → Except ε (α × σ)} (hf : f s = .error e)
    (hfate : ∀ i, fate ≠ .early i) :
    wp R (await fate f) Q s ↔ Q (.stopped (.exception e)) s := by
  cases fate with
  | early i => exact (hfate i rfl).elim
  | done =>
    simp only [wp, await, final, hf]
    exact iff_of_eq (true_and _)
  | late i =>
    simp only [wp, await, final, hf]
    exact iff_of_eq (true_and _)

theorem wp_await_done {f : σ → Except ε (α × σ)} (hf : f s = .ok r) :
    wp R (await .done f) Q s ↔ R s r.2 ∧ Q (.returned r.1) r.2 := by
  simp only [wp, await, final, hf, Linked, lastState, and_true]

theorem wp_await_late {f : σ → Except ε (α × σ)} (hf : f s = .ok r) :
    wp R (await (.late i) f) Q s ↔ R s r.2 ∧ Q (.stopped i) r.2 := by
  simp only [wp, await, final, hf, Linked, lastState, and_true]

theorem wp_handle (handler : ε → Coroutine σ ε α) : wp R (handle t handler) Q s ↔
    wp R t (fun o s' => o.except (fun e => wp R (handler e) Q s') (fun o => Q o s')) s := by
  simp only [wp, handle, final]
  cases (t s).outcome with
  | returned a => exact Iff.rfl
  | stopped i =>
    cases i with
    | exception e =>
      simp only [Outcome.except_exception, linked_append, lastState_append, and_assoc]
    | cancellation => exact Iff.rfl

theorem wp_await {f : σ → Except ε (α × σ)}
    (hok : ∀ r, f s = .ok r → R s r.2 ∧ (fate = .done → Q (.returned r.1) r.2) ∧
      ∀ i, fate = .late i → Q (.stopped i) r.2)
    (herror : ∀ e, f s = .error e → Q (.stopped (.exception e)) s)
    (hearly : ∀ i, fate = .early i → Q (.stopped i) s) : wp R (await fate f) Q s := by
  cases fate with
  | early i => exact (wp_await_early i f).2 (hearly i rfl)
  | done =>
    cases hf : f s with
    | error e => exact (wp_await_error hf (by nofun)).2 (herror e hf)
    | ok r => exact (wp_await_done hf).2 ⟨(hok r hf).1, (hok r hf).2.1 rfl⟩
  | late i =>
    cases hf : f s with
    | error e => exact (wp_await_error hf (by nofun)).2 (herror e hf)
    | ok r => exact (wp_await_late hf).2 ⟨(hok r hf).1, (hok r hf).2.2 i rfl⟩

/-- One coroutine after another. -/
theorem wp_seq {k : α → Coroutine σ ε β} {M : Outcome ε α → σ → Prop}
    {Q : Outcome ε β → σ → Prop} (ht : wp R t M s)
    (hreturned : ∀ a s', M (.returned a) s' → wp R (k a) Q s')
    (hstopped : ∀ i s', M (.stopped i) s' → Q (.stopped i) s') : wp R (t >>= k) Q s := by
  rw [wp_bind]
  apply wp_mono ht
  intro o s' hs'
  cases o with
  | returned a => exact hreturned a s' hs'
  | stopped i => exact hstopped i s' hs'

/-- A coroutine whose exceptions are handled. -/
theorem wp_try {handler : ε → Coroutine σ ε α} {M : Outcome ε α → σ → Prop} (ht : wp R t M s)
    (hreturned : ∀ a s', M (.returned a) s' → Q (.returned a) s')
    (hexception : ∀ e s', M (.stopped (.exception e)) s' → wp R (handler e) Q s')
    (hcancelled : ∀ s', M (.stopped .cancellation) s' → Q (.stopped .cancellation) s') :
    wp R (handle t handler) Q s := by
  rw [wp_handle]
  apply wp_mono ht
  intro o s' hs'
  cases o with
  | returned a => exact hreturned a s' hs'
  | stopped i =>
    cases i with
    | exception e => exact hexception e s' hs'
    | cancellation => exact hcancelled s' hs'

/-! ## Invariants of a coroutine -/

/-- However it ends, a coroutine keeps an invariant, and each of its commits a relation. -/
def Keeps (R : σ → σ → Prop) (I : σ → Prop) (t : Coroutine σ ε α) : Prop :=
  ∀ s, I s → wp R t (fun _ s' => I s') s

variable {I : σ → Prop}

theorem Keeps.pure (a : α) : Keeps R I (pure a : Coroutine σ ε α) := fun _ hs => (wp_pure a).2 hs

theorem Keeps.bind {f : α → Coroutine σ ε β} (ht : Keeps R I t) (hf : ∀ a, Keeps R I (f a)) :
    Keeps R I (t >>= f) := by
  intro s hs
  apply wp_seq (ht s hs)
  · exact hf
  · exact fun _ _ => id

theorem Keeps.reading (f : σ → Except ε α) : Keeps R I (reading f) := by
  intro s hs
  cases hf : f s with
  | ok a => exact (wp_reading_ok hf).2 hs
  | error e => exact (wp_reading_error hf).2 hs

theorem Keeps.await {f : σ → Except ε (α × σ)} (fate : Fate ε)
    (h : ∀ s r, I s → f s = .ok r → R s r.2 ∧ I r.2) : Keeps R I (await fate f) := by
  intro s hs
  apply wp_await
  · intro r hr
    exact ⟨(h s r hs hr).1, fun _ => (h s r hs hr).2, fun _ _ => (h s r hs hr).2⟩
  · intro e _
    exact hs
  · intro i _
    exact hs

theorem Keeps.handle {handler : ε → Coroutine σ ε α} (ht : Keeps R I t)
    (hh : ∀ e, Keeps R I (handler e)) : Keeps R I (handle t handler) := by
  intro s hs
  apply wp_try (ht s hs)
  · exact fun _ _ => id
  · exact hh
  · exact fun _ => id

/-- One stage of a coroutine. What ends it there leaves the invariant. -/
theorem wp_await_bind {f : σ → Except ε (α × σ)} {k : α → Coroutine σ ε β}
    {Q : Outcome ε β → σ → Prop} (hs : I s)
    (hstop : ∀ i s', I s' → fate.EndsIn i ∨ (∃ e, f s = .error e ∧ i = .exception e) →
      Q (.stopped i) s')
    (hf : ∀ r, f s = .ok r → R s r.2 ∧ I r.2)
    (hk : fate = .done → ∀ r, f s = .ok r → wp R (k r.1) Q r.2) :
    wp R (await fate f >>= k) Q s := by
  rw [wp_bind]
  apply wp_await
  · intro r hr
    exact ⟨(hf r hr).1, fun hd => hk hd r hr, fun i hi => hstop i r.2 (hf r hr).2 (.inl (.inr hi))⟩
  · intro e he
    exact hstop _ s hs (.inr ⟨e, he, rfl⟩)
  · intro i hi
    exact hstop i s hs (.inl (.inl hi))

theorem wp_reading_bind {f : σ → Except ε α} {k : α → Coroutine σ ε β}
    {Q : Outcome ε β → σ → Prop} (hstop : ∀ e, f s = .error e → Q (.stopped (.exception e)) s)
    (hk : ∀ a, f s = .ok a → wp R (k a) Q s) : wp R (reading f >>= k) Q s := by
  rw [wp_bind]
  cases hf : f s with
  | ok a => exact (wp_reading_ok hf).2 (hk a hf)
  | error e => exact (wp_reading_error hf).2 (hstop e hf)

end Coroutine

end Async
