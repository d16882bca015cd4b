import Mathlib.Init

/-! Actions that return or raise, and change a state either way, with rules for what holds before
and after them. -/

/-- An action on a state: what it changed before it raised stays changed. -/
def Routine (σ : Type u) (ε : Type v) (α : Type w) := σ → Except ε α × σ

namespace Routine
set_option autoImplicit true

instance : Monad (Routine σ ε) where
  pure a := fun s => (.ok a, s)
  bind x f := fun s =>
    match x s with
    | (.ok a, s') => f a s'
    | (.error e, s') => (.error e, s')

def raise (e : ε) : Routine σ ε α := fun s => (.error e, s)

def look (f : σ → α) : Routine σ ε α := fun s => (.ok (f s), s)

def change (f : σ → σ) : Routine σ ε Unit := fun s => (.ok (), f s)

/-- Raises where something has failed. -/
def check : Option ε → Routine σ ε Unit
  | some e => raise e
  | none => pure ()

/-- `try: return x except ...`: what `x` raised, where it raised. -/
def attempt (x : Routine σ ε α) : Routine σ ε (Except ε α) := fun s => (.ok (x s).1, (x s).2)

/-! ## What holds before and after -/

/-- From a state with `P`, an action that returns leaves `Q`, and one that raises leaves `E`. -/
def Triple (P : σ → Prop) (x : Routine σ ε α) (Q : α → σ → Prop) (E : σ → Prop) : Prop :=
  ∀ s, P s → (∀ a s', x s = (.ok a, s') → Q a s') ∧ ∀ e s', x s = (.error e, s') → E s'

/-- An action keeps a property of the state, whether it returns or raises. -/
def Keeps (I : σ → Prop) (x : Routine σ ε α) : Prop := Triple I x (fun _ => I) I

variable {P P' E E' : σ → Prop} {Q Q' : α → σ → Prop} {x : Routine σ ε α}

theorem triple_pure {a : α} (h : ∀ s, P s → Q a s) : Triple P (pure a : Routine σ ε α) Q E := by
  intro s hs
  constructor
  · intro b s' heq
    cases heq
    exact h s hs
  · intro e s' heq
    cases heq

theorem triple_raise {e : ε} (h : ∀ s, P s → E s) : Triple P (raise e : Routine σ ε α) Q E := by
  intro s hs
  constructor
  · intro b s' heq
    cases heq
  · intro e' s' heq
    cases heq
    exact h s hs

theorem triple_look {f : σ → α} (h : ∀ s, P s → Q (f s) s) :
    Triple P (look f : Routine σ ε α) Q E := by
  intro s hs
  constructor
  · intro b s' heq
    cases heq
    exact h s hs
  · intro e s' heq
    cases heq

theorem triple_change {f : σ → σ} {Q : Unit → σ → Prop} (h : ∀ s, P s → Q () (f s)) :
    Triple P (change f : Routine σ ε Unit) Q E := by
  intro s hs
  constructor
  · intro b s' heq
    cases heq
    exact h s hs
  · intro e s' heq
    cases heq

theorem triple_check {Q : Unit → σ → Prop} (failure : Option ε) (hok : ∀ s, P s → Q () s)
    (hfail : ∀ s, P s → E s) : Triple P (check failure) Q E := by
  cases failure with
  | none => exact triple_pure hok
  | some e => exact triple_raise hfail

theorem bind_of_ok {f : α → Routine σ ε β} (h : x s = (.ok a, s')) : (x >>= f) s = f a s' := by
  simp only [Bind.bind, h]

theorem bind_of_error {f : α → Routine σ ε β} (h : x s = (.error e, s')) :
    (x >>= f) s = (.error e, s') := by
  simp only [Bind.bind, h]

/-- One action after another. -/
theorem Triple.bind {R : β → σ → Prop} {f : α → Routine σ ε β} (hx : Triple P x Q E)
    (hf : ∀ a, Triple (Q a) (f a) R E) : Triple P (x >>= f) R E := by
  intro s hs
  obtain ⟨hok, herror⟩ := hx s hs
  rcases hxs : x s with ⟨e | a, s'⟩
  · rw [bind_of_error hxs]
    constructor
    · intro b s'' heq
      cases heq
    · intro e' s'' heq
      cases heq
      exact herror e s' hxs
  · rw [bind_of_ok hxs]
    exact hf a s' (hok a s' hxs)

/-- The rule of consequence. -/
theorem Triple.mono (h : Triple P x Q E) (hP : ∀ s, P' s → P s) (hQ : ∀ a s, Q a s → Q' a s)
    (hE : ∀ s, E s → E' s) : Triple P' x Q' E' := by
  intro s hs
  obtain ⟨hok, herror⟩ := h s (hP s hs)
  exact ⟨fun a s' heq => hQ a s' (hok a s' heq), fun e s' heq => hE s' (herror e s' heq)⟩

theorem Triple.and (h : Triple P x Q E) (h' : Triple P' x Q' E') :
    Triple (fun s => P s ∧ P' s) x (fun a s => Q a s ∧ Q' a s) fun s => E s ∧ E' s := by
  intro s hs
  obtain ⟨hok, herror⟩ := h s hs.1
  obtain ⟨hok', herror'⟩ := h' s hs.2
  exact ⟨fun a s' heq => ⟨hok a s' heq, hok' a s' heq⟩,
    fun e s' heq => ⟨herror e s' heq, herror' e s' heq⟩⟩

/-- An action that is tried keeps what it would leave in either case. -/
theorem triple_attempt {Q : Except ε α → σ → Prop}
    (h : Triple P x (fun a => Q (.ok a)) fun s => ∀ e, Q (.error e) s) :
    Triple P (attempt x : Routine σ ε (Except ε α)) Q E := by
  intro s hs
  obtain ⟨hok, herror⟩ := h s hs
  constructor
  · intro result s' heq
    cases heq
    rcases hxs : x s with ⟨e | a, s'⟩
    · exact herror e s' hxs e
    · exact hok a s' hxs
  · intro e s' heq
    cases heq

/-- What does not speak of the state may be assumed. -/
theorem triple_of_pure {p : Prop} (h : p → Triple P x Q E) : Triple (fun s => P s ∧ p) x Q E :=
  fun s hs => h hs.2 s hs.1

theorem triple_ite {p : Prop} [Decidable p] {y : Routine σ ε α} (hx : p → Triple P x Q E)
    (hy : ¬ p → Triple P y Q E) : Triple P (if p then x else y) Q E := by
  by_cases hp : p
  · rw [if_pos hp]
    exact hx hp
  · rw [if_neg hp]
    exact hy hp

theorem Keeps.bind {I : σ → Prop} {f : α → Routine σ ε β} (hx : Keeps I x)
    (hf : ∀ a, Keeps I (f a)) : Keeps I (x >>= f) := Triple.bind hx hf

/-- What an action leaves in either case is what holds of the state after it. -/
theorem triple_iff {I : σ → Prop} : Triple P x (fun _ => I) I ↔ ∀ s, P s → I (x s).2 := by
  constructor
  · intro h s hs
    obtain ⟨hok, herror⟩ := h s hs
    rcases hxs : x s with ⟨e | a, s'⟩
    · exact herror e s' hxs
    · exact hok a s' hxs
  · intro h s hs
    have hafter := h s hs
    constructor
    · intro a s' heq
      rw [heq] at hafter
      exact hafter
    · intro e s' heq
      rw [heq] at hafter
      exact hafter

/-- An action that never raises. -/
theorem triple_returns_iff :
    Triple P x Q (fun _ => False) ↔ ∀ s, P s → ∃ a s', x s = (.ok a, s') ∧ Q a s' := by
  constructor
  · intro h s hs
    obtain ⟨hok, herror⟩ := h s hs
    rcases hxs : x s with ⟨e | a, s'⟩
    · exact (herror e s' hxs).elim
    · exact ⟨a, s', rfl, hok a s' hxs⟩
  · intro h s hs
    obtain ⟨a, s', hxs, hq⟩ := h s hs
    rw [hxs]
    constructor
    · intro b t heq
      cases heq
      exact hq
    · intro e t heq
      cases heq

theorem keeps_attempt {I : σ → Prop} (h : Keeps I x) :
    Keeps I (attempt x : Routine σ ε (Except ε α)) :=
  triple_attempt (h.mono (fun _ => id) (fun _ _ => id) fun _ hs _ => hs)

theorem keeps_check {I : σ → Prop} (failure : Option ε) : Keeps I (check failure) :=
  triple_check failure (fun _ => id) fun _ => id

theorem keeps_iff {I : σ → Prop} : Keeps I x ↔ ∀ s, I s → I (x s).2 := triple_iff

end Routine
