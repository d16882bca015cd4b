import Mathlib.Logic.Basic
import Mathlib.Tactic.ByContra

namespace Exchange
set_option autoImplicit true

/-! Two replicas of one record offer each other the version they hold. -/

/-- A version of a record: what it says and when it was last written. -/
structure Version (C : Type u) (T : Type v) where
  content : C
  stamp : T

/-- What a replica does with the version it is offered. To retouch is to take the content
under a new stamp. -/
inductive Answer (T : Type v) where
  | refuse
  | take
  | retouch (now : T)

namespace Answer

/-- The version that a replica holds after answering. -/
def result (own offered : Version C T) : Answer T → Version C T
  | refuse => own
  | take => offered
  | retouch now => ⟨offered.content, now⟩

/-- The answer makes the replica hold exactly the offered version. -/
def Adopts (offered : Version C T) (a : Answer T) : Prop :=
  a = take ∨ a = retouch offered.stamp

/-- A replica retouches only a version of the same stamp and another content. -/
def Sound (own offered : Version C T) (a : Answer T) : Prop :=
  ∀ now, a = retouch now → own.stamp = offered.stamp ∧ own.content ≠ offered.content

theorem result_of_adopts {a : Answer T} (h : a.Adopts y) : a.result x y = y := by
  rcases h with rfl | rfl
  · rfl
  · rfl

theorem adopts_of_result {a : Answer T} (hne : x ≠ y) (h : a.result x y = y) : a.Adopts y := by
  cases a with
  | refuse => exact (hne h).elim
  | take => exact .inl rfl
  | retouch now =>
    have hstamp : now = y.stamp := congrArg Version.stamp h
    exact .inr (hstamp ▸ rfl)

theorem content_of_ne_refuse {a : Answer T} (h : a ≠ refuse) :
    (a.result x y).content = y.content := by
  cases a with
  | refuse => exact (h rfl).elim
  | take => rfl
  | retouch now => rfl

/-- Both replicas taking part of the other's version never agree, unless they did before. -/
theorem result_ne_of_both {a b : Answer T} (hne : x ≠ y) (ha : a.Sound x y) (hb : b.Sound y x)
    (ha' : a ≠ refuse) (hb' : b ≠ refuse) : a.result x y ≠ b.result y x := by
  intro h
  have hcontent : y.content = x.content := by
    rw [← content_of_ne_refuse (x := x) (y := y) ha', h, content_of_ne_refuse hb']
  cases a with
  | refuse => exact ha' rfl
  | retouch now => exact (ha now rfl).2 hcontent.symm
  | take =>
    cases b with
    | refuse => exact hb' rfl
    | retouch now => exact (hb now rfl).2 hcontent
    | take => exact hne h.symm

theorem result_self {a : Answer T} (h : a.Sound x x) : a.result x x = x := by
  cases a with
  | refuse => rfl
  | take => rfl
  | retouch now => exact ((h now rfl).2 rfl).elim

/-- After an exchange two replicas agree exactly when they did before, or when one of them
refused and the other adopted. -/
theorem result_eq_iff {a b : Answer T} (ha : a.Sound x y) (hb : b.Sound y x) :
    a.result x y = b.result y x ↔
      x = y ∨ (a.Adopts y ∧ b = refuse) ∨ (a = refuse ∧ b.Adopts x) := by
  constructor
  · intro h
    by_cases hne : x = y
    · exact .inl hne
    · right
      by_cases ha' : a = refuse
      · subst ha'
        exact .inr ⟨rfl, adopts_of_result (Ne.symm hne) h.symm⟩
      · by_cases hb' : b = refuse
        · subst hb'
          exact .inl ⟨adopts_of_result hne h, rfl⟩
        · exact (result_ne_of_both hne ha hb ha' hb' h).elim
  · rintro (rfl | ⟨hadopt, rfl⟩ | ⟨rfl, hadopt⟩)
    · exact (result_self ha).trans (result_self hb).symm
    · exact result_of_adopts hadopt
    · exact (result_of_adopts hadopt).symm

end Answer

end Exchange
