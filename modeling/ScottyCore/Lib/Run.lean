import Mathlib.Data.List.Basic

namespace TransitionSystem
set_option autoImplicit true

/-- Finite runs of a labelled transition relation, with their labels in order. -/
inductive Run (step : σ → α → σ → Prop) (s : σ) : List α → σ → Prop where
  | nil : Run step s [] s
  | snoc : Run step s as t → step t a u → Run step s (as ++ [a]) u

/-- The steps of a relation that are taken in a state and with a label meeting a condition. -/
def Guarded (step : σ → α → σ → Prop) (G : σ → α → Prop) (s : σ) (a : α) (t : σ) : Prop :=
  step s a t ∧ G s a

theorem Run.single {step : σ → α → σ → Prop} (h : step s a t) : Run step s [a] t :=
  .snoc .nil h

theorem Run.of_nil {step : σ → α → σ → Prop} (h : Run step s [] t) : t = s := by
  generalize hn : ([] : List α) = l at h
  cases h with
  | nil => rfl
  | snoc => cases List.append_ne_nil_of_right_ne_nil _ (List.cons_ne_nil _ _) hn.symm

theorem Run.of_single {step : σ → α → σ → Prop} (h : Run step s [a] t) : step s a t := by
  have hlast : ∀ {l}, Run step s l t → [] ++ [a] = l → step s a t := by
    intro l h hl
    cases h with
    | nil => cases hl
    | snoc hrun hstep =>
      obtain ⟨rfl, ha⟩ := List.append_inj' hl rfl
      cases ha
      exact hrun.of_nil ▸ hstep
  exact hlast h rfl

theorem Run.append (h : Run step s as t) (h' : Run step t bs u) :
    Run step s (as ++ bs) u := by
  induction h' with
  | nil => rwa [List.append_nil]
  | snoc _ hs ih =>
    rw [← List.append_assoc]
    exact .snoc ih hs

/-- A property of the initial state that every step keeps holds after every run. -/
theorem Run.invariant {I : σ → Prop} (h : Run step s as t) (h₀ : I s)
    (hs : ∀ {t a u}, I t → step t a u → I u) : I t := by
  induction h with
  | nil => exact h₀
  | snoc _ hstep ih => exact hs ih hstep

theorem Run.of_guarded (h : Run (Guarded step G) s as t) : Run step s as t := by
  induction h with
  | nil => exact .nil
  | snoc _ hstep ih => exact .snoc ih hstep.1

theorem Run.label_of_guarded {G : α → Prop} (h : Run (Guarded step fun _ => G) s as t)
    (ha : a ∈ as) : G a := by
  induction h with
  | nil => cases ha
  | snoc _ hstep ih =>
    rcases List.mem_append.1 ha with ha | ha
    · exact ih ha
    · rw [List.mem_singleton.1 ha]
      exact hstep.2

/-! ### The last label for a key -/

/-- The last value that the labels of a run give to a key. -/
def lastFor [DecidableEq κ] (f : α → Option (κ × β)) (as : List α) (k : κ) : Option β :=
  ((as.filterMap f).reverse.find? fun x => x.1 = k).map Prod.snd

theorem filterMap_concat (f : α → Option β) (as : List α) (a : α) :
    (as ++ [a]).filterMap f = as.filterMap f ++ (f a).toList := by
  rw [List.filterMap_append]
  cases h : f a with
  | none => rw [List.filterMap_cons_none h]; rfl
  | some x => rw [List.filterMap_cons_some h]; rfl

theorem lastFor_concat_of_none [DecidableEq κ] {f : α → Option (κ × β)} (h : f a = none) (k : κ) :
    lastFor f (as ++ [a]) k = lastFor f as k := by
  rw [lastFor, filterMap_concat, h, Option.toList_none, List.append_nil, ← lastFor]

theorem lastFor_concat_of_some [DecidableEq κ] {f : α → Option (κ × β)} (h : f a = some (k, v))
    (k' : κ) : lastFor f (as ++ [a]) k' = if k' = k then some v else lastFor f as k' := by
  rw [lastFor, filterMap_concat, h, Option.toList_some, List.reverse_append,
    List.reverse_singleton, List.singleton_append, List.find?_cons]
  by_cases hk : k = k'
  · rw [if_pos hk.symm]
    simp only [hk, decide_true]
    rfl
  · rw [if_neg (Ne.symm hk)]
    simp only [hk, decide_false]
    rfl

theorem lastFor_concat_of_ne [DecidableEq κ] {f : α → Option (κ × β)}
    (h : ∀ v, f a ≠ some (k, v)) : lastFor f (as ++ [a]) k = lastFor f as k := by
  cases hf : f a with
  | none => exact lastFor_concat_of_none hf k
  | some x =>
    have hk : k ≠ x.1 := by
      rintro rfl
      exact h x.2 hf
    rw [lastFor_concat_of_some (v := x.2) hf, if_neg hk]

theorem mem_of_lastFor [DecidableEq κ] {f : α → Option (κ × β)} (h : lastFor f as k = some v) :
    (k, v) ∈ as.filterMap f := by
  obtain ⟨x, hfind, rfl⟩ := Option.map_eq_some_iff.1 h
  have hk := List.find?_some hfind
  obtain rfl : x.1 = k := of_decide_eq_true hk
  exact List.mem_reverse.1 (List.mem_of_find?_eq_some hfind)

end TransitionSystem
