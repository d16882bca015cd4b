import Mathlib.Data.List.Basic

/-! Calls that return something and change a state, one after another. -/

namespace Calls
set_option autoImplicit true

/-- What each call returns, and the state after the last. -/
def run (step : ε → σ → ρ × σ) : List ε → σ → List ρ × σ
  | [], s => ([], s)
  | e :: es, s =>
    let rest := run step es (step e s).2
    ((step e s).1 :: rest.1, rest.2)

variable (step : ε → σ → ρ × σ)

/-- What holds of a state and the calls ahead of it holds of the last state. -/
theorem run_invariant {I : List ε → σ → Prop} (h : I es s)
    (hstep : ∀ {e es s}, I (e :: es) s → I es (step e s).2) : I [] (run step es s).2 := by
  induction es generalizing s with
  | nil => exact h
  | cons e es ih => exact ih (hstep h)

theorem forall_results {I : List ε → σ → Prop} {P : ρ → Prop} (h : I es s)
    (hstep : ∀ {e es s}, I (e :: es) s → P (step e s).1 ∧ I es (step e s).2) :
    ∀ r ∈ (run step es s).1, P r := by
  induction es generalizing s with
  | nil => nofun
  | cons e es ih =>
    obtain ⟨hresult, hnext⟩ := hstep h
    intro r hr
    rcases List.mem_cons.1 hr with rfl | hr
    · exact hresult
    · exact ih hnext r hr

theorem run_append (es es' : List ε) (s : σ) : (run step (es ++ es') s).2 =
    (run step es' (run step es s).2).2 := by
  induction es generalizing s with
  | nil => rfl
  | cons e es ih => exact ih (step e s).2

/-- Two runs of the same calls that start alike return what looks the same and end alike. -/
theorem run_agree (see : ρ → ω) {R : List ε → σ → σ → Prop} (h : R es s s')
    (hstep : ∀ {e es s s'}, R (e :: es) s s' →
      see (step e s).1 = see (step e s').1 ∧ R es (step e s).2 (step e s').2) :
    (run step es s).1.map see = (run step es s').1.map see ∧
      R [] (run step es s).2 (run step es s').2 := by
  induction es generalizing s s' with
  | nil => exact ⟨rfl, h⟩
  | cons e es ih =>
    obtain ⟨hsee, hnext⟩ := hstep h
    obtain ⟨hrest, hend⟩ := ih hnext
    refine ⟨?_, hend⟩
    rw [run, run, List.map_cons, List.map_cons, hsee, hrest]

end Calls
