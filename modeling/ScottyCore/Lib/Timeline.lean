import Mathlib.Data.List.Sort
import Mathlib.Data.List.TakeWhile
import Mathlib.Order.Defs.LinearOrder

namespace Timeline
set_option autoImplicit true

/-! ## Events, the latest first -/

/-- A stable sort by time, the latest first. -/
def latestFirst (time : α → Int) (events : List α) : List α :=
  events.mergeSort fun a b => time b ≤ time a

theorem later_trans (time : α → Int) (a b c : α) (hab : decide (time b ≤ time a) = true)
    (hbc : decide (time c ≤ time b) = true) : decide (time c ≤ time a) = true :=
  decide_eq_true ((of_decide_eq_true hbc).trans (of_decide_eq_true hab))

theorem later_total (time : α → Int) (a b : α) :
    (decide (time b ≤ time a) || decide (time a ≤ time b)) = true := by
  rw [Bool.or_eq_true, decide_eq_true_eq, decide_eq_true_eq]
  exact Int.le_total _ _

theorem pairwise_latestFirst (time : α → Int) (events : List α) :
    (latestFirst time events).Pairwise fun a b => time b ≤ time a :=
  (List.pairwise_mergeSort (later_trans time) (later_total time) events).imp of_decide_eq_true

theorem mem_latestFirst {time : α → Int} : a ∈ latestFirst time events ↔ a ∈ events :=
  List.mem_mergeSort

theorem latestFirst_cons (time : α → Int) (a : α) (events : List α) :
    ∃ l₁ l₂, latestFirst time (a :: events) = l₁ ++ a :: l₂ ∧
      latestFirst time events = l₁ ++ l₂ ∧ (∀ b ∈ l₁, time a < time b) ∧
      ∀ b ∈ l₂, time b ≤ time a := by
  obtain ⟨l₁, l₂, hl, hl', hlate⟩ :=
    List.mergeSort_cons (later_trans time) (later_total time) a events
  have hsorted := pairwise_latestFirst time (a :: events)
  rw [latestFirst, hl] at hsorted
  refine ⟨l₁, l₂, hl, hl', fun b hb => ?_, ?_⟩
  · simpa using hlate b hb
  · exact (List.pairwise_cons.1 (List.pairwise_append.1 hsorted).2.1).1

/-- Two ways to split a list so that a test holds of the left part only are the same. -/
theorem append_inj_of_split {p : α → Prop} [DecidablePred p] {l₁ l₂ m₁ m₂ : List α}
    (h : l₁ ++ l₂ = m₁ ++ m₂) (hl₁ : ∀ a ∈ l₁, p a) (hl₂ : ∀ a ∈ l₂, ¬ p a)
    (hm₁ : ∀ a ∈ m₁, p a) (hm₂ : ∀ a ∈ m₂, ¬ p a) : l₁ = m₁ ∧ l₂ = m₂ := by
  have hleft : ∀ {l r : List α}, (∀ a ∈ l, p a) → (∀ a ∈ r, ¬ p a) → (l ++ r).filter p = l := by
    intro l r hl hr
    rw [List.filter_append, List.filter_eq_self.2 fun a ha => decide_eq_true (hl a ha),
      List.filter_eq_nil_iff.2 fun a ha => by simpa using hr a ha, List.append_nil]
  have hl : l₁ = m₁ := by
    rw [← hleft hl₁ hl₂, h, hleft hm₁ hm₂]
  rw [hl] at h
  exact ⟨hl, List.append_cancel_left h⟩

theorem latestFirst_filter (time : α → Int) (p : α → Bool) (events : List α) :
    latestFirst time (events.filter p) = (latestFirst time events).filter p := by
  induction events with
  | nil => rw [List.filter_nil, latestFirst, List.mergeSort_nil, List.filter_nil]
  | cons a events ih =>
    obtain ⟨l₁, l₂, hl, hl', hlate, hearly⟩ := latestFirst_cons time a events
    rw [hl', List.filter_append] at ih
    rw [hl, List.filter_append]
    by_cases hp : p a = true
    · rw [List.filter_cons_of_pos hp, List.filter_cons_of_pos hp]
      obtain ⟨m₁, m₂, hm, hm', hlate', hearly'⟩ := latestFirst_cons time a (events.filter p)
      rw [hm'] at ih
      -- both sides put `a` after the events that are later
      obtain ⟨h₁, h₂⟩ := append_inj_of_split (p := fun b => time a < time b) ih hlate'
        (fun b hb => Int.not_lt.2 (hearly' b hb))
        (fun b hb => hlate b (List.mem_of_mem_filter hb))
        (fun b hb => Int.not_lt.2 (hearly b (List.mem_of_mem_filter hb)))
      rw [hm, h₁, h₂]
    · rw [List.filter_cons_of_neg hp, List.filter_cons_of_neg hp]
      exact ih

theorem latestFirst_of_increasing {time : α → Int} {events : List α}
    (h : events.Pairwise fun a b => time a < time b) :
    latestFirst time events = events.reverse := by
  induction events with
  | nil => exact List.mergeSort_nil
  | cons a events ih =>
    obtain ⟨ha, hrest⟩ := List.pairwise_cons.1 h
    obtain ⟨l₁, l₂, hl, hl', _, hearly⟩ := latestFirst_cons time a events
    have hnone : l₂ = [] := by
      apply List.eq_nil_iff_forall_not_mem.2
      intro b hb
      have hmem : b ∈ latestFirst time events := hl' ▸ List.mem_append_right l₁ hb
      exact Int.not_lt.2 (hearly b hb) (ha b (mem_latestFirst.1 hmem))
    rw [hnone, List.append_nil, ih hrest] at hl'
    rw [hl, hnone, ← hl', List.reverse_cons]

/-- Where no event passes a test after one that fails, the events that pass come first. -/
theorem filter_eq_takeWhile {p : α → Bool} {events : List α}
    (h : events.Pairwise fun a b => p b = true → p a = true) :
    events.filter p = events.takeWhile p := by
  induction events with
  | nil => rfl
  | cons a events ih =>
    obtain ⟨ha, hrest⟩ := List.pairwise_cons.1 h
    by_cases hp : p a = true
    · rw [List.filter_cons_of_pos hp, List.takeWhile_cons_of_pos hp, ih hrest]
    · rw [List.takeWhile_cons_of_neg hp, List.filter_eq_nil_iff]
      intro b hb
      rcases List.mem_cons.1 hb with rfl | hb
      · exact hp
      · exact fun hpb => hp (ha b hb hpb)

theorem latestFirst_since (time : α → Int) (start : Int) (events : List α) :
    latestFirst time (events.filter fun a => start ≤ time a) =
      (latestFirst time events).takeWhile fun a => start ≤ time a := by
  rw [latestFirst_filter]
  refine filter_eq_takeWhile ((pairwise_latestFirst time events).imp fun hle hb => ?_)
  exact decide_eq_true ((of_decide_eq_true hb).trans hle)

/-- At least `n` events pass a test before one fails exactly when the first `n` do. -/
theorem le_length_takeWhile {p : α → Bool} {events : List α} {n : Nat} :
    n ≤ (events.takeWhile p).length ↔ n ≤ events.length ∧ ∀ a ∈ events.take n, p a = true := by
  induction events generalizing n with
  | nil => simp
  | cons a events ih =>
    cases n with
    | zero => simp
    | succ n =>
      by_cases hp : p a = true
      · rw [List.takeWhile_cons_of_pos hp, List.length_cons, List.length_cons, List.take_succ_cons,
          Nat.succ_le_succ_iff, Nat.succ_le_succ_iff, ih, List.forall_mem_cons]
        exact ⟨fun h => ⟨h.1, hp, h.2⟩, fun h => ⟨h.1, h.2.2⟩⟩
      · rw [List.takeWhile_cons_of_neg hp]
        refine ⟨fun h => by simp at h, fun h => (hp (h.2 a ?_)).elim⟩
        rw [List.take_succ_cons]
        exact List.mem_cons_self

end Timeline
