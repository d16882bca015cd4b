import Mathlib.Data.List.Basic
import Mathlib.Order.Basic

namespace History
set_option autoImplicit true

/-! An append-only history of versions, and a replica that reads its latest ones. -/

variable {α : Type u} {κ : Type v} {key : α → κ}

/-- `w` was written after `v`. -/
def After (h : List α) (v w : α) : Prop := [v, w].Sublist h

/-- The last version under its key. -/
def Latest (key : α → κ) (h : List α) (v : α) : Prop :=
  ∃ older newer, h = older ++ v :: newer ∧ ∀ w ∈ newer, key w ≠ key v

theorem After.append (ha : After h v w) (h' : List α) : After (h ++ h') v w :=
  ha.trans (List.sublist_append_left h h')

theorem After.cons (ha : After h v w) (x : α) : After (x :: h) v w :=
  List.Sublist.cons x ha

theorem after_head {x : α} (h : w ∈ xs) : After (x :: xs) x w :=
  List.Sublist.cons_cons x (List.singleton_sublist.2 h)

theorem Latest.mem (hl : Latest key h v) : v ∈ h := by
  obtain ⟨older, newer, rfl, _⟩ := hl
  exact List.mem_append_right _ List.mem_cons_self

theorem Latest.cons (hl : Latest key h v) (x : α) : Latest key (x :: h) v := by
  obtain ⟨older, newer, rfl, hn⟩ := hl
  exact ⟨x :: older, newer, rfl, hn⟩

/-- Every version is the latest under its key, or a later one is. -/
theorem exists_latest (key : α → κ) (hv : v ∈ h) :
    ∃ w, Latest key h w ∧ key w = key v ∧ (w = v ∨ After h v w) := by
  induction h generalizing v with
  | nil => cases hv
  | cons x xs ih =>
    rcases List.mem_cons.1 hv with rfl | hv
    · by_cases hlater : ∃ u ∈ xs, key u = key v
      · obtain ⟨u, hu, hkey⟩ := hlater
        obtain ⟨w, hw, hwu, _⟩ := ih hu
        exact ⟨w, hw.cons v, hwu.trans hkey, .inr (after_head hw.mem)⟩
      · exact ⟨v, ⟨[], xs, rfl, fun w hw hkey => hlater ⟨w, hw, hkey⟩⟩, rfl, .inl rfl⟩
    · obtain ⟨w, hw, hkey, h⟩ := ih hv
      exact ⟨w, hw.cons x, hkey, h.imp_right fun ha => ha.cons x⟩

/-- Versions are written under growing stamps. -/
def Chronological [Preorder τ] (stamp : α → τ) (h : List α) : Prop :=
  h.Pairwise fun v w => stamp v ≤ stamp w

theorem After.stamp_le [Preorder τ] {stamp : α → τ} (hc : Chronological stamp h)
    (ha : After h v w) : stamp v ≤ stamp w := by
  have hpair := List.Pairwise.sublist ha hc
  exact List.rel_of_pairwise_cons hpair List.mem_cons_self

theorem Chronological.concat [Preorder τ] {stamp : α → τ} (hc : Chronological stamp h)
    (hv : ∀ u ∈ h, stamp u ≤ stamp v) : Chronological stamp (h ++ [v]) := by
  apply List.pairwise_append.2
  refine ⟨hc, List.pairwise_singleton _ v, fun u hu w hw => ?_⟩
  rw [List.mem_singleton.1 hw]
  exact hv u hu

/-- The replica applied the version, or a later one of the same key, or recorded the version. -/
def Settled (key : α → κ) (applied recorded : α → Prop) (h : List α) (v : α) : Prop :=
  applied v ∨ (∃ w, After h v w ∧ key w = key v ∧ applied w) ∨ recorded v

theorem Settled.mono {applied applied' recorded recorded' : α → Prop}
    (hs : Settled key applied recorded h v) (ha : ∀ w, applied w → applied' w)
    (hr : ∀ w, recorded w → recorded' w) (h' : List α) :
    Settled key applied' recorded' (h ++ h') v := by
  rcases hs with hs | ⟨w, hw, hkey, hs⟩ | hs
  · exact .inl (ha v hs)
  · exact .inr (.inl ⟨w, hw.append h', hkey, ha w hs⟩)
  · exact .inr (.inr (hr v hs))

/-- A replica that settles the latest versions that are due settles every due version, if no
version that it only recorded replaced another due one. -/
theorem settled_of_latest {applied recorded due : α → Prop}
    (hdue : ∀ u w, After h u w → due u → due w)
    (hlatest : ∀ w, Latest key h w → due w →
      applied w ∨ (recorded w ∧ ∀ u, After h u w → key u = key w → ¬ due u))
    (hv : v ∈ h) (hd : due v) : Settled key applied recorded h v := by
  obtain ⟨w, hw, hkey, rfl | hafter⟩ := exists_latest key hv
  · rcases hlatest w hw hd with ha | ⟨hr, _⟩
    · exact .inl ha
    · exact .inr (.inr hr)
  · rcases hlatest w hw (hdue v w hafter hd) with ha | ⟨_, hnone⟩
    · exact .inr (.inl ⟨w, hafter, hkey, ha⟩)
    · exact (hnone v hafter hkey.symm hd).elim

end History
