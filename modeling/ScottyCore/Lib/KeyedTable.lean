import Mathlib.Data.List.Nodup

set_option autoImplicit true

/-- A table of rows with pairwise distinct primary keys, in insertion order. -/
structure KeyedTable (α : Type u) {κ : Type v} (key : α → κ) where
  rows : List α
  nodup : (rows.map key).Nodup

namespace KeyedTable

variable {α : Type u} {κ : Type v} [DecidableEq κ] {key : α → κ}

/-- Replace the row with the key of `x`, or append `x`. -/
def upsertRows (key : α → κ) (x : α) : List α → List α
  | [] => [x]
  | y :: ys => if key y = key x then x :: ys else y :: upsertRows key x ys

theorem mem_upsertRows_of (h : z ∈ upsertRows key x l) : z = x ∨ z ∈ l := by
  induction l with
  | nil => exact .inl (List.mem_singleton.1 h)
  | cons y ys ih =>
    rw [upsertRows] at h
    split at h
    · rcases List.mem_cons.1 h with h | h
      · exact .inl h
      · exact .inr (List.mem_cons_of_mem _ h)
    · rcases List.mem_cons.1 h with h | h
      · exact .inr (h ▸ List.mem_cons_self)
      · exact (ih h).imp_right (List.mem_cons_of_mem _)

theorem mem_upsertRows_self (x : α) (l : List α) : x ∈ upsertRows key x l := by
  induction l with
  | nil => exact List.mem_cons_self
  | cons y ys ih =>
    rw [upsertRows]
    split
    · exact List.mem_cons_self
    · exact List.mem_cons_of_mem _ ih

theorem mem_upsertRows_of_ne (hz : z ∈ l) (hk : key z ≠ key x) : z ∈ upsertRows key x l := by
  induction l with
  | nil => cases hz
  | cons y ys ih =>
    rw [upsertRows]
    split
    · rename_i hy
      rcases List.mem_cons.1 hz with h | h
      · subst h; exact (hk hy).elim
      · exact List.mem_cons_of_mem _ h
    · rcases List.mem_cons.1 hz with h | h
      · exact h ▸ List.mem_cons_self
      · exact List.mem_cons_of_mem _ (ih h)

theorem nodup_upsertRows (x : α) (h : (l.map key).Nodup) :
    ((upsertRows key x l).map key).Nodup := by
  induction l with
  | nil => exact List.nodup_singleton _
  | cons y ys ih =>
    obtain ⟨hy, hys⟩ := List.nodup_cons.1 h
    rw [upsertRows]
    split
    · rename_i he
      exact List.nodup_cons.2 ⟨he ▸ hy, hys⟩
    · rename_i he
      refine List.nodup_cons.2 ⟨?_, ih hys⟩
      intro hm
      obtain ⟨z, hz, hzy⟩ := List.mem_map.1 hm
      rcases mem_upsertRows_of hz with h' | h'
      · exact he (hzy ▸ h' ▸ rfl)
      · exact hy (hzy ▸ List.mem_map_of_mem h')

theorem upsertRows_of_not_mem (h : key x ∉ l.map key) : upsertRows key x l = l ++ [x] := by
  induction l with
  | nil => rfl
  | cons y ys ih =>
    rw [List.map_cons, List.mem_cons, not_or] at h
    rw [upsertRows, if_neg (Ne.symm h.1), ih h.2, List.cons_append]

def empty : KeyedTable α key := ⟨[], List.nodup_nil⟩

instance : EmptyCollection (KeyedTable α key) := ⟨empty⟩

def find (t : KeyedTable α key) (k : κ) : Option α :=
  t.rows.find? fun x => key x = k

/-- Insert a row, or replace the row with the same primary key. -/
def upsert (t : KeyedTable α key) (x : α) : KeyedTable α key :=
  ⟨upsertRows key x t.rows, nodup_upsertRows x t.nodup⟩

def erase (t : KeyedTable α key) (k : κ) : KeyedTable α key :=
  ⟨t.rows.filter fun x => key x ≠ k, t.nodup.sublist (List.filter_sublist.map _)⟩

/-- Rows changed in place, under their keys. -/
def mapRows (t : KeyedTable α key) (f : α → α) (h : ∀ x, key (f x) = key x) :
    KeyedTable α key where
  rows := t.rows.map f
  nodup := by
    rw [List.map_map, Function.comp_def]
    simpa only [h] using t.nodup

@[simp] theorem find_empty (k : κ) : (∅ : KeyedTable α key).find k = none := rfl

theorem key_of_find {t : KeyedTable α key} (h : t.find k = some x) : key x = k := by
  have := List.find?_some h
  exact of_decide_eq_true this

theorem mem_of_find {t : KeyedTable α key} (h : t.find k = some x) : x ∈ t.rows :=
  List.mem_of_find?_eq_some h

theorem find_rows_of_mem {l : List α} (hn : (l.map key).Nodup) (hx : x ∈ l) :
    l.find? (fun y => key y = key x) = some x := by
  induction l with
  | nil => cases hx
  | cons y ys ih =>
    obtain ⟨hy, hys⟩ := List.nodup_cons.1 hn
    rw [List.find?_cons]
    rcases List.mem_cons.1 hx with h | h
    · subst h; simp only [decide_true]
    · have hne : key y ≠ key x := fun he => hy (he ▸ List.mem_map_of_mem h)
      simp only [hne, decide_false]
      exact ih hys h

theorem find_of_mem {t : KeyedTable α key} (h : x ∈ t.rows) : t.find (key x) = some x :=
  find_rows_of_mem t.nodup h

theorem find_eq_some_iff {t : KeyedTable α key} :
    t.find k = some x ↔ x ∈ t.rows ∧ key x = k := by
  constructor
  · intro h
    exact ⟨mem_of_find h, key_of_find h⟩
  · rintro ⟨h, rfl⟩
    exact find_of_mem h

theorem find_eq_none_iff {t : KeyedTable α key} :
    t.find k = none ↔ ∀ x ∈ t.rows, key x ≠ k := by
  simp only [find, List.find?_eq_none, decide_eq_true_eq, ne_eq]

theorem eq_of_mem {t : KeyedTable α key} (hx : x ∈ t.rows) (hy : y ∈ t.rows)
    (h : key x = key y) : x = y := by
  have hx' := find_of_mem hx
  rw [h, find_of_mem hy] at hx'
  exact (Option.some.inj hx').symm

theorem mem_upsert_iff {t : KeyedTable α key} :
    z ∈ (t.upsert x).rows ↔ z = x ∨ (z ∈ t.rows ∧ key z ≠ key x) := by
  constructor
  · intro h
    by_cases hk : key z = key x
    · exact .inl (eq_of_mem h (mem_upsertRows_self x t.rows) hk)
    · rcases mem_upsertRows_of h with h' | h'
      · exact (hk (h' ▸ rfl)).elim
      · exact .inr ⟨h', hk⟩
  · rintro (rfl | ⟨hz, hk⟩)
    · exact mem_upsertRows_self z t.rows
    · exact mem_upsertRows_of_ne hz hk

@[simp] theorem find_upsert_self (t : KeyedTable α key) (x : α) :
    (t.upsert x).find (key x) = some x :=
  find_of_mem (mem_upsertRows_self x t.rows)

theorem find_upsert_of_ne (t : KeyedTable α key) (h : k ≠ key x) :
    (t.upsert x).find k = t.find k := by
  apply Option.ext
  intro z
  rw [find_eq_some_iff, find_eq_some_iff, mem_upsert_iff]
  constructor
  · rintro ⟨rfl | ⟨hz, _⟩, hk⟩
    · exact (h hk.symm).elim
    · exact ⟨hz, hk⟩
  · rintro ⟨hz, rfl⟩
    exact ⟨.inr ⟨hz, h⟩, rfl⟩

theorem find_upsert (t : KeyedTable α key) (x : α) (k : κ) :
    (t.upsert x).find k = if k = key x then some x else t.find k := by
  by_cases h : k = key x
  · subst h; rw [if_pos rfl, find_upsert_self]
  · rw [if_neg h, find_upsert_of_ne t h]

theorem upsertRows_upsertRows (h : key x = key y) (l : List α) :
    upsertRows key y (upsertRows key x l) = upsertRows key y l := by
  induction l with
  | nil => rw [upsertRows, upsertRows, upsertRows, if_pos h]
  | cons z zs ih =>
    by_cases hz : key z = key x
    · rw [upsertRows, if_pos hz, upsertRows, if_pos h, upsertRows, if_pos (hz.trans h)]
    · rw [upsertRows, if_neg hz, upsertRows, if_neg (h ▸ hz), ih, upsertRows, if_neg (h ▸ hz)]

theorem upsertRows_of_mem (hn : (l.map key).Nodup) (hx : x ∈ l) : upsertRows key x l = l := by
  induction l with
  | nil => cases hx
  | cons y ys ih =>
    obtain ⟨hy, hys⟩ := List.nodup_cons.1 hn
    rw [upsertRows]
    rcases List.mem_cons.1 hx with rfl | hx
    · rw [if_pos rfl]
    · have hne : key y ≠ key x := fun he => hy (he ▸ List.mem_map_of_mem hx)
      rw [if_neg hne, ih hys hx]

/-- A row that is there already changes nothing. -/
theorem upsert_of_mem {t : KeyedTable α key} (h : x ∈ t.rows) : t.upsert x = t := by
  rw [upsert, mk.injEq]
  exact upsertRows_of_mem t.nodup h

/-- Of two rows with one key, the later one stays. -/
theorem upsert_upsert (t : KeyedTable α key) (h : key x = key y) :
    (t.upsert x).upsert y = t.upsert y := by
  rw [upsert, mk.injEq]
  exact upsertRows_upsertRows h t.rows

theorem find_erase (t : KeyedTable α key) (k k' : κ) :
    (t.erase k).find k' = if k' = k then none else t.find k' := by
  by_cases h : k' = k
  · subst h
    rw [if_pos rfl, find_eq_none_iff]
    intro x hx
    simpa using (List.mem_filter.1 hx).2
  · rw [if_neg h]
    apply Option.ext
    intro z
    rw [find_eq_some_iff, find_eq_some_iff]
    constructor
    · rintro ⟨hz, hk⟩
      exact ⟨(List.mem_filter.1 hz).1, hk⟩
    · rintro ⟨hz, rfl⟩
      exact ⟨List.mem_filter.2 ⟨hz, decide_eq_true h⟩, rfl⟩

/-! ### A part of a table -/

theorem filter_upsertRows_of_pos {p : α → Bool} (hx : p x = true)
    (h : ∀ y ∈ l, key y = key x → p y = true) :
    (upsertRows key x l).filter p = upsertRows key x (l.filter p) := by
  induction l with
  | nil => rw [upsertRows, List.filter_cons, if_pos hx]; rfl
  | cons y ys ih =>
    have hrest := ih fun z hz => h z (List.mem_cons_of_mem _ hz)
    rw [upsertRows]
    by_cases hk : key y = key x
    · have hy := h y List.mem_cons_self hk
      rw [if_pos hk, List.filter_cons, List.filter_cons, if_pos hx, if_pos hy, upsertRows, if_pos hk]
    · rw [if_neg hk, List.filter_cons, List.filter_cons, hrest]
      split
      · rw [upsertRows, if_neg hk]
      · rfl

theorem filter_upsertRows_of_neg {p : α → Bool} (hx : p x = false)
    (h : ∀ y ∈ l, key y = key x → p y = false) :
    (upsertRows key x l).filter p = l.filter p := by
  induction l with
  | nil => rw [upsertRows, List.filter_cons, if_neg (by simp [hx])]
  | cons y ys ih =>
    have hrest := ih fun z hz => h z (List.mem_cons_of_mem _ hz)
    rw [upsertRows]
    by_cases hk : key y = key x
    · have hy := h y List.mem_cons_self hk
      rw [if_pos hk, List.filter_cons, List.filter_cons, if_neg (by simp [hx]),
        if_neg (by simp [hy])]
    · rw [if_neg hk, List.filter_cons, List.filter_cons, hrest]

theorem filter_erase_of_neg {t : KeyedTable α key} {p : α → Bool}
    (h : ∀ y ∈ t.rows, key y = k → p y = false) :
    (t.erase k).rows.filter p = t.rows.filter p := by
  rw [erase, List.filter_filter]
  apply List.filter_congr
  intro y hy
  by_cases hk : key y = k
  · rw [h y hy hk]
    rfl
  · rw [decide_eq_true hk, Bool.and_true]

theorem find_mapRows (t : KeyedTable α key) {f : α → α} (h : ∀ x, key (f x) = key x) (k : κ) :
    (t.mapRows f h).find k = (t.find k).map f := by
  rw [find, mapRows, List.find?_map, Function.comp_def]
  simp only [h]
  rfl

end KeyedTable
