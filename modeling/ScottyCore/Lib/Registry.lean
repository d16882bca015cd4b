import ScottyCore.Lib.KeyedTable

namespace Concurrency
set_option autoImplicit true

/-! ## Concurrent tasks and a table of their names -/

/-- A task object: whether it was asked to stop, and whether it has ended. -/
structure TaskObject (κ : Type) where
  name : κ
  cancelled : Bool
  finished : Bool
  deriving DecidableEq

/-- A task that runs and was not asked to stop. -/
def TaskObject.Active (t : TaskObject κ) : Prop := t.cancelled = false ∧ t.finished = false

/-- All tasks in the order of their creation, and those that a table names. -/
structure Registry (κ : Type) where
  objects : List (TaskObject κ)
  names : KeyedTable (κ × Nat) Prod.fst
  named : ∀ k i, (k, i) ∈ names.rows → ∃ t, objects[i]? = some t ∧ t.name = k

namespace Registry

variable {κ : Type} {r : Registry κ} {k k' : κ} {t : TaskObject κ} {i : Nat}

def empty : Registry κ := ⟨[], ∅, fun _ _ h => by cases h⟩

theorem getElem?_modify_some {l : List α} {f : α → α} (h : l[j]? = some x) :
    (l.modify i f)[j]? = some (if i = j then f x else x) := by
  rw [List.getElem?_modify, h]
  rfl

theorem named_modify (r : Registry κ) {f : TaskObject κ → TaskObject κ}
    (hf : ∀ t, (f t).name = t.name) (h : (k, j) ∈ r.names.rows) :
    ∃ t, (r.objects.modify i f)[j]? = some t ∧ t.name = k := by
  obtain ⟨t, ht, hname⟩ := r.named k j h
  refine ⟨_, getElem?_modify_some ht, ?_⟩
  split
  · exact (hf t).trans hname
  · exact hname

/-- Ask a task to stop. -/
def cancel (r : Registry κ) (i : Nat) : Registry κ where
  objects := r.objects.modify i fun t => { t with cancelled := true }
  names := r.names
  named _ _ := r.named_modify fun _ => rfl

/-- A task ends. -/
def finish (r : Registry κ) (i : Nat) : Registry κ where
  objects := r.objects.modify i fun t => { t with finished := true }
  names := r.names
  named _ _ := r.named_modify fun _ => rfl

def clear (r : Registry κ) : Registry κ := ⟨r.objects, ∅, fun _ _ h => by cases h⟩

/-- Ask every named task to stop. -/
def cancelAll (r : Registry κ) : Registry κ :=
  (r.names.rows.map Prod.snd).foldl cancel r

/-! ### Which tasks are active -/

/-- The table names every active task. -/
def Registered (r : Registry κ) : Prop :=
  ∀ i t, r.objects[i]? = some t → t.Active → (t.name, i) ∈ r.names.rows

/-- The table names an active task under this name. -/
def Serves (r : Registry κ) (k : κ) : Prop :=
  ∃ i t, (k, i) ∈ r.names.rows ∧ r.objects[i]? = some t ∧ t.Active

/-- A task of this name has not ended. -/
def Unfinished (r : Registry κ) (i : Nat) (k : κ) : Prop :=
  ∃ t, r.objects[i]? = some t ∧ t.name = k ∧ t.finished = false

/-- Every task that was asked to stop has ended. -/
def Drained (r : Registry κ) : Prop :=
  ∀ t ∈ r.objects, t.cancelled = true → t.finished = true

theorem Drained.active (h : r.Drained) (ht : r.objects[i]? = some t) (hf : t.finished = false) :
    t.Active := by
  refine ⟨?_, hf⟩
  by_contra hcancelled
  have hfinished := h t (List.mem_of_getElem? ht) (Bool.of_not_eq_false hcancelled)
  rw [hf] at hfinished
  cases hfinished

/-- A change that no active task survives leaves the others active. -/
theorem active_modify {l : List (TaskObject κ)} {f : TaskObject κ → TaskObject κ}
    (hf : ∀ t, ¬ (f t).Active) (ht : (l.modify i f)[j]? = some t) (hactive : t.Active) :
    l[j]? = some t ∧ i ≠ j := by
  rw [List.getElem?_modify] at ht
  obtain ⟨t', ht', rfl⟩ := Option.map_eq_some_iff.1 ht
  split at hactive
  · exact (hf t' hactive).elim
  · rename_i hne
    rw [if_neg hne]
    exact ⟨ht', hne⟩

theorem not_active_cancelled (t : TaskObject κ) : ¬ ({ t with cancelled := true }).Active :=
  fun h => Bool.noConfusion h.1

theorem not_active_finished (t : TaskObject κ) : ¬ ({ t with finished := true }).Active :=
  fun h => Bool.noConfusion h.2

theorem Registered.finish (h : r.Registered) : (r.finish i).Registered :=
  fun j t ht hactive => h j t (active_modify not_active_finished ht hactive).1 hactive

theorem Registered.cancel (h : r.Registered) : (r.cancel i).Registered :=
  fun j t ht hactive => h j t (active_modify not_active_cancelled ht hactive).1 hactive

theorem Registered.cancelAll (h : r.Registered) : r.cancelAll.Registered := by
  rw [Registry.cancelAll]
  generalize r.names.rows.map Prod.snd = idxs
  induction idxs generalizing r with
  | nil => exact h
  | cons i idxs ih => exact ih h.cancel

/-- When every named task has ended, no task is active. -/
theorem Registered.not_active (h : r.Registered)
    (hended : ∀ k i t, (k, i) ∈ r.names.rows → r.objects[i]? = some t → t.finished = true)
    (ht : r.objects[i]? = some t) : ¬ t.Active := by
  intro hactive
  have hfinished := hended _ i t (h i t ht hactive) ht
  rw [hactive.2] at hfinished
  cases hfinished

/-- An end of a task that is not active. -/
theorem Serves.finish (h : r.Serves k) (ht : r.objects[i]? = some t) (hactive : ¬ t.Active) :
    (r.finish i).Serves k := by
  obtain ⟨j, t', hj, ht', hactive'⟩ := h
  have hne : i ≠ j := by
    rintro rfl
    rw [ht] at ht'
    cases ht'
    exact hactive hactive'
  refine ⟨j, t', hj, ?_, hactive'⟩
  rwa [Registry.finish, List.getElem?_modify_ne _ _ hne]

variable [DecidableEq κ]

/-- Active tasks of one name are one. -/
theorem Registered.unique (h : r.Registered) (ht : r.objects[i]? = some t) (hactive : t.Active)
    (ht' : r.objects[j]? = some t') (hactive' : t'.Active) (hname : t'.name = t.name) : j = i := by
  have hrow := h i t ht hactive
  have hrow' := h j t' ht' hactive'
  exact congrArg Prod.snd (KeyedTable.eq_of_mem hrow' hrow hname)

/-! ### Names -/

/-- The task under a name. -/
def find (r : Registry κ) (k : κ) : Option (TaskObject κ) :=
  (r.names.find k).bind fun x => r.objects[x.2]?

/-- Start a task under a name, which then names no other. -/
def spawn (r : Registry κ) (k : κ) : Registry κ where
  objects := r.objects ++ [⟨k, false, false⟩]
  names := r.names.upsert (k, r.objects.length)
  named k' i h := by
    rcases KeyedTable.mem_upsert_iff.1 h with h | ⟨h, _⟩
    · cases h
      exact ⟨_, List.getElem?_concat_length, rfl⟩
    · obtain ⟨t, ht, hname⟩ := r.named k' i h
      exact ⟨t, List.getElem?_append_left (List.getElem?_eq_some_iff.1 ht).1 ▸ ht, hname⟩

def forget (r : Registry κ) (k : κ) : Registry κ where
  objects := r.objects
  names := r.names.erase k
  named k' i h := r.named k' i (List.mem_filter.1 h).1

/-- Take a name out of the table and ask its task to stop. -/
def stop (r : Registry κ) (k : κ) : Registry κ :=
  match r.names.find k with
  | some x => (r.cancel x.2).forget k
  | none => r

theorem getElem?_spawn (h : (r.spawn k).objects[i]? = some t) :
    r.objects[i]? = some t ∨ i = r.objects.length ∧ t = ⟨k, false, false⟩ := by
  change (r.objects ++ [_])[i]? = some t at h
  rcases Nat.lt_or_ge i r.objects.length with hi | hi
  · rw [List.getElem?_append_left hi] at h
    exact .inl h
  · rw [List.getElem?_append_right hi] at h
    obtain ⟨hlt, hget⟩ := List.getElem?_eq_some_iff.1 h
    rw [List.length_singleton] at hlt
    refine .inr ⟨by omega, ?_⟩
    rw [← hget, List.getElem_singleton]

theorem getElem?_spawn_of (h : r.objects[i]? = some t) : (r.spawn k).objects[i]? = some t :=
  List.getElem?_append_left (List.getElem?_eq_some_iff.1 h).1 ▸ h

theorem Registered.spawn (h : r.Registered) (hk : ¬ r.Serves k) : (r.spawn k).Registered := by
  intro i t hspawned hactive
  apply KeyedTable.mem_upsert_iff.2
  rcases getElem?_spawn hspawned with ht | ⟨rfl, rfl⟩
  · have hrow := h i t ht hactive
    refine .inr ⟨hrow, ?_⟩
    intro hname
    obtain rfl : t.name = k := hname
    exact hk ⟨i, t, hrow, ht, hactive⟩
  · exact .inl rfl

theorem serves_spawn_self : (r.spawn k).Serves k :=
  ⟨r.objects.length, ⟨k, false, false⟩, KeyedTable.mem_upsert_iff.2 (.inl rfl),
    List.getElem?_concat_length, rfl, rfl⟩

theorem Serves.spawn (h : r.Serves k') : (r.spawn k).Serves k' := by
  by_cases hk : k' = k
  · exact hk ▸ serves_spawn_self
  · obtain ⟨i, t, hi, ht, hactive⟩ := h
    exact ⟨i, t, KeyedTable.mem_upsert_iff.2 (.inr ⟨hi, hk⟩), getElem?_spawn_of ht, hactive⟩

theorem active_stop (h : r.Registered) (ht : (r.stop k).objects[i]? = some t)
    (hactive : t.Active) : r.objects[i]? = some t ∧ t.name ≠ k := by
  rw [stop] at ht
  cases hk : r.names.find k with
  | none =>
    rw [hk] at ht
    refine ⟨ht, ?_⟩
    rintro rfl
    exact KeyedTable.find_eq_none_iff.1 hk _ (h i t ht hactive) rfl
  | some x =>
    rw [hk] at ht
    obtain ⟨hold, hne⟩ := active_modify not_active_cancelled ht hactive
    refine ⟨hold, ?_⟩
    rintro rfl
    have hrow := KeyedTable.find_of_mem (h i t hold hactive)
    rw [hk] at hrow
    cases hrow
    exact hne rfl

theorem Registered.stop (h : r.Registered) : (r.stop k).Registered := by
  intro i t ht hactive
  obtain ⟨hold, hname⟩ := active_stop h ht hactive
  have hrow := h i t hold hactive
  rw [Registry.stop]
  cases r.names.find k with
  | none => exact hrow
  | some x => exact List.mem_filter.2 ⟨hrow, decide_eq_true hname⟩

theorem Serves.stop (h : r.Serves k') (hne : k' ≠ k) : (r.stop k).Serves k' := by
  obtain ⟨i, t, hi, ht, hactive⟩ := h
  rw [Registry.stop]
  cases hk : r.names.find k with
  | none => exact ⟨i, t, hi, ht, hactive⟩
  | some x =>
    have hx : x.2 ≠ i := by
      rintro rfl
      obtain ⟨t', ht', hname'⟩ := r.named _ _ (KeyedTable.mem_of_find hk)
      obtain ⟨t'', ht'', hname''⟩ := r.named _ _ hi
      rw [ht'] at ht''
      cases ht''
      exact hne (hname''.symm.trans (hname'.trans (KeyedTable.key_of_find hk)))
    refine ⟨i, t, List.mem_filter.2 ⟨hi, decide_eq_true hne⟩, ?_, hactive⟩
    exact (List.getElem?_modify_ne _ _ hx).trans ht

end Registry

end Concurrency
