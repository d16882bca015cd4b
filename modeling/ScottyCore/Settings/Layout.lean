import Mathlib.Data.List.Nodup
import Mathlib.Data.List.InsertIdx
import Mathlib.Data.List.Sort
import ScottyCore.Lib.Json

namespace Python
set_option autoImplicit true

/-- What JavaScript takes for true. -/
def Json.isTruthy : Json → Bool
  | .arr _ | .obj _ => true
  | j => j.truthy

/-- `o?.key` -/
def Json.property (key : String) : Json → Option Json
  | .obj members => members.lookup key
  | _ => none

end Python

namespace ScottyCore
open Python
set_option autoImplicit true

/-! ## `settings_schema.js` -/

/-- A descriptor of `SETTINGS_SCHEMA`, with what its place depends on. -/
structure SettingsField where
  id : String
  tab : String
  group : Option String
  visibility : Option String
  originalTab : Option String
  deriving DecidableEq

/-- `SETTINGS_SCHEMA` -/
structure SettingsSchema where
  fields : List SettingsField
  unique : (fields.map SettingsField.id).Nodup

/-- `a || b` -/
def orElse (a : Option Json) (b : Json) : Json := (a.filter Json.isTruthy).getD b

/-- `_getLayoutOverride` -/
def layoutOverride (overrides : JsonDict) (schema : SettingsField) : Option Json :=
  match (overrides.lookup schema.id).filter Json.isTruthy with
  | some (.str visibility) => some (.obj [("visibility", .str visibility)])
  | o => o

/-- `o?.key` of the override of a field -/
def overridden (overrides : JsonDict) (schema : SettingsField) (key : String) : Option Json :=
  (layoutOverride overrides schema).bind (Json.property key)

/-- `_getEffectiveVisibility` -/
def effectiveVisibility (overrides : JsonDict) (schema : SettingsField) : Json :=
  orElse (overridden overrides schema "visibility") (orElse (schema.visibility.map .str) (.str "all"))

/-- `_getEffectiveTab` -/
def effectiveTab (overrides : JsonDict) (schema : SettingsField) : Json :=
  match (overridden overrides schema "tab").filter Json.isTruthy with
  | some tab => tab
  | none =>
    let vis := effectiveVisibility overrides schema
    if Json.isText "all" vis ∧ schema.tab = "global" then
      orElse (schema.originalTab.map .str) (.str "user")
    else if Json.isText "superadmin" vis ∧ schema.tab ≠ "global" then .str "global"
    else .str schema.tab

/-- `_getEffectiveGroup` -/
def effectiveGroup (overrides : JsonDict) (schema : SettingsField) : Json :=
  orElse (overridden overrides schema "group") (orElse (schema.group.map .str) (.str "Other"))

/-- `_getEffectiveOrder` -/
def effectiveOrder (overrides : JsonDict) (schema : SettingsField) : Json :=
  match overridden overrides schema "order" with
  | none | some .null => .int 999
  | some order => order

/-- `Array.prototype.sort` by the difference of keys, which sorts integers and leaves it to the
engine what becomes of other keys. -/
structure ArraySort where
  sort : List (Json × SettingsField) → List (Json × SettingsField)
  perm : ∀ rows, (sort rows).Perm rows
  ascending : ∀ rows, (∀ r ∈ rows, ∃ i, r.1 = .int i) →
    (sort rows).Pairwise fun r r' => ∀ i j, r.1 = .int i → r'.1 = .int j → i ≤ j

/-- The fields of a tab in their effective order. -/
def tabOrder (engine : ArraySort) (schema : SettingsSchema) (tab : String) (overrides : JsonDict) :
    List String :=
  let widgets := schema.fields.filter fun s => Json.isText tab (effectiveTab overrides s)
  (engine.sort (widgets.map fun s => (effectiveOrder overrides s, s))).map fun w => w.2.id

/-- What an entry is spread into: `existing` or `{ visibility: existing }` or `{}`. -/
def spreadBase : Option Json → JsonDict
  | some (.obj members) => members
  | some (.arr items) => items.zipIdx.map fun x => (toString x.2, x.1)
  | some (.str visibility) => [("visibility", .str visibility)]
  | _ => []

/-- `overrides[id] = { ...base, order: i }` -/
def setOrder (overrides : JsonDict) (entry : String × Nat) : JsonDict :=
  overrides.set entry.1
    (.obj (JsonDict.set "order" (.int entry.2) (spreadBase (overrides.lookup entry.1))))

/-- `ids.splice(fromIdx, 1); ids.splice(toIdx, 0, draggedId);` -/
def spliceIds (ids : List String) (draggedId targetId : String) : List String :=
  let fromIdx := ids.idxOf draggedId
  let toIdx := ids.idxOf targetId
  (ids.eraseIdx fromIdx).insertIdx toIdx draggedId

/-- `_settingsReorder`: the overrides that it stores and sends. -/
def settingsReorder (engine : ArraySort) (schema : SettingsSchema) (tab draggedId targetId : String)
    (overrides : JsonDict) : JsonDict :=
  let ids := tabOrder engine schema tab overrides
  if draggedId ∉ ids ∨ targetId ∉ ids then overrides
  else
    match schema.fields.find? fun s => s.id = targetId with
    | none => overrides -- the ids are those of fields
    | some targetSchema =>
      let targetGroup := effectiveGroup overrides targetSchema
      let ordered := (spliceIds ids draggedId targetId).zipIdx.foldl setOrder overrides
      ordered.set draggedId
        (.obj (JsonDict.set "group" targetGroup (spreadBase (ordered.lookup draggedId))))

/-! ## What a drag promises -/

/-- The dragged field stands right before its target, in the target's group; the others keep their
order. -/
structure DropsBefore (engine : ArraySort) (schema : SettingsSchema) (tab draggedId targetId : String)
    (overrides : JsonDict) : Prop where
  before : [draggedId, targetId] <:+: tabOrder engine schema tab
    (settingsReorder engine schema tab draggedId targetId overrides)
  group : ∀ d ∈ schema.fields, ∀ t ∈ schema.fields, d.id = draggedId → t.id = targetId →
    effectiveGroup (settingsReorder engine schema tab draggedId targetId overrides) d =
      effectiveGroup overrides t
  target : ∀ t ∈ schema.fields, t.id = targetId →
    effectiveGroup (settingsReorder engine schema tab draggedId targetId overrides) t =
      effectiveGroup overrides t
  others : (tabOrder engine schema tab
      (settingsReorder engine schema tab draggedId targetId overrides)).filter (· ≠ draggedId) =
    (tabOrder engine schema tab overrides).filter (· ≠ draggedId)

/-! ## Moving one element of a list -/

theorem insertIdx_append_right (as bs : List String) (n : Nat) (x : String) :
    (as ++ bs).insertIdx (as.length + n) x = as ++ bs.insertIdx n x := by
  induction as with
  | nil => rw [List.nil_append, List.nil_append, List.length_nil, Nat.zero_add]
  | cons a as ih =>
    rw [List.cons_append, List.length_cons, Nat.add_right_comm, List.insertIdx_succ_cons, ih]
    rfl

section
variable {ids as bs cs : List String} {d t : String}

theorem idxOf_middle (h : t ∉ as) : (as ++ t :: bs).idxOf t = as.length := by
  rw [List.idxOf_append, if_neg h, List.idxOf_cons_self, Nat.zero_add]

theorem eraseIdx_middle : (as ++ d :: bs).eraseIdx as.length = as ++ bs := by
  rw [List.eraseIdx_append_of_length_le (Nat.le_refl _), Nat.sub_self, List.eraseIdx_cons_zero]

/-- Dragged up, a field lands right before its target. -/
theorem spliceIds_up (hd : d ∉ as ++ t :: bs) (ht : t ∉ as) :
    spliceIds (as ++ t :: (bs ++ d :: cs)) d t = as ++ d :: t :: (bs ++ cs) := by
  have hto : (as ++ t :: (bs ++ d :: cs)).idxOf t = as.length + 0 := idxOf_middle ht
  have hsplit : as ++ t :: (bs ++ d :: cs) = as ++ t :: bs ++ d :: cs := by
    rw [List.append_assoc, List.cons_append]
  rw [spliceIds, hto, hsplit, idxOf_middle hd, eraseIdx_middle, List.append_assoc,
    insertIdx_append_right, List.insertIdx_zero]
  rfl

/-- Dragged down, it lands right after it. -/
theorem spliceIds_down (hd : d ∉ as) (ht : t ∉ as ++ d :: bs) :
    spliceIds (as ++ d :: (bs ++ t :: cs)) d t = as ++ (bs ++ t :: d :: cs) := by
  have hsplit : as ++ d :: (bs ++ t :: cs) = as ++ d :: bs ++ t :: cs := by
    rw [List.append_assoc, List.cons_append]
  have hto : (as ++ d :: (bs ++ t :: cs)).idxOf t = as.length + (bs.length + 1) := by
    rw [hsplit, idxOf_middle ht, List.length_append, List.length_cons]
  rw [spliceIds, hto, idxOf_middle hd, eraseIdx_middle, insertIdx_append_right,
    insertIdx_append_right, List.insertIdx_succ_cons, List.insertIdx_zero]

/-- Of two elements, one stands before the other. -/
theorem order_of_mem (hne : d ≠ t) (hd : d ∈ ids) (ht : t ∈ ids) :
    (∃ as bs cs, ids = as ++ t :: (bs ++ d :: cs)) ∨ ∃ as bs cs, ids = as ++ d :: (bs ++ t :: cs) := by
  obtain ⟨front, back, rfl⟩ := List.append_of_mem hd
  rcases List.mem_append.1 ht with ht | ht
  · obtain ⟨as, bs, rfl⟩ := List.append_of_mem ht
    exact .inl ⟨as, bs, back, by rw [List.append_assoc, List.cons_append]⟩
  · rcases List.mem_cons.1 ht with he | ht
    · exact (hne he.symm).elim
    · obtain ⟨bs, cs, rfl⟩ := List.append_of_mem ht
      exact .inr ⟨front, bs, cs, rfl⟩

theorem pairwise_idxOf (hn : ids.Nodup) : ids.Pairwise fun a b => ids.idxOf a < ids.idxOf b := by
  rw [List.pairwise_iff_getElem]
  intro i j hi hj hij
  rwa [hn.idxOf_getElem, hn.idxOf_getElem]

/-- In a list without repetitions, one order excludes the other. -/
theorem not_sublist_of_nodup (hn : ids.Nodup) (h : [d, t].Sublist ids) : ¬ [t, d].Sublist ids := by
  intro h'
  have hlt := (pairwise_idxOf hn).forall_sublist h
  have hlt' := (pairwise_idxOf hn).forall_sublist h'
  omega

theorem pair_sublist (as bs cs : List String) (a b : String) :
    [a, b].Sublist (as ++ a :: (bs ++ b :: cs)) := by
  have hlast : [b].Sublist (bs ++ b :: cs) :=
    List.singleton_sublist.2 (List.mem_append_right bs List.mem_cons_self)
  exact (hlast.cons_cons a).trans (List.sublist_append_right as _)

/-- What becomes of a list in which two elements are there once. -/
theorem spliceIds_cases (hn : ids.Nodup) (hne : d ≠ t) (hd : d ∈ ids) (ht : t ∈ ids) :
    (∃ as bs cs, ids = as ++ t :: (bs ++ d :: cs) ∧
      spliceIds ids d t = as ++ d :: t :: (bs ++ cs)) ∨
    ∃ as bs cs, ids = as ++ d :: (bs ++ t :: cs) ∧
      spliceIds ids d t = as ++ (bs ++ t :: d :: cs) := by
  rcases order_of_mem hne hd ht with ⟨as, bs, cs, rfl⟩ | ⟨as, bs, cs, rfl⟩
  · obtain ⟨-, hrest, hapart⟩ := List.nodup_append.1 hn
    obtain ⟨-, hrest⟩ := List.nodup_cons.1 hrest
    have hdbs := (List.nodup_append.1 hrest).2.2
    refine .inl ⟨as, bs, cs, rfl, spliceIds_up ?_ ?_⟩
    · intro hmem
      rcases List.mem_append.1 hmem with hmem | hmem
      · exact hapart d hmem d (List.mem_cons_of_mem t (List.mem_append_right bs List.mem_cons_self)) rfl
      · rcases List.mem_cons.1 hmem with he | hmem
        · exact hne he
        · exact hdbs d hmem d List.mem_cons_self rfl
    · exact fun hmem => hapart t hmem t List.mem_cons_self rfl
  · obtain ⟨-, hrest, hapart⟩ := List.nodup_append.1 hn
    obtain ⟨-, hrest⟩ := List.nodup_cons.1 hrest
    have htbs := (List.nodup_append.1 hrest).2.2
    refine .inr ⟨as, bs, cs, rfl, spliceIds_down ?_ ?_⟩
    · exact fun hmem => hapart d hmem d List.mem_cons_self rfl
    · intro hmem
      rcases List.mem_append.1 hmem with hmem | hmem
      · exact hapart t hmem t (List.mem_cons_of_mem d (List.mem_append_right bs List.mem_cons_self)) rfl
      · rcases List.mem_cons.1 hmem with he | hmem
        · exact hne he.symm
        · exact htbs t hmem t List.mem_cons_self rfl

theorem spliceIds_perm (hn : ids.Nodup) (hne : d ≠ t) (hd : d ∈ ids) (ht : t ∈ ids) :
    (spliceIds ids d t).Perm ids := by
  rcases spliceIds_cases hn hne hd ht with ⟨as, bs, cs, rfl, hsplice⟩ | ⟨as, bs, cs, rfl, hsplice⟩
  · rw [hsplice]
    apply List.Perm.append_left
    exact (List.Perm.swap t d _).trans (List.perm_middle.symm.cons t)
  · rw [hsplice]
    apply List.Perm.append_left
    have hmove : (bs ++ [t] ++ d :: cs).Perm (d :: (bs ++ [t] ++ cs)) := List.perm_middle
    simpa using hmove

end

/-! ## What is read of an override -/

section
variable {overrides : JsonDict} {s : SettingsField}

theorem overridden_of_obj (h : overrides.lookup s.id = some (.obj members)) (key : String) :
    overridden overrides s key = members.lookup key := by
  rw [overridden, layoutOverride, h]
  rfl

/-- A key of a descriptor is not the index of an item. -/
def IsKey (key : String) : Prop := ∃ c ∈ key.toList, c.isDigit = false

theorem IsKey.ne_index (h : IsKey key) (n : Nat) : key ≠ toString n := by
  rintro rfl
  obtain ⟨c, hc, hdigit⟩ := h
  rw [Nat.toString_eq_repr, Nat.toList_repr] at hc
  rw [Nat.isDigit_of_mem_toDigits (by decide) (by decide) hc] at hdigit
  cases hdigit

/-- An entry is spread with all that is read of it. -/
theorem spread_overridden (hkey : IsKey key) (overrides : JsonDict) (s : SettingsField) :
    ((spreadBase (overrides.lookup s.id)).lookup key).filter Json.isTruthy =
      (overridden overrides s key).filter Json.isTruthy := by
  rw [overridden, layoutOverride]
  generalize overrides.lookup s.id = entry
  cases entry with
  | none => rfl
  | some j =>
    cases j with
    | obj members => rfl
    | arr items =>
      have hnone : (spreadBase (some (.arr items))).lookup key = none := by
        apply JsonDict.lookup_eq_none_of_not_mem
        intro hmem
        rw [spreadBase, List.map_map] at hmem
        obtain ⟨x, -, hx⟩ := List.mem_map.1 hmem
        exact hkey.ne_index x.2 hx.symm
      rw [hnone]
      rfl
    | str text =>
      by_cases htext : text = ""
      · subst htext
        rw [spreadBase, JsonDict.lookup_cons]
        split
        · rfl
        · rfl
      · have htruthy : Json.isTruthy (.str text) = true := decide_eq_true htext
        rw [Option.filter_some, if_pos htruthy]
        rfl
    | null => rfl
    | bool b =>
      cases b with
      | false => rfl
      | true => rfl
    | int i =>
      by_cases htruthy : Json.isTruthy (.int i) = true
      · rw [Option.filter_some, if_pos htruthy]
        rfl
      · rw [Option.filter_some, if_neg htruthy]
        rfl
    | number text =>
      by_cases htruthy : Json.isTruthy (.number text) = true
      · rw [Option.filter_some, if_pos htruthy]
        rfl
      · rw [Option.filter_some, if_neg htruthy]
        rfl

end

/-! ## What a drag writes -/

theorem lookup_setOrders (ids : List String) (hn : ids.Nodup) (start : Nat) (overrides : JsonDict)
    (id : String) : ((ids.zipIdx start).foldl setOrder overrides).lookup id =
      if id ∈ ids then
        some (.obj (JsonDict.set "order" (.int ↑(start + ids.idxOf id))
          (spreadBase (overrides.lookup id))))
      else overrides.lookup id := by
  induction ids generalizing start overrides with
  | nil => rfl
  | cons x ids ih =>
    obtain ⟨hnew, hn⟩ := List.nodup_cons.1 hn
    rw [List.zipIdx_cons, List.foldl_cons, ih hn, setOrder, JsonDict.lookup_set]
    by_cases hx : id = x
    · subst hx
      rw [if_neg hnew, if_pos rfl, if_pos List.mem_cons_self, List.idxOf_cons_self]
      rfl
    · rw [if_neg hx]
      by_cases hmem : id ∈ ids
      · rw [if_pos hmem, if_pos (List.mem_cons_of_mem x hmem), List.idxOf_cons_ne _ (Ne.symm hx)]
        congr 5
        omega
      · rw [if_neg hmem, if_neg fun h => (List.mem_cons.1 h).elim hx hmem]

/-- What a drag does to an override: it keeps all but the order, and for the dragged field all but
the group. -/
structure Moved (ids : List String) (draggedId : String) (group : Json)
    (overrides overrides' : JsonDict) : Prop where
  placed : ∀ id ∈ ids, ∃ members, overrides'.lookup id = some (.obj members) ∧
    ∀ key, members.lookup key =
      if id = draggedId ∧ key = "group" then some group
      else if key = "order" then some (.int (ids.idxOf id))
      else (spreadBase (overrides.lookup id)).lookup key
  others : ∀ id ∉ ids, overrides'.lookup id = overrides.lookup id

theorem moved_settingsReorder {engine : ArraySort} {schema : SettingsSchema}
    (hn : (tabOrder engine schema tab overrides).Nodup) (hne : d ≠ t)
    (hd : d ∈ tabOrder engine schema tab overrides) (ht : t ∈ tabOrder engine schema tab overrides)
    (hfind : (schema.fields.find? fun s => s.id = t) = some target) :
    Moved (spliceIds (tabOrder engine schema tab overrides) d t) d (effectiveGroup overrides target)
      overrides (settingsReorder engine schema tab d t overrides) := by
  have hperm := spliceIds_perm hn hne hd ht
  have hplaced := lookup_setOrders _ (hperm.nodup_iff.2 hn) 0 overrides
  have hdin := hperm.mem_iff.2 hd
  rw [settingsReorder]
  dsimp only
  rw [if_neg (not_or.2 ⟨not_not.2 hd, not_not.2 ht⟩), hfind]
  dsimp only
  constructor
  · intro id hid
    rw [JsonDict.lookup_set]
    by_cases hid' : id = d
    · subst hid'
      rw [if_pos rfl, hplaced, if_pos hid, Nat.zero_add]
      refine ⟨_, rfl, ?_⟩
      intro key
      rw [JsonDict.lookup_set]
      by_cases hkey : key = "group"
      · rw [if_pos hkey, if_pos ⟨rfl, hkey⟩]
      · rw [if_neg hkey, if_neg fun h => hkey h.2]
        exact JsonDict.lookup_set _ _ _ _
    · rw [if_neg hid', hplaced, if_pos hid, Nat.zero_add]
      refine ⟨_, rfl, ?_⟩
      intro key
      rw [if_neg fun h => hid' h.1]
      exact JsonDict.lookup_set _ _ _ _
  · intro id hid
    rw [JsonDict.lookup_set, if_neg, hplaced, if_neg hid]
    rintro rfl
    exact hid hdin

section
variable {overrides overrides' : JsonDict} {group : Json} {ids : List String} {s : SettingsField}

/-- What a descriptor's place depends on is read as before, but for the order and one group. -/
theorem Moved.reads_eq (h : Moved ids d group overrides overrides') (hkey : IsKey key)
    (horder : key ≠ "order") (hgroup : s.id = d → key ≠ "group") :
    (overridden overrides' s key).filter Json.isTruthy =
      (overridden overrides s key).filter Json.isTruthy := by
  by_cases hs : s.id ∈ ids
  · obtain ⟨members, hentry, hmembers⟩ := h.placed s.id hs
    rw [overridden_of_obj hentry, hmembers, if_neg fun hand => hgroup hand.1 hand.2, if_neg horder]
    exact spread_overridden hkey overrides s
  · rw [overridden, layoutOverride, h.others s.id hs]
    rfl

theorem isKey_visibility : IsKey "visibility" := ⟨'v', by decide, by decide⟩
theorem isKey_tab : IsKey "tab" := ⟨'t', by decide, by decide⟩
theorem isKey_group : IsKey "group" := ⟨'g', by decide, by decide⟩

theorem orElse_congr {a a' : Option Json} (h : a.filter Json.isTruthy = a'.filter Json.isTruthy)
    (b : Json) : orElse a b = orElse a' b := by
  rw [orElse, orElse, h]

theorem Moved.tab_eq (h : Moved ids d group overrides overrides') (s : SettingsField) :
    effectiveTab overrides' s = effectiveTab overrides s := by
  have hvis : effectiveVisibility overrides' s = effectiveVisibility overrides s :=
    orElse_congr (h.reads_eq isKey_visibility (by decide) fun _ => by decide) _
  rw [effectiveTab, effectiveTab, hvis, h.reads_eq isKey_tab (by decide) fun _ => by decide]

theorem Moved.group_eq (h : Moved ids d group overrides overrides') (hs : s.id ≠ d) :
    effectiveGroup overrides' s = effectiveGroup overrides s :=
  orElse_congr (h.reads_eq isKey_group (by decide) fun hd => (hs hd).elim) _

theorem Moved.order_eq (h : Moved ids d group overrides overrides') (hs : s.id ∈ ids) :
    effectiveOrder overrides' s = .int (ids.idxOf s.id) := by
  obtain ⟨members, hentry, hmembers⟩ := h.placed s.id hs
  rw [effectiveOrder, overridden_of_obj hentry, hmembers,
    if_neg fun hand => absurd hand.2 (by decide), if_pos rfl]

/-- A group is always true: there is a default. -/
theorem isTruthy_effectiveGroup (overrides : JsonDict) (s : SettingsField) :
    (effectiveGroup overrides s).isTruthy = true := by
  have horElse : ∀ (a : Option Json) {b : Json}, b.isTruthy = true → (orElse a b).isTruthy = true := by
    intro a b hb
    rw [orElse]
    cases ha : a.filter Json.isTruthy with
    | none => exact hb
    | some j => exact (Option.filter_eq_some_iff.1 ha).2
  exact horElse _ (horElse _ (by decide))

theorem Moved.group_of_dragged (h : Moved ids s.id group overrides overrides') (hs : s.id ∈ ids)
    (hgroup : group.isTruthy = true) : effectiveGroup overrides' s = group := by
  obtain ⟨members, hentry, hmembers⟩ := h.placed s.id hs
  rw [effectiveGroup, overridden_of_obj hentry, hmembers, if_pos ⟨rfl, rfl⟩, orElse,
    Option.filter_some, if_pos hgroup]
  rfl

end

/-! ## The order of a tab -/

section
variable {engine : ArraySort} {schema : SettingsSchema} {tab d t : String}
  {overrides overrides' : JsonDict} {ids : List String}

/-- The ids of the fields of a tab. -/
def tabIds (schema : SettingsSchema) (tab : String) (overrides : JsonDict) : List String :=
  (schema.fields.filter fun s => Json.isText tab (effectiveTab overrides s)).map SettingsField.id

theorem tabOrder_perm (engine : ArraySort) (schema : SettingsSchema) (tab : String)
    (overrides : JsonDict) : (tabOrder engine schema tab overrides).Perm (tabIds schema tab overrides) := by
  have hperm := (engine.perm ((schema.fields.filter fun s =>
    Json.isText tab (effectiveTab overrides s)).map fun s => (effectiveOrder overrides s, s))).map
      fun w => w.2.id
  rw [List.map_map] at hperm
  exact hperm

theorem nodup_tabOrder (engine : ArraySort) (schema : SettingsSchema) (tab : String)
    (overrides : JsonDict) : (tabOrder engine schema tab overrides).Nodup := by
  apply (tabOrder_perm engine schema tab overrides).nodup_iff.2
  exact schema.unique.sublist (List.filter_sublist.map _)

theorem mem_fields_of_tabOrder (h : x ∈ tabOrder engine schema tab overrides) :
    ∃ s ∈ schema.fields, s.id = x := by
  obtain ⟨s, hs, hx⟩ := List.mem_map.1 ((tabOrder_perm engine schema tab overrides).mem_iff.1 h)
  exact ⟨s, (List.mem_filter.1 hs).1, hx⟩

/-- Where the orders are the places in a list of the ids of a tab, the tab shows that list. -/
theorem tabOrder_of_placed (hn : ids.Nodup) (hperm : ids.Perm (tabIds schema tab overrides))
    (horder : ∀ s : SettingsField, s.id ∈ ids → effectiveOrder overrides s = .int (ids.idxOf s.id)) :
    tabOrder engine schema tab overrides = ids := by
  have hkeys : ∀ r ∈ (schema.fields.filter fun s => Json.isText tab (effectiveTab overrides s)).map
      fun s => (effectiveOrder overrides s, s), r.1 = .int (ids.idxOf r.2.id) := by
    intro r hr
    obtain ⟨s, hs, rfl⟩ := List.mem_map.1 hr
    exact horder s (hperm.mem_iff.2 (List.mem_map.2 ⟨s, hs, rfl⟩))
  have hasc := engine.ascending _ fun r hr => ⟨_, hkeys r hr⟩
  have hsame := (tabOrder_perm engine schema tab overrides).trans hperm.symm
  apply List.Perm.eq_of_pairwise _ _ _ hsame
  · exact fun a b => ids.idxOf a ≤ ids.idxOf b
  · intro a b ha _ hab hba
    exact List.idxOf_inj (hsame.mem_iff.1 ha) |>.1 (Nat.le_antisymm hab hba)
  · rw [tabOrder, List.pairwise_map]
    refine hasc.imp_of_mem ?_
    intro r r' hr hr' hle
    have hkey := hkeys r ((engine.perm _).mem_iff.1 hr)
    have hkey' := hkeys r' ((engine.perm _).mem_iff.1 hr')
    exact Int.ofNat_le.1 (hle _ _ hkey hkey')
  · exact (pairwise_idxOf hn).imp fun h => Nat.le_of_lt h

/-- After a drag, the tab shows its ids with the dragged one moved. -/
theorem tabOrder_settingsReorder (hne : d ≠ t) (hd : d ∈ tabOrder engine schema tab overrides)
    (ht : t ∈ tabOrder engine schema tab overrides) :
    (∃ target ∈ schema.fields, target.id = t ∧
      Moved (spliceIds (tabOrder engine schema tab overrides) d t) d
        (effectiveGroup overrides target) overrides (settingsReorder engine schema tab d t overrides)) ∧
    tabOrder engine schema tab (settingsReorder engine schema tab d t overrides) =
      spliceIds (tabOrder engine schema tab overrides) d t := by
  have hn := nodup_tabOrder engine schema tab overrides
  obtain ⟨target, htarget, rfl⟩ := mem_fields_of_tabOrder ht
  have hsome : (schema.fields.find? fun s => s.id = target.id).isSome = true := by
    rw [List.find?_isSome]
    exact ⟨target, htarget, decide_eq_true rfl⟩
  obtain ⟨found, hfound⟩ := Option.isSome_iff_exists.1 hsome
  have hfind := List.find?_some hfound
  have hid : found.id = target.id := of_decide_eq_true hfind
  have hmoved := moved_settingsReorder hn hne hd ht hfound
  have hperm := spliceIds_perm hn hne hd ht
  refine ⟨⟨found, List.mem_of_find?_eq_some hfound, hid, hmoved⟩, ?_⟩
  apply tabOrder_of_placed (hperm.nodup_iff.2 hn)
  · have htabs : tabIds schema tab (settingsReorder engine schema tab d target.id overrides) =
        tabIds schema tab overrides := by
      rw [tabIds, tabIds]
      simp only [hmoved.tab_eq]
    rw [htabs]
    exact hperm.trans (tabOrder_perm engine schema tab overrides)
  · exact fun s hs => hmoved.order_eq hs

theorem eq_of_id (schema : SettingsSchema) (hs : s ∈ schema.fields) (hs' : s' ∈ schema.fields)
    (h : s.id = s'.id) : s = s' :=
  List.inj_on_of_nodup_map schema.unique hs hs' h

/-- A drag does what it promises where the target stands before the dragged field. -/
theorem dropsBefore_iff (engine : ArraySort) (schema : SettingsSchema) (tab : String)
    (overrides : JsonDict) (d t : String) (hne : d ≠ t)
    (hd : d ∈ tabOrder engine schema tab overrides)
    (ht : t ∈ tabOrder engine schema tab overrides) :
    DropsBefore engine schema tab d t overrides ↔
      [t, d].Sublist (tabOrder engine schema tab overrides) := by
  have hn := nodup_tabOrder engine schema tab overrides
  obtain ⟨⟨target, htarget, hid, hmoved⟩, horder⟩ := tabOrder_settingsReorder hne hd ht
  rcases spliceIds_cases hn hne hd ht with ⟨as, bs, cs, hids, hsplice⟩ | ⟨as, bs, cs, hids, hsplice⟩
  · have hsub : [t, d].Sublist (tabOrder engine schema tab overrides) := by
      rw [hids]
      exact pair_sublist as bs cs t d
    refine iff_of_true ⟨?_, ?_, ?_, ?_⟩ hsub
    · rw [horder, hsplice]
      exact ⟨as, bs ++ cs, by rw [List.append_assoc]; rfl⟩
    · rintro x hx y hy rfl hyt
      obtain rfl := eq_of_id schema htarget hy (hid.trans hyt.symm)
      apply hmoved.group_of_dragged _ (isTruthy_effectiveGroup overrides target)
      exact (spliceIds_perm hn hne hd ht).mem_iff.2 hd
    · intro y hy hyt
      exact hmoved.group_eq (hyt ▸ Ne.symm hne)
    · rw [horder, hsplice, hids]
      simp [Ne.symm hne]
  · apply iff_of_false
    · intro h
      have hbefore := h.before
      rw [horder] at hbefore
      have hafter : [t, d].Sublist (spliceIds (tabOrder engine schema tab overrides) d t) := by
        rw [hsplice, ← List.append_assoc]
        exact pair_sublist (as ++ bs) [] cs t d
      exact not_sublist_of_nodup ((spliceIds_perm hn hne hd ht).nodup_iff.2 hn) hafter
        hbefore.sublist
    · have hsub : [d, t].Sublist (tabOrder engine schema tab overrides) := by
        rw [hids]
        exact pair_sublist as bs cs d t
      exact not_sublist_of_nodup hn hsub

end

/-! ## Two fields of a tab -/

/-- The key of an order that is an integer. -/
def intKey : Json → Int
  | .int i => i
  | _ => 0

/-- Row `r` may stand before row `r'`. -/
def RowLe (r r' : Json × SettingsField) : Prop :=
  intKey r.1 ≤ intKey r'.1

instance : DecidableRel RowLe :=
  fun r r' => inferInstanceAs (Decidable (intKey r.1 ≤ intKey r'.1))

instance : Std.Total RowLe :=
  ⟨fun r r' => Int.le_total (intKey r.1) (intKey r'.1)⟩

instance : IsTrans (Json × SettingsField) RowLe :=
  ⟨fun _ _ _ h h' => Int.le_trans h h'⟩

/-- An engine that sorts other keys as zeros. -/
def plainSort : ArraySort where
  sort rows := rows.insertionSort RowLe
  perm rows := List.perm_insertionSort RowLe rows
  ascending rows _ := by
    apply (List.pairwise_insertionSort RowLe rows).imp
    intro r r' hle i j hi hj
    rw [RowLe, hi, hj] at hle
    exact hle

def twoFields : SettingsSchema where
  fields := [⟨"theme", "global", some "Looks", some "superadmin", none⟩,
    ⟨"language", "global", some "Texts", some "superadmin", none⟩]
  unique := by decide

theorem dragged_up : DropsBefore plainSort twoFields "global" "language" "theme" [] := by
  apply (dropsBefore_iff plainSort twoFields "global" [] "language" "theme" (by decide)
    (by decide +kernel) (by decide +kernel)).2
  decide +kernel

/-- Dragged down, a field lands after its target. -/
theorem dragged_down : ¬ DropsBefore plainSort twoFields "global" "theme" "language" [] := by
  intro h
  have hbefore := h.before
  revert hbefore
  decide +kernel

end ScottyCore
