import Mathlib.Data.List.Nodup

namespace Python
set_option autoImplicit true

/-- A JSON document. Numbers that are not integers are kept as their text. -/
inductive Json where
  | null
  | bool (b : Bool)
  | int (i : Int)
  | number (text : String)
  | str (s : String)
  | arr (items : List Json)
  | obj (members : List (String × Json))

def Json.strs (ss : List String) : Json := .arr (ss.map .str)

/-- `isinstance(j, list) and s not in j` -/
def Json.isListWithout (s : String) : Json → Bool
  | .arr items => items.all fun
    | .str t => t ≠ s
    | _ => true
  | _ => false

/-- `j == text` -/
def Json.isText (text : String) : Json → Bool
  | .str s => s = text
  | _ => false

theorem Json.isText_iff (text : String) (j : Json) : Json.isText text j = true ↔ j = .str text := by
  cases j with
  | str s =>
    rw [Json.isText, decide_eq_true_eq, Json.str.injEq]
  | _ =>
    refine iff_of_false ?_ ?_
    · exact Bool.false_ne_true
    · exact fun h => nomatch h

/-- `bool(j)`. A number is zero when its digits before the exponent are. -/
def Json.truthy : Json → Bool
  | .null => false
  | .bool b => b
  | .int i => i ≠ 0
  | .number text => (text.toList.takeWhile fun c => c ≠ 'e' ∧ c ≠ 'E').any fun c => '1' ≤ c ∧ c ≤ '9'
  | .str s => s ≠ ""
  | .arr items => !items.isEmpty
  | .obj members => !members.isEmpty

/-- `type(j).__name__` -/
def Json.typeName : Json → String
  | .null => "NoneType"
  | .bool _ => "bool"
  | .int _ => "int"
  | .number _ => "float"
  | .str _ => "str"
  | .arr _ => "list"
  | .obj _ => "dict"

abbrev JsonDict := List (String × Json)

/-- `d.get(key)` -/
def JsonDict.get (d : JsonDict) (key : String) : Json := (d.lookup key).getD .null

namespace JsonDict

/-- `d[key] = value` -/
def set (key : String) (value : Json) : JsonDict → JsonDict
  | [] => [(key, value)]
  | (k, v) :: d => if k = key then (k, value) :: d else (k, v) :: set key value d

/-- `{**d, **e}` -/
def merge (d e : JsonDict) : JsonDict := e.foldl (fun d p => set p.1 p.2 d) d

theorem lookup_cons (k' k : String) (v : Json) (d : JsonDict) :
    List.lookup k ((k', v) :: d) = if k = k' then some v else d.lookup k := by
  rw [List.lookup_cons]
  by_cases hk : k = k'
  · rw [if_pos hk, beq_iff_eq.2 hk]
  · rw [if_neg hk, beq_eq_false_iff_ne.2 hk]

theorem lookup_set (key k : String) (value : Json) (d : JsonDict) :
    (d.set key value).lookup k = if k = key then some value else d.lookup k := by
  induction d with
  | nil => exact lookup_cons key k value []
  | cons p d ih =>
    obtain ⟨k', v⟩ := p
    rw [set]
    by_cases hkey : k' = key
    · rw [if_pos hkey, lookup_cons, lookup_cons, hkey]
      by_cases hk : k = key
      · rw [if_pos hk, if_pos hk]
      · rw [if_neg hk, if_neg hk, if_neg hk]
    · rw [if_neg hkey, lookup_cons, lookup_cons, ih]
      by_cases hk : k = k'
      · rw [if_pos hk, if_pos hk, if_neg fun h => hkey (hk.symm.trans h)]
      · rw [if_neg hk, if_neg hk]

theorem set_append {d e : JsonDict} (h : key ∉ d.map Prod.fst) (value : Json) :
    (d ++ e).set key value = d ++ e.set key value := by
  induction d with
  | nil => rfl
  | cons entry d ih =>
    rw [List.map_cons, List.mem_cons, not_or] at h
    rw [List.cons_append, set, if_neg (Ne.symm h.1), ih h.2, List.cons_append]

theorem lookup_eq_none_of_not_mem {d : JsonDict} (h : k ∉ d.map Prod.fst) : d.lookup k = none := by
  induction d with
  | nil => rfl
  | cons p d ih =>
    rw [List.map_cons, List.mem_cons, not_or] at h
    rw [lookup_cons p.1 k p.2 d, if_neg h.1]
    exact ih h.2

theorem lookup_merge {d e : JsonDict} (hn : (e.map Prod.fst).Nodup) (k : String) :
    (d.merge e).lookup k = (e.lookup k).or (d.lookup k) := by
  induction e generalizing d with
  | nil => rfl
  | cons p e ih =>
    obtain ⟨key, value⟩ := p
    obtain ⟨hnew, hn⟩ := List.nodup_cons.1 hn
    have hstep := @ih (set key value d) hn
    rw [merge, List.foldl_cons, ← merge, hstep, lookup_set, lookup_cons]
    by_cases hk : k = key
    · rw [if_pos hk, if_pos hk, lookup_eq_none_of_not_mem (hk ▸ hnew)]
      rfl
    · rw [if_neg hk, if_neg hk]

theorem lookup_filter_ne {key key' : String} (h : key ≠ key') (d : JsonDict) :
    (d.filter fun p => p.1 ≠ key').lookup key = d.lookup key := by
  induction d with
  | nil => rfl
  | cons p d ih =>
    obtain ⟨k, v⟩ := p
    rw [List.filter_cons, lookup_cons]
    by_cases hk : k = key'
    · rw [if_neg (by simpa using hk), if_neg fun he => h (he.trans hk), ih]
    · rw [if_pos (by simpa using hk), lookup_cons, ih]

theorem lookup_filter_self (key : String) (d : JsonDict) :
    (d.filter fun p => p.1 ≠ key).lookup key = none := by
  apply lookup_eq_none_of_not_mem
  intro hmem
  obtain ⟨p, hp, hkey⟩ := List.mem_map.1 hmem
  exact of_decide_eq_true (List.mem_filter.1 hp).2 hkey

/-- A dictionary is its keys in order and what stands under each. -/
theorem ext_lookup {d e : JsonDict} (hkeys : d.map Prod.fst = e.map Prod.fst)
    (hn : (d.map Prod.fst).Nodup) (h : ∀ k, d.lookup k = e.lookup k) : d = e := by
  induction d generalizing e with
  | nil => exact (List.map_eq_nil_iff.1 hkeys.symm).symm
  | cons p d ih =>
    cases e with
    | nil => cases hkeys
    | cons q e =>
      obtain ⟨k, v⟩ := p
      obtain ⟨k', w⟩ := q
      obtain ⟨hk, hrest⟩ := List.cons.inj hkeys
      obtain ⟨hnew, hn⟩ := List.nodup_cons.1 hn
      dsimp only at hk hnew
      subst hk
      have hhead := h k
      rw [lookup_cons, lookup_cons, if_pos rfl, if_pos rfl] at hhead
      cases hhead
      congr 1
      apply ih hrest hn
      intro k'
      have hk' := h k'
      rw [lookup_cons, lookup_cons] at hk'
      by_cases he : k' = k
      · rw [he, lookup_eq_none_of_not_mem hnew, lookup_eq_none_of_not_mem (hrest ▸ hnew)]
      · rwa [if_neg he, if_neg he] at hk'

/-- A key that is there keeps its place. -/
theorem keys_set {d : JsonDict} (h : key ∈ d.map Prod.fst) (value : Json) :
    (d.set key value).map Prod.fst = d.map Prod.fst := by
  induction d with
  | nil => cases h
  | cons p d ih =>
    obtain ⟨k, v⟩ := p
    rw [set]
    split
    · rfl
    · rename_i hk
      rcases List.mem_cons.1 h with he | h
      · exact (hk he.symm).elim
      · rw [List.map_cons, List.map_cons, ih h]

theorem lookup_map_values (f : Json → Json) (d : JsonDict) (key : String) :
    List.lookup key (d.map fun p => (p.1, f p.2)) = (d.lookup key).map f := by
  induction d with
  | nil => rfl
  | cons p d ih =>
    obtain ⟨k, v⟩ := p
    rw [List.map_cons, lookup_cons, lookup_cons, ih]
    split
    · rfl
    · rfl

end JsonDict

end Python
