import ScottyCore.Lib.IsoFormat

namespace Python
set_option autoImplicit true

/-- Values of table cells and of JSON objects. Only cells hold datetimes, JSON carries them as
text. A nested JSON document is kept as its text. -/
inductive Val where
  | none
  | bool (b : Bool)
  | int (i : Int)
  | str (s : String)
  | datetime (d : DateTime)
  | json (text : String)
  deriving DecidableEq

abbrev Dict := List (String × Val)

/-- `d.get(key)` -/
def Dict.get (d : Dict) (key : String) : Val :=
  (d.lookup key).getD .none

/-- `d.get(key, default)` -/
def Dict.getD (d : Dict) (key : String) (default : Val) : Val :=
  (d.lookup key).getD default

/-- `str(v)` -/
def Val.toStr : Val → String
  | .none => "None"
  | .bool b => if b then "True" else "False"
  | .int i => toString i
  | .str s => s
  | .datetime d => d.isoformat
  | .json text => text

/-- `type(v).__name__`. JSON text that is a value of its own is a number with a fraction. -/
def Val.typeName : Val → String
  | .none => "NoneType"
  | .bool _ => "bool"
  | .int _ => "int"
  | .str _ => "str"
  | .datetime _ => "datetime"
  | .json _ => "float"

/-- `a == b`: datetimes are compared as moments. -/
def Val.eq : Val → Val → Bool
  | .datetime a, .datetime b => a.eq b
  | a, b => decide (a = b)

@[simp] theorem Val.eq_self (v : Val) : v.eq v = true := by
  cases v with
  | datetime d => exact DateTime.eq_self d
  | _ => simp only [Val.eq, decide_true]

theorem lookup_of_mem [BEq α] [LawfulBEq α] {d : List (α × β)} (hn : (d.map Prod.fst).Nodup)
    (h : (k, v) ∈ d) : d.lookup k = some v := by
  induction d with
  | nil => cases h
  | cons p d ih =>
    obtain ⟨hp, hd⟩ := List.nodup_cons.1 hn
    rcases List.mem_cons.1 h with rfl | h
    · exact List.lookup_cons_self
    · have hne : (k == p.1) = false := by
        rw [beq_eq_false_iff_ne]
        intro he
        exact hp (he ▸ List.mem_map_of_mem h)
      rw [List.lookup_cons, hne]
      exact ih hd h

theorem lookup_map_snd (d : Dict) (f : Val → Val) (k : String) :
    List.lookup k (d.map fun p => (p.1, f p.2)) = (d.lookup k).map f := by
  induction d with
  | nil => rfl
  | cons p d ih =>
    rw [List.map_cons, List.lookup_cons, List.lookup_cons, ih]
    cases k == p.1 <;> rfl

theorem lookup_filter_of_ne {d : Dict} (h : k ≠ t) :
    List.lookup k (d.filter fun p => p.1 ≠ t) = d.lookup k := by
  induction d with
  | nil => rfl
  | cons p d ih =>
    by_cases hp : p.1 = t
    · have hk : (k == p.1) = false := by rw [beq_eq_false_iff_ne, hp]; exact h
      rw [List.filter_cons_of_neg (by simpa using hp), List.lookup_cons, hk]
      exact ih
    · rw [List.filter_cons_of_pos (by simpa using hp), List.lookup_cons, List.lookup_cons, ih]

end Python
