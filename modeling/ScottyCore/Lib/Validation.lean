import ScottyCore.Lib.Json
import ScottyCore.Lib.Raise
import ScottyCore.Lib.Value

/-! Models whose fields are validated one by one, and that report what is wrong with each. -/

namespace Validation
open Python
set_option autoImplicit true

/-- What is wrong with a value, and where. -/
structure FieldError where
  loc : List String
  msg : String
  input : Json

def fail (msg : String) (input : Json) : Except (List FieldError) α := .error [⟨[], msg, input⟩]

def within (place : String) (errors : List FieldError) : List FieldError :=
  errors.map fun e => { e with loc := place :: e.loc }

abbrev Check := Json → Except (List FieldError) Json

structure Field where
  name : String
  default : Json
  check : Check

/-- The value of a field. A default is not checked. -/
def Field.value (f : Field) (d : JsonDict) : Except (List FieldError) Json :=
  match d.lookup f.name with
  | some j => (f.check j).mapError (within f.name)
  | none => .ok f.default

/-- The errors of all fields, if there are any. -/
def collect : Except (List FieldError) α → Except (List FieldError) (List α) →
    Except (List FieldError) (List α)
  | .ok x, .ok xs => .ok (x :: xs)
  | .error es, .ok _ => .error es
  | .ok _, .error es => .error es
  | .error es, .error es' => .error (es ++ es')

/-- `Model(**d).model_dump()` -/
def validate : List Field → JsonDict → Except (List FieldError) JsonDict
  | [], _ => .ok []
  | f :: fields, d => collect ((f.value d).map fun v => (f.name, v)) (validate fields d)

/-! ## Checks -/

def str : Check
  | .str s => .ok (.str s)
  | j => fail "Input should be a valid string" j

def orNull (check : Check) : Check
  | .null => .ok .null
  | j => check j

/-- `Field(max_length=n)` of a string -/
def maxLength (n : Nat) : Check
  | .str s =>
    if s.length ≤ n then .ok (.str s)
    else fail ("String should have at most " ++ toString n ++ " characters") (.str s)
  | j => fail "Input should be a valid string" j

/-- `Field(pattern="^(...|...)$")` -/
def oneOf (choices : List String) : Check
  | .str s =>
    if s ∈ choices then .ok (.str s)
    else
      fail ("String should match pattern '^(" ++ String.intercalate "|" choices ++ ")$'") (.str s)
  | j => fail "Input should be a valid string" j

/-- How numbers and booleans are read from other values, or the message of the error. -/
structure Coercions where
  int : Json → Except String Int
  bool : Json → Except String Bool

/-- A number is read as itself, and so is a boolean. -/
structure Coercions.Exact (c : Coercions) : Prop where
  int : ∀ i, c.int (.int i) = .ok i
  bool : ∀ b, c.bool (.bool b) = .ok b

namespace Coercions

/-- Numbers and booleans that are read as themselves only. -/
def strict : Coercions where
  int
    | .int i => .ok i
    | _ => .error "Input should be a valid integer"
  bool
    | .bool b => .ok b
    | _ => .error "Input should be a valid boolean"

theorem strict_exact : strict.Exact := ⟨fun _ => rfl, fun _ => rfl⟩

variable (c : Coercions)

def intCheck (j : Json) : Except (List FieldError) Json :=
  match c.int j with
  | .ok i => .ok (.int i)
  | .error msg => fail msg j

/-- `Field(ge=low, le=high)` -/
def between (low high : Int) (j : Json) : Except (List FieldError) Json :=
  match c.int j with
  | .ok i =>
    if i < low then fail ("Input should be greater than or equal to " ++ toString low) j
    else if high < i then fail ("Input should be less than or equal to " ++ toString high) j
    else .ok (.int i)
  | .error msg => fail msg j

def boolCheck (j : Json) : Except (List FieldError) Json :=
  match c.bool j with
  | .ok b => .ok (.bool b)
  | .error msg => fail msg j

end Coercions

def items (check : Check) : Nat → List Json → Except (List FieldError) (List Json)
  | _, [] => .ok []
  | i, j :: js => collect ((check j).mapError (within (toString i))) (items check (i + 1) js)

def listOf (check : Check) : Check
  | .arr js => (items check 0 js).map .arr
  | j => fail "Input should be a valid list" j

def model (name : String) (fields : List Field) : Check
  | .obj members => (validate fields members).map .obj
  | j => fail ("Input should be a valid dictionary or instance of " ++ name) j

/-! ## What a validated model holds -/

variable {f : Field} {fields : List Field} {d d' v : JsonDict}

theorem collect_eq_ok {x : Except (List FieldError) α} {xs : Except (List FieldError) (List α)} :
    collect x xs = .ok ys ↔ ∃ y ys', x = .ok y ∧ xs = .ok ys' ∧ ys = y :: ys' := by
  cases x with
  | error es =>
    cases xs with
    | error es' => exact ⟨nofun, nofun⟩
    | ok ys' => exact ⟨nofun, nofun⟩
  | ok y =>
    cases xs with
    | error es' => exact ⟨nofun, nofun⟩
    | ok ys' =>
      constructor
      · intro h
        exact ⟨y, ys', rfl, rfl, (Except.ok.inj h).symm⟩
      · rintro ⟨_, _, hy, hys, rfl⟩
        cases hy
        cases hys
        rfl

theorem validate_congr (h : ∀ f ∈ fields, f.value d = f.value d') :
    validate fields d = validate fields d' := by
  induction fields with
  | nil => rfl
  | cons f fields ih =>
    rw [validate, validate, h f List.mem_cons_self, ih fun g hg => h g (List.mem_cons_of_mem _ hg)]

theorem map_name_eq_ok {x : Except (List FieldError) Json} {name : String} :
    (x.map fun v => (name, v)) = .ok p ↔ ∃ j, x = .ok j ∧ p = (name, j) := by
  cases x with
  | error es => exact ⟨nofun, nofun⟩
  | ok j =>
    constructor
    · intro h
      exact ⟨j, rfl, (Except.ok.inj h).symm⟩
    · rintro ⟨_, hj, rfl⟩
      cases hj
      rfl

/-- Every field has the value that the dictionary gives it. -/
theorem validate_ok (h : validate fields d = .ok v) :
    v.map Prod.fst = fields.map Field.name ∧
      ∀ f ∈ fields, ∃ j, f.value d = .ok j ∧ (f.name, j) ∈ v := by
  induction fields generalizing v with
  | nil =>
    cases h
    exact ⟨rfl, nofun⟩
  | cons f fields ih =>
    obtain ⟨p, vs, hp, hvs, rfl⟩ := collect_eq_ok.1 h
    obtain ⟨j, hj, rfl⟩ := map_name_eq_ok.1 hp
    obtain ⟨hnames, hvalues⟩ := ih hvs
    refine ⟨congrArg (f.name :: ·) hnames, ?_⟩
    intro g hg
    rcases List.mem_cons.1 hg with rfl | hg
    · exact ⟨j, hj, List.mem_cons_self⟩
    · obtain ⟨j', hj', hmem⟩ := hvalues g hg
      exact ⟨j', hj', List.mem_cons_of_mem _ hmem⟩

theorem lookup_validate (hn : (fields.map Field.name).Nodup) (h : validate fields d = .ok v)
    (hf : f ∈ fields) : ∃ j, f.value d = .ok j ∧ v.lookup f.name = some j := by
  obtain ⟨hnames, hvalues⟩ := validate_ok h
  obtain ⟨j, hj, hmem⟩ := hvalues f hf
  exact ⟨j, hj, lookup_of_mem (hnames ▸ hn) hmem⟩

theorem lookup_validate_of_not_mem (h : validate fields d = .ok v)
    (hkey : key ∉ fields.map Field.name) : v.lookup key = none :=
  JsonDict.lookup_eq_none_of_not_mem ((validate_ok h).1 ▸ hkey)

theorem validate_ok_of_forall {value : Field → Json} (h : ∀ f ∈ fields, f.value d = .ok (value f)) :
    validate fields d = .ok (fields.map fun f => (f.name, value f)) := by
  induction fields with
  | nil => rfl
  | cons f fields ih =>
    rw [validate, h f List.mem_cons_self, ih fun g hg => h g (List.mem_cons_of_mem _ hg)]
    rfl

theorem exists_validate_ok_iff : (∃ v, validate fields d = .ok v) ↔
    ∀ f ∈ fields, ∃ j, f.value d = .ok j := by
  constructor
  · rintro ⟨v, hv⟩ f hf
    obtain ⟨j, hj, -⟩ := (validate_ok hv).2 f hf
    exact ⟨j, hj⟩
  · intro h
    have : Nonempty Json := ⟨.null⟩
    choose! value hvalue using h
    exact ⟨_, validate_ok_of_forall hvalue⟩

theorem Field.value_of_lookup (h : d.lookup f.name = some j) :
    f.value d = (f.check j).mapError (within f.name) := by
  rw [Field.value, h]

theorem Field.value_of_none (h : d.lookup f.name = none) : f.value d = .ok f.default := by
  rw [Field.value, h]

theorem Field.value_congr (h : d.lookup f.name = d'.lookup f.name) : f.value d = f.value d' := by
  rw [Field.value, Field.value, h]

/-- Models that agree on all fields but one are the same once that one is replaced. -/
theorem validate_set_congr {v' : JsonDict} (hn : (fields.map Field.name).Nodup)
    (hkey : key ∈ fields.map Field.name) (hv : validate fields d = .ok v)
    (hv' : validate fields d' = .ok v')
    (h : ∀ f ∈ fields, f.name ≠ key → f.value d = f.value d') (j : Json) :
    v.set key j = v'.set key j := by
  have hkeys := (validate_ok hv).1
  have hkeys' := (validate_ok hv').1
  have hset := JsonDict.keys_set (hkeys ▸ hkey) j
  have hset' := JsonDict.keys_set (hkeys' ▸ hkey) j
  apply JsonDict.ext_lookup
  · rw [hset, hset', hkeys, hkeys']
  · rw [hset, hkeys]
    exact hn
  · intro k
    rw [JsonDict.lookup_set, JsonDict.lookup_set]
    by_cases hk : k = key
    · rw [if_pos hk, if_pos hk]
    · rw [if_neg hk, if_neg hk]
      by_cases hfield : k ∈ fields.map Field.name
      · obtain ⟨f, hf, rfl⟩ := List.mem_map.1 hfield
        obtain ⟨x, hx, hlookup⟩ := lookup_validate hn hv hf
        obtain ⟨x', hx', hlookup'⟩ := lookup_validate hn hv' hf
        rw [h f hf hk, hx'] at hx
        cases hx
        rw [hlookup, hlookup']
      · rw [lookup_validate_of_not_mem hv hfield, lookup_validate_of_not_mem hv' hfield]

/-- A dump whose values pass their checks is what it validates to. -/
theorem validate_self (hn : (fields.map Field.name).Nodup)
    (hkeys : d.map Prod.fst = fields.map Field.name)
    (h : ∀ f ∈ fields, ∀ j, d.lookup f.name = some j → f.check j = .ok j) :
    validate fields d = .ok d := by
  have hvalue : ∀ f ∈ fields, ∃ j, f.value d = .ok j ∧ d.lookup f.name = some j := by
    intro f hf
    obtain ⟨p, hp, hname⟩ := List.mem_map.1 (hkeys ▸ List.mem_map_of_mem hf)
    have hlookup : d.lookup f.name = some p.2 :=
      hname ▸ lookup_of_mem (hkeys ▸ hn) (Prod.mk.eta ▸ hp)
    refine ⟨p.2, ?_, hlookup⟩
    rw [Field.value_of_lookup hlookup, h f hf p.2 hlookup]
    rfl
  obtain ⟨w, hw⟩ : ∃ w, validate fields d = .ok w := by
    apply exists_validate_ok_iff.2
    intro f hf
    obtain ⟨j, hj, -⟩ := hvalue f hf
    exact ⟨j, hj⟩
  rw [hw]
  apply congrArg Except.ok
  have hkeysw := (validate_ok hw).1
  apply JsonDict.ext_lookup
  · rw [hkeysw, hkeys]
  · rw [hkeysw]
    exact hn
  · intro k
    by_cases hk : k ∈ fields.map Field.name
    · obtain ⟨f, hf, rfl⟩ := List.mem_map.1 hk
      obtain ⟨j, hj, hlookup⟩ := hvalue f hf
      obtain ⟨j', hj', hlookup'⟩ := lookup_validate hn hw hf
      rw [hj] at hj'
      cases hj'
      rw [hlookup, hlookup']
    · rw [lookup_validate_of_not_mem hw hk, JsonDict.lookup_eq_none_of_not_mem (hkeys ▸ hk)]

/-! ## Validating what was validated -/

/-- What a check returns passes it unchanged. -/
def Stable (check : Check) : Prop := ∀ j v, check j = .ok v → check v = .ok v

structure Field.Settled (f : Field) : Prop where
  default : f.check f.default = .ok f.default
  stable : Stable f.check

theorem stable_str : Stable str := by
  intro j v h
  cases j with
  | str s =>
    cases h
    rfl
  | _ => cases h

theorem stable_orNull {check : Check} (h : Stable check) : Stable (orNull check) := by
  intro j v hj
  have hv : v = .null ∨ check v = .ok v := by
    cases j with
    | null =>
      cases hj
      exact .inl rfl
    | _ => exact .inr (h _ v hj)
  cases v with
  | null => rfl
  | _ => exact hv.resolve_left (by intro h; cases h)

theorem stable_maxLength (n : Nat) : Stable (maxLength n) := by
  intro j v h
  cases j with
  | str s =>
    rw [maxLength] at h
    split at h
    · rename_i hlen
      cases h
      exact if_pos hlen
    · cases h
  | _ => cases h

theorem stable_oneOf (choices : List String) : Stable (oneOf choices) := by
  intro j v h
  cases j with
  | str s =>
    rw [oneOf] at h
    split at h
    · rename_i hmem
      cases h
      exact if_pos hmem
    · cases h
  | _ => cases h

theorem Coercions.Exact.between {c : Coercions} (hc : c.Exact) {low high : Int} (hlow : low ≤ i)
    (hhigh : i ≤ high) : c.between low high (.int i) = .ok (.int i) := by
  rw [Coercions.between, hc.int]
  dsimp only
  rw [if_neg (Int.not_lt.2 hlow), if_neg (Int.not_lt.2 hhigh)]

theorem Coercions.Exact.stable_between {c : Coercions} (hc : c.Exact) (low high : Int) :
    Stable (c.between low high) := by
  intro j v h
  rw [Coercions.between] at h
  split at h
  · split at h
    · cases h
    · rename_i hlow
      split at h
      · cases h
      · rename_i hhigh
        cases h
        exact hc.between (Int.not_lt.1 hlow) (Int.not_lt.1 hhigh)
  · cases h

theorem Coercions.Exact.intCheck {c : Coercions} (hc : c.Exact) (i : Int) :
    c.intCheck (.int i) = .ok (.int i) := by
  rw [Coercions.intCheck, hc.int]

theorem Coercions.Exact.boolCheck {c : Coercions} (hc : c.Exact) (b : Bool) :
    c.boolCheck (.bool b) = .ok (.bool b) := by
  rw [Coercions.boolCheck, hc.bool]

theorem Coercions.Exact.stable_intCheck {c : Coercions} (hc : c.Exact) : Stable c.intCheck := by
  intro j v h
  rw [Coercions.intCheck] at h
  split at h
  · cases h
    exact hc.intCheck _
  · cases h

theorem Coercions.Exact.stable_boolCheck {c : Coercions} (hc : c.Exact) : Stable c.boolCheck := by
  intro j v h
  rw [Coercions.boolCheck] at h
  split at h
  · cases h
    exact hc.boolCheck _
  · cases h

theorem mapError_eq_ok {x : Except ε α} {g : ε → ε'} : x.mapError g = .ok a ↔ x = .ok a := by
  cases x with
  | error e => exact ⟨nofun, nofun⟩
  | ok a => exact ⟨fun h => congrArg _ (Except.ok.inj h), fun h => congrArg _ (Except.ok.inj h)⟩

theorem items_stable {check : Check} (h : Stable check) {js vs : List Json}
    (hitems : items check n js = .ok vs) : items check n vs = .ok vs := by
  induction js generalizing n vs with
  | nil =>
    cases hitems
    rfl
  | cons j js ih =>
    obtain ⟨v, vs', hv, hvs, rfl⟩ := collect_eq_ok.1 hitems
    apply collect_eq_ok.2
    exact ⟨v, vs', mapError_eq_ok.2 (h j v (mapError_eq_ok.1 hv)), ih hvs, rfl⟩

theorem stable_listOf {check : Check} (h : Stable check) : Stable (listOf check) := by
  intro j v hj
  cases j with
  | arr js =>
    obtain ⟨vs, hvs, rfl⟩ := map_eq_ok.1 hj
    exact map_eq_ok.2 ⟨vs, items_stable h hvs, rfl⟩
  | _ => cases hj

/-- The value of a settled field, put back, is its value again. -/
theorem Field.Settled.value_of_lookup (hf : f.Settled) (hv : f.value d = .ok j)
    (hlookup : d'.lookup f.name = some j) : f.value d' = .ok j := by
  rw [Field.value_of_lookup hlookup, mapError_eq_ok]
  cases hthere : d.lookup f.name with
  | none =>
    rw [Field.value_of_none hthere] at hv
    cases hv
    exact hf.default
  | some x =>
    rw [Field.value_of_lookup hthere, mapError_eq_ok] at hv
    exact hf.stable x j hv

theorem validate_again (hn : (fields.map Field.name).Nodup) (hsettled : ∀ f ∈ fields, f.Settled)
    (h : validate fields d = .ok v) : validate fields v = .ok v := by
  apply validate_self hn (validate_ok h).1
  intro f hf j hj
  obtain ⟨j', hj', hlookup⟩ := lookup_validate hn h hf
  rw [hlookup] at hj
  cases hj
  have hagain := (hsettled f hf).value_of_lookup hj' hlookup
  rw [Field.value_of_lookup hlookup] at hagain
  exact mapError_eq_ok.1 hagain

theorem stable_model {name : String} (hn : (fields.map Field.name).Nodup)
    (hsettled : ∀ f ∈ fields, f.Settled) : Stable (model name fields) := by
  intro j v hj
  cases j with
  | obj members =>
    obtain ⟨w, hw, rfl⟩ := map_eq_ok.1 hj
    exact map_eq_ok.2 ⟨w, validate_again hn hsettled hw, rfl⟩
  | _ => cases hj

/-! ## Two inputs with the same errors -/

/-- The same, unless both are values. -/
def SameErrors (x x' : Except ε α) : Prop := x = x' ∨ (∃ v, x = .ok v) ∧ ∃ v', x' = .ok v'

theorem SameErrors.map {x x' : Except ε α} (h : SameErrors x x') (g : α → β) :
    SameErrors (x.map g) (x'.map g) := by
  rcases h with rfl | ⟨⟨v, rfl⟩, v', rfl⟩
  · exact .inl rfl
  · exact .inr ⟨⟨g v, rfl⟩, g v', rfl⟩

theorem SameErrors.mapError {x x' : Except ε α} (h : SameErrors x x') (g : ε → ε') :
    SameErrors (x.mapError g) (x'.mapError g) := by
  rcases h with rfl | ⟨⟨v, rfl⟩, v', rfl⟩
  · exact .inl rfl
  · exact .inr ⟨⟨v, rfl⟩, v', rfl⟩

theorem SameErrors.collect {x x' : Except (List FieldError) α}
    {xs xs' : Except (List FieldError) (List α)} (h : SameErrors x x') (hs : SameErrors xs xs') :
    SameErrors (collect x xs) (collect x' xs') := by
  rcases h with rfl | ⟨⟨v, rfl⟩, v', rfl⟩
  · rcases hs with rfl | ⟨⟨vs, rfl⟩, vs', rfl⟩
    · exact .inl rfl
    · cases x with
      | error es => exact .inl rfl
      | ok v => exact .inr ⟨⟨_, rfl⟩, _, rfl⟩
  · rcases hs with rfl | ⟨⟨vs, rfl⟩, vs', rfl⟩
    · cases xs with
      | error es => exact .inl rfl
      | ok vs => exact .inr ⟨⟨_, rfl⟩, _, rfl⟩
    · exact .inr ⟨⟨_, rfl⟩, _, rfl⟩

theorem SameErrors.error {x x' : Except ε α} (h : SameErrors x x') (hx : x = .error e) :
    x' = .error e := by
  rcases h with rfl | ⟨⟨v, rfl⟩, -⟩
  · exact hx
  · cases hx

theorem optionRel_imp {R R' : α → β → Prop} (h : Option.Rel R x x') (hR : ∀ a b, R a b → R' a b) :
    Option.Rel R' x x' := by
  cases h with
  | none => exact .none
  | some hab => exact .some (hR _ _ hab)

theorem Field.sameErrors (h : Option.Rel (fun j j' => SameErrors (f.check j) (f.check j'))
    (d.lookup f.name) (d'.lookup f.name)) : SameErrors (f.value d) (f.value d') := by
  rw [Field.value, Field.value]
  generalize d.lookup f.name = x at h ⊢
  generalize d'.lookup f.name = x' at h ⊢
  cases h with
  | none => exact .inl rfl
  | some hj => exact hj.mapError _

theorem Field.value_congr_check (h : Option.Rel (fun j j' => f.check j = f.check j')
    (d.lookup f.name) (d'.lookup f.name)) : f.value d = f.value d' := by
  rw [Field.value, Field.value]
  generalize d.lookup f.name = x at h ⊢
  generalize d'.lookup f.name = x' at h ⊢
  cases h with
  | none => rfl
  | some hj =>
    dsimp only
    rw [hj]

theorem validate_sameErrors (h : ∀ f ∈ fields, SameErrors (f.value d) (f.value d')) :
    SameErrors (validate fields d) (validate fields d') := by
  induction fields with
  | nil => exact .inl rfl
  | cons f fields ih =>
    rw [validate, validate]
    apply SameErrors.collect
    · exact (h f List.mem_cons_self).map _
    · exact ih fun g hg => h g (List.mem_cons_of_mem _ hg)

end Validation
