import ScottyCore.Settings.Updates

namespace ScottyCore
open Python Validation
set_option autoImplicit true

/-! ## Calls one after another -/

/-- What the database raises: at a read, at the upsert of a key or at the commit. -/
structure Faults (ε : Type) where
  read : Option ε
  upsert : String → Option ε
  commit : Option ε

inductive SettingsError (ε : Type) where
  | invalid (errors : List FieldError)
  | database (e : ε)

def unlessRaised (fault : Option ε) (x : Except (SettingsError ε) α) : Except (SettingsError ε) α :=
  match fault with
  | some e => .error (.database e)
  | none => x

namespace SettingsTable

variable (c : Coercions) (faults : Faults ε) (rows : SettingsTable)

/-- The upserts of one session, which sees what it has flushed. -/
def upsertAll (scope : String) (scope_id : Option String) :
    JsonDict → SettingsTable → Except (SettingsError ε) SettingsTable
  | [], session => .ok session
  | (key, value) :: values, session =>
    unlessRaised (faults.upsert key)
      (upsertAll scope scope_id values (upsert scope scope_id key value session))

/-- `set_global`: what it returns, and what its last session commits. -/
def setGlobalIn (data : JsonDict) : Except (SettingsError ε) (JsonDict × SettingsTable) :=
  unlessRaised faults.read do
    let current ← (rows.getGlobal c).mapError .invalid
    let validated ← (validate (globalFields c) (rows.merged current data)).mapError .invalid
    let session ← upsertAll faults "global" none validated rows
    unlessRaised faults.commit (.ok (maskSmtp validated, session))

/-- The rows after a call. A session that does not commit is rolled back. -/
def afterCall (x : Except (SettingsError ε) (JsonDict × SettingsTable)) : SettingsTable :=
  match x with
  | .ok r => r.2
  | .error _ => rows

/-- `set_tenant` -/
def saveTenant (tenant_id : String) (data : JsonDict) :
    Except (List FieldError) (JsonDict × SettingsTable) := do
  let current ← rows.getTenant c tenant_id
  let validated ← validate (tenantFields c) (current.merge data)
  return (validated, rows.storeIn "tenant" (some tenant_id) validated)

/-- `set_user` -/
def saveUser (user_id : String) (data : JsonDict) :
    Except (List FieldError) (JsonDict × SettingsTable) := do
  let current ← rows.getUser c user_id
  let validated ← validate (userFields c) (current.merge data)
  return (validated, rows.storeIn "user" (some user_id) validated)

/-- The tables that calls of the service make of an empty one. Calls that raise make no other. -/
inductive Reachable (c : Coercions) : SettingsTable → Prop where
  | empty : Reachable c []
  | setGlobal {rows rows' : SettingsTable} {data settings : JsonDict} : Reachable c rows →
      (data.map Prod.fst).Nodup → rows.saveGlobal c data = .ok (settings, rows') →
      Reachable c rows'
  | setTenant {rows rows' : SettingsTable} {tenant_id : String} {data settings : JsonDict} :
      Reachable c rows → rows.saveTenant c tenant_id data = .ok (settings, rows') →
      Reachable c rows'
  | setUser {rows rows' : SettingsTable} {user_id : String} {data settings : JsonDict} :
      Reachable c rows → rows.saveUser c user_id data = .ok (settings, rows') →
      Reachable c rows'

def storedPassword : Json := (rows.get "global" none "smtp_password").getD .null

/-- What is in effect for a field of the global settings. -/
def effective (f : Field) : Json := (rows.get "global" none f.name).getD f.default

end SettingsTable

/-- A password that is neither null nor empty nor the mask. -/
def newPassword (data : JsonDict) : Option Json :=
  match data.lookup "smtp_password" with
  | some (.str s) => if s = smtpPasswordMasked ∨ s = "" then none else some (.str s)
  | some .null | none => none
  | some j => some j

/-- What a patch does, between the reads `g` and `g'` before and after it. The password is read
back as the mask. -/
structure GlobalPatched (c : Coercions) (rows rows' : SettingsTable) (data g g' : JsonDict) :
    Prop where
  before : rows.getGlobal c = .ok g
  after : rows'.getGlobal c = .ok g'
  given : ∀ f ∈ globalFields c, f.name ≠ "smtp_password" → ∀ j, data.lookup f.name = some j →
    ∃ v, f.check j = .ok v ∧ g'.lookup f.name = some v
  kept : ∀ f ∈ globalFields c, data.lookup f.name = none → g'.lookup f.name = g.lookup f.name
  password : rows'.storedPassword = (newPassword data).getD rows.storedPassword
  masked : g'.lookup "smtp_password" =
    some (if rows'.storedPassword.truthy then .str smtpPasswordMasked else rows'.storedPassword)

/-- Sending back what was read is accepted and changes nothing that is read. -/
structure GlobalEchoed (c : Coercions) (rows rows' : SettingsTable) (g : JsonDict) : Prop where
  read : rows.getGlobal c = .ok g
  accepted : rows.saveGlobal c g = .ok (g, rows')
  resolve : ∀ key user_id tenant_id,
    rows'.resolve key user_id tenant_id = rows.resolve key user_id tenant_id
  getEffective : ∀ user_id tenant_id,
    rows'.getEffective c user_id tenant_id = rows.getEffective c user_id tenant_id

structure GlobalPatchLaw (c : Coercions) (rows : SettingsTable) : Prop where
  raised : ∀ {ε : Type} (faults : Faults ε) data e, rows.setGlobalIn c faults data = .error e →
    rows.afterCall (rows.setGlobalIn c faults data) = rows
  patched : ∀ {ε : Type} (faults : Faults ε) data settings rows', (data.map Prod.fst).Nodup →
    rows.setGlobalIn c faults data = .ok (settings, rows') →
      ∃ g g', GlobalPatched c rows rows' data g g'
  unmasked : ∀ user_id tenant_id,
    rows.resolve "smtp_password" user_id tenant_id ≠ .str smtpPasswordMasked
  echoed : ∃ g rows', GlobalEchoed c rows rows' g

section

variable {c : Coercions} {rows rows' : SettingsTable} {d data v : JsonDict} {f : Field}

/-! ## What the rows hold -/

structure GlobalOk (c : Coercions) (rows : SettingsTable) : Prop where
  distinct : rows.Distinct
  checked : ∀ f ∈ globalFields c, ∀ j, rows.get "global" none f.name = some j → f.check j = .ok j
  unmasked : rows.storedPassword ≠ .str smtpPasswordMasked
  elsewhere : ∀ scope scope_id, scope ≠ "global" → rows.get scope scope_id "smtp_password" = none

theorem GlobalOk.effective (hc : c.Exact) (h : GlobalOk c rows) (hf : f ∈ globalFields c) :
    f.check (rows.effective f) = .ok (rows.effective f) := by
  rw [SettingsTable.effective]
  cases hthere : rows.get "global" none f.name with
  | none => exact (settled_globalFields hc f hf).default
  | some j => exact h.checked f hf j hthere

theorem GlobalOk.value (h : GlobalOk c rows) (hf : f ∈ globalFields c) :
    f.value (rows.stored "global" none) = .ok (rows.effective f) := by
  have hstored := rows.lookup_stored h.distinct "global" none f.name
  rw [SettingsTable.effective]
  cases hthere : rows.get "global" none f.name with
  | none => exact Field.value_of_none (hstored.trans hthere)
  | some j =>
    rw [Field.value_of_lookup (hstored.trans hthere), h.checked f hf j hthere]
    rfl

def SettingsTable.globalView (c : Coercions) (rows : SettingsTable) : JsonDict :=
  (globalFields c).map fun f => (f.name, rows.effective f)

theorem GlobalOk.getGlobal (h : GlobalOk c rows) :
    rows.getGlobal c = .ok (maskSmtp (rows.globalView c)) := by
  rw [SettingsTable.getGlobal, validate_ok_of_forall fun f hf => h.value hf]
  rfl

theorem keys_globalView :
    (rows.globalView c).map Prod.fst = (globalFields c).map Field.name := by
  rw [SettingsTable.globalView, List.map_map]
  rfl

theorem nodup_globalView : ((rows.globalView c).map Prod.fst).Nodup := by
  rw [keys_globalView]
  exact nodup_globalFields c

theorem lookup_globalView (hf : f ∈ globalFields c) :
    (rows.globalView c).lookup f.name = some (rows.effective f) := by
  apply lookup_of_mem nodup_globalView
  exact List.mem_map_of_mem (f := fun f => (f.name, rows.effective f)) hf

/-! ## What a call writes -/

theorem get_storeIn_of_ne {scope scope' : String} {scope_id scope_id' : Option String}
    (hne : ¬ (scope' = scope ∧ scope_id' = scope_id)) (values : JsonDict) (key : String) :
    (rows.storeIn scope scope_id values).get scope' scope_id' key =
      rows.get scope' scope_id' key := by
  induction values generalizing rows with
  | nil => rfl
  | cons p values ih =>
    rw [SettingsTable.storeIn, List.foldl_cons, ← SettingsTable.storeIn, ih,
      SettingsTable.get_upsert, if_neg fun h => hne ⟨h.1, h.2.1⟩]

theorem incoming_password (data : JsonDict) :
    (SettingsTable.incoming data).lookup "smtp_password" = newPassword data := by
  rw [SettingsTable.incoming, newPassword]
  cases hthere : data.lookup "smtp_password" with
  | none => exact hthere
  | some j =>
    cases j with
    | null => exact JsonDict.lookup_filter_self _ data
    | str s =>
      dsimp only
      split
      · exact JsonDict.lookup_filter_self _ data
      · exact hthere
    | _ => exact hthere

theorem lookup_incoming {key : String} (hkey : key ≠ "smtp_password") (data : JsonDict) :
    (SettingsTable.incoming data).lookup key = data.lookup key := by
  rw [SettingsTable.incoming]
  split
  · split
    · exact JsonDict.lookup_filter_ne hkey data
    · rfl
  · exact JsonDict.lookup_filter_ne hkey data
  · rfl

/-- What a patch gives for a field. -/
theorem lookup_incoming_of_none (h : data.lookup key = none) :
    (SettingsTable.incoming data).lookup key = none := by
  by_cases hkey : key = "smtp_password"
  · rw [hkey, incoming_password, newPassword, ← hkey, h]
  · rw [lookup_incoming hkey, h]

theorem newPassword_ne_mask (data : JsonDict) :
    newPassword data ≠ some (.str smtpPasswordMasked) := by
  rw [newPassword]
  split
  · split
    · intro h
      cases h
    · rename_i hne
      intro h
      cases h
      exact hne (.inl rfl)
  · intro h
    cases h
  · intro h
    cases h
  · rename_i hstr _ _
    intro h
    exact hstr _ (Option.some.inj h)

theorem lookup_merged (hdata : (data.map Prod.fst).Nodup) (hf : f ∈ globalFields c) :
    (rows.merged (maskSmtp (rows.globalView c)) data).lookup f.name =
      some (((SettingsTable.incoming data).lookup f.name).getD (rows.effective f)) := by
  have hcurrent : ((maskSmtp (rows.globalView c)).set "smtp_password"
      rows.storedPassword).lookup f.name = some (rows.effective f) := by
    rw [JsonDict.lookup_set]
    by_cases hname : f.name = "smtp_password"
    · rw [if_pos hname, SettingsTable.effective, globalField_password hf hname]
      rfl
    · rw [if_neg hname, lookup_maskSmtp _ hname, lookup_globalView hf]
  have hincoming : ((SettingsTable.incoming data).map Prod.fst).Nodup :=
    SettingsScope.incoming_nodup .global hdata
  rw [SettingsTable.merged, JsonDict.lookup_merge hincoming, ← SettingsTable.storedPassword,
    hcurrent]
  cases (SettingsTable.incoming data).lookup f.name with
  | none => rfl
  | some j => rfl

theorem saveGlobal_eq_ok (h : GlobalOk c rows) :
    rows.saveGlobal c data = .ok (settings, rows') ↔
      ∃ v, validate (globalFields c) (rows.merged (maskSmtp (rows.globalView c)) data) = .ok v ∧
        settings = maskSmtp v ∧ rows' = rows.storeAll v := by
  rw [SettingsTable.saveGlobal]
  constructor
  · intro hsave
    obtain ⟨current, hread, hwrite⟩ := bind_eq_ok.1 hsave
    cases hread.symm.trans h.getGlobal
    obtain ⟨v, hv, hpure⟩ := bind_eq_ok.1 hwrite
    cases hpure
    exact ⟨v, hv, rfl, rfl⟩
  · rintro ⟨v, hv, rfl, rfl⟩
    exact bind_eq_ok.2 ⟨_, h.getGlobal, bind_eq_ok.2 ⟨v, hv, rfl⟩⟩

/-- What is in effect for a field after a call: what was given, or what was in effect. -/
theorem effective_saved (hdata : (data.map Prod.fst).Nodup)
    (hv : validate (globalFields c) (rows.merged (maskSmtp (rows.globalView c)) data) = .ok v)
    (hf : f ∈ globalFields c) :
    v.lookup f.name = some ((rows.storeAll v).effective f) ∧
      f.check (((SettingsTable.incoming data).lookup f.name).getD (rows.effective f)) =
        .ok ((rows.storeAll v).effective f) := by
  have hn := nodup_globalFields c
  obtain ⟨j, hj, hlookup⟩ := lookup_validate hn hv hf
  have heffective : (rows.storeAll v).effective f = j := by
    rw [SettingsTable.effective, rows.get_storeAll ((validate_ok hv).1 ▸ hn), hlookup]
    rfl
  rw [Field.value_of_lookup (lookup_merged hdata hf), mapError_eq_ok] at hj
  rw [heffective]
  exact ⟨hlookup, hj⟩

theorem orNull_str_eq_ok {j v : Json} (h : orNull str j = .ok v) : v = j := by
  cases j with
  | null =>
    cases h
    rfl
  | str s =>
    cases h
    rfl
  | _ => cases h

theorem effective_password : rows.effective (fieldOf globalDefaults "smtp_password" (orNull str)) =
    rows.storedPassword := rfl

/-- The stored password after a call. -/
theorem storedPassword_saved (hdata : (data.map Prod.fst).Nodup)
    (hv : validate (globalFields c) (rows.merged (maskSmtp (rows.globalView c)) data) = .ok v) :
    (rows.storeAll v).storedPassword = (newPassword data).getD rows.storedPassword := by
  have hsaved := (effective_saved hdata hv (password_mem_globalFields c)).2
  have hname : (fieldOf globalDefaults "smtp_password" (orNull str)).name = "smtp_password" := rfl
  rw [hname, incoming_password, effective_password, effective_password] at hsaved
  exact orNull_str_eq_ok hsaved

/-! ## Every reachable table -/

theorem GlobalOk.setGlobal (hc : c.Exact) (h : GlobalOk c rows) (hdata : (data.map Prod.fst).Nodup)
    (hv : validate (globalFields c) (rows.merged (maskSmtp (rows.globalView c)) data) = .ok v) :
    GlobalOk c (rows.storeAll v) where
  distinct := h.distinct.storeAll _ v
  checked := by
    intro f hf j hj
    have hsaved := (effective_saved hdata hv hf).2
    have heffective : (rows.storeAll v).effective f = j := by
      rw [SettingsTable.effective, hj, Option.getD_some]
    rw [heffective] at hsaved
    exact (settled_globalFields hc f hf).stable _ j hsaved
  unmasked := by
    rw [storedPassword_saved hdata hv]
    cases hnew : newPassword data with
    | none => exact h.unmasked
    | some j =>
      intro hmask
      have hj : j = .str smtpPasswordMasked := hmask
      exact newPassword_ne_mask data (hj ▸ hnew)
  elsewhere := by
    intro scope scope_id hscope
    rw [SettingsTable.storeAll, ← SettingsTable.storeIn, get_storeIn_of_ne fun he => hscope he.1]
    exact h.elsewhere scope scope_id hscope

/-- A call on another scope. -/
theorem GlobalOk.storeIn (h : GlobalOk c rows) {scope : String} (scope_id : Option String)
    (hscope : scope ≠ "global") {values : JsonDict} (hn : (values.map Prod.fst).Nodup)
    (hpassword : values.lookup "smtp_password" = none) :
    GlobalOk c (rows.storeIn scope scope_id values) where
  distinct := h.distinct.storeIn _ _ _ _
  checked := by
    intro f hf j hj
    rw [get_storeIn_of_ne fun he => hscope he.1.symm] at hj
    exact h.checked f hf j hj
  unmasked := by
    rw [SettingsTable.storedPassword, get_storeIn_of_ne fun he => hscope he.1.symm]
    exact h.unmasked
  elsewhere := by
    intro scope' scope_id' hscope'
    by_cases hsame : scope' = scope ∧ scope_id' = scope_id
    · rw [hsame.1, hsame.2, SettingsTable.get_storeIn _ _ _ hn, hpassword]
      exact h.elsewhere scope scope_id hscope
    · rw [get_storeIn_of_ne hsame]
      exact h.elsewhere scope' scope_id' hscope'

theorem globalOk_of_reachable (hc : c.Exact) (h : SettingsTable.Reachable c rows) :
    GlobalOk c rows := by
  induction h with
  | empty => exact ⟨List.nodup_nil, nofun, nofun, fun _ _ _ => rfl⟩
  | setGlobal _ hdata hsave ih =>
    obtain ⟨v, hv, -, rfl⟩ := (saveGlobal_eq_ok ih).1 hsave
    exact ih.setGlobal hc hdata hv
  | setTenant _ hsave ih =>
    obtain ⟨current, -, hwrite⟩ := bind_eq_ok.1 hsave
    obtain ⟨v, hv, hpure⟩ := bind_eq_ok.1 hwrite
    cases hpure
    have hkey : "smtp_password" ∉ tenantDefaults.map Prod.fst := by decide
    apply ih.storeIn _ (by decide) ((validate_ok hv).1 ▸ nodup_tenantFields c)
    exact lookup_validate_of_not_mem hv hkey
  | setUser _ hsave ih =>
    obtain ⟨current, -, hwrite⟩ := bind_eq_ok.1 hsave
    obtain ⟨v, hv, hpure⟩ := bind_eq_ok.1 hwrite
    cases hpure
    have hkey : "smtp_password" ∉ userDefaults.map Prod.fst := by decide
    apply ih.storeIn _ (by decide) ((validate_ok hv).1 ▸ nodup_userFields c)
    exact lookup_validate_of_not_mem hv hkey

/-! ## What is read after a call -/

theorem lookup_password : (maskSmtp (rows.globalView c)).lookup "smtp_password" =
    some (if rows.storedPassword.truthy then .str smtpPasswordMasked else rows.storedPassword) := by
  have hview : (rows.globalView c).lookup "smtp_password" = some rows.storedPassword :=
    lookup_globalView (password_mem_globalFields c)
  rw [maskSmtp, JsonDict.get, hview, Option.getD_some]
  split
  · rw [JsonDict.lookup_set, if_pos rfl]
  · exact hview

/-- What a call that succeeds does. -/
theorem globalPatched (hc : c.Exact) (h : GlobalOk c rows) (hdata : (data.map Prod.fst).Nodup)
    (hv : validate (globalFields c) (rows.merged (maskSmtp (rows.globalView c)) data) = .ok v) :
    GlobalPatched c rows (rows.storeAll v) data (maskSmtp (rows.globalView c))
      (maskSmtp ((rows.storeAll v).globalView c)) where
  before := h.getGlobal
  after := (h.setGlobal hc hdata hv).getGlobal
  given := by
    intro f hf hname j hj
    have hsaved := (effective_saved hdata hv hf).2
    rw [lookup_incoming hname, hj] at hsaved
    refine ⟨_, hsaved, ?_⟩
    rw [lookup_maskSmtp _ hname, lookup_globalView hf]
  kept := by
    intro f hf hnone
    by_cases hname : f.name = "smtp_password"
    · have hnew : newPassword data = none := by
        rw [← incoming_password, ← hname, lookup_incoming_of_none hnone]
      rw [hname, lookup_password, lookup_password, storedPassword_saved hdata hv, hnew]
      rfl
    · have hsaved := (effective_saved hdata hv hf).2
      rw [lookup_incoming_of_none hnone, Option.getD_none, h.effective hc hf] at hsaved
      rw [lookup_maskSmtp _ hname, lookup_maskSmtp _ hname, lookup_globalView hf,
        lookup_globalView hf, Except.ok.inj hsaved]
  password := storedPassword_saved hdata hv
  masked := lookup_password

theorem unlessRaised_eq_ok {fault : Option ε} {x : Except (SettingsError ε) α} :
    unlessRaised fault x = .ok a ↔ fault = none ∧ x = .ok a := by
  cases fault with
  | none => exact ⟨fun h => ⟨rfl, h⟩, And.right⟩
  | some e =>
    constructor
    · intro h
      cases h
    · intro h
      cases h.1

theorem upsertAll_eq_ok {faults : Faults ε} {values : JsonDict}
    (h : SettingsTable.upsertAll faults scope scope_id values rows = .ok rows') :
    rows' = rows.storeIn scope scope_id values := by
  induction values generalizing rows with
  | nil =>
    cases h
    rfl
  | cons p values ih =>
    exact ih (unlessRaised_eq_ok.1 h).2

theorem saveGlobal_of_setGlobalIn {faults : Faults ε}
    (h : rows.setGlobalIn c faults data = .ok (settings, rows')) :
    rows.saveGlobal c data = .ok (settings, rows') := by
  obtain ⟨current, hread, h⟩ := bind_eq_ok.1 (unlessRaised_eq_ok.1 h).2
  obtain ⟨v, hv, h⟩ := bind_eq_ok.1 h
  obtain ⟨session, hsession, h⟩ := bind_eq_ok.1 h
  cases (unlessRaised_eq_ok.1 h).2
  rw [upsertAll_eq_ok hsession]
  exact bind_eq_ok.2 ⟨current, mapError_eq_ok.1 hread, bind_eq_ok.2 ⟨v, mapError_eq_ok.1 hv, rfl⟩⟩

/-! ## What was read, sent back -/

theorem newPassword_of_read (hc : c.Exact) (h : GlobalOk c rows) :
    newPassword (maskSmtp (rows.globalView c)) = none := by
  have hcheck : orNull str rows.storedPassword = .ok rows.storedPassword :=
    h.effective hc (password_mem_globalFields c)
  rw [newPassword, lookup_password]
  generalize rows.storedPassword = password at hcheck ⊢
  cases password with
  | null => rfl
  | str s =>
    by_cases hs : s = ""
    · rw [hs]
      rfl
    · have htruthy : (Json.str s).truthy = true := decide_eq_true hs
      rw [if_pos htruthy]
      rfl
  | _ => cases hcheck

theorem nodup_maskSmtp : ((maskSmtp (rows.globalView c)).map Prod.fst).Nodup := by
  rw [maskSmtp]
  split
  · rw [JsonDict.keys_set]
    · exact nodup_globalView
    · rw [keys_globalView]
      exact List.mem_map_of_mem (f := Field.name) (password_mem_globalFields c)
  · exact nodup_globalView

/-- The dictionary that is validated holds what is in effect. -/
theorem validate_echo (hc : c.Exact) (h : GlobalOk c rows) :
    validate (globalFields c)
        (rows.merged (maskSmtp (rows.globalView c)) (maskSmtp (rows.globalView c))) =
      .ok (rows.globalView c) := by
  apply validate_ok_of_forall
  intro f hf
  have hincoming : ((SettingsTable.incoming (maskSmtp (rows.globalView c))).lookup f.name).getD
      (rows.effective f) = rows.effective f := by
    by_cases hname : f.name = "smtp_password"
    · rw [hname, incoming_password, newPassword_of_read hc h, Option.getD_none]
    · rw [lookup_incoming hname, lookup_maskSmtp _ hname, lookup_globalView hf, Option.getD_some]
  rw [Field.value_of_lookup (lookup_merged nodup_maskSmtp hf), hincoming, h.effective hc hf]
  rfl

theorem lookup_globalDefaults (hf : f ∈ globalFields c) :
    globalDefaults.lookup f.name = some f.default := by
  rw [← globalFields_defaults c]
  apply lookup_of_mem
  · rw [List.map_map]
    exact nodup_globalFields c
  · exact List.mem_map_of_mem (f := fun f => (f.name, f.default)) hf

/-- A default that is stored is what it was before. -/
theorem get_or_default (key : String) :
    ((rows.storeAll (rows.globalView c)).get "global" none key).or (globalDefaults.lookup key) =
      (rows.get "global" none key).or (globalDefaults.lookup key) := by
  rw [rows.get_storeAll nodup_globalView]
  by_cases hkey : key ∈ (globalFields c).map Field.name
  · obtain ⟨f, hf, rfl⟩ := List.mem_map.1 hkey
    rw [lookup_globalView hf, lookup_globalDefaults hf, SettingsTable.effective]
    cases rows.get "global" none f.name with
    | none => rfl
    | some j => rfl
  · have hnone : (rows.globalView c).lookup key = none := by
      apply JsonDict.lookup_eq_none_of_not_mem
      rw [keys_globalView]
      exact hkey
    rw [hnone, Option.none_or]

theorem get_storeAll_of_ne (hscope : scope ≠ "global") (values : JsonDict) :
    (rows.storeAll values).get scope scope_id key = rows.get scope scope_id key := by
  rw [SettingsTable.storeAll, ← SettingsTable.storeIn]
  exact get_storeIn_of_ne (fun he => hscope he.1) values key

theorem resolve_echo (key : String) (user_id tenant_id : Option String) :
    (rows.storeAll (rows.globalView c)).resolve key user_id tenant_id =
      rows.resolve key user_id tenant_id := by
  have hdefault : ∀ others, ((rows.storeAll (rows.globalView c)).get "global" none key).or
      ((globalDefaults.lookup key).or others) =
        (rows.get "global" none key).or ((globalDefaults.lookup key).or others) := by
    intro others
    rw [← Option.or_assoc, get_or_default, Option.or_assoc]
  have huser : ∀ i, (rows.storeAll (rows.globalView c)).get "user" (some i) key =
      rows.get "user" (some i) key := fun i => get_storeAll_of_ne (by decide) _
  have htenant : ∀ i, (rows.storeAll (rows.globalView c)).get "tenant" (some i) key =
      rows.get "tenant" (some i) key := fun i => get_storeAll_of_ne (by decide) _
  simp only [SettingsTable.resolve, huser, htenant, Option.or_assoc, hdefault]

theorem validate_stored_congr {fields : List Field} (h : rows.Distinct) (h' : rows'.Distinct)
    (hget : ∀ key, rows'.get scope scope_id key = rows.get scope scope_id key) :
    validate fields (rows'.stored scope scope_id) =
      validate fields (rows.stored scope scope_id) := by
  apply validate_congr
  intro f _
  apply Field.value_congr
  rw [rows'.lookup_stored h', rows.lookup_stored h, hget]

theorem globalEchoed (hc : c.Exact) (h : GlobalOk c rows) :
    GlobalEchoed c rows (rows.storeAll (rows.globalView c)) (maskSmtp (rows.globalView c)) := by
  have hdistinct := h.distinct.storeAll _ (rows.globalView c)
  have hview : (rows.storeAll (rows.globalView c)).globalView c = rows.globalView c := by
    apply List.map_congr_left
    intro f hf
    rw [SettingsTable.effective, rows.get_storeAll nodup_globalView, lookup_globalView hf]
    rfl
  have hglobal : (rows.storeAll (rows.globalView c)).getGlobal c = rows.getGlobal c := by
    rw [(h.setGlobal hc nodup_maskSmtp (validate_echo hc h)).getGlobal, hview, h.getGlobal]
  have htenant : ∀ i, (rows.storeAll (rows.globalView c)).getTenant c i = rows.getTenant c i :=
    fun i => validate_stored_congr h.distinct hdistinct fun key => get_storeAll_of_ne (by decide) _
  have huser : ∀ i, (rows.storeAll (rows.globalView c)).getUser c i = rows.getUser c i :=
    fun i => validate_stored_congr h.distinct hdistinct fun key => get_storeAll_of_ne (by decide) _
  refine ⟨h.getGlobal, ?_, resolve_echo, ?_⟩
  · exact (saveGlobal_eq_ok h).2 ⟨_, validate_echo hc h, rfl, rfl⟩
  · intro user_id tenant_id
    simp only [SettingsTable.getEffective, SettingsTable.resolveAll, hglobal, htenant, huser]

theorem resolve_password (h : GlobalOk c rows) (user_id tenant_id : Option String) :
    rows.resolve "smtp_password" user_id tenant_id = rows.storedPassword := by
  have huser : (user_id.bind fun i => rows.get "user" (some i) "smtp_password") = none := by
    cases user_id with
    | none => rfl
    | some i => exact h.elsewhere "user" (some i) (by decide)
  have htenant : (tenant_id.bind fun i => rows.get "tenant" (some i) "smtp_password") = none := by
    cases tenant_id with
    | none => rfl
    | some i => exact h.elsewhere "tenant" (some i) (by decide)
  rw [SettingsTable.resolve, huser, htenant, SettingsTable.storedPassword]
  cases rows.get "global" none "smtp_password" with
  | none => rfl
  | some j => rfl

theorem global_patch_law (hc : c.Exact) (h : SettingsTable.Reachable c rows) :
    GlobalPatchLaw c rows := by
  have hok := globalOk_of_reachable hc h
  constructor
  · intro ε faults data e he
    rw [he]
    rfl
  · intro ε faults data settings rows' hdata hset
    obtain ⟨v, hv, -, rfl⟩ := (saveGlobal_eq_ok hok).1 (saveGlobal_of_setGlobalIn hset)
    exact ⟨_, _, globalPatched hc hok hdata hv⟩
  · intro user_id tenant_id
    rw [resolve_password hok]
    exact hok.unmasked
  · exact ⟨_, _, globalEchoed hc hok⟩

end

/-! ## Example -/

def secretPatch : JsonDict := [("smtp_password", .str "secret")]

theorem saved_secret : ∃ settings rows,
    SettingsTable.saveGlobal .strict [] secretPatch = .ok (settings, rows) := ⟨_, _, rfl⟩

theorem global_patch_law_secret : ∃ rows, SettingsTable.Reachable .strict rows ∧
    GlobalPatchLaw .strict rows := by
  obtain ⟨settings, rows, hsave⟩ := saved_secret
  have hreach : SettingsTable.Reachable .strict rows := .setGlobal .empty (by decide) hsave
  exact ⟨rows, hreach, global_patch_law Coercions.strict_exact hreach⟩

/-- The password that was given is not read back. -/
theorem given_password_masked : ¬ ∀ rows rows' data settings, SettingsTable.Reachable .strict rows →
    (data.map Prod.fst).Nodup → rows.saveGlobal .strict data = .ok (settings, rows') →
      ∀ f ∈ globalFields .strict, ∀ j, data.lookup f.name = some j →
        ∃ v g, f.check j = .ok v ∧ rows'.getGlobal .strict = .ok g ∧ g.lookup f.name = some v := by
  intro h
  obtain ⟨settings, rows, hsave⟩ := saved_secret
  obtain ⟨v, g, hv, hg, hlookup⟩ := h [] rows secretPatch settings .empty (by decide) hsave _
    (password_mem_globalFields .strict) (.str "secret") rfl
  have hok := globalOk_of_reachable Coercions.strict_exact .empty
  obtain ⟨w, hw, -, rfl⟩ := (saveGlobal_eq_ok hok).1 hsave
  have hpatched := globalPatched Coercions.strict_exact hok (by decide) hw
  have hmasked := hpatched.masked
  cases hpatched.after.symm.trans hg
  rw [hpatched.password] at hmasked
  cases hv
  have hmask : Json.str "*****" = .str "secret" := Option.some.inj (hmasked.symm.trans hlookup)
  exact absurd (Json.str.inj hmask) (by decide)

end ScottyCore
