import Mathlib.Data.List.Forall2
import ScottyCore.Settings.Schemas

namespace ScottyCore
open Python Validation
set_option autoImplicit true

/-! ## What the settings service returns -/

/-- `settings.model_copy(update={"smtp_password": SMTP_PASSWORD_MASKED})` where there is one. -/
def maskSmtp (settings : JsonDict) : JsonDict :=
  if (settings.get "smtp_password").truthy then
    settings.set "smtp_password" (.str smtpPasswordMasked)
  else settings

structure EffectiveSettings where
  global_settings : JsonDict
  tenant_settings : Option JsonDict
  user_settings : JsonDict
  resolved : JsonDict

namespace SettingsTable

variable (c : Coercions) (rows : SettingsTable)

def getGlobal : Except (List FieldError) JsonDict :=
  (validate (globalFields c) (rows.stored "global" none)).map maskSmtp

def getTenant (tenant_id : String) : Except (List FieldError) JsonDict :=
  validate (tenantFields c) (rows.stored "tenant" (some tenant_id))

def getUser (user_id : String) : Except (List FieldError) JsonDict :=
  validate (userFields c) (rows.stored "user" (some user_id))

/-- `set_global`: what it returns, and the rows after it. -/
def saveGlobal (data : JsonDict) : Except (List FieldError) (JsonDict × SettingsTable) := do
  let current ← rows.getGlobal c
  let validated ← validate (globalFields c) (rows.merged current data)
  return (maskSmtp validated, rows.storeAll validated)

/-- `if value is not None: resolved[key] = value`, for each of the values. -/
def overlay (resolved values : JsonDict) : JsonDict :=
  values.foldl (fun d p => match p.2 with
    | .null => d
    | j => d.set p.1 j) resolved

def resolveAll (user_id tenant_id : Option String) : Except (List FieldError) JsonDict := do
  let resolved ← rows.getGlobal c
  let resolved ← match tenant_id with
    | some i => (rows.getTenant c i).map (overlay resolved)
    | none => .ok resolved
  match user_id with
    | some i => (rows.getUser c i).map (overlay resolved)
    | none => .ok resolved

def getEffective (user_id tenant_id : Option String) :
    Except (List FieldError) EffectiveSettings := do
  let global_settings ← rows.getGlobal c
  let tenant_settings ← match tenant_id with
    | some i => (rows.getTenant c i).map some
    | none => .ok none
  let user_settings ← match user_id with
    | some i => rows.getUser c i
    | none => validate (userFields c) []
  let resolved ← rows.resolveAll c user_id tenant_id
  return ⟨global_settings, tenant_settings, user_settings, resolved⟩

end SettingsTable

/-! ## Two stores that differ in secrets -/

/-- Two values of a secret: non-empty strings, unless they are the same. -/
def SecretPair (j j' : Json) : Prop :=
  j = j' ∨ ∃ s s', s ≠ "" ∧ s' ≠ "" ∧ j = .str s ∧ j' = .str s'

/-- Two endpoint records that differ in the API key. -/
def EndpointPair (j j' : Json) : Prop :=
  j = j' ∨ ∃ members members', j = .obj members ∧ j' = .obj members' ∧
    List.Forall₂ (fun p p' => p.1 = p'.1 ∧ (p.2 = p'.2 ∨ p.1 = "api_key" ∧ SecretPair p.2 p'.2))
      members members'

/-- Two values of a global setting that differ in a secret. -/
def ValuePair (key : String) (j j' : Json) : Prop :=
  j = j' ∨ key = "smtp_password" ∧ SecretPair j j' ∨ key ∈ aiEndpointKeys ∧ EndpointPair j j'

/-- Rows with the same keys, whose values differ in secrets of the global settings only. -/
def SameButSecrets (rows rows' : SettingsTable) : Prop :=
  List.Forall₂ (fun r r' => r.scope = r'.scope ∧ r.scope_id = r'.scope_id ∧ r.key = r'.key ∧
    (r.value_json = r'.value_json ∨
      r.scope = "global" ∧ ValuePair r.key r.value_json r'.value_json)) rows rows'

/-- The four reads give the same on both stores. -/
structure SecretsHidden (c : Coercions) (rows rows' : SettingsTable) : Prop where
  getGlobal : rows.getGlobal c = rows'.getGlobal c
  saveGlobal : ∀ data, (rows.saveGlobal c data).map Prod.fst =
    (rows'.saveGlobal c data).map Prod.fst
  resolveAll : ∀ user_id tenant_id, rows.resolveAll c user_id tenant_id =
    rows'.resolveAll c user_id tenant_id
  getEffective : ∀ user_id tenant_id, rows.getEffective c user_id tenant_id =
    rows'.getEffective c user_id tenant_id

def apiKeyOf : Json → Option Json
  | .obj members => members.lookup "api_key"
  | _ => none

/-- The stored endpoint records have the same API keys. -/
def ApiKeysAgree (rows rows' : SettingsTable) : Prop :=
  ∀ key ∈ aiEndpointKeys, ((rows.stored "global" none).lookup key).bind apiKeyOf =
    ((rows'.stored "global" none).lookup key).bind apiKeyOf

section
variable {c : Coercions} {rows rows' : SettingsTable} {d d' : JsonDict}

/-! ## The stored dictionaries of two such stores -/

theorem optionRel_lookup_set {R : String → Json → Json → Prop} (hj : R key j j')
    (h : ∀ k, Option.Rel (R k) (d.lookup k) (d'.lookup k)) :
    ∀ k, Option.Rel (R k) ((d.set key j).lookup k) ((d'.set key j').lookup k) := by
  intro k
  rw [JsonDict.lookup_set, JsonDict.lookup_set]
  by_cases hk : k = key
  · rw [if_pos hk, if_pos hk, hk]
    exact .some hj
  · rw [if_neg hk, if_neg hk]
    exact h k

theorem optionRel_lookup_merge {R : String → Json → Json → Prop} {e e' : JsonDict}
    (he : List.Forall₂ (fun p p' => p.1 = p'.1 ∧ R p.1 p.2 p'.2) e e')
    (h : ∀ k, Option.Rel (R k) (d.lookup k) (d'.lookup k)) :
    ∀ k, Option.Rel (R k) ((d.merge e).lookup k) ((d'.merge e').lookup k) := by
  induction he generalizing d d' with
  | nil => exact h
  | cons hp _ ih =>
    rw [JsonDict.merge, JsonDict.merge, List.foldl_cons, List.foldl_cons, ← hp.1]
    exact ih (optionRel_lookup_set hp.2 h)

theorem SameButSecrets.filter (h : SameButSecrets rows rows') (scope : String)
    (scope_id : Option String) :
    SameButSecrets (rows.filter fun r => r.scope = scope ∧ r.scope_id = scope_id)
      (rows'.filter fun r => r.scope = scope ∧ r.scope_id = scope_id) := by
  induction h with
  | nil => exact .nil
  | cons hr _ ih =>
    rw [List.filter_cons, List.filter_cons, ← hr.1, ← hr.2.1]
    split
    · exact .cons hr ih
    · exact ih

theorem SameButSecrets.stored (h : SameButSecrets rows rows') (key : String) :
    Option.Rel (ValuePair key) ((rows.stored "global" none).lookup key)
      ((rows'.stored "global" none).lookup key) := by
  apply optionRel_lookup_merge
  · rw [List.forall₂_map_left_iff, List.forall₂_map_right_iff]
    apply (h.filter "global" none).imp
    rintro r r' ⟨-, -, hkey, hvalue⟩
    exact ⟨hkey, hvalue.elim .inl And.right⟩
  · exact fun _ => .none

/-- The settings of tenants and users hold no secrets. -/
theorem SameButSecrets.stored_eq (h : SameButSecrets rows rows') (hscope : scope ≠ "global")
    (scope_id : Option String) : rows.stored scope scope_id = rows'.stored scope scope_id := by
  rw [SettingsTable.stored, SettingsTable.stored]
  congr 1
  rw [← List.forall₂_eq_eq_eq, List.forall₂_map_left_iff, List.forall₂_map_right_iff]
  induction h with
  | nil => exact .nil
  | cons hr _ ih =>
    rw [List.filter_cons, List.filter_cons, ← hr.1, ← hr.2.1]
    split
    · rename_i hthere
      refine .cons ?_ ih
      obtain ⟨-, -, hkey, hvalue | ⟨hglobal, -⟩⟩ := hr
      · rw [hkey, hvalue]
      · exact (hscope ((of_decide_eq_true hthere).1.symm.trans hglobal)).elim
    · exact ih

theorem SameButSecrets.get (h : SameButSecrets rows rows') (key : String) :
    Option.Rel (ValuePair key) (rows.get "global" none key) (rows'.get "global" none key) := by
  rw [SettingsTable.get, SettingsTable.get]
  induction h with
  | nil => exact .none
  | cons hr _ ih =>
    rw [List.find?_cons, List.find?_cons, ← hr.1, ← hr.2.1, ← hr.2.2.1]
    split
    · rename_i hthere
      obtain ⟨-, -, hkey⟩ := of_decide_eq_true hthere
      exact .some (hkey ▸ hr.2.2.2.elim .inl And.right)
    · exact ih

/-! ## Validating them -/

theorem optionRel_lookup {R : String → Json → Json → Prop} {e e' : JsonDict}
    (h : List.Forall₂ (fun p p' => p.1 = p'.1 ∧ R p.1 p.2 p'.2) e e') (k : String) :
    Option.Rel (R k) (e.lookup k) (e'.lookup k) := by
  induction h with
  | nil => exact .none
  | @cons p p' _ _ hp _ ih =>
    obtain ⟨key, j⟩ := p
    obtain ⟨key', j'⟩ := p'
    obtain ⟨rfl, hj⟩ := hp
    rw [JsonDict.lookup_cons, JsonDict.lookup_cons]
    by_cases hk : k = key
    · rw [if_pos hk, if_pos hk, hk]
      exact .some hj
    · rw [if_neg hk, if_neg hk]
      exact ih

theorem eq_of_optionRel {R : Json → Json → Prop} {x x' : Option Json} (h : Option.Rel R x x')
    (hR : ∀ j j', R j j' → j = j') : x = x' := by
  cases h with
  | none => rfl
  | some hj => rw [hR _ _ hj]

/-- A secret is a string, and any string will do. -/
theorem SecretPair.sameErrors (h : SecretPair j j') : SameErrors (str j) (str j') := by
  rcases h with rfl | ⟨s, s', -, -, rfl, rfl⟩
  · exact .inl rfl
  · exact .inr ⟨⟨_, rfl⟩, _, rfl⟩

theorem lookup_members {members members' : JsonDict} (h : List.Forall₂
      (fun p p' => p.1 = p'.1 ∧ (p.2 = p'.2 ∨ p.1 = "api_key" ∧ SecretPair p.2 p'.2))
      members members') (key : String) :
    Option.Rel (fun j j' => j = j' ∨ key = "api_key" ∧ SecretPair j j') (members.lookup key)
      (members'.lookup key) :=
  optionRel_lookup (R := fun key j j' => j = j' ∨ key = "api_key" ∧ SecretPair j j') h key

theorem EndpointPair.sameErrors (h : EndpointPair j j') :
    SameErrors (aiEndpointCheck c j) (aiEndpointCheck c j') := by
  rcases h with rfl | ⟨members, members', rfl, rfl, hmembers⟩
  · exact .inl rfl
  · apply SameErrors.map
    apply validate_sameErrors
    intro f hf
    have hlookup := lookup_members hmembers f.name
    by_cases hname : f.name = "api_key"
    · obtain rfl : f = ⟨"api_key", .str "", str⟩ :=
        List.inj_on_of_nodup_map (nodup_aiEndpointFields c) hf
          (List.mem_cons_of_mem _ (List.mem_cons_of_mem _ List.mem_cons_self)) hname
      apply Field.sameErrors
      apply optionRel_imp hlookup
      rintro j j' (rfl | ⟨-, hj⟩)
      · exact .inl rfl
      · exact hj.sameErrors
    · left
      apply Field.value_congr
      exact eq_of_optionRel hlookup fun _ _ hj => hj.resolve_right fun h => hname h.1

/-- Endpoint records with one API key validate alike. -/
theorem EndpointPair.check_eq (h : EndpointPair j j') (hkey : apiKeyOf j = apiKeyOf j') :
    aiEndpointCheck c j = aiEndpointCheck c j' := by
  rcases h with rfl | ⟨members, members', rfl, rfl, hmembers⟩
  · rfl
  · apply congrArg (fun x => Except.map Json.obj x)
    apply validate_congr
    intro f _
    apply Field.value_congr
    by_cases hname : f.name = "api_key"
    · rw [hname]
      exact hkey
    · exact eq_of_optionRel (lookup_members hmembers f.name)
        fun _ _ hj => hj.resolve_right fun h => hname h.1

/-- The field of an endpoint record. -/
theorem globalField_endpoint (hf : f ∈ globalFields c) (hkey : f.name ∈ aiEndpointKeys) :
    f.check = aiEndpointCheck c := by
  rcases List.mem_append.1 hf with hf | hf
  · have hnames : ∀ name ∈ ["auth_providers", "session_timeout_minutes", "password_min_length",
        "require_totp", "retention_days_default", "branding_app_name", "smtp_host", "smtp_port",
        "smtp_from", "smtp_password", "ai_default_provider", "ai_fallback_chain"],
        name ∉ aiEndpointKeys := by decide
    exact (hnames _ (List.mem_map_of_mem (f := Field.name) hf) hkey).elim
  · obtain ⟨key, -, rfl⟩ := List.mem_map.1 hf
    rfl

theorem globalField_password (hf : f ∈ globalFields c) (hname : f.name = "smtp_password") :
    f = fieldOf globalDefaults "smtp_password" (orNull str) := by
  apply List.inj_on_of_nodup_map (nodup_globalFields c) hf
  · apply List.mem_append_left
    iterate 9 apply List.mem_cons_of_mem
    exact List.mem_cons_self
  · exact hname

theorem SameButSecrets.sameErrors (h : SameButSecrets rows rows') :
    SameErrors (validate (globalFields c) (rows.stored "global" none))
      (validate (globalFields c) (rows'.stored "global" none)) := by
  apply validate_sameErrors
  intro f hf
  apply Field.sameErrors
  apply optionRel_imp (h.stored f.name)
  rintro j j' (rfl | ⟨hname, hj⟩ | ⟨hkey, hj⟩)
  · exact .inl rfl
  · rw [globalField_password hf hname]
    rcases hj with rfl | ⟨s, s', -, -, rfl, rfl⟩
    · exact .inl rfl
    · exact .inr ⟨⟨_, rfl⟩, _, rfl⟩
  · rw [globalField_endpoint hf hkey]
    exact hj.sameErrors

/-- Where the API keys agree, only the SMTP password makes a difference. -/
theorem SameButSecrets.value_eq (h : SameButSecrets rows rows') (hkeys : ApiKeysAgree rows rows')
    (hf : f ∈ globalFields c) (hname : f.name ≠ "smtp_password") :
    f.value (rows.stored "global" none) = f.value (rows'.stored "global" none) := by
  have hvalue := h.stored f.name
  by_cases hkey : f.name ∈ aiEndpointKeys
  · have hagree := hkeys f.name hkey
    apply Field.value_congr_check
    rw [globalField_endpoint hf hkey]
    generalize (rows.stored "global" none).lookup f.name = x at hvalue hagree ⊢
    generalize (rows'.stored "global" none).lookup f.name = x' at hvalue hagree ⊢
    cases hvalue with
    | none => exact .none
    | some hj =>
      apply Option.Rel.some
      rcases hj with rfl | ⟨hpassword, -⟩ | ⟨-, hj⟩
      · rfl
      · exact (hname hpassword).elim
      · exact hj.check_eq hagree
  · apply Field.value_congr
    apply eq_of_optionRel hvalue
    rintro j j' (rfl | ⟨hpassword, -⟩ | ⟨hthere, -⟩)
    · rfl
    · exact (hname hpassword).elim
    · exact (hkey hthere).elim

/-! ## Masking -/

theorem password_mem_globalFields (c : Coercions) :
    fieldOf globalDefaults "smtp_password" (orNull str) ∈ globalFields c := by
  apply List.mem_append_left
  iterate 9 apply List.mem_cons_of_mem
  exact List.mem_cons_self

theorem maskSmtp_of_password (hv : validate (globalFields c) d = .ok v)
    (hlookup : d.lookup "smtp_password" = some (.str s)) (hs : s ≠ "") :
    maskSmtp v = v.set "smtp_password" (.str smtpPasswordMasked) := by
  obtain ⟨j, hj, hthere⟩ :=
    lookup_validate (nodup_globalFields c) hv (password_mem_globalFields c)
  have hvalue : (fieldOf globalDefaults "smtp_password" (orNull str)).value d = .ok (.str s) :=
    (Field.value_of_lookup (f := fieldOf globalDefaults "smtp_password" (orNull str))
      hlookup).trans rfl
  rw [hvalue] at hj
  cases hj
  have hget : v.get "smtp_password" = .str s := by
    rw [JsonDict.get]
    change ((v.lookup (fieldOf globalDefaults "smtp_password" (orNull str)).name).getD .null) = _
    rw [hthere]
    rfl
  rw [maskSmtp, hget, if_pos]
  exact decide_eq_true hs

/-- Settings that differ in the password only are the same when it is masked. -/
theorem mask_validate_congr
    (hsame : ∀ f ∈ globalFields c, f.name ≠ "smtp_password" → f.value d = f.value d')
    (hsecret : Option.Rel SecretPair (d.lookup "smtp_password") (d'.lookup "smtp_password")) :
    (validate (globalFields c) d).map maskSmtp = (validate (globalFields c) d').map maskSmtp := by
  have herrors : SameErrors (validate (globalFields c) d) (validate (globalFields c) d') := by
    apply validate_sameErrors
    intro f hf
    by_cases hname : f.name = "smtp_password"
    · apply Field.sameErrors
      rw [globalField_password hf hname]
      apply optionRel_imp hsecret
      rintro j j' (rfl | ⟨s, s', -, -, rfl, rfl⟩)
      · exact .inl rfl
      · exact .inr ⟨⟨_, rfl⟩, _, rfl⟩
    · exact .inl (hsame f hf hname)
  generalize hx : d.lookup "smtp_password" = x at hsecret
  generalize hx' : d'.lookup "smtp_password" = x' at hsecret
  have hequal : x = x' →
      validate (globalFields c) d = validate (globalFields c) d' := by
    intro he
    apply validate_congr
    intro f hf
    by_cases hname : f.name = "smtp_password"
    · apply Field.value_congr
      rw [hname, hx, hx', he]
    · exact hsame f hf hname
  cases hsecret with
  | none => rw [hequal rfl]
  | some hj =>
    rcases hj with rfl | ⟨s, s', hs, hs', rfl, rfl⟩
    · rw [hequal rfl]
    · rcases herrors with he | ⟨⟨v, hv⟩, v', hv'⟩
      · rw [he]
      · rw [hv, hv']
        apply congrArg Except.ok
        rw [maskSmtp_of_password hv hx hs, maskSmtp_of_password hv' hx' hs']
        apply validate_set_congr (nodup_globalFields c) _ hv hv' hsame
        exact List.mem_map_of_mem (f := Field.name) (password_mem_globalFields c)

theorem SameButSecrets.password (h : SameButSecrets rows rows') :
    Option.Rel SecretPair ((rows.stored "global" none).lookup "smtp_password")
      ((rows'.stored "global" none).lookup "smtp_password") := by
  apply optionRel_imp (h.stored "smtp_password")
  rintro j j' (rfl | ⟨-, hj⟩ | ⟨hkey, -⟩)
  · exact .inl rfl
  · exact hj
  · exact absurd hkey (by decide)

theorem getGlobal_eq (h : SameButSecrets rows rows') (hkeys : ApiKeysAgree rows rows') :
    rows.getGlobal c = rows'.getGlobal c :=
  mask_validate_congr (fun _ hf hname => h.value_eq hkeys hf hname) h.password

/-- The password that `set_global` puts back. -/
theorem SameButSecrets.realPassword (h : SameButSecrets rows rows') :
    SecretPair ((rows.get "global" none "smtp_password").getD .null)
      ((rows'.get "global" none "smtp_password").getD .null) := by
  have hget := h.get "smtp_password"
  generalize rows.get "global" none "smtp_password" = x at hget ⊢
  generalize rows'.get "global" none "smtp_password" = x' at hget ⊢
  cases hget with
  | none => exact .inl rfl
  | some hj =>
    rcases hj with rfl | ⟨-, hj⟩ | ⟨hkey, -⟩
    · exact .inl rfl
    · exact hj
    · exact absurd hkey (by decide)

theorem saveGlobal_eq (h : SameButSecrets rows rows')
    (hglobal : rows.getGlobal c = rows'.getGlobal c) (data : JsonDict) :
    (rows.saveGlobal c data).map Prod.fst = (rows'.saveGlobal c data).map Prod.fst := by
  have hfst : ∀ t : SettingsTable, (t.saveGlobal c data).map Prod.fst =
      t.getGlobal c >>= fun current =>
        (validate (globalFields c) (t.merged current data)).map maskSmtp := by
    intro t
    rw [SettingsTable.saveGlobal]
    cases t.getGlobal c with
    | error es => rfl
    | ok current =>
      change Except.map _ (validate (globalFields c) (t.merged current data) >>= _) =
        (validate (globalFields c) (t.merged current data)).map maskSmtp
      cases validate (globalFields c) (t.merged current data) with
      | error es => rfl
      | ok v => rfl
  rw [hfst, hfst, hglobal]
  apply congrArg (rows'.getGlobal c >>= ·)
  funext current
  have hmerged : ∀ key, Option.Rel (fun j j' => j = j' ∨ key = "smtp_password" ∧ SecretPair j j')
      ((rows.merged current data).lookup key) ((rows'.merged current data).lookup key) := by
    apply optionRel_lookup_merge
      (R := fun key j j' => j = j' ∨ key = "smtp_password" ∧ SecretPair j j')
    · exact List.forall₂_same.2 fun p _ => ⟨rfl, .inl rfl⟩
    · apply optionRel_lookup_set
        (R := fun key j j' => j = j' ∨ key = "smtp_password" ∧ SecretPair j j')
      · exact .inr ⟨rfl, h.realPassword⟩
      · intro key
        generalize current.lookup key = x
        cases x with
        | none => exact .none
        | some j => exact .some (.inl rfl)
  apply mask_validate_congr
  · intro f _ hname
    apply Field.value_congr
    exact eq_of_optionRel (hmerged f.name) fun _ _ hj => hj.resolve_right fun h => hname h.1
  · exact optionRel_imp (hmerged "smtp_password") fun _ _ hj => hj.elim .inl And.right

theorem resolveAll_eq (h : SameButSecrets rows rows')
    (hglobal : rows.getGlobal c = rows'.getGlobal c) (user_id tenant_id : Option String) :
    rows.resolveAll c user_id tenant_id = rows'.resolveAll c user_id tenant_id := by
  have htenant : ∀ i, rows.getTenant c i = rows'.getTenant c i := fun i =>
    congrArg (validate (tenantFields c)) (h.stored_eq (by decide) (some i))
  have huser : ∀ i, rows.getUser c i = rows'.getUser c i := fun i =>
    congrArg (validate (userFields c)) (h.stored_eq (by decide) (some i))
  simp only [SettingsTable.resolveAll, hglobal, htenant, huser]

theorem getEffective_eq (h : SameButSecrets rows rows')
    (hglobal : rows.getGlobal c = rows'.getGlobal c) (user_id tenant_id : Option String) :
    rows.getEffective c user_id tenant_id = rows'.getEffective c user_id tenant_id := by
  have htenant : ∀ i, rows.getTenant c i = rows'.getTenant c i := fun i =>
    congrArg (validate (tenantFields c)) (h.stored_eq (by decide) (some i))
  have huser : ∀ i, rows.getUser c i = rows'.getUser c i := fun i =>
    congrArg (validate (userFields c)) (h.stored_eq (by decide) (some i))
  have hresolve := resolveAll_eq h hglobal
  simp only [SettingsTable.getEffective, hglobal, htenant, huser, hresolve]

/-! ## What the API keys do -/

theorem lookup_maskSmtp (v : JsonDict) (hkey : key ≠ "smtp_password") :
    (maskSmtp v).lookup key = v.lookup key := by
  rw [maskSmtp]
  split
  · rw [JsonDict.lookup_set, if_neg hkey]
  · rfl

/-- A validated endpoint record has the API key that was stored. -/
theorem aiEndpointCheck_apiKey {members : JsonDict} (h : aiEndpointCheck c (.obj members) = .ok j) :
    ∃ w key, j = .obj w ∧ w.lookup "api_key" = some key ∧
      (members.lookup "api_key" = none ∨ members.lookup "api_key" = some key) := by
  obtain ⟨w, hw, rfl⟩ := map_eq_ok.1 h
  have hfield : ⟨"api_key", .str "", str⟩ ∈ aiEndpointFields c :=
    List.mem_cons_of_mem _ (List.mem_cons_of_mem _ List.mem_cons_self)
  obtain ⟨key, hkey, hlookup⟩ := lookup_validate (nodup_aiEndpointFields c) hw hfield
  refine ⟨w, key, rfl, hlookup, ?_⟩
  cases hthere : members.lookup "api_key" with
  | none => exact .inl rfl
  | some stored =>
    right
    have hcheck := mapError_eq_ok.1 ((Field.value_of_lookup hthere).symm.trans hkey)
    cases stored with
    | str s => exact congrArg some (Except.ok.inj hcheck)
    | _ => cases hcheck

theorem EndpointPair.apiKey_eq (h : EndpointPair j j') (hj : aiEndpointCheck c j = .ok v)
    (hj' : aiEndpointCheck c j' = .ok v) : apiKeyOf j = apiKeyOf j' := by
  rcases h with rfl | ⟨members, members', rfl, rfl, hmembers⟩
  · rfl
  · obtain ⟨w, key, rfl, hkey, hstored⟩ := aiEndpointCheck_apiKey hj
    obtain ⟨w', key', he, hkey', hstored'⟩ := aiEndpointCheck_apiKey hj'
    cases he
    obtain rfl : key = key' := Option.some.inj (hkey.symm.trans hkey')
    have hrel := lookup_members hmembers "api_key"
    change members.lookup "api_key" = members'.lookup "api_key"
    rcases hstored with hstored | hstored
    · rw [hstored] at hrel ⊢
      rcases hstored' with hstored' | hstored'
      · rw [hstored']
      · rw [hstored'] at hrel
        cases hrel
    · rw [hstored] at hrel ⊢
      rcases hstored' with hstored' | hstored'
      · rw [hstored'] at hrel
        cases hrel
      · rw [hstored']

theorem apiKeysAgree_of_getGlobal (h : SameButSecrets rows rows')
    (hread : validate (globalFields c) (rows.stored "global" none) = .ok v)
    (hglobal : rows.getGlobal c = rows'.getGlobal c) : ApiKeysAgree rows rows' := by
  obtain ⟨v', hread', hmask⟩ : ∃ v', validate (globalFields c) (rows'.stored "global" none) =
      .ok v' ∧ maskSmtp v' = maskSmtp v := by
    apply map_eq_ok.1
    rw [← SettingsTable.getGlobal, ← hglobal, SettingsTable.getGlobal, hread]
    rfl
  intro key hkey
  have hpassword : key ≠ "smtp_password" := by
    rintro rfl
    exact absurd hkey (by decide)
  have hf : fieldOf globalDefaults key (aiEndpointCheck c) ∈ globalFields c :=
    List.mem_append_right _ (List.mem_map_of_mem hkey)
  obtain ⟨j, hj, hlookup⟩ := lookup_validate (nodup_globalFields c) hread hf
  obtain ⟨j', hj', hlookup'⟩ := lookup_validate (nodup_globalFields c) hread' hf
  have hsame : v.lookup key = v'.lookup key := by
    rw [← lookup_maskSmtp v hpassword, ← hmask, lookup_maskSmtp v' hpassword]
  obtain rfl : j = j' := Option.some.inj (hlookup.symm.trans (hsame.trans hlookup'))
  have hrel := h.stored key
  cases hx : (rows.stored "global" none).lookup key with
  | none =>
    rw [hx] at hrel
    cases hx' : (rows'.stored "global" none).lookup key with
    | none => rfl
    | some x' =>
      rw [hx'] at hrel
      cases hrel
  | some x =>
    rw [hx] at hrel
    cases hx' : (rows'.stored "global" none).lookup key with
    | none =>
      rw [hx'] at hrel
      cases hrel
    | some x' =>
      rw [hx'] at hrel
      have hcheck := mapError_eq_ok.1 ((Field.value_of_lookup hx).symm.trans hj)
      have hcheck' := mapError_eq_ok.1 ((Field.value_of_lookup hx').symm.trans hj')
      cases hrel with
      | some hpair =>
        rcases hpair with rfl | ⟨he, -⟩ | ⟨-, hpair⟩
        · rfl
        · exact (hpassword he).elim
        · exact hpair.apiKey_eq hcheck hcheck'

theorem secretsHidden_iff (h : SameButSecrets rows rows') :
    SecretsHidden c rows rows' ↔
      (∀ v, validate (globalFields c) (rows.stored "global" none) ≠ .ok v) ∨
        ApiKeysAgree rows rows' := by
  constructor
  · intro hhidden
    by_cases hread : ∃ v, validate (globalFields c) (rows.stored "global" none) = .ok v
    · obtain ⟨v, hv⟩ := hread
      exact .inr (apiKeysAgree_of_getGlobal h hv hhidden.getGlobal)
    · exact .inl fun v hv => hread ⟨v, hv⟩
  · intro hcondition
    have hglobal : rows.getGlobal c = rows'.getGlobal c := by
      rcases hcondition with hunread | hkeys
      · cases hread : validate (globalFields c) (rows.stored "global" none) with
        | ok v => exact (hunread v hread).elim
        | error es =>
          rw [SettingsTable.getGlobal, SettingsTable.getGlobal, hread, h.sameErrors.error hread]
      · exact getGlobal_eq h hkeys
    exact ⟨hglobal, saveGlobal_eq h hglobal, resolveAll_eq h hglobal, getEffective_eq h hglobal⟩

end

/-! ## Two stores -/

def mailSettings (password : String) : SettingsTable :=
  [⟨"global", none, "smtp_password", .str password⟩]

def openaiSettings (api_key : String) : SettingsTable :=
  [⟨"global", none, "ai_endpoint_openai", .obj [("api_key", .str api_key)]⟩]

theorem mail_password_hidden :
    SecretsHidden .strict (mailSettings "first") (mailSettings "second") := by
  have hpair : SecretPair (.str "first") (.str "second") :=
    .inr ⟨_, _, by decide, by decide, rfl, rfl⟩
  have hsame : SameButSecrets (mailSettings "first") (mailSettings "second") :=
    .cons ⟨rfl, rfl, rfl, .inr ⟨rfl, .inr (.inl ⟨rfl, hpair⟩)⟩⟩ .nil
  apply (secretsHidden_iff hsame).2
  right
  intro key hkey
  have hother : key ≠ "smtp_password" := by
    rintro rfl
    exact absurd hkey (by decide)
  change ((List.lookup key [("smtp_password", Json.str "first")]).bind apiKeyOf) =
    (List.lookup key [("smtp_password", Json.str "second")]).bind apiKeyOf
  rw [JsonDict.lookup_cons, JsonDict.lookup_cons, if_neg hother, if_neg hother]

/-- The key of an endpoint is shown to everyone who reads the effective settings. -/
theorem api_key_shown : ¬ ∀ rows rows', SameButSecrets rows rows' →
    SecretsHidden .strict rows rows' := by
  intro h
  have hpair : EndpointPair (.obj [("api_key", .str "sk-1")]) (.obj [("api_key", .str "sk-2")]) :=
    .inr ⟨_, _, rfl, rfl,
      .cons ⟨rfl, .inr ⟨rfl, .inr ⟨_, _, by decide, by decide, rfl, rfl⟩⟩⟩ .nil⟩
  have hhidden := h (openaiSettings "sk-1") (openaiSettings "sk-2")
    (.cons ⟨rfl, rfl, rfl, .inr ⟨rfl, .inr (.inr ⟨by decide, hpair⟩)⟩⟩ .nil)
  have hglobal := congrArg (fun x => x.toOption.bind fun v =>
    (v.lookup "ai_endpoint_openai").bind apiKeyOf) hhidden.getGlobal
  have hkey : some (Json.str "sk-1") = some (Json.str "sk-2") := hglobal
  exact absurd (Json.str.inj (Option.some.inj hkey)) (by decide)

end ScottyCore
