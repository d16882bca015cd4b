import ScottyCore.Lib.Json
import ScottyCore.Lib.Raise
import ScottyCore.Users.Models

namespace ScottyCore
open Python
set_option autoImplicit true

/-! ## `services/settings/schemas.py` -/

def smtpPasswordMasked : String := "*****"

/-- `AIEndpointSetting(...)` as JSON. -/
def aiEndpoint (url model : String) (enabled : Bool) (context_window priority : Int)
    (notes : String) : Json :=
  .obj [("url", .str url), ("model", .str model), ("api_key", .str ""), ("enabled", .bool enabled),
    ("context_window", .int context_window), ("priority", .int priority), ("notes", .str notes)]

/-- `GlobalSettings().model_dump()` -/
def globalDefaults : JsonDict :=
  [("auth_providers", .strs ["local"]),
    ("session_timeout_minutes", .int 15),
    ("password_min_length", .int 8),
    ("require_totp", .bool true),
    ("retention_days_default", .int 90),
    ("branding_app_name", .str "MyApp"),
    ("smtp_host", .null),
    ("smtp_port", .null),
    ("smtp_from", .null),
    ("smtp_password", .null),
    ("ai_default_provider", .str "claude_cli"),
    ("ai_fallback_chain", .strs ["dgx", "ollama", "claude_cli"]),
    ("ai_endpoint_ollama", aiEndpoint "http://192.168.150.210:11434" "qwen2.5:7b" true 32768 20
      "Local Ollama on CT 114 (GPU passthrough)."),
    ("ai_endpoint_dgx", aiEndpoint "http://192.168.150.111:11434" "qwen3.5:35b-a3b" true 131072 10
      "DGX Spark on homelab."),
    ("ai_endpoint_claude_cli", aiEndpoint "" "opus" true 200000 30
      "Uses host Claude Code auth. No API key needed."),
    ("ai_endpoint_claude_api", aiEndpoint "" "claude-sonnet-4-6" false 200000 40
      "Anthropic SDK direct. Needs API key or Claude Code OAuth token."),
    ("ai_endpoint_openai", aiEndpoint "https://api.openai.com/v1" "gpt-4o" false 128000 50
      "OpenAI API. Needs OPENAI_API_KEY."),
    ("ai_endpoint_azure_openai", aiEndpoint "" "" false 128000 50
      "Azure OpenAI Service. Needs endpoint + key.")]

/-- `TenantSettings().model_dump()` -/
def tenantDefaults : JsonDict :=
  [("retention_days_override", .null), ("retention_days", .null), ("notification_email", .null),
    ("custom_field_1", .null), ("custom_field_2", .null)]

/-- `UserSettings().model_dump()` -/
def userDefaults : JsonDict :=
  [("theme", .str "system"), ("timezone", .str "UTC"), ("default_tenant", .null),
    ("page_size", .int 25), ("notifications_enabled", .bool true)]

/-- Pydantic: `GlobalSettings(**d)`, as what it dumps. -/
structure Pydantic where
  globalSettings : JsonDict → Except AppError JsonDict

/-- A model dumps each field once. A field of type `list[str]` takes a list of strings as it is
and nothing else, and is its default when nothing is given. -/
structure Pydantic.Documented (p : Pydantic) : Prop where
  nodup : p.globalSettings d = .ok v → (v.map Prod.fst).Nodup
  auth_providers : p.globalSettings d = .ok v →
    ∃ ps, v.lookup "auth_providers" = some (.strs ps) ∧
      (d.lookup "auth_providers").getD (.strs ["local"]) = .strs ps

/-! ## `services/settings/service.py` -/

/-- A row of `settings`, its `value_json` parsed. -/
structure Setting where
  scope : String
  scope_id : Option String
  key : String
  value_json : Json

abbrev SettingsTable := List Setting

namespace SettingsTable

variable (rows : SettingsTable)

def get (scope : String) (scope_id : Option String) (key : String) : Option Json :=
  (rows.find? fun r => r.scope = scope ∧ r.scope_id = scope_id ∧ r.key = key).map Setting.value_json

def upsert (scope : String) (scope_id : Option String) (key : String) (value_json : Json) :
    SettingsTable → SettingsTable
  | [] => [⟨scope, scope_id, key, value_json⟩]
  | r :: rows =>
    if r.scope = scope ∧ r.scope_id = scope_id ∧ r.key = key then { r with value_json } :: rows
    else r :: upsert scope scope_id key value_json rows

def stored (scope : String) (scope_id : Option String) : JsonDict :=
  JsonDict.merge [] ((rows.filter fun r => r.scope = scope ∧ r.scope_id = scope_id).map
    fun r => (r.key, r.value_json))

/-- `resolve` -/
def resolve (key : String) (user_id tenant_id : Option String) : Json :=
  let fromUser := user_id.bind fun i => rows.get "user" (some i) key
  let fromTenant := tenant_id.bind fun i => rows.get "tenant" (some i) key
  let default := ((globalDefaults.lookup key).or (tenantDefaults.lookup key)).or
    (userDefaults.lookup key)
  (((fromUser.or fromTenant).or (rows.get "global" none key)).or default).getD .null

/-- What `set_global` takes of a request: a masked or empty SMTP password is dropped. -/
def incoming (data : JsonDict) : JsonDict :=
  match data.lookup "smtp_password" with
  | some (.str s) =>
    if s = smtpPasswordMasked ∨ s = "" then data.filter fun p => p.1 ≠ "smtp_password" else data
  | some .null => data.filter fun p => p.1 ≠ "smtp_password"
  | _ => data

/-- The dictionary that `set_global` validates. -/
def merged (current data : JsonDict) : JsonDict :=
  (current.set "smtp_password" ((rows.get "global" none "smtp_password").getD .null)).merge
    (incoming data)

/-- Upserts of one scope, one after another. -/
def storeIn (scope : String) (scope_id : Option String) (values : JsonDict) : SettingsTable :=
  values.foldl (fun rows p => upsert scope scope_id p.1 p.2 rows) rows

def storeAll (values : JsonDict) : SettingsTable :=
  values.foldl (fun rows p => upsert "global" none p.1 p.2 rows) rows

def setGlobal (p : Pydantic) (data : JsonDict) : Except AppError SettingsTable := do
  let current ← p.globalSettings (rows.stored "global" none)
  let validated ← p.globalSettings (rows.merged current data)
  return rows.storeAll validated

/-! ## What is stored where -/

theorem get_upsert (scope scope' : String) (scope_id scope_id' : Option String) (key key' : String)
    (value : Json) :
    (upsert scope scope_id key value rows).get scope' scope_id' key' =
      if scope' = scope ∧ scope_id' = scope_id ∧ key' = key then some value
      else rows.get scope' scope_id' key' := by
  induction rows with
  | nil =>
    rw [upsert, get, List.find?_cons, List.find?_nil]
    by_cases h : scope' = scope ∧ scope_id' = scope_id ∧ key' = key
    · obtain ⟨rfl, rfl, rfl⟩ := h
      simp
    · rw [if_neg h, decide_eq_false]
      · rfl
      · rintro ⟨rfl, rfl, rfl⟩
        exact h ⟨rfl, rfl, rfl⟩
  | cons r rows ih =>
    rw [upsert]
    by_cases hr : r.scope = scope ∧ r.scope_id = scope_id ∧ r.key = key
    · rw [if_pos hr]
      obtain ⟨rfl, rfl, rfl⟩ := hr
      unfold get
      rw [List.find?_cons, List.find?_cons]
      by_cases h : scope' = r.scope ∧ scope_id' = r.scope_id ∧ key' = r.key
      · obtain ⟨rfl, rfl, rfl⟩ := h
        simp
      · have hne : ¬ (r.scope = scope' ∧ r.scope_id = scope_id' ∧ r.key = key') := by
          rintro ⟨rfl, rfl, rfl⟩
          exact h ⟨rfl, rfl, rfl⟩
        rw [if_neg h, decide_eq_false hne]
    · rw [if_neg hr]
      unfold get at ih ⊢
      rw [List.find?_cons, List.find?_cons]
      by_cases h : r.scope = scope' ∧ r.scope_id = scope_id' ∧ r.key = key'
      · obtain ⟨rfl, rfl, rfl⟩ := h
        rw [if_neg hr]
        simp
      · rw [decide_eq_false h]
        exact ih

theorem get_storeIn (scope : String) (scope_id : Option String) {values : JsonDict}
    (hn : (values.map Prod.fst).Nodup) (key : String) :
    (rows.storeIn scope scope_id values).get scope scope_id key =
      (values.lookup key).or (rows.get scope scope_id key) := by
  induction values generalizing rows with
  | nil => rfl
  | cons p values ih =>
    obtain ⟨hnew, hn⟩ := List.nodup_cons.1 hn
    have hstep := ih (upsert scope scope_id p.1 p.2 rows) hn
    rw [storeIn, List.foldl_cons, ← storeIn, hstep, get_upsert,
      JsonDict.lookup_cons p.1 key p.2 values]
    by_cases hk : key = p.1
    · rw [if_pos ⟨rfl, rfl, hk⟩, if_pos hk, JsonDict.lookup_eq_none_of_not_mem (hk ▸ hnew)]
      rfl
    · rw [if_neg fun h => hk h.2.2, if_neg hk]

theorem get_storeAll {values : JsonDict} (hn : (values.map Prod.fst).Nodup) (key : String) :
    (rows.storeAll values).get "global" none key =
      (values.lookup key).or (rows.get "global" none key) :=
  rows.get_storeIn "global" none hn key

/-! ## One row for a key -/

def Distinct : Prop := (rows.map fun r => (r.scope, r.scope_id, r.key)).Nodup

theorem mem_upsert (h : r ∈ upsert scope scope_id key value rows) :
    (r.scope, r.scope_id, r.key) = (scope, scope_id, key) ∨ r ∈ rows := by
  induction rows with
  | nil => exact .inl (List.mem_singleton.1 h ▸ rfl)
  | cons q rows ih =>
    rw [upsert] at h
    split at h
    · rename_i hq
      rcases List.mem_cons.1 h with rfl | h
      · obtain ⟨rfl, rfl, rfl⟩ := hq
        exact .inl rfl
      · exact .inr (List.mem_cons_of_mem _ h)
    · rcases List.mem_cons.1 h with rfl | h
      · exact .inr List.mem_cons_self
      · exact (ih h).imp_right (List.mem_cons_of_mem _)

theorem Distinct.upsert (h : rows.Distinct) : (upsert scope scope_id key value rows).Distinct := by
  induction rows with
  | nil => exact List.nodup_singleton _
  | cons r rows ih =>
    obtain ⟨hr, hrows⟩ := List.nodup_cons.1 h
    rw [SettingsTable.upsert]
    split
    · exact List.nodup_cons.2 ⟨hr, hrows⟩
    · rename_i hne
      refine List.nodup_cons.2 ⟨fun hm => ?_, ih hrows⟩
      obtain ⟨q, hq, heq⟩ := List.mem_map.1 hm
      rcases mem_upsert rows hq with hnew | hold
      · obtain ⟨h₁, h₂, h₃⟩ : _ ∧ _ ∧ _ := by simpa using heq.symm.trans hnew
        exact hne ⟨h₁, h₂, h₃⟩
      · exact hr (heq ▸ List.mem_map_of_mem (f := fun r => (r.scope, r.scope_id, r.key)) hold)

theorem Distinct.storeIn (h : rows.Distinct) (scope : String) (scope_id : Option String)
    (values : JsonDict) : (rows.storeIn scope scope_id values).Distinct := by
  induction values generalizing rows with
  | nil => exact h
  | cons p values ih => exact ih _ h.upsert

theorem Distinct.storeAll (h : rows.Distinct) (values : JsonDict) :
    (rows.storeAll values).Distinct :=
  Distinct.storeIn rows h "global" none values

theorem lookup_stored (h : rows.Distinct) (scope : String) (scope_id : Option String)
    (key : String) :
    (rows.stored scope scope_id).lookup key = rows.get scope scope_id key := by
  rw [stored, JsonDict.lookup_merge, List.lookup_nil, Option.or_none]
  · induction rows with
    | nil => rfl
    | cons r rows ih =>
      have htail := ih (List.nodup_cons.1 h).2
      rw [get, List.find?_cons, List.filter_cons]
      by_cases hscope : r.scope = scope ∧ r.scope_id = scope_id
      · rw [if_pos (decide_eq_true hscope), List.map_cons, JsonDict.lookup_cons, htail]
        by_cases hkey : key = r.key
        · rw [if_pos hkey, decide_eq_true ⟨hscope.1, hscope.2, hkey.symm⟩]
          rfl
        · rw [if_neg hkey, decide_eq_false fun hr => hkey hr.2.2.symm]
          rfl
      · have hne : ¬ (r.scope = scope ∧ r.scope_id = scope_id ∧ r.key = key) :=
          fun hr => hscope ⟨hr.1, hr.2.1⟩
        rw [if_neg (by simpa using hscope), decide_eq_false hne, htail]
        rfl
  · rw [List.map_map]
    refine List.Nodup.map_on ?_ (List.Nodup.filter _ (List.Nodup.of_map _ h))
    intro q hq r hr hkey
    obtain ⟨hq, hqs⟩ := List.mem_filter.1 hq
    obtain ⟨hr, hrs⟩ := List.mem_filter.1 hr
    apply List.inj_on_of_nodup_map h hq hr
    have hqs := of_decide_eq_true hqs
    have hrs := of_decide_eq_true hrs
    exact Prod.ext (hqs.1.trans hrs.1.symm) (Prod.ext (hqs.2.trans hrs.2.symm) hkey)

end SettingsTable

end ScottyCore
