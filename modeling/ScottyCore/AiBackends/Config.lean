import ScottyCore.Settings.Reads

namespace ScottyCore
open Python Validation
set_option autoImplicit true

/-! ## `services/ai_backends/schemas.py` -/

inductive AIProviderName where
  | claude_cli | claude_api | ollama | dgx | openai | azure_openai | custom
  deriving DecidableEq, Repr

namespace AIProviderName

def value : AIProviderName → String
  | claude_cli => "claude_cli"
  | claude_api => "claude_api"
  | ollama => "ollama"
  | dgx => "dgx"
  | openai => "openai"
  | azure_openai => "azure_openai"
  | custom => "custom"

def all : List AIProviderName :=
  [claude_cli, claude_api, ollama, dgx, openai, azure_openai, custom]

/-- `AIProviderName(value)` -/
def ofJson : Json → Except Python.Error AIProviderName
  | .str s =>
    match all.find? fun p => p.value = s with
    | some p => .ok p
    | none => .error (.valueError ("'" ++ s ++ "' is not a valid AIProviderName"))
  | j => .error (.valueError (j.typeName ++ " is not a valid AIProviderName"))

end AIProviderName

open AIProviderName

/-- `EndpointConfig(...)`, as its attributes. -/
def endpointConfig (provider : AIProviderName) (url model : String) (enabled : Bool)
    (context_window priority : Int) (notes : String) : JsonDict :=
  [("provider", .str provider.value), ("url", .str url), ("model", .str model),
    ("api_key", .str ""), ("enabled", .bool enabled), ("context_window", .int context_window),
    ("priority", .int priority), ("notes", .str notes)]

/-- `endpoints` is a dictionary: what stands under each provider. -/
structure AIBackendConfig where
  default_provider : AIProviderName
  fallback_chain : List AIProviderName
  endpoints : AIProviderName → Option JsonDict

def baselineEndpoints : AIProviderName → Option JsonDict
  | .claude_cli => some (endpointConfig .claude_cli "" "opus" true 200000 30
      "Uses host Claude Code auth. No API key needed. Always available.")
  | .dgx => some (endpointConfig .dgx "http://192.168.150.111:11434" "qwen3.5:35b-a3b" true 131072 10
      "DGX Spark on homelab. MoE model: 3B active params, ~55-70 tok/s.")
  | .ollama => some (endpointConfig .ollama "http://192.168.150.210:11434" "qwen2.5:7b" true 32768 20
      "Local Ollama on CT 114 (GPU passthrough).")
  | .claude_api => some (endpointConfig .claude_api "" "claude-sonnet-4-6" false 200000 40
      "Anthropic SDK direct. Needs API key or Claude Code OAuth token.")
  | .openai => some (endpointConfig .openai "https://api.openai.com/v1" "gpt-4o" false 128000 50
      "OpenAI API. Needs OPENAI_API_KEY.")
  | .azure_openai => some (endpointConfig .azure_openai "" "" false 128000 50
      "Azure OpenAI Service. Needs AZURE_OPENAI_ENDPOINT + AZURE_OPENAI_KEY.")
  | .custom => none

/-! ## `services/ai_backends/service.py` -/

/-- A variable of the environment, and the field that it overrides. -/
structure EnvOverride where
  env_key : String
  provider : AIProviderName
  field : String

def envMap : List EnvOverride :=
  [⟨"OLLAMA_URL", .ollama, "url"⟩, ⟨"OLLAMA_MODEL_CHAT", .ollama, "model"⟩,
    ⟨"DGX_OLLAMA_URL", .dgx, "url"⟩, ⟨"DGX_OLLAMA_MODEL", .dgx, "model"⟩,
    ⟨"OPENAI_API_KEY", .openai, "api_key"⟩, ⟨"AZURE_OPENAI_ENDPOINT", .azure_openai, "url"⟩,
    ⟨"AZURE_OPENAI_KEY", .azure_openai, "api_key"⟩,
    ⟨"ANTHROPIC_API_KEY", .claude_api, "api_key"⟩]

/-- One round of the loop, on the endpoint that it finds. `env` is `os.environ.get(key, "")`. -/
def EnvOverride.apply (env : String → String) (o : EnvOverride) (ep : JsonDict) : JsonDict :=
  if env o.env_key = "" then ep
  else
    let ep := ep.set o.field (.str (env o.env_key))
    -- Auto-enable if a key/url was provided
    if o.field = "api_key" ∨ o.field = "url" then ep.set "enabled" (.bool true) else ep

/-- A loop over endpoints, each round of which replaces one that is there. -/
def overrideEach (target : ι → AIProviderName) (f : ι → JsonDict → JsonDict) (rounds : List ι)
    (endpoints : AIProviderName → Option JsonDict) : AIProviderName → Option JsonDict :=
  rounds.foldl (fun endpoints i =>
    Function.update endpoints (target i) ((endpoints (target i)).map (f i))) endpoints

def buildDefaultConfig (env : String → String) : AIBackendConfig where
  default_provider := .claude_cli
  fallback_chain := [.dgx, .ollama, .claude_cli]
  endpoints := overrideEach EnvOverride.provider (EnvOverride.apply env) envMap baselineEndpoints

def settingMap : List (AIProviderName × String) :=
  [(.ollama, "ai_endpoint_ollama"), (.dgx, "ai_endpoint_dgx"),
    (.claude_cli, "ai_endpoint_claude_cli"), (.claude_api, "ai_endpoint_claude_api"),
    (.openai, "ai_endpoint_openai"), (.azure_openai, "ai_endpoint_azure_openai")]

def endpointFields : List String :=
  ["url", "model", "api_key", "enabled", "context_window", "priority", "notes"]

/-- The attribute of a record. -/
def attrOf (field : String) : Json → Json
  | .obj members => JsonDict.get members field
  | _ => .null

/-- What of a stored record is put over an endpoint: `enabled`, and what is not empty. -/
def settingUpdates (setting : Json) : JsonDict :=
  endpointFields.filterMap fun field =>
    if field = "enabled" ∨ (attrOf field setting).truthy = true then
      some (field, attrOf field setting)
    else none

/-- The providers that the settings name, first the default one. -/
def providersOf (settings : JsonDict) : Except Python.Error (AIProviderName × List AIProviderName) := do
  let default_provider ← ofJson (settings.get "ai_default_provider")
  let fallback_chain ← match settings.get "ai_fallback_chain" with
    | .arr items => items.mapM ofJson
    | _ => .ok []
  .ok (default_provider, fallback_chain)

/-- `load_from_settings`: what it raises, and the configuration after it. -/
def loadFromSettings (c : Coercions) (env : String → String) (rows : SettingsTable)
    (config : AIBackendConfig) : Except Python.Error Unit × AIBackendConfig :=
  match rows.getGlobal c with
  | .error _ => (.ok (), config)
  | .ok settings =>
    match providersOf settings with
    | .error e => (.error e, config)
    | .ok (default_provider, fallback_chain) =>
      (.ok (), ⟨default_provider, fallback_chain,
        overrideEach Prod.fst (fun p ep => ep.merge (settingUpdates (settings.get p.2))) settingMap
          (buildDefaultConfig env).endpoints⟩)

/-! ## One field of one endpoint -/

/-- What the environment says of a field: an auto-enabled endpoint is one it gives a key or url. -/
def envValue (env : String → String) (provider : AIProviderName) (field : String) : Option Json :=
  let given := (envMap.filter fun o => o.provider = provider).filter fun o => env o.env_key ≠ ""
  if field = "enabled" then
    if given.any fun o => o.field = "api_key" ∨ o.field = "url" then some (.bool true) else none
  else (given.find? fun o => o.field = field).map fun o => .str (env o.env_key)

def baselineValue (provider : AIProviderName) (field : String) : Json :=
  (((baselineEndpoints provider).getD []).get field)

/-- The environment's value, else the baseline's. -/
def envOrBaseline (env : String → String) (provider : AIProviderName) (field : String) : Json :=
  (envValue env provider field).getD (baselineValue provider field)

/-- The value of a field that the row of an endpoint gives. -/
def explicitValue (c : Coercions) (rows : SettingsTable) (key field : String) : Option Json :=
  match (rows.stored "global" none).lookup key with
  | some (.obj members) =>
    match aiEndpointCheck c (.obj members) with
    | .ok setting =>
      if (members.lookup field).isSome = true then some (attrOf field setting) else none
    | .error _ => none
  | _ => none

/-- The documented order of the three layers, for every field of every endpoint. -/
structure Precedence (c : Coercions) (env : String → String) (rows : SettingsTable)
    (config : AIBackendConfig) : Prop where
  effective : ∀ p ∈ settingMap, ∀ field ∈ endpointFields,
    (((loadFromSettings c env rows config).2.endpoints p.1).map fun ep => ep.get field) =
      some ((explicitValue c rows p.2 field).getD (envOrBaseline env p.1 field))
  empty : rows.stored "global" none = [] →
    (loadFromSettings c env rows (buildDefaultConfig env)).2 = buildDefaultConfig env

section
variable {c : Coercions} {env : String → String} {rows : SettingsTable} {config : AIBackendConfig}
  {provider : AIProviderName} {field key : String}

theorem overrideEach_apply (target : ι → AIProviderName) (f : ι → JsonDict → JsonDict)
    (rounds : List ι) (endpoints : AIProviderName → Option JsonDict) (p : AIProviderName) :
    overrideEach target f rounds endpoints p = (endpoints p).map fun ep =>
      (rounds.filter fun i => target i = p).foldl (fun ep i => f i ep) ep := by
  induction rounds generalizing endpoints with
  | nil => exact (Option.map_id' (x := endpoints p)).symm
  | cons i rounds ih =>
    rw [overrideEach, List.foldl_cons, ← overrideEach, ih, List.filter_cons]
    by_cases hp : target i = p
    · subst hp
      rw [Function.update_self, if_pos (decide_eq_true rfl), Option.map_map]
      rfl
    · rw [Function.update_of_ne (Ne.symm hp), if_neg (by simpa using hp)]

theorem lookup_apply (o : EnvOverride) (ep : JsonDict) (field : String) :
    (o.apply env ep).lookup field =
      if env o.env_key = "" then ep.lookup field
      else if field = "enabled" ∧ (o.field = "api_key" ∨ o.field = "url") then some (.bool true)
      else if field = o.field then some (.str (env o.env_key))
      else ep.lookup field := by
  rw [EnvOverride.apply]
  split
  · rfl
  · by_cases ho : o.field = "api_key" ∨ o.field = "url"
    · rw [if_pos ho, JsonDict.lookup_set, JsonDict.lookup_set]
      by_cases hf : field = "enabled"
      · rw [if_pos hf, if_pos ⟨hf, ho⟩]
      · have hneither : ¬ (field = "enabled" ∧ (o.field = "api_key" ∨ o.field = "url")) :=
          fun h => hf h.1
        rw [if_neg hf, if_neg hneither]
    · have hneither : ¬ (field = "enabled" ∧ (o.field = "api_key" ∨ o.field = "url")) :=
        fun h => ho h.2
      rw [if_neg ho, JsonDict.lookup_set, if_neg hneither]

/-- The variables are read one after another, each for a field of its own. -/
theorem lookup_foldl_apply {rounds : List EnvOverride} (hn : (rounds.map EnvOverride.field).Nodup)
    (henabled : ∀ o ∈ rounds, o.field ≠ "enabled") (ep : JsonDict) (field : String) :
    (rounds.foldl (fun ep o => o.apply env ep) ep).lookup field =
      (if field = "enabled" then
        if (rounds.filter fun o => env o.env_key ≠ "").any
          fun o => o.field = "api_key" ∨ o.field = "url" then some (.bool true) else none
      else ((rounds.filter fun o => env o.env_key ≠ "").find? fun o => o.field = field).map
        fun o => .str (env o.env_key)).or (ep.lookup field) := by
  induction rounds generalizing ep with
  | nil => simp
  | cons o rounds ih =>
    obtain ⟨hnew, hn⟩ := List.nodup_cons.1 hn
    have ho := henabled o List.mem_cons_self
    have hrest := ih hn (fun o' ho' => henabled o' (List.mem_cons_of_mem _ ho')) (o.apply env ep)
    rw [List.foldl_cons, hrest, lookup_apply, List.filter_cons]
    by_cases henv : env o.env_key = ""
    · simp [henv]
    · rw [if_neg henv, if_pos (decide_eq_true henv), List.any_cons, List.find?_cons]
      by_cases hfield : field = "enabled"
      · subst hfield
        rw [if_pos rfl, if_pos rfl, if_neg (Ne.symm ho)]
        by_cases hauto : o.field = "api_key" ∨ o.field = "url"
        · simp only [hauto, and_self, decide_true, Bool.true_or, if_true, Option.some_or]
          split
          · rfl
          · rfl
        · simp [hauto]
      · rw [if_neg hfield, if_neg hfield]
        by_cases hsame : field = o.field
        · have hnone : ((rounds.filter fun o => env o.env_key ≠ "").find?
              fun o => o.field = field) = none := by
            rw [List.find?_eq_none]
            intro o' ho' hfound
            have hfields := of_decide_eq_true hfound
            exact hnew (List.mem_map.2 ⟨o', (List.mem_filter.1 ho').1, hfields.trans hsame⟩)
          rw [hnone]
          simp [hsame, ho]
        · simp [hfield, hsame, Ne.symm hsame]

/-- The environment is put over the baseline as documented. -/
theorem buildDefaultConfig_value (env : String → String) (hp : baselineEndpoints provider = some ep)
    (field : String) : (((buildDefaultConfig env).endpoints provider).map fun ep => ep.get field) =
      some (envOrBaseline env provider field) := by
  have hn : ((envMap.filter fun o => o.provider = provider).map EnvOverride.field).Nodup := by
    cases provider <;> decide
  have henabled : ∀ o ∈ envMap.filter fun o => o.provider = provider, o.field ≠ "enabled" := by
    cases provider <;> decide
  have hendpoints : (buildDefaultConfig env).endpoints provider =
      (baselineEndpoints provider).map fun ep => (envMap.filter fun o => o.provider = provider).foldl
        (fun ep o => o.apply env ep) ep := overrideEach_apply _ _ _ _ _
  have hor : ∀ x y : Option Json, (x.or y).getD .null = x.getD (y.getD .null) := by
    intro x y
    cases x with
    | none => rfl
    | some v => rfl
  rw [hendpoints, hp, Option.map_some, Option.map_some, JsonDict.get,
    lookup_foldl_apply hn henabled, hor, envOrBaseline, envValue, baselineValue, hp]
  rfl

/-! ## The settings record of an endpoint -/

/-- The value of a field in the record that `get_global` returns: absent rows and absent fields
have the defaults of the schemas. -/
def settingValue (c : Coercions) (rows : SettingsTable) (key field : String) : Json :=
  match (rows.stored "global" none).lookup key with
  | some j =>
    match aiEndpointCheck c j with
    | .ok setting => attrOf field setting
    | .error _ => .null
  | none => attrOf field (globalDefaults.get key)

theorem keys_filterMap (p : String → Prop) [DecidablePred p] (f : String → Json)
    (keys : List String) :
    (keys.filterMap fun k => if p k then some (k, f k) else none).map Prod.fst =
      keys.filter fun k => p k := by
  induction keys with
  | nil => rfl
  | cons k keys ih =>
    rw [List.filterMap_cons, List.filter_cons]
    by_cases hp : p k
    · simp only [hp, if_true, List.map_cons, ih, decide_true]
    · simp only [hp, if_false, ih, decide_false, Bool.false_eq_true]

theorem lookup_settingUpdates (hfield : field ∈ endpointFields) (setting : Json) :
    (settingUpdates setting).lookup field =
      if field = "enabled" ∨ (attrOf field setting).truthy = true then some (attrOf field setting)
      else none := by
  have hkeys := keys_filterMap
    (fun f => f = "enabled" ∨ (attrOf f setting).truthy = true) (fun f => attrOf f setting)
    endpointFields
  split
  · rename_i hgiven
    apply lookup_of_mem
    · rw [settingUpdates, hkeys]
      exact List.Nodup.filter _ (by decide)
    · rw [settingUpdates, List.mem_filterMap]
      exact ⟨field, hfield, if_pos hgiven⟩
  · rename_i hempty
    apply JsonDict.lookup_eq_none_of_not_mem
    rw [settingUpdates, hkeys, List.mem_filter]
    exact fun h => hempty (of_decide_eq_true h.2)

theorem get_merge_settingUpdates (hfield : field ∈ endpointFields) (setting : Json)
    (ep : JsonDict) : (ep.merge (settingUpdates setting)).get field =
      if field = "enabled" ∨ (attrOf field setting).truthy = true then attrOf field setting
      else ep.get field := by
  have hn : ((settingUpdates setting).map Prod.fst).Nodup := by
    rw [settingUpdates, keys_filterMap
      (fun f => f = "enabled" ∨ (attrOf f setting).truthy = true) (fun f => attrOf f setting)]
    exact List.Nodup.filter _ (by decide)
  rw [JsonDict.get, JsonDict.lookup_merge hn, lookup_settingUpdates hfield]
  split
  · rfl
  · rfl

theorem settingKey_mem (h : p ∈ settingMap) : p.2 ∈ aiEndpointKeys := by
  have hall : ∀ p ∈ settingMap, p.2 ∈ aiEndpointKeys := by decide
  exact hall p h

theorem attrOf_getGlobal (hload : rows.getGlobal c = .ok settings) (hkey : key ∈ aiEndpointKeys)
    (field : String) : attrOf field (settings.get key) = settingValue c rows key field := by
  obtain ⟨validated, hvalid, rfl⟩ := map_eq_ok.1 hload
  have hne : key ≠ "smtp_password" := by
    rintro rfl
    exact absurd hkey (by decide)
  have hf : fieldOf globalDefaults key (aiEndpointCheck c) ∈ globalFields c :=
    List.mem_append_right _ (List.mem_map_of_mem hkey)
  obtain ⟨j, hj, hlookup⟩ := lookup_validate (nodup_globalFields c) hvalid hf
  rw [JsonDict.get, lookup_maskSmtp _ hne, show validated.lookup key = some j from hlookup,
    Option.getD_some, settingValue]
  cases hrow : (rows.stored "global" none).lookup key with
  | none =>
    rw [Field.value_of_none hrow] at hj
    cases hj
    rfl
  | some j₀ =>
    rw [Field.value_of_lookup hrow] at hj
    have hcheck := mapError_eq_ok.1 hj
    have hcheck' : aiEndpointCheck c j₀ = .ok j := hcheck
    simp only [hcheck']

theorem explicitValue_eq_some (h : explicitValue c rows key field = some v) :
    v = settingValue c rows key field := by
  unfold explicitValue at h
  split at h
  · rename_i members hrow
    split at h
    · rename_i setting hcheck
      split at h
      · cases h
        simp only [settingValue, hrow, hcheck]
      · cases h
    · cases h
  · cases h

/-! ## When the order holds -/

/-- The settings are read, and name known providers. -/
def Loads (c : Coercions) (rows : SettingsTable) : Prop :=
  ∃ settings names, rows.getGlobal c = .ok settings ∧ providersOf settings = .ok names

/-- A field that is stored is not empty, and one that is not stored is empty in the settings
record (`enabled` never is); or the record has the value of the layers below. -/
def InOrder (c : Coercions) (env : String → String) (rows : SettingsTable)
    (p : AIProviderName × String) (field : String) : Prop :=
  settingValue c rows p.2 field = envOrBaseline env p.1 field ∨
    ((explicitValue c rows p.2 field).isSome = true ↔
      field = "enabled" ∨ (settingValue c rows p.2 field).truthy = true)

/-- Where nothing is loaded, the configuration must have been right before. -/
def LayersInOrder (c : Coercions) (env : String → String) (rows : SettingsTable)
    (config : AIBackendConfig) : Prop :=
  ∀ p ∈ settingMap, ∀ field ∈ endpointFields,
    (Loads c rows → InOrder c env rows p field) ∧
    (¬ Loads c rows → ((config.endpoints p.1).map fun ep => ep.get field) =
      some ((explicitValue c rows p.2 field).getD (envOrBaseline env p.1 field)))

theorem loadFromSettings_of_not_loads (h : ¬ Loads c rows) :
    (loadFromSettings c env rows config).2 = config := by
  rw [loadFromSettings]
  cases hload : rows.getGlobal c with
  | error e => rfl
  | ok settings =>
    cases hnames : providersOf settings with
    | error e => simp only [hnames]
    | ok names => exact (h ⟨settings, names, hload, hnames⟩).elim

/-- The value of a field once the settings are loaded. -/
theorem value_of_loads (h : Loads c rows) (hp : p ∈ settingMap) (hfield : field ∈ endpointFields) :
    (((loadFromSettings c env rows config).2.endpoints p.1).map fun ep => ep.get field) =
      some (if field = "enabled" ∨ (settingValue c rows p.2 field).truthy = true then
        settingValue c rows p.2 field else envOrBaseline env p.1 field) := by
  obtain ⟨settings, names, hload, hnames⟩ := h
  have hendpoints : (loadFromSettings c env rows config).2.endpoints p.1 =
      ((buildDefaultConfig env).endpoints p.1).map
        fun ep => ep.merge (settingUpdates (settings.get p.2)) := by
    have honly : settingMap.filter (fun q => q.1 = p.1) = [p] := by
      revert p
      decide
    have heach := overrideEach_apply Prod.fst
      (fun p ep => ep.merge (settingUpdates (settings.get p.2))) settingMap
      (buildDefaultConfig env).endpoints p.1
    rw [honly] at heach
    simp only [loadFromSettings, hload, hnames, heach, List.foldl_cons, List.foldl_nil]
  obtain ⟨base, hbase⟩ : ∃ base, baselineEndpoints p.1 = some base := by
    have hall : ∀ p ∈ settingMap, (baselineEndpoints p.1).isSome = true := by decide
    exact Option.isSome_iff_exists.1 (hall p hp)
  have henv := buildDefaultConfig_value env hbase field
  cases hep : (buildDefaultConfig env).endpoints p.1 with
  | none =>
    rw [hep] at henv
    cases henv
  | some ep =>
    rw [hep, Option.map_some, Option.some.injEq] at henv
    rw [hendpoints, hep, Option.map_some, Option.map_some, get_merge_settingUpdates hfield,
      attrOf_getGlobal hload (settingKey_mem hp), henv]

theorem effective_iff (hp : p ∈ settingMap) (hfield : field ∈ endpointFields) :
    (((loadFromSettings c env rows config).2.endpoints p.1).map fun ep => ep.get field) =
        some ((explicitValue c rows p.2 field).getD (envOrBaseline env p.1 field)) ↔
      (Loads c rows → InOrder c env rows p field) ∧
      (¬ Loads c rows → ((config.endpoints p.1).map fun ep => ep.get field) =
        some ((explicitValue c rows p.2 field).getD (envOrBaseline env p.1 field))) := by
  by_cases hloads : Loads c rows
  · rw [value_of_loads hloads hp hfield, Option.some.injEq, InOrder]
    simp only [hloads, forall_const, not_true_eq_false, false_implies, and_true]
    cases hexplicit : explicitValue c rows p.2 field with
    | none =>
      split
      · rename_i hgiven
        simp only [Option.getD_none, Option.isSome_none, hgiven, Bool.false_eq_true, iff_true,
          or_false]
      · rename_i hempty
        simp only [Option.getD_none, Option.isSome_none, hempty, Bool.false_eq_true, or_true]
    | some v =>
      rw [explicitValue_eq_some hexplicit]
      split
      · rename_i hgiven
        simp only [Option.getD_some, Option.isSome_some, hgiven, or_true]
      · rename_i hempty
        simp only [Option.getD_some, Option.isSome_some, hempty, iff_false, not_true_eq_false,
          or_false]
        exact eq_comm
  · rw [loadFromSettings_of_not_loads hloads]
    simp only [hloads, false_implies, not_false_eq_true, forall_const, true_and]

theorem loads_of_empty (h : rows.stored "global" none = []) : Loads c rows := by
  refine ⟨globalDefaults, (.claude_cli, [.dgx, .ollama, .claude_cli]), ?_, rfl⟩
  rw [SettingsTable.getGlobal, h]
  rfl

/-- The schema's notes on the CLI endpoint are not the baseline's. -/
theorem not_layersInOrder_of_empty (h : rows.stored "global" none = []) :
    ¬ LayersInOrder c env rows config := by
  intro hall
  have horder := (hall (.claude_cli, "ai_endpoint_claude_cli") (by decide) "notes" (by decide)).1
    (loads_of_empty h)
  have hv : settingValue c rows "ai_endpoint_claude_cli" "notes" =
      .str "Uses host Claude Code auth. No API key needed." := by
    rw [settingValue, h]
    rfl
  have hexplicit : explicitValue c rows "ai_endpoint_claude_cli" "notes" = none := by
    rw [explicitValue, h]
    rfl
  have henv : envOrBaseline env .claude_cli "notes" =
      .str "Uses host Claude Code auth. No API key needed. Always available." := rfl
  rw [InOrder, hv, hexplicit, henv] at horder
  rcases horder with hsame | hgiven
  · have hne := Json.str.inj hsame
    exact absurd hne (by decide)
  · exact absurd (hgiven.2 (.inr rfl)) (by decide)

theorem precedence_iff (c : Coercions) (env : String → String) (rows : SettingsTable)
    (config : AIBackendConfig) :
    Precedence c env rows config ↔ LayersInOrder c env rows config := by
  constructor
  · intro h p hp field hfield
    exact (effective_iff hp hfield).1 (h.effective p hp field hfield)
  · intro h
    refine ⟨fun p hp field hfield => (effective_iff hp hfield).2 (h p hp field hfield), ?_⟩
    intro hempty
    exact (not_layersInOrder_of_empty hempty h).elim

end

/-- No environment variable and no row is set. -/
theorem cli_notes_replaced : ¬ ∀ env rows, Precedence .strict env rows (buildDefaultConfig env) := by
  intro h
  have hnotes := (h (fun _ => "") []).effective (.claude_cli, "ai_endpoint_claude_cli") (by decide)
    "notes" (by decide)
  have hsame : some (Json.str "Uses host Claude Code auth. No API key needed.") =
      some (.str "Uses host Claude Code auth. No API key needed. Always available.") := hnotes
  have hne := Json.str.inj (Option.some.inj hsame)
  exact absurd hne (by decide)

end ScottyCore
