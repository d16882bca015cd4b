import ScottyCore.Lib.Validation
import ScottyCore.Settings.Service

namespace ScottyCore
open Python Validation
set_option autoImplicit true

/-! ## `services/settings/schemas.py`, field by field -/

def fieldOf (defaults : JsonDict) (name : String) (check : Check) : Field :=
  ⟨name, defaults.get name, check⟩

section
variable (c : Coercions)

def aiEndpointFields : List Field :=
  [⟨"url", .str "", str⟩, ⟨"model", .str "", str⟩, ⟨"api_key", .str "", str⟩,
    ⟨"enabled", .bool false, c.boolCheck⟩, ⟨"context_window", .int 0, c.intCheck⟩,
    ⟨"priority", .int 0, c.intCheck⟩, ⟨"notes", .str "", str⟩]

def aiEndpointCheck : Check := model "AIEndpointSetting" (aiEndpointFields c)

def aiEndpointKeys : List String :=
  ["ai_endpoint_ollama", "ai_endpoint_dgx", "ai_endpoint_claude_cli", "ai_endpoint_claude_api",
    "ai_endpoint_openai", "ai_endpoint_azure_openai"]

def globalFields : List Field :=
  [fieldOf globalDefaults "auth_providers" (listOf str),
    fieldOf globalDefaults "session_timeout_minutes" (c.between 5 1440),
    fieldOf globalDefaults "password_min_length" (c.between 6 128),
    fieldOf globalDefaults "require_totp" c.boolCheck,
    fieldOf globalDefaults "retention_days_default" (c.between 1 3650),
    fieldOf globalDefaults "branding_app_name" (maxLength 80),
    fieldOf globalDefaults "smtp_host" (orNull str),
    fieldOf globalDefaults "smtp_port" (orNull (c.between 1 65535)),
    fieldOf globalDefaults "smtp_from" (orNull str),
    fieldOf globalDefaults "smtp_password" (orNull str),
    fieldOf globalDefaults "ai_default_provider" str,
    fieldOf globalDefaults "ai_fallback_chain" (listOf str)] ++
  aiEndpointKeys.map fun key => fieldOf globalDefaults key (aiEndpointCheck c)

def tenantFields : List Field :=
  [fieldOf tenantDefaults "retention_days_override" (orNull (c.between 1 3650)),
    fieldOf tenantDefaults "retention_days" (orNull (c.between 1 3650)),
    fieldOf tenantDefaults "notification_email" (orNull str),
    fieldOf tenantDefaults "custom_field_1" (orNull str),
    fieldOf tenantDefaults "custom_field_2" (orNull str)]

def userFields : List Field :=
  [fieldOf userDefaults "theme" (oneOf ["dark", "light", "system"]),
    fieldOf userDefaults "timezone" str,
    fieldOf userDefaults "default_tenant" (orNull str),
    fieldOf userDefaults "page_size" (c.between 10 200),
    fieldOf userDefaults "notifications_enabled" c.boolCheck]

/-- The fields of a model and what it dumps when nothing is given. -/
theorem globalFields_defaults :
    (globalFields c).map (fun f => (f.name, f.default)) = globalDefaults := rfl

theorem tenantFields_defaults :
    (tenantFields c).map (fun f => (f.name, f.default)) = tenantDefaults := rfl

theorem userFields_defaults :
    (userFields c).map (fun f => (f.name, f.default)) = userDefaults := rfl

theorem nodup_globalFields : ((globalFields c).map Field.name).Nodup := by
  change (globalDefaults.map Prod.fst).Nodup
  decide

theorem nodup_tenantFields : ((tenantFields c).map Field.name).Nodup := by
  change (tenantDefaults.map Prod.fst).Nodup
  decide

theorem nodup_userFields : ((userFields c).map Field.name).Nodup := by
  change (userDefaults.map Prod.fst).Nodup
  decide

theorem nodup_aiEndpointFields : ((aiEndpointFields c).map Field.name).Nodup := by
  change ["url", "model", "api_key", "enabled", "context_window", "priority", "notes"].Nodup
  decide

/-! ### Every default passes its own check -/

variable {c}

theorem settled_aiEndpointFields (hc : c.Exact) : ∀ f ∈ aiEndpointFields c, f.Settled := by
  simp only [aiEndpointFields, List.forall_mem_cons]
  exact ⟨⟨rfl, stable_str⟩, ⟨rfl, stable_str⟩, ⟨rfl, stable_str⟩,
    ⟨hc.boolCheck _, hc.stable_boolCheck⟩, ⟨hc.intCheck _, hc.stable_intCheck⟩,
    ⟨hc.intCheck _, hc.stable_intCheck⟩, ⟨rfl, stable_str⟩, nofun⟩

theorem stable_aiEndpointCheck (hc : c.Exact) : Stable (aiEndpointCheck c) :=
  stable_model (nodup_aiEndpointFields c) (settled_aiEndpointFields hc)

theorem aiEndpointCheck_aiEndpoint (hc : c.Exact) (url model : String) (enabled : Bool)
    (context_window priority : Int) (notes : String) :
    aiEndpointCheck c (aiEndpoint url model enabled context_window priority notes) =
      .ok (aiEndpoint url model enabled context_window priority notes) := by
  apply map_eq_ok.2
  refine ⟨_, validate_self (nodup_aiEndpointFields c) rfl ?_, rfl⟩
  simp only [aiEndpointFields, List.forall_mem_cons]
  refine ⟨?_, ?_, ?_, ?_, ?_, ?_, ?_, nofun⟩
  all_goals
    intro j hj
    cases hj
  · rfl
  · rfl
  · rfl
  · exact hc.boolCheck enabled
  · exact hc.intCheck context_window
  · exact hc.intCheck priority
  · rfl

theorem settled_globalFields (hc : c.Exact) : ∀ f ∈ globalFields c, f.Settled := by
  intro f hf
  rcases List.mem_append.1 hf with hplain | hendpoint
  · clear hf
    revert f
    simp only [List.forall_mem_cons]
    exact ⟨⟨rfl, stable_listOf stable_str⟩,
      ⟨hc.between (by decide) (by decide), hc.stable_between _ _⟩,
      ⟨hc.between (by decide) (by decide), hc.stable_between _ _⟩,
      ⟨hc.boolCheck _, hc.stable_boolCheck⟩,
      ⟨hc.between (by decide) (by decide), hc.stable_between _ _⟩,
      ⟨rfl, stable_maxLength _⟩, ⟨rfl, stable_orNull stable_str⟩,
      ⟨rfl, stable_orNull (hc.stable_between _ _)⟩, ⟨rfl, stable_orNull stable_str⟩,
      ⟨rfl, stable_orNull stable_str⟩, ⟨rfl, stable_str⟩, ⟨rfl, stable_listOf stable_str⟩, nofun⟩
  · clear hf
    obtain ⟨key, hkey, rfl⟩ := List.mem_map.1 hendpoint
    refine ⟨?_, stable_aiEndpointCheck hc⟩
    clear hendpoint
    revert key
    simp only [aiEndpointKeys, List.forall_mem_cons]
    exact ⟨aiEndpointCheck_aiEndpoint hc .., aiEndpointCheck_aiEndpoint hc ..,
      aiEndpointCheck_aiEndpoint hc .., aiEndpointCheck_aiEndpoint hc ..,
      aiEndpointCheck_aiEndpoint hc .., aiEndpointCheck_aiEndpoint hc .., nofun⟩

theorem settled_tenantFields (hc : c.Exact) : ∀ f ∈ tenantFields c, f.Settled := by
  simp only [tenantFields, List.forall_mem_cons]
  exact ⟨⟨rfl, stable_orNull (hc.stable_between _ _)⟩, ⟨rfl, stable_orNull (hc.stable_between _ _)⟩,
    ⟨rfl, stable_orNull stable_str⟩, ⟨rfl, stable_orNull stable_str⟩,
    ⟨rfl, stable_orNull stable_str⟩, nofun⟩

theorem settled_userFields (hc : c.Exact) : ∀ f ∈ userFields c, f.Settled := by
  simp only [userFields, List.forall_mem_cons]
  exact ⟨⟨rfl, stable_oneOf _⟩, ⟨rfl, stable_str⟩, ⟨rfl, stable_orNull stable_str⟩,
    ⟨hc.between (by decide) (by decide), hc.stable_between _ _⟩,
    ⟨hc.boolCheck _, hc.stable_boolCheck⟩, nofun⟩

end

end ScottyCore
