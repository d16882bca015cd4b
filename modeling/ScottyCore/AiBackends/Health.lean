import ScottyCore.AiBackends.Config

namespace ScottyCore
namespace AIBackends
open Python
set_option autoImplicit true

/-! ## `services/ai_backends/schemas.py` -/

structure EndpointConfig where
  url : String
  model : String
  api_key : String
  enabled : Bool

/-- `AIBackendConfig`: the endpoints stand in the order of the dictionary, one for each key. -/
structure EndpointsConfig where
  fallback_chain : List AIProviderName
  endpoints : List (AIProviderName × EndpointConfig)
  keys : (endpoints.map Prod.fst).Nodup

structure EndpointHealth where
  provider : AIProviderName
  url : String
  reachable : Bool
  model : String
  detail : String
  gpu_name : Option String
  gpu_vram_mb : Option Int

structure AIBackendStatus where
  active_provider : Option AIProviderName
  endpoints : List EndpointHealth
  claude_cli_available : Bool

/-! ## `services/ai_backends/service.py` -/

/-- What the checks of the service find, as long as nothing changes outside. -/
structure Reachability where
  /-- `_check_url_reachable(url)` -/
  url : String → Bool × String
  /-- `_check_claude_cli()` -/
  cli : Bool
  /-- `size_vram` of the first model that `/api/ps` names, else 0 -/
  size_vram : String → Int

/-- The loop of `resolve_provider` over the fallback chain. -/
def walkChain (w : Reachability) (endpoints : List (AIProviderName × EndpointConfig)) :
    List AIProviderName → AIProviderName
  | [] => .claude_cli
  | provider :: chain =>
    match endpoints.lookup provider with
    | none => walkChain w endpoints chain
    | some ep =>
      if ep.enabled = false then walkChain w endpoints chain
      else if provider = .claude_cli then
        if w.cli then provider else walkChain w endpoints chain
      else if ep.url ≠ "" ∧ (w.url ep.url).1 = true then provider
      else walkChain w endpoints chain

/-- `resolve_provider(requested)` -/
def resolveProvider (w : Reachability) (config : EndpointsConfig) (requested : String) :
    Except Python.Error AIProviderName :=
  let auto := walkChain w config.endpoints config.fallback_chain
  if requested = "auto" then .ok auto
  else
    match AIProviderName.ofJson (.str requested) with
    | .error e => .error e
    | .ok provider =>
      if provider = .claude_cli then .ok provider
      else
        match config.endpoints.lookup provider with
        | none => .ok auto
        | some ep =>
          if ep.enabled = true ∧ ep.url ≠ "" ∧ (w.url ep.url).1 = true then .ok provider
          else .ok auto

def gpuVram (w : Reachability) (url : String) : Option Int :=
  if w.size_vram url ≠ 0 then some (w.size_vram url / (1024 * 1024)) else none

/-- One round of `check_all_health`, on `results` and `active`. -/
def checkHealth (w : Reachability) (acc : List EndpointHealth × Option AIProviderName)
    (item : AIProviderName × EndpointConfig) : List EndpointHealth × Option AIProviderName :=
  let (results, active) := acc
  let (provider, ep) := item
  if ep.enabled = false then acc
  else if provider = .claude_cli then
    (results ++ [⟨provider, "(local CLI)", w.cli, ep.model,
        if w.cli then "claude binary found" else "claude binary not in PATH", none, none⟩],
      if w.cli = true ∧ active = none then some provider else active)
  else if provider = .claude_api then
    -- Can't health-check without making an API call; just report config
    (results ++ [⟨provider, "api.anthropic.com", decide (ep.api_key ≠ ""), ep.model,
        if ep.api_key ≠ "" then "API key configured" else "no API key", none, none⟩], active)
  else if ep.url = "" then acc
  else
    let (ok, detail) := w.url ep.url
    let gpu_vram :=
      if ok = true ∧ (provider = .ollama ∨ provider = .dgx) then gpuVram w ep.url else none
    (results ++ [⟨provider, ep.url, ok, ep.model, detail, none, gpu_vram⟩],
      if ok = true ∧ active = none then some provider else active)

def checkAllHealth (w : Reachability) (config : EndpointsConfig) : AIBackendStatus :=
  let (results, active) := config.endpoints.foldl (checkHealth w) ([], none)
  ⟨active, results, w.cli⟩

/-! ## What the two of them go by -/

/-- What the chain asks of an endpoint. -/
def Usable (w : Reachability) (provider : AIProviderName) (ep : EndpointConfig) : Prop :=
  ep.enabled = true ∧
    if provider = .claude_cli then w.cli = true else ep.url ≠ "" ∧ (w.url ep.url).1 = true

instance : Decidable (Usable w provider ep) := inferInstanceAs (Decidable (_ ∧ _))

def Available (w : Reachability) (config : EndpointsConfig) (provider : AIProviderName) : Prop :=
  ∃ ep, (provider, ep) ∈ config.endpoints ∧ Usable w provider ep

/-- The report and the resolution agree. -/
structure HealthAgrees (w : Reachability) (config : EndpointsConfig) : Prop where
  reported : ∀ health ∈ (checkAllHealth w config).endpoints, health.reachable = true →
    resolveProvider w config health.provider.value = .ok health.provider
  active : (∃ provider ∈ config.fallback_chain, Available w config provider) →
    (checkAllHealth w config).active_provider.map Except.ok = some (resolveProvider w config "auto")

/-- What stands before a provider in the dictionary. -/
def EndpointsConfig.before (config : EndpointsConfig) (provider : AIProviderName) :
    List (AIProviderName × EndpointConfig) :=
  config.endpoints.takeWhile fun item => item.1 ≠ provider

/-- A key for the Anthropic API comes with a URL that answers, and the dictionary has the first
available member of the chain before every other available provider. -/
structure OrderedAlike (w : Reachability) (config : EndpointsConfig) : Prop where
  claude_api : ∀ ep, (.claude_api, ep) ∈ config.endpoints → ep.enabled = true → ep.api_key ≠ "" →
    ep.url ≠ "" ∧ (w.url ep.url).1 = true
  chain : ∀ skipped provider rest, config.fallback_chain = skipped ++ provider :: rest →
    (∀ p ∈ skipped, ¬ Available w config p) → Available w config provider →
    provider ≠ .claude_api ∧
      ∀ item ∈ config.before provider, item.1 ≠ .claude_api → ¬ Usable w item.1 item.2

section
variable {w : Reachability} {config : EndpointsConfig} {p q provider : AIProviderName}
  {ep : EndpointConfig} {acc : List EndpointHealth × Option AIProviderName}

theorem EndpointsConfig.lookup_iff (config : EndpointsConfig) :
    config.endpoints.lookup p = some ep ↔ (p, ep) ∈ config.endpoints := by
  refine ⟨?_, lookup_of_mem config.keys⟩
  intro h
  obtain ⟨l₁, l₂, hsplit, -⟩ := List.lookup_eq_some_iff.1 h
  rw [hsplit]
  exact List.mem_append_right l₁ List.mem_cons_self

theorem ofJson_value (p : AIProviderName) : AIProviderName.ofJson (.str p.value) = .ok p := by
  cases p <;> rfl

theorem value_ne_auto (p : AIProviderName) : p.value ≠ "auto" := by
  cases p <;> decide

/-! ## The chain -/

theorem walkChain_take (h : Available w config p) (chain : List AIProviderName) :
    walkChain w config.endpoints (p :: chain) = p := by
  obtain ⟨ep, hep, henabled, huse⟩ := h
  rw [walkChain, config.lookup_iff.2 hep]
  by_cases hp : p = .claude_cli
  · simp_all
  · simp_all

theorem walkChain_skip (h : ¬ Available w config p) (chain : List AIProviderName) :
    walkChain w config.endpoints (p :: chain) = walkChain w config.endpoints chain := by
  rw [walkChain]
  cases hep : config.endpoints.lookup p with
  | none => rfl
  | some ep =>
    have huse : ¬ Usable w p ep := fun h' => h ⟨ep, config.lookup_iff.1 hep, h'⟩
    rw [Usable] at huse
    by_cases hp : p = .claude_cli
    · simp_all
    · simp_all

theorem walkChain_append {skipped : List AIProviderName}
    (hskipped : ∀ p ∈ skipped, ¬ Available w config p) (chain : List AIProviderName) :
    walkChain w config.endpoints (skipped ++ chain) = walkChain w config.endpoints chain := by
  induction skipped with
  | nil => rfl
  | cons p skipped ih =>
    rw [List.cons_append, walkChain_skip (hskipped p List.mem_cons_self)]
    exact ih fun q hq => hskipped q (List.mem_cons_of_mem p hq)

/-- The first available member, where there is one. -/
theorem first_available {chain : List AIProviderName}
    (h : ∃ provider ∈ chain, Available w config provider) :
    ∃ skipped provider rest, chain = skipped ++ provider :: rest ∧
      (∀ p ∈ skipped, ¬ Available w config p) ∧ Available w config provider := by
  induction chain with
  | nil =>
    obtain ⟨p, hp, _⟩ := h
    cases hp
  | cons q chain ih =>
    by_cases hq : Available w config q
    · exact ⟨[], q, chain, rfl, fun p hp => (by cases hp), hq⟩
    · have hrest : ∃ provider ∈ chain, Available w config provider := by
        obtain ⟨p, hp, hav⟩ := h
        rcases List.mem_cons.1 hp with rfl | hp
        · exact (hq hav).elim
        · exact ⟨p, hp, hav⟩
      obtain ⟨skipped, p, rest, rfl, hskipped, hav⟩ := ih hrest
      refine ⟨q :: skipped, p, rest, rfl, ?_, hav⟩
      intro p' hp'
      rcases List.mem_cons.1 hp' with rfl | hp'
      · exact hq
      · exact hskipped p' hp'

/-- The chain gives an available provider or the last resort. -/
theorem walkChain_available (w : Reachability) (config : EndpointsConfig)
    (chain : List AIProviderName) : walkChain w config.endpoints chain = .claude_cli ∨
      Available w config (walkChain w config.endpoints chain) := by
  induction chain with
  | nil => exact .inl rfl
  | cons p chain ih =>
    by_cases hp : Available w config p
    · rw [walkChain_take hp]
      exact .inr hp
    · rw [walkChain_skip hp]
      exact ih

theorem resolveProvider_auto (w : Reachability) (config : EndpointsConfig) :
    resolveProvider w config "auto" = .ok (walkChain w config.endpoints config.fallback_chain) := by
  simp only [resolveProvider, if_true]

theorem resolveProvider_available (h : Available w config p) :
    resolveProvider w config p.value = .ok p := by
  obtain ⟨ep, hep, henabled, huse⟩ := h
  have hlookup := config.lookup_iff.2 hep
  by_cases hp : p = .claude_cli
  · simp only [resolveProvider, value_ne_auto, if_false, ofJson_value, hp, if_true]
  · rw [if_neg hp] at huse
    simp only [resolveProvider, value_ne_auto, if_false, ofJson_value, hp, hlookup]
    exact if_pos ⟨henabled, huse⟩

theorem resolveProvider_unavailable (hp : p ≠ .claude_cli) (h : ¬ Available w config p) :
    resolveProvider w config p.value =
      .ok (walkChain w config.endpoints config.fallback_chain) := by
  cases hep : config.endpoints.lookup p with
  | none => simp only [resolveProvider, value_ne_auto, if_false, ofJson_value, hp, hep]
  | some ep =>
    have huse : ¬ Usable w p ep := fun h' => h ⟨ep, config.lookup_iff.1 hep, h'⟩
    rw [Usable, if_neg hp] at huse
    simp only [resolveProvider, value_ne_auto, if_false, ofJson_value, hp, hep, huse]

/-- A provider other than the CLI is resolved to itself exactly when it is available. -/
theorem resolves_to_itself_iff (hp : p ≠ .claude_cli) :
    resolveProvider w config p.value = .ok p ↔ Available w config p := by
  refine ⟨?_, resolveProvider_available⟩
  intro h
  by_contra hav
  rw [resolveProvider_unavailable hp hav] at h
  rcases walkChain_available w config config.fallback_chain with hcli | hchain
  · rw [hcli] at h
    exact hp (Except.ok.inj h).symm
  · rw [Except.ok.inj h] at hchain
    exact hav hchain

/-! ## The report -/

/-- What makes an endpoint reachable in the report. -/
def Reported (w : Reachability) (provider : AIProviderName) (ep : EndpointConfig) : Prop :=
  ep.enabled = true ∧
    if provider = .claude_api then ep.api_key ≠ "" else Usable w provider ep

theorem reported_checkHealth (w : Reachability) (acc : List EndpointHealth × Option AIProviderName)
    (item : AIProviderName × EndpointConfig) :
    (∃ health ∈ (checkHealth w acc item).1, health.provider = q ∧ health.reachable = true) ↔
      (∃ health ∈ acc.1, health.provider = q ∧ health.reachable = true) ∨
        item.1 = q ∧ Reported w item.1 item.2 := by
  obtain ⟨results, active⟩ := acc
  obtain ⟨provider, ep⟩ := item
  simp only [checkHealth, Reported, Usable]
  by_cases henabled : ep.enabled = false
  · simp [henabled]
  by_cases hcli : provider = .claude_cli
  · subst hcli
    simp [henabled, or_and_right, exists_or]
  by_cases hapi : provider = .claude_api
  · subst hapi
    simp [henabled, or_and_right, exists_or]
  by_cases hurl : ep.url = ""
  · simp [henabled, hcli, hapi, hurl]
  · simp [henabled, hcli, hapi, hurl, or_and_right, exists_or]

theorem reported_iff (w : Reachability) (config : EndpointsConfig) (q : AIProviderName) :
    (∃ health ∈ (checkAllHealth w config).endpoints,
      health.provider = q ∧ health.reachable = true) ↔
      ∃ ep, (q, ep) ∈ config.endpoints ∧ Reported w q ep := by
  have hfold : ∀ (items : List (AIProviderName × EndpointConfig)) acc,
      (∃ health ∈ (items.foldl (checkHealth w) acc).1,
        health.provider = q ∧ health.reachable = true) ↔
        (∃ health ∈ acc.1, health.provider = q ∧ health.reachable = true) ∨
          ∃ ep, (q, ep) ∈ items ∧ Reported w q ep := by
    intro items
    induction items with
    | nil => simp
    | cons item items ih =>
      intro acc
      rw [List.foldl_cons, ih, reported_checkHealth, or_assoc]
      apply or_congr Iff.rfl
      obtain ⟨provider, ep⟩ := item
      simp only [List.mem_cons, Prod.mk.injEq, or_and_right, exists_or]
      apply or_congr
      · constructor
        · rintro ⟨rfl, h⟩
          exact ⟨ep, ⟨rfl, rfl⟩, h⟩
        · rintro ⟨ep', ⟨rfl, rfl⟩, h⟩
          exact ⟨rfl, h⟩
      · exact Iff.rfl
  have h := hfold config.endpoints ([], none)
  change (∃ health ∈ (config.endpoints.foldl (checkHealth w) ([], none)).1, _) ↔ _
  simpa using h

/-- What makes an endpoint the active one: the API of Anthropic never is. -/
theorem active_checkHealth (w : Reachability) (acc : List EndpointHealth × Option AIProviderName)
    (item : AIProviderName × EndpointConfig) : (checkHealth w acc item).2 =
      acc.2.or (if item.1 ≠ .claude_api ∧ Usable w item.1 item.2 then some item.1 else none) := by
  obtain ⟨results, active⟩ := acc
  obtain ⟨provider, ep⟩ := item
  simp only [checkHealth, Usable]
  by_cases henabled : ep.enabled = false
  · simp [henabled]
  by_cases hcli : provider = .claude_cli
  · subst hcli
    cases active <;> simp [henabled]
  by_cases hapi : provider = .claude_api
  · subst hapi
    simp [henabled]
  by_cases hurl : ep.url = ""
  · simp [henabled, hcli, hapi, hurl]
  · cases active <;> simp [henabled, hcli, hapi, hurl]

theorem active_eq (w : Reachability) (config : EndpointsConfig) :
    (checkAllHealth w config).active_provider = (config.endpoints.find? fun item =>
      item.1 ≠ .claude_api ∧ Usable w item.1 item.2).map Prod.fst := by
  have hfold : ∀ (items : List (AIProviderName × EndpointConfig)) acc,
      (items.foldl (checkHealth w) acc).2 = acc.2.or ((items.find? fun item =>
        item.1 ≠ .claude_api ∧ Usable w item.1 item.2).map Prod.fst) := by
    intro items
    induction items with
    | nil => simp
    | cons item items ih =>
      intro acc
      rw [List.foldl_cons, ih, active_checkHealth, Option.or_assoc, List.find?_cons]
      by_cases h : item.1 ≠ .claude_api ∧ Usable w item.1 item.2
      · simp [h]
      · simp [h]
  have h := hfold config.endpoints ([], none)
  change (config.endpoints.foldl (checkHealth w) ([], none)).2 = _
  simpa using h

theorem find_key_iff {items : List (AIProviderName × EndpointConfig)}
    (hn : (items.map Prod.fst).Nodup) (P : AIProviderName × EndpointConfig → Bool) :
    (items.find? P).map Prod.fst = some p ↔ (∃ ep, (p, ep) ∈ items ∧ P (p, ep) = true) ∧
      ∀ item ∈ items.takeWhile fun item => item.1 ≠ p, P item = false := by
  induction items with
  | nil => simp
  | cons item items ih =>
    obtain ⟨k, e⟩ := item
    obtain ⟨hk, hn⟩ := List.nodup_cons.1 hn
    by_cases hkp : k = p
    · subst hkp
      have hnot : ∀ ep, (k, ep) ∉ items := fun ep h =>
        hk (List.mem_map.2 ⟨(k, ep), h, rfl⟩)
      cases hP : P (k, e) with
      | true => simp [hP]
      | false =>
        have hrest : (items.find? P).map Prod.fst ≠ some k := by
          rw [ne_eq, ih hn]
          rintro ⟨⟨ep, h, _⟩, _⟩
          exact hnot ep h
        rw [List.find?_cons, hP]
        simp [hrest, hnot, hP]
    · cases hP : P (k, e) with
      | true => simp [hP, hkp]
      | false =>
        rw [List.find?_cons, hP]
        simp [ih hn, hkp, hP, Ne.symm hkp]

/-! ## When they agree -/

theorem reported_law (w : Reachability) (config : EndpointsConfig) :
    (∀ health ∈ (checkAllHealth w config).endpoints, health.reachable = true →
      resolveProvider w config health.provider.value = .ok health.provider) ↔
      ∀ ep, (.claude_api, ep) ∈ config.endpoints → ep.enabled = true → ep.api_key ≠ "" →
        ep.url ≠ "" ∧ (w.url ep.url).1 = true := by
  constructor
  · intro h ep hep henabled hkey
    obtain ⟨health, hhealth, hprovider, hreachable⟩ :=
      (reported_iff w config .claude_api).2 ⟨ep, hep, henabled, hkey⟩
    have hresolved := h health hhealth hreachable
    rw [hprovider, resolves_to_itself_iff AIProviderName.noConfusion] at hresolved
    obtain ⟨ep', hep', -, huse⟩ := hresolved
    have hlookup := config.lookup_iff.2 hep
    rw [config.lookup_iff.2 hep'] at hlookup
    cases hlookup
    exact huse
  · intro h health hhealth hreachable
    obtain ⟨ep, hep, henabled, huse⟩ :=
      (reported_iff w config health.provider).1 ⟨health, hhealth, rfl, hreachable⟩
    apply resolveProvider_available
    by_cases hapi : health.provider = .claude_api
    · rw [hapi] at hep huse ⊢
      exact ⟨ep, hep, henabled, h ep hep henabled huse⟩
    · rw [if_neg hapi] at huse
      exact ⟨ep, hep, huse⟩

theorem active_law_iff {skipped rest : List AIProviderName}
    (hchain : config.fallback_chain = skipped ++ provider :: rest)
    (hskipped : ∀ p ∈ skipped, ¬ Available w config p) (hav : Available w config provider) :
    (checkAllHealth w config).active_provider.map Except.ok =
        some (resolveProvider w config "auto") ↔
      provider ≠ .claude_api ∧
        ∀ item ∈ config.before provider, item.1 ≠ .claude_api → ¬ Usable w item.1 item.2 := by
  have hwalk : walkChain w config.endpoints config.fallback_chain = provider := by
    rw [hchain, walkChain_append hskipped, walkChain_take hav]
  have hok : ∀ o : Option AIProviderName, o.map Except.ok =
      some (Except.ok provider : Except Python.Error AIProviderName) ↔ o = some provider := by
    intro o
    cases o <;> simp
  rw [resolveProvider_auto, hwalk, hok, active_eq, find_key_iff config.keys]
  simp only [decide_eq_true_eq, decide_eq_false_iff_not, not_and, EndpointsConfig.before]
  apply and_congr
  · constructor
    · rintro ⟨ep, -, hne, -⟩
      exact hne
    · intro hne
      obtain ⟨ep, hep, huse⟩ := hav
      exact ⟨ep, hep, hne, huse⟩
  · exact Iff.rfl

theorem health_agrees_iff (w : Reachability) (config : EndpointsConfig) :
    HealthAgrees w config ↔ OrderedAlike w config := by
  constructor
  · intro h
    refine ⟨(reported_law w config).1 h.reported, ?_⟩
    intro skipped provider rest hchain hskipped hav
    have hmem : provider ∈ config.fallback_chain := by
      rw [hchain]
      exact List.mem_append_right _ List.mem_cons_self
    exact (active_law_iff hchain hskipped hav).1 (h.active ⟨provider, hmem, hav⟩)
  · intro h
    refine ⟨(reported_law w config).2 h.claude_api, ?_⟩
    intro hsome
    obtain ⟨skipped, provider, rest, hchain, hskipped, hav⟩ := first_available hsome
    exact (active_law_iff hchain hskipped hav).2 (h.chain skipped provider rest hchain hskipped hav)

end

/-- Everything answers, the chain begins with the remote endpoint, the dictionary with the CLI. -/
theorem active_not_first_of_chain : ¬ ∀ w config, HealthAgrees w config := by
  intro h
  have hactive := (h ⟨fun _ => (true, "reachable"), true, fun _ => 0⟩
    ⟨[.dgx, .ollama, .claude_cli],
      [(.claude_cli, ⟨"", "opus", "", true⟩),
        (.dgx, ⟨"http://192.168.150.111:11434", "qwen3.5:35b-a3b", "", true⟩)], by decide⟩).active
    ⟨.dgx, by decide, _, List.mem_cons_of_mem _ List.mem_cons_self, rfl, by decide, rfl⟩
  have hsame : some (Except.ok AIProviderName.claude_cli : Except Python.Error AIProviderName) =
      some (.ok .dgx) := hactive
  cases hsame

end AIBackends
end ScottyCore
