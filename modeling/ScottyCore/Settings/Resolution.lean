import ScottyCore.Settings.GlobalPatch

namespace ScottyCore
open Python Validation
set_option autoImplicit true

/-- The keys of the three schemas. -/
def settingsKeys : List String :=
  (globalDefaults ++ tenantDefaults ++ userDefaults).map Prod.fst

/-- `resolve_all` holds for a key what `resolve` returns for it (`None` when it is absent). -/
def ResolvesAlike (c : Coercions) (rows : SettingsTable) (key : String)
    (user_id tenant_id : Option String) : Prop :=
  ∃ resolved, rows.resolveAll c user_id tenant_id = .ok resolved ∧
    resolved.get key = rows.resolve key user_id tenant_id

/-- A row of a record holds a checked value of one of its fields. -/
structure ScopesOk (c : Coercions) (rows : SettingsTable) : Prop where
  distinct : rows.Distinct
  checked : ∀ (sc : SettingsScope), ∀ f ∈ sc.fields c, ∀ j,
    rows.get sc.name sc.scope_id f.name = some j → f.check j = .ok j
  only : ∀ (sc : SettingsScope) key, key ∉ (sc.fields c).map Field.name →
    rows.get sc.name sc.scope_id key = none

/-- What is in effect for a field of a record. -/
def SettingsScope.effective (sc : SettingsScope) (rows : SettingsTable) (f : Field) : Json :=
  (rows.get sc.name sc.scope_id f.name).getD f.default

def SettingsScope.view (c : Coercions) (rows : SettingsTable) (sc : SettingsScope) : JsonDict :=
  (sc.fields c).map fun f => (f.name, sc.effective rows f)

/-- A value, or another one in the place of null. -/
def nonNullOr : Json → Json → Json
  | .null, other => other
  | j, _ => j

section
variable {c : Coercions} {rows rows' : SettingsTable} {sc : SettingsScope} {key : String}
  {data settings : JsonDict}

/-! ## What the rows of a record hold -/

theorem SettingsScope.eq_of_place {sc sc' : SettingsScope} (hname : sc'.name = sc.name)
    (hid : sc'.scope_id = sc.scope_id) : sc' = sc := by
  cases sc with
  | global => cases sc' <;> simp_all [name, scope_id]
  | tenant i => cases sc' <;> simp_all [name, scope_id]
  | user i => cases sc' <;> simp_all [name, scope_id]

theorem ScopesOk.write (hc : c.Exact) (h : ScopesOk c rows) (sc : SettingsScope)
    (hv : validate (sc.fields c) data = .ok v) :
    ScopesOk c (rows.storeIn sc.name sc.scope_id v) := by
  have hn := sc.nodup_fields c
  have hown : ∀ key, (rows.storeIn sc.name sc.scope_id v).get sc.name sc.scope_id key =
      (v.lookup key).or (rows.get sc.name sc.scope_id key) :=
    rows.get_storeIn _ _ ((validate_ok hv).1 ▸ hn)
  have hplace : ∀ sc' : SettingsScope, sc' = sc ∨
      ¬ (sc'.name = sc.name ∧ sc'.scope_id = sc.scope_id) := by
    intro sc'
    by_cases hsame : sc'.name = sc.name ∧ sc'.scope_id = sc.scope_id
    · exact .inl (SettingsScope.eq_of_place hsame.1 hsame.2)
    · exact .inr hsame
  constructor
  · exact h.distinct.storeIn _ _ _ _
  · intro sc' f hf j hj
    rcases hplace sc' with rfl | hne
    · obtain ⟨x, hx, hlookup⟩ := lookup_validate hn hv hf
      rw [hown, hlookup] at hj
      cases hj
      have hagain := (sc'.settled_fields hc f hf).value_of_lookup hx hlookup
      rw [Field.value_of_lookup hlookup] at hagain
      exact mapError_eq_ok.1 hagain
    · rw [get_storeIn_of_ne hne] at hj
      exact h.checked sc' f hf j hj
  · intro sc' key hkey
    rcases hplace sc' with rfl | hne
    · rw [hown, lookup_validate_of_not_mem hv hkey, h.only sc' key hkey]
      rfl
    · rw [get_storeIn_of_ne hne]
      exact h.only sc' key hkey

theorem scopesOk_of_reachable (hc : c.Exact) (h : SettingsTable.Reachable c rows) :
    ScopesOk c rows := by
  induction h with
  | empty => exact ⟨List.nodup_nil, nofun, fun _ _ _ => rfl⟩
  | setGlobal _ _ hsave ih =>
    obtain ⟨current, -, hwrite⟩ := bind_eq_ok.1 hsave
    obtain ⟨v, hv, hpure⟩ := bind_eq_ok.1 hwrite
    cases hpure
    exact ih.write hc .global hv
  | @setTenant _ _ tenant_id _ _ _ hsave ih =>
    obtain ⟨current, -, hwrite⟩ := bind_eq_ok.1 hsave
    obtain ⟨v, hv, hpure⟩ := bind_eq_ok.1 hwrite
    cases hpure
    exact ih.write hc (.tenant tenant_id) hv
  | @setUser _ _ user_id _ _ _ hsave ih =>
    obtain ⟨current, -, hwrite⟩ := bind_eq_ok.1 hsave
    obtain ⟨v, hv, hpure⟩ := bind_eq_ok.1 hwrite
    cases hpure
    exact ih.write hc (.user user_id) hv

/-! ## What is read of a record -/

theorem ScopesOk.read (h : ScopesOk c rows) (sc : SettingsScope) :
    validate (sc.fields c) (rows.stored sc.name sc.scope_id) = .ok (sc.view c rows) := by
  apply validate_ok_of_forall
  intro f hf
  have hstored := rows.lookup_stored h.distinct sc.name sc.scope_id f.name
  rw [SettingsScope.effective]
  cases hthere : rows.get sc.name sc.scope_id f.name with
  | none => exact Field.value_of_none (hstored.trans hthere)
  | some j =>
    rw [Field.value_of_lookup (hstored.trans hthere), h.checked sc f hf j hthere]
    rfl

theorem keys_view : (sc.view c rows).map Prod.fst = (sc.fields c).map Field.name := by
  rw [SettingsScope.view, List.map_map]
  rfl

theorem get_view_of_mem (hf : f ∈ sc.fields c) :
    (sc.view c rows).get f.name = sc.effective rows f := by
  have hlookup : (sc.view c rows).lookup f.name = some (sc.effective rows f) := by
    apply lookup_of_mem
    · rw [keys_view]
      exact sc.nodup_fields c
    · exact List.mem_map_of_mem (f := fun f => (f.name, sc.effective rows f)) hf
  rw [JsonDict.get, hlookup]
  rfl

theorem get_view_of_not_mem (hkey : key ∉ (sc.fields c).map Field.name) :
    (sc.view c rows).get key = .null := by
  rw [JsonDict.get, JsonDict.lookup_eq_none_of_not_mem]
  · rfl
  · rw [keys_view]
    exact hkey

theorem nonNullOr_of_ne {j : Json} (h : j ≠ .null) (other : Json) : nonNullOr j other = j := by
  cases j with
  | null => exact (h rfl).elim
  | _ => rfl

theorem nonNullOr_null (j : Json) : nonNullOr j .null = j := by
  cases j with
  | null => rfl
  | _ => rfl

theorem overlay_cons_of_ne {d values : JsonDict} {j : Json} (h : j ≠ .null) :
    SettingsTable.overlay d ((k, j) :: values) = SettingsTable.overlay (d.set k j) values := by
  cases j with
  | null => exact (h rfl).elim
  | _ => rfl

theorem get_set (d : JsonDict) (k key : String) (j : Json) :
    (d.set k j).get key = if key = k then j else d.get key := by
  rw [JsonDict.get, JsonDict.lookup_set]
  split
  · rfl
  · rfl

theorem get_overlay {d values : JsonDict} (hn : (values.map Prod.fst).Nodup) (key : String) :
    (SettingsTable.overlay d values).get key = nonNullOr (values.get key) (d.get key) := by
  induction values generalizing d with
  | nil => rfl
  | cons p values ih =>
    obtain ⟨k, j⟩ := p
    obtain ⟨hnew, hvalues⟩ := List.nodup_cons.1 hn
    have hcons : JsonDict.get ((k, j) :: values) key =
        if key = k then j else JsonDict.get values key := by
      rw [JsonDict.get, JsonDict.lookup_cons]
      split
      · rfl
      · rfl
    have hrest : key = k → JsonDict.get values key = .null := by
      intro hk
      rw [JsonDict.get, JsonDict.lookup_eq_none_of_not_mem (hk ▸ hnew)]
      rfl
    rw [hcons]
    by_cases hnull : j = .null
    · subst hnull
      change (SettingsTable.overlay d values).get key = _
      have htail := ih (d := d) hvalues
      by_cases hk : key = k
      · rw [if_pos hk, htail, hrest hk]
      · rw [if_neg hk, htail]
    · rw [overlay_cons_of_ne hnull, ih hvalues, get_set]
      by_cases hk : key = k
      · rw [if_pos hk, if_pos hk, hrest hk, nonNullOr_of_ne hnull]
        rfl
      · rw [if_neg hk, if_neg hk]

/-- The record of a tier, when there is one. -/
def tierView (c : Coercions) (rows : SettingsTable) (scope : String → SettingsScope) :
    Option String → JsonDict
  | some i => (scope i).view c rows
  | none => []

theorem ScopesOk.resolveAll (h : ScopesOk c rows) (user_id tenant_id : Option String) :
    ∃ resolved, rows.resolveAll c user_id tenant_id = .ok resolved ∧
      ∀ key, key ≠ "smtp_password" → resolved.get key =
        nonNullOr ((tierView c rows .user user_id).get key)
          (nonNullOr ((tierView c rows .tenant tenant_id).get key)
            ((SettingsScope.global.view c rows).get key)) := by
  have hglobal : rows.getGlobal c = .ok (maskSmtp (SettingsScope.global.view c rows)) := by
    rw [SettingsTable.getGlobal, show validate (globalFields c) (rows.stored "global" none) = _
      from h.read .global]
    rfl
  have hnodup : ∀ (scope : String → SettingsScope) (id : Option String),
      ((tierView c rows scope id).map Prod.fst).Nodup := by
    intro scope id
    cases id with
    | none => exact List.nodup_nil
    | some i =>
      rw [tierView, keys_view]
      exact (scope i).nodup_fields c
  have htenant : ∀ i, rows.getTenant c i = .ok ((SettingsScope.tenant i).view c rows) :=
    fun i => h.read (.tenant i)
  have huser : ∀ i, rows.getUser c i = .ok ((SettingsScope.user i).view c rows) :=
    fun i => h.read (.user i)
  refine ⟨SettingsTable.overlay (SettingsTable.overlay (maskSmtp (SettingsScope.global.view c rows))
    (tierView c rows .tenant tenant_id)) (tierView c rows .user user_id), ?_, ?_⟩
  · rw [SettingsTable.resolveAll, hglobal]
    cases tenant_id with
    | none =>
      cases user_id with
      | none => rfl
      | some i =>
        simp only [huser]
        rfl
    | some t =>
      cases user_id with
      | none =>
        simp only [htenant]
        rfl
      | some i =>
        simp only [huser, htenant]
        rfl
  · intro key hkey
    rw [get_overlay (hnodup _ _), get_overlay (hnodup _ _), JsonDict.get.eq_def (maskSmtp _),
      lookup_maskSmtp _ hkey, ← JsonDict.get]

/-! ## The tier that a key belongs to -/

def SettingsScope.defaults : SettingsScope → JsonDict
  | .global => globalDefaults
  | .tenant _ => tenantDefaults
  | .user _ => userDefaults

theorem names_fields (c : Coercions) (sc : SettingsScope) :
    (sc.fields c).map Field.name = sc.defaults.map Prod.fst := by
  cases sc <;> rfl

/-- A record shows the row of a key, else its default. -/
theorem get_view (sc : SettingsScope) (key : String) (h : ScopesOk c rows) :
    (sc.view c rows).get key =
      ((rows.get sc.name sc.scope_id key).or (sc.defaults.lookup key)).getD .null := by
  have hfields : (sc.fields c).map (fun f => (f.name, f.default)) = sc.defaults := by
    cases sc <;> rfl
  by_cases hkey : key ∈ (sc.fields c).map Field.name
  · obtain ⟨f, hf, rfl⟩ := List.mem_map.1 hkey
    have hdefault : sc.defaults.lookup f.name = some f.default := by
      apply lookup_of_mem
      · rw [← names_fields c]
        exact sc.nodup_fields c
      · rw [← hfields]
        exact List.mem_map_of_mem (f := fun f => (f.name, f.default)) hf
    rw [get_view_of_mem hf, SettingsScope.effective, hdefault]
    cases rows.get sc.name sc.scope_id f.name <;> rfl
  · have hdefault : sc.defaults.lookup key = none := by
      apply JsonDict.lookup_eq_none_of_not_mem
      rw [← names_fields c]
      exact hkey
    rw [get_view_of_not_mem hkey, h.only sc key hkey, hdefault]
    rfl

/-- The row of a tier, when there is one. -/
def tierRow (rows : SettingsTable) (scope : String → SettingsScope) (id : Option String)
    (key : String) : Option Json :=
  id.bind fun i => rows.get (scope i).name (scope i).scope_id key

theorem resolve_eq (user_id tenant_id : Option String) : rows.resolve key user_id tenant_id =
    ((((tierRow rows .user user_id key).or (tierRow rows .tenant tenant_id key)).or
      (rows.get "global" none key)).or (((globalDefaults.lookup key).or
        (tenantDefaults.lookup key)).or (userDefaults.lookup key))).getD .null := rfl

/-- A key that is not among those of a tier. -/
theorem ScopesOk.tier_absent (h : ScopesOk c rows) (scope : String → SettingsScope)
    (hkey : ∀ i, key ∉ (scope i).defaults.map Prod.fst) (id : Option String) :
    (tierView c rows scope id).get key = .null ∧ tierRow rows scope id key = none := by
  cases id with
  | none => exact ⟨rfl, rfl⟩
  | some i =>
    have hfields := hkey i
    rw [← names_fields c] at hfields
    exact ⟨get_view_of_not_mem hfields, h.only (scope i) key hfields⟩

theorem ScopesOk.global_absent (h : ScopesOk c rows) (hkey : key ∉ globalDefaults.map Prod.fst) :
    (SettingsScope.global.view c rows).get key = .null ∧ rows.get "global" none key = none := by
  have hfields : key ∉ (SettingsScope.global.fields c).map Field.name := by
    rw [names_fields]
    exact hkey
  exact ⟨get_view_of_not_mem hfields, h.only .global key hfields⟩

/-- The keys of the schemas do not overlap. -/
theorem disjoint_keys : (∀ k ∈ globalDefaults.map Prod.fst,
      k ∉ tenantDefaults.map Prod.fst ∧ k ∉ userDefaults.map Prod.fst) ∧
    (∀ k ∈ tenantDefaults.map Prod.fst,
      k ∉ globalDefaults.map Prod.fst ∧ k ∉ userDefaults.map Prod.fst) ∧
    ∀ k ∈ userDefaults.map Prod.fst,
      k ∉ globalDefaults.map Prod.fst ∧ k ∉ tenantDefaults.map Prod.fst := by
  decide

/-- What `resolve_all` makes of the three tiers, against `resolve`. -/
def TiersAlike (c : Coercions) (rows : SettingsTable) (key : String)
    (user_id tenant_id : Option String) : Prop :=
  nonNullOr ((tierView c rows .user user_id).get key)
    (nonNullOr ((tierView c rows .tenant tenant_id).get key)
      ((SettingsScope.global.view c rows).get key)) = rows.resolve key user_id tenant_id

theorem ScopesOk.alike_global (h : ScopesOk c rows) (hkey : key ∈ globalDefaults.map Prod.fst)
    (user_id tenant_id : Option String) : TiersAlike c rows key user_id tenant_id := by
  obtain ⟨ht, hu⟩ := disjoint_keys.1 key hkey
  obtain ⟨htview, htrow⟩ := h.tier_absent .tenant (fun _ => ht) tenant_id
  obtain ⟨huview, hurow⟩ := h.tier_absent .user (fun _ => hu) user_id
  rw [TiersAlike, htview, huview, resolve_eq, htrow, hurow,
    JsonDict.lookup_eq_none_of_not_mem ht, JsonDict.lookup_eq_none_of_not_mem hu,
    Option.none_or, Option.none_or, Option.or_none, Option.or_none]
  exact get_view .global key h

/-- Every default of a tenant is null, as is what `resolve_all` does not set. -/
theorem ScopesOk.alike_tenant (h : ScopesOk c rows) (hkey : key ∈ tenantDefaults.map Prod.fst)
    (user_id tenant_id : Option String) : TiersAlike c rows key user_id tenant_id := by
  obtain ⟨hg, hu⟩ := disjoint_keys.2.1 key hkey
  obtain ⟨hgview, hgrow⟩ := h.global_absent hg
  obtain ⟨huview, hurow⟩ := h.tier_absent .user (fun _ => hu) user_id
  rw [TiersAlike, hgview, huview, nonNullOr_null, resolve_eq, hgrow, hurow,
    JsonDict.lookup_eq_none_of_not_mem hg, JsonDict.lookup_eq_none_of_not_mem hu,
    Option.none_or, Option.none_or, Option.or_none, Option.or_none]
  cases tenant_id with
  | none =>
    simp only [tenantDefaults, List.map_cons, List.map_nil, List.mem_cons, List.not_mem_nil,
      or_false] at hkey
    rcases hkey with rfl | rfl | rfl | rfl | rfl <;> rfl
  | some i => exact get_view (.tenant i) key h

theorem ScopesOk.alike_user_iff (h : ScopesOk c rows) (hkey : key ∈ userDefaults.map Prod.fst)
    (user_id tenant_id : Option String) : TiersAlike c rows key user_id tenant_id ↔
      (user_id = none → userDefaults.get key = .null) := by
  obtain ⟨hg, ht⟩ := disjoint_keys.2.2 key hkey
  obtain ⟨hgview, hgrow⟩ := h.global_absent hg
  obtain ⟨htview, htrow⟩ := h.tier_absent .tenant (fun _ => ht) tenant_id
  have hdefault : (globalDefaults.lookup key).or (tenantDefaults.lookup key) = none := by
    rw [JsonDict.lookup_eq_none_of_not_mem hg, JsonDict.lookup_eq_none_of_not_mem ht]
    rfl
  rw [TiersAlike, hgview, htview, nonNullOr_null, nonNullOr_null, resolve_eq, hgrow, htrow,
    hdefault, Option.or_none, Option.or_none, Option.none_or]
  cases user_id with
  | none => exact ⟨fun hsame _ => hsame.symm, fun hnull => (hnull rfl).symm⟩
  | some i =>
    apply iff_of_true (get_view (.user i) key h)
    intro hnone
    cases hnone

theorem resolves_alike_iff (hc : c.Exact) (h : SettingsTable.Reachable c rows)
    (hkey : key ∈ settingsKeys) (hne : key ≠ "smtp_password") (user_id tenant_id : Option String) :
    ResolvesAlike c rows key user_id tenant_id ↔
      (user_id = none → userDefaults.get key = .null) := by
  have hok := scopesOk_of_reachable hc h
  obtain ⟨resolved, hresolved, hall⟩ := hok.resolveAll user_id tenant_id
  have htiers : ResolvesAlike c rows key user_id tenant_id ↔
      TiersAlike c rows key user_id tenant_id := by
    rw [TiersAlike, ← hall key hne]
    constructor
    · rintro ⟨r, hr, hget⟩
      cases hresolved.symm.trans hr
      exact hget
    · exact fun hget => ⟨resolved, hresolved, hget⟩
  have hnull : key ∉ userDefaults.map Prod.fst → userDefaults.get key = .null := by
    intro hu
    rw [JsonDict.get, JsonDict.lookup_eq_none_of_not_mem hu]
    rfl
  rw [settingsKeys, List.map_append, List.map_append, List.mem_append, List.mem_append] at hkey
  rw [htiers]
  rcases hkey with (hglobal | htenant) | huser
  · have hu := (disjoint_keys.1 key hglobal).2
    exact iff_of_true (hok.alike_global hglobal _ _) fun _ => hnull hu
  · have hu := (disjoint_keys.2.1 key htenant).2
    exact iff_of_true (hok.alike_tenant htenant _ _) fun _ => hnull hu
  · exact hok.alike_user_iff huser _ _

end

/-! ## Example -/

theorem resolves_alike_app_name : ∃ rows : SettingsTable, SettingsTable.Reachable .strict rows ∧
    ∀ user_id tenant_id, ResolvesAlike .strict rows "branding_app_name" user_id tenant_id := by
  refine ⟨[], .empty, ?_⟩
  intro user_id tenant_id
  apply (resolves_alike_iff Coercions.strict_exact .empty (by decide) (by decide) _ _).2
  exact fun _ => rfl

/-- Nothing is stored, and there is no user. -/
theorem theme_unresolved : ¬ ∀ rows, SettingsTable.Reachable .strict rows → ∀ key ∈ settingsKeys,
    key ≠ "smtp_password" → ∀ user_id tenant_id,
      ResolvesAlike .strict rows key user_id tenant_id := by
  intro h
  obtain ⟨resolved, hresolved, hget⟩ :=
    h [] .empty "theme" (by decide) (by decide) none none
  have hglobal : resolved = globalDefaults := by
    have hok : SettingsTable.resolveAll .strict [] none none = .ok globalDefaults := rfl
    cases hok.symm.trans hresolved
    rfl
  rw [hglobal] at hget
  have hsame : Json.null = .str "system" := hget
  cases hsame

end ScottyCore
