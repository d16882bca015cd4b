import ScottyCore.Auth.Resolver
import ScottyCore.Files.Tenants

namespace ScottyCore
open Python TransitionSystem
set_option autoImplicit true

/-! ## `services/tenants/service.py`, the API keys -/

/-- `update(tenant, api_key_hash=..., api_key_prefix=...)` -/
def TenantRepository.updateKey (tenant : Tenant) (api_key_hash api_key_prefix : String)
    (t : TenantTable) : Except AppError (Tenant × TenantTable) :=
  flush { tenant with
    api_key_hash := some api_key_hash
    api_key_prefix := some api_key_prefix } t

namespace TenantsService

variable (u : Unicode) (auth : AuthService Token)

/-- `rotate_api_key`: the row after it. The response is `raw_key`. -/
def rotateApiKey (slug raw_key : String) (salt : Nat) (t : TenantTable) :
    Except AppError (Tenant × TenantTable) :=
  let key_hash := auth.hashPassword salt raw_key
  let api_key_prefix := auth.libs.sha256_prefix raw_key
  match TenantRepository.getBySlug slug t with
  | none => .error (.notFound "Tenant" slug)
  | some tenant => TenantRepository.updateKey tenant key_hash api_key_prefix t

def getByApiKeyPrefix ( api_key_prefix : String) (t : TenantTable) : Option Tenant :=
  t.rows.find? fun tenant => tenant.api_key_prefix = some api_key_prefix

def verifyApiKey (api_key : String) (t : TenantTable) : Option TenantRead :=
  match getByApiKeyPrefix (auth.libs.sha256_prefix api_key) t with
  | none => none
  | some tenant =>
    match given tenant.api_key_hash with
    | none => none
    | some hashed =>
      if auth.verifyPassword api_key hashed then some (.modelValidate tenant) else none

end TenantsService

/-! ## Calls one after another -/

inductive TenantAction where
  | create (data : TenantCreate) (new_uuid : Uuid)
  | update (slug : String) (data : TenantUpdate)
  | rotate (slug raw_key : String) (salt : Nat)

/-- A call with the row that it returns. -/
abbrev TenantOutcome := TenantAction × Except AppError Tenant

namespace TenantsService

variable (u : Unicode) (auth : AuthService Token)

def perform (action : TenantAction) (t : TenantTable) : Except AppError (Tenant × TenantTable) :=
  match action with
  | .create data new_uuid => create u data new_uuid t
  | .update slug data => update u slug data t
  | .rotate slug raw_key salt => rotateApiKey auth slug raw_key salt t

/-- What a call raises leaves the rows as they are. -/
inductive Step (t : TenantTable) : TenantOutcome → TenantTable → Prop where
  | failed : perform u auth action t = .error e → Step t (action, .error e) t
  | done : perform u auth action t = .ok (tenant, t') → Step t (action, .ok tenant) t'

end TenantsService

/-- The key that a call issues, and to which tenant. -/
def issuesKey : TenantOutcome → Option (Uuid × String)
  | (.rotate _ raw_key _, .ok tenant) => some (tenant.id, raw_key)
  | _ => none

/-- The key most recently issued to a tenant. -/
def currentKey (as : List TenantOutcome) (id : Uuid) : Option String := lastFor issuesKey as id

/-- The key that a tenant was issued last verifies it while it is active, and no other key does. -/
structure ApiKeyExact (auth : AuthService Token) (as : List TenantOutcome) (t : TenantTable)
    (api_key : String) : Prop where
  current : ∀ tenant ∈ t.rows, TenantsService.verifyApiKey auth api_key t =
      some (TenantRead.modelValidate tenant) ↔
    currentKey as tenant.id = some api_key ∧ tenant.is_active = true
  stored : ∀ read, TenantsService.verifyApiKey auth api_key t = some read →
    ∃ tenant ∈ t.rows, read = TenantRead.modelValidate tenant

/-! ## What a call writes -/

/-- The row that a call writes, from the row that was there. -/
inductive TenantWritten (u : Unicode) (auth : AuthService Token) (t : TenantTable) :
    TenantAction → Tenant → Prop where
  | create {data : TenantCreate} : t.find new_uuid = none →
      TenantWritten u auth t (.create data new_uuid)
        { id := new_uuid, name := data.name, slug := slugify u data.name }
  | update {data : TenantUpdate} : tenant ∈ t.rows →
      TenantWritten u auth t (.update tenant.slug data) { tenant with
        name := data.name.join.getD tenant.name
        slug := (TenantsService.slugUpdate u data).getD tenant.slug
        is_active := data.is_active.join.getD tenant.is_active }
  | rotate : tenant ∈ t.rows →
      TenantWritten u auth t (.rotate tenant.slug raw_key salt) { tenant with
        api_key_hash := some (auth.hashPassword salt raw_key)
        api_key_prefix := some (auth.libs.sha256_prefix raw_key) }

section
variable {u : Unicode} {auth : AuthService Token} {t t' : TenantTable} {action : TenantAction}
  {tenant : Tenant} {as : List TenantOutcome} {a : TenantOutcome} {id id' : Uuid}
  {read : TenantRead}

theorem tenantWritten_of_perform (h : TenantsService.perform u auth action t = .ok (tenant, t')) :
    TenantWritten u auth t action tenant ∧ t' = t.upsert tenant := by
  cases action with
  | create data new_uuid =>
    rw [TenantsService.perform, TenantsService.create] at h
    split at h
    · cases h
    rw [TenantRepository.create] at h
    split at h
    · cases h
    rename_i hfresh
    obtain ⟨rfl, rfl, -⟩ := TenantRepository.flush_ok h
    exact ⟨.create (Option.not_isSome_iff_eq_none.1 hfresh), rfl⟩
  | update slug data =>
    rw [TenantsService.perform, TenantsService.update] at h
    split at h
    · cases h
    rename_i found hfound
    obtain ⟨hmem, rfl⟩ := TenantRepository.getBySlug_eq_some hfound
    obtain ⟨rfl, rfl, -⟩ := TenantRepository.flush_ok h
    exact ⟨.update hmem, rfl⟩
  | rotate slug raw_key salt =>
    rw [TenantsService.perform, TenantsService.rotateApiKey] at h
    split at h
    · cases h
    rename_i found hfound
    obtain ⟨hmem, rfl⟩ := TenantRepository.getBySlug_eq_some hfound
    obtain ⟨rfl, rfl, -⟩ := TenantRepository.flush_ok h
    exact ⟨.rotate hmem, rfl⟩

/-- The check of a request is the same one, on the rows of the store. -/
theorem verifyApiKey_of_store {store : UserStore} (h : store.tenants = t.rows) (api_key : String) :
    TenantsService.verifyApiKey auth api_key t =
      (auth.verifyApiKey api_key store).map TenantRead.modelValidate := by
  rw [TenantsService.verifyApiKey, TenantsService.getByApiKeyPrefix, AuthService.verifyApiKey, h]
  cases t.rows.find? fun tenant =>
    tenant.api_key_prefix = some (auth.libs.sha256_prefix api_key) with
  | none => rfl
  | some tenant =>
    dsimp only
    cases given tenant.api_key_hash with
    | none => rfl
    | some hashed =>
      dsimp only
      split
      · rfl
      · rfl

/-! ## What the rows hold of the keys -/

/-- The columns of a key, or of no key. -/
def HoldsKey (auth : AuthService Token) (tenant : Tenant) : Option String → Prop
  | none => tenant.api_key_prefix = none ∧ tenant.api_key_hash = none
  | some key => tenant.api_key_prefix = some (auth.libs.sha256_prefix key) ∧
      ∃ salt, tenant.api_key_hash = some (auth.hashPassword salt key)

structure TenantKeysMatch (auth : AuthService Token) (as : List TenantOutcome) (t : TenantTable) :
    Prop where
  holds : ∀ tenant ∈ t.rows, HoldsKey auth tenant (currentKey as tenant.id)
  stored : ∀ id, t.find id = none → currentKey as id = none

theorem HoldsKey.congr {tenant tenant' : Tenant} {key : Option String}
    (h : HoldsKey auth tenant key) (hdigest : tenant'.api_key_prefix = tenant.api_key_prefix)
    (hhash : tenant'.api_key_hash = tenant.api_key_hash) : HoldsKey auth tenant' key := by
  cases key with
  | none => exact ⟨hdigest.trans h.1, hhash.trans h.2⟩
  | some k =>
    obtain ⟨hp, salt, hh⟩ := h
    exact ⟨hdigest.trans hp, salt, hhash.trans hh⟩

/-- A row is written, with the key that it is to hold from now on. -/
theorem TenantKeysMatch.upsert (h : TenantKeysMatch auth as t)
    (hold : ∀ id, id ≠ tenant.id → currentKey (as ++ [a]) id = currentKey as id)
    (hnew : HoldsKey auth tenant (currentKey (as ++ [a]) tenant.id)) :
    TenantKeysMatch auth (as ++ [a]) (t.upsert tenant) := by
  constructor
  · intro other hother
    rcases KeyedTable.mem_upsert_iff.1 hother with rfl | ⟨hmem, hne⟩
    · exact hnew
    · rw [hold other.id hne]
      exact h.holds other hmem
  · intro id hid
    rw [KeyedTable.find_upsert] at hid
    by_cases hsame : id = tenant.id
    · rw [if_pos hsame] at hid
      cases hid
    · rw [if_neg hsame] at hid
      rw [hold id hsame]
      exact h.stored id hid

theorem TenantKeysMatch.step (h : TenantKeysMatch auth as t)
    (hstep : TenantsService.Step u auth t a t') : TenantKeysMatch auth (as ++ [a]) t' := by
  cases hstep with
  | @failed action e hfail =>
    have hnone : issuesKey (action, .error e) = none := by
      cases action <;> rfl
    have hsame : ∀ id, currentKey (as ++ [(action, .error e)]) id = currentKey as id :=
      lastFor_concat_of_none hnone
    constructor
    · intro tenant htenant
      rw [hsame]
      exact h.holds tenant htenant
    · intro id hid
      rw [hsame]
      exact h.stored id hid
  | done hdone =>
    obtain ⟨hwritten, rfl⟩ := tenantWritten_of_perform hdone
    cases hwritten with
    | @create new_uuid data hfresh =>
      have hsame : ∀ r id, currentKey (as ++ [(.create data new_uuid, r)]) id = currentKey as id :=
        fun r => lastFor_concat_of_none rfl
      apply h.upsert fun id _ => hsame _ id
      rw [hsame, h.stored _ hfresh]
      exact ⟨rfl, rfl⟩
    | @update old data hmem =>
      have hsame : ∀ r id, currentKey (as ++ [(.update old.slug data, r)]) id = currentKey as id :=
        fun r => lastFor_concat_of_none rfl
      apply h.upsert fun id _ => hsame _ id
      rw [hsame]
      exact (h.holds old hmem).congr rfl rfl
    | @rotate old raw_key salt hmem =>
      have hlast : ∀ (row : Tenant) id,
          currentKey (as ++ [(.rotate old.slug raw_key salt, .ok row)]) id =
            if id = row.id then some raw_key else currentKey as id :=
        fun row => lastFor_concat_of_some rfl
      apply h.upsert
      · intro id hne
        rw [hlast, if_neg hne]
      · rw [hlast, if_pos rfl]
        exact ⟨rfl, salt, rfl⟩

theorem tenantKeysMatch_run (hrun : Run (TenantsService.Step u auth) ∅ as t) :
    TenantKeysMatch auth as t := by
  induction hrun with
  | nil => exact ⟨fun tenant htenant => (by cases htenant), fun _ _ => rfl⟩
  | snoc _ hstep ih => exact ih.step hstep

/-! ## What a key verifies -/

/-- Keys that were issued with one prefix are one key, issued once. -/
theorem eq_of_digest_eq
    (hd : ((as.filterMap issuesKey).map fun issued => auth.libs.sha256_prefix issued.2).Nodup)
    (h : currentKey as id = some key) (h' : currentKey as id' = some key')
    (he : auth.libs.sha256_prefix key = auth.libs.sha256_prefix key') : id = id' ∧ key = key' :=
  Prod.mk.inj (List.inj_on_of_nodup_map hd (mem_of_lastFor h) (mem_of_lastFor h') he)

theorem TenantKeysMatch.verified (hc : auth.libs.pwd_context.Exact)
    (h : TenantKeysMatch auth as t) (hread : TenantsService.verifyApiKey auth key t = some read) :
    ∃ tenant ∈ t.rows, read = TenantRead.modelValidate tenant ∧
      currentKey as tenant.id = some key := by
  rw [TenantsService.verifyApiKey] at hread
  split at hread
  · cases hread
  rename_i tenant hfound
  split at hread
  · cases hread
  rename_i hashed hgiven
  split at hread
  · rename_i hverify
    cases hread
    have hmem := List.mem_of_find?_eq_some hfound
    have hdigest := List.find?_some hfound
    rw [decide_eq_true_iff] at hdigest
    have hholds := h.holds tenant hmem
    refine ⟨tenant, hmem, rfl, ?_⟩
    cases hkey : currentKey as tenant.id with
    | none =>
      rw [hkey] at hholds
      cases hholds.1.symm.trans hdigest
    | some key' =>
      rw [hkey] at hholds
      obtain ⟨-, salt, hhash⟩ := hholds
      have hne : auth.hashPassword salt key' ≠ "" := hc.hash_ne salt key'
      rw [hhash] at hgiven
      have hsame : hashed = auth.hashPassword salt key' := by
        rw [given] at hgiven
        · exact (Option.some.inj hgiven).symm
        · exact hne
      rw [hsame, AuthService.verifyPassword, AuthService.hashPassword, hc.verify_iff] at hverify
      rw [hverify]
  · cases hread

theorem TenantKeysMatch.verifies (hc : auth.libs.pwd_context.Exact)
    (h : TenantKeysMatch auth as t)
    (hd : ((as.filterMap issuesKey).map fun issued => auth.libs.sha256_prefix issued.2).Nodup)
    (hmem : tenant ∈ t.rows) (hkey : currentKey as tenant.id = some key) :
    TenantsService.verifyApiKey auth key t = some (TenantRead.modelValidate tenant) := by
  have hholds := h.holds tenant hmem
  rw [hkey] at hholds
  obtain ⟨hdigest, salt, hhash⟩ := hholds
  have hfound : TenantsService.getByApiKeyPrefix (auth.libs.sha256_prefix key) t = some tenant := by
    cases hfind : TenantsService.getByApiKeyPrefix (auth.libs.sha256_prefix key) t with
    | none =>
      have hnone := List.find?_eq_none.1 hfind tenant hmem
      exact (hnone (decide_eq_true hdigest)).elim
    | some other =>
      have hother := List.mem_of_find?_eq_some hfind
      have hsame := List.find?_some hfind
      rw [decide_eq_true_iff] at hsame
      have hholds := h.holds other hother
      cases hcurrent : currentKey as other.id with
      | none =>
        rw [hcurrent] at hholds
        cases hholds.1.symm.trans hsame
      | some key' =>
        rw [hcurrent] at hholds
        have he := Option.some.inj (hholds.1.symm.trans hsame)
        have hid := (eq_of_digest_eq hd hcurrent hkey he).1
        rw [KeyedTable.eq_of_mem hother hmem hid]
  have hne : auth.hashPassword salt key ≠ "" := hc.hash_ne salt key
  have hgiven : given tenant.api_key_hash = some (auth.hashPassword salt key) := by
    rw [hhash, given]
    exact hne
  have hverify : auth.verifyPassword key (auth.hashPassword salt key) = true :=
    (hc.verify_iff key key salt).2 rfl
  rw [TenantsService.verifyApiKey, hfound]
  simp only [hgiven, hverify, if_true]

/-- A key is exact as long as its tenant is active: the check does not ask for that. -/
theorem api_key_exact_iff (hc : auth.libs.pwd_context.Exact)
    (hrun : Run (TenantsService.Step u auth) ∅ as t)
    (hd : ((as.filterMap issuesKey).map fun issued => auth.libs.sha256_prefix issued.2).Nodup)
    (api_key : String) : ApiKeyExact auth as t api_key ↔
      ∀ tenant ∈ t.rows, currentKey as tenant.id = some api_key → tenant.is_active = true := by
  have hmatch := tenantKeysMatch_run hrun
  constructor
  · intro h tenant hmem hkey
    exact ((h.current tenant hmem).1 (hmatch.verifies hc hd hmem hkey)).2
  · intro hactive
    constructor
    · intro tenant hmem
      constructor
      · intro hread
        obtain ⟨other, hother, hsame, hkey⟩ := hmatch.verified hc hread
        have hid : other.id = tenant.id := (congrArg TenantRead.id hsame).symm
        rw [KeyedTable.eq_of_mem hother hmem hid] at hkey
        exact ⟨hkey, hactive tenant hmem hkey⟩
      · exact fun hkey => hmatch.verifies hc hd hmem hkey.1
    · intro read hread
      obtain ⟨tenant, hmem, hsame, -⟩ := hmatch.verified hc hread
      exact ⟨tenant, hmem, hsame⟩

end

/-! ## Example -/

/-- A tenant gets a key and is deactivated. -/
def keyedRow (is_active : Bool) : Tenant where
  id := ⟨1⟩
  name := "Acme"
  slug := "acme"
  api_key_hash := some "hash:sk-1"
  api_key_prefix := some "sk-1"
  is_active := is_active

def keyIssued : List TenantOutcome :=
  [(.create ⟨"Acme"⟩ ⟨1⟩, .ok { id := ⟨1⟩, name := "Acme", slug := "acme" }),
    (.rotate "acme" "sk-1" 0, .ok (keyedRow true))]

theorem keyIssued_run : Run (TenantsService.Step asciiTables AuthService.sample) ∅ keyIssued
    ((∅ : TenantTable).upsert (keyedRow true)) := by
  have hslug : slugify asciiTables "Acme" = "acme" := by decide +kernel
  have hcreated : TenantsService.perform asciiTables AuthService.sample (.create ⟨"Acme"⟩ ⟨1⟩) ∅ =
      .ok ({ id := ⟨1⟩, name := "Acme", slug := "acme" },
        (∅ : TenantTable).upsert { id := ⟨1⟩, name := "Acme", slug := "acme" }) := by
    rw [TenantsService.perform, TenantsService.create, hslug]
    rfl
  exact .snoc (.snoc .nil (.done hcreated)) (.done rfl)

theorem api_key_exact_issued : ∃ as t,
    Run (TenantsService.Step asciiTables AuthService.sample) ∅ as t ∧
      ApiKeyExact AuthService.sample as t "sk-1" := by
  refine ⟨_, _, keyIssued_run, ?_⟩
  apply (api_key_exact_iff CryptContext.plain_exact keyIssued_run (by decide) "sk-1").2
  intro tenant htenant _
  rw [List.mem_singleton.1 htenant]
  rfl

theorem deactivated_key_verifies : ¬ ∀ as t api_key,
    Run (TenantsService.Step asciiTables AuthService.sample) ∅ as t →
    ((as.filterMap issuesKey).map fun issued =>
      AuthService.sample.libs.sha256_prefix issued.2).Nodup →
    ApiKeyExact AuthService.sample as t api_key := by
  intro h
  have hrun : Run (TenantsService.Step asciiTables AuthService.sample) ∅
      (keyIssued ++ [(.update "acme" { is_active := some (some false) }, .ok (keyedRow false))])
      ((∅ : TenantTable).upsert (keyedRow false)) := .snoc keyIssued_run (.done rfl)
  have hexact := (h _ _ "sk-1" hrun (by decide)).current (keyedRow false) List.mem_cons_self
  have hinactive := (hexact.1 rfl).2
  cases hinactive

end ScottyCore
