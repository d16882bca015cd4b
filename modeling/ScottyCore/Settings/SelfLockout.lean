import ScottyCore.Auth.Setup
import ScottyCore.Settings.Service

namespace ScottyCore
open Python TransitionSystem
set_option autoImplicit true

/-! ## `has_local_password_superadmin` -/

/-- An active superadmin whose hash is not the sentinel's. -/
def AuthService.isLocalSuperadmin (auth : AuthService Token) (u : User) : Bool :=
  u.is_superadmin ∧ u.is_active ∧ u.password_hash ≠ "" ∧
    ¬ auth.verifyPassword externalAuthSentinel u.password_hash

def UserStore.hasLocalPasswordSuperadmin (auth : AuthService Token) (store : UserStore) : Bool :=
  store.users.rows.any auth.isLocalSuperadmin

/-! ## The two endpoints that patch the global settings -/

/-- `PATCH /settings/global` -/
def patchGlobalSettings (auth : AuthService Token) (p : Pydantic) (body : JsonDict)
    (store : UserStore) (settings : SettingsTable) : Except AppError SettingsTable := do
  if (body.lookup "auth_providers").any (Json.isListWithout "local") ∧
      ¬ store.hasLocalPasswordSuperadmin auth then
    throw (.forbidden ("Cannot remove 'local' from auth_providers: no active superadmin " ++
      "has a local password. Add a local-password superadmin first."))
  settings.setGlobal p body

def aiApiKeyMasked : String := "*****"

/-- `del value["api_key"]` in an object whose API key is masked. -/
def stripMaskedKey : Json → Json
  | .obj members =>
    match members.lookup "api_key" with
    | some (.str s) =>
      if s = aiApiKeyMasked then .obj (members.filter fun m => m.1 ≠ "api_key") else .obj members
    | _ => .obj members
  | j => j

/-- `PATCH /ai/config` -/
def aiConfigSave (p : Pydantic) (body : JsonDict) (settings : SettingsTable) :
    Except AppError SettingsTable :=
  settings.setGlobal p (body.map fun m => (m.1, stripMaskedKey m.2))

/-! ## The state and its steps -/

structure AppState where
  users : UserState
  settings : SettingsTable

inductive AppAction where
  | patchGlobal (body : JsonDict)
  | saveAiConfig (body : JsonDict)
  | users (a : UserAction)

/-- One request that succeeds. One that fails changes neither table. A body is a `dict`. -/
inductive AppStep (auth : AuthService Token) (p : Pydantic) :
    AppState → AppAction → AppState → Prop where
  | patchGlobal : (body.map Prod.fst).Nodup →
      patchGlobalSettings auth p body s.users.store s.settings = .ok settings →
      AppStep auth p s (.patchGlobal body) { s with settings := settings }
  | saveAiConfig : (body.map Prod.fst).Nodup → aiConfigSave p body s.settings = .ok settings →
      AppStep auth p s (.saveAiConfig body) { s with settings := settings }
  | users : UserStep auth s.users a users → AppStep auth p s (.users a) { s with users := users }

namespace SettingsTable

def authProviders (settings : SettingsTable) : Json := settings.resolve "auth_providers" none none

/-- `"local" not in auth_providers` -/
def localOff (settings : SettingsTable) : Bool := settings.authProviders.isListWithout "local"

end SettingsTable

/-- The setting lists providers, and without `local` among them an active superadmin has a local
password. -/
structure NotLockedOut (auth : AuthService Token) (s : AppState) : Prop where
  providers : ∃ ps, s.settings.authProviders = .strs ps
  admin : s.settings.localOff = true → s.users.store.hasLocalPasswordSuperadmin auth = true

/-- A system after its setup: `local` is on and there is a superadmin with a local password. -/
structure SetUp (auth : AuthService Token) (s : AppState) : Prop where
  distinct : s.settings.Distinct
  providers : ∃ ps, s.settings.authProviders = .strs ps ∧ "local" ∈ ps
  admin : s.users.store.hasLocalPasswordSuperadmin auth = true

/-- A superadmin other than the user has a local password. -/
def AnotherLocalAdmin (auth : AuthService Token) (store : UserStore) (user_id : Uuid) : Prop :=
  ∃ u ∈ store.users, u.id ≠ user_id ∧ auth.isLocalSuperadmin u = true

/-- While `local` is off, nobody is deactivated and nobody's password becomes the sentinel unless
another superadmin has a local one; and `PATCH /ai/config` does not turn `local` off unless some
superadmin has. -/
def KeepsLocalAdmin (auth : AuthService Token) (s : AppState) : AppAction → Prop
  | .patchGlobal _ => True
  | .saveAiConfig body => (body.lookup "auth_providers").any (Json.isListWithout "local") = true →
      s.users.store.hasLocalPasswordSuperadmin auth = true
  | .users (.updateForTenant _ user_id data) => s.settings.localOff = true →
      data.is_active = some false → AnotherLocalAdmin auth s.users.store user_id
  | .users (.changePassword user_id _ new_password) => s.settings.localOff = true →
      new_password = externalAuthSentinel → AnotherLocalAdmin auth s.users.store user_id
  | .users _ => True

/-! ## What `set_global` stores -/

namespace SettingsTable

variable {p : Pydantic} {settings settings' : SettingsTable}

theorem nodup_incoming {data : JsonDict} (h : (data.map Prod.fst).Nodup) :
    ((incoming data).map Prod.fst).Nodup := by
  have hfilter : ((data.filter fun m => m.1 ≠ "smtp_password").map Prod.fst).Nodup :=
    h.sublist (List.filter_sublist.map _)
  unfold incoming
  split
  · split
    · exact hfilter
    · exact h
  · exact hfilter
  · exact h

theorem lookup_incoming (data : JsonDict) (hkey : key ≠ "smtp_password") :
    (incoming data).lookup key = data.lookup key := by
  have hfilter := JsonDict.lookup_filter_ne hkey data
  unfold incoming
  split
  · split
    · exact hfilter
    · rfl
  · exact hfilter
  · rfl

theorem authProviders_eq (settings : SettingsTable) : settings.authProviders =
    (settings.get "global" none "auth_providers").getD (.strs ["local"]) := by
  unfold authProviders resolve
  cases settings.get "global" none "auth_providers" with
  | none => rfl
  | some j => rfl

theorem authProviders_setGlobal (hp : p.Documented) (hd : settings.Distinct)
    (hdata : (data.map Prod.fst).Nodup) (h : settings.setGlobal p data = .ok settings') :
    settings'.Distinct ∧ ∃ ps, settings'.authProviders = .strs ps ∧
      (data.lookup "auth_providers").getD settings.authProviders = .strs ps := by
  obtain ⟨current, hcurrent, h⟩ := bind_eq_ok.1 h
  obtain ⟨validated, hvalidated, h⟩ := bind_eq_ok.1 h
  cases h
  obtain ⟨ps₀, hps₀, hstored⟩ := hp.auth_providers hcurrent
  obtain ⟨ps, hps, hmerged⟩ := hp.auth_providers hvalidated
  have hkey : ("auth_providers" : String) ≠ "smtp_password" := by decide
  rw [lookup_stored settings hd, ← authProviders_eq] at hstored
  rw [merged, JsonDict.lookup_merge (nodup_incoming hdata), lookup_incoming data hkey,
    JsonDict.lookup_set, if_neg hkey, hps₀] at hmerged
  refine ⟨hd.storeAll settings validated, ps, ?_, ?_⟩
  · rw [authProviders_eq, get_storeAll settings (hp.nodup hvalidated), hps]
    rfl
  · rw [hstored]
    cases hgiven : data.lookup "auth_providers" with
    | none => rw [hgiven] at hmerged; exact hmerged
    | some j => rw [hgiven] at hmerged; exact hmerged

end SettingsTable

theorem isListWithout_stripMaskedKey (j : Json) (s : String) :
    (stripMaskedKey j).isListWithout s = j.isListWithout s := by
  cases j with
  | obj members =>
    rw [stripMaskedKey]
    split
    · split
      · rfl
      · rfl
    · rfl
  | _ => rfl

/-! ## The invariant -/

section

variable {auth : AuthService Token}

theorem AuthService.isLocalSuperadmin_iff : auth.isLocalSuperadmin u = true ↔
    u.is_superadmin = true ∧ u.is_active = true ∧ u.password_hash ≠ "" ∧
      auth.verifyPassword externalAuthSentinel u.password_hash = false := by
  unfold AuthService.isLocalSuperadmin
  rw [decide_eq_true_iff, Bool.not_eq_true]

theorem hasLocalPasswordSuperadmin_iff {store : UserStore} :
    store.hasLocalPasswordSuperadmin auth = true ↔
      ∃ u ∈ store.users, auth.isLocalSuperadmin u = true := List.any_eq_true

theorem AnotherLocalAdmin.update {store store' : UserStore}
    (h : AnotherLocalAdmin auth store user_id)
    (hupd : store'.users = store.users.update user_id c) :
    store'.hasLocalPasswordSuperadmin auth = true := by
  obtain ⟨u, hu, hne, hlocal⟩ := h
  refine hasLocalPasswordSuperadmin_iff.2 ⟨u, ?_, hlocal⟩
  rw [hupd]
  exact UserTable.mem_update_of_ne hu hne

theorem isLocalSuperadmin_apply {c : UserChanges} (hb : auth.libs.pwd_context.Exact)
    (hu : auth.isLocalSuperadmin u = true) (hsuper : c.is_superadmin ≠ some false)
    (hactive : c.is_active ≠ some false)
    (hhash : ∀ hash, c.password_hash = some hash →
      ∃ new salt, new ≠ externalAuthSentinel ∧ hash = auth.hashPassword salt new) :
    auth.isLocalSuperadmin (c.apply u) = true := by
  obtain ⟨hs, ha, hne, hv⟩ := AuthService.isLocalSuperadmin_iff.1 hu
  refine AuthService.isLocalSuperadmin_iff.2 ⟨?_, ?_, ?_⟩
  · change c.is_superadmin.getD u.is_superadmin = true
    rcases hc : c.is_superadmin with _ | _ | _
    · exact hs
    · exact (hsuper hc).elim
    · rfl
  · change c.is_active.getD u.is_active = true
    rcases hc : c.is_active with _ | _ | _
    · exact ha
    · exact (hactive hc).elim
    · rfl
  · change c.password_hash.getD u.password_hash ≠ "" ∧
      auth.verifyPassword externalAuthSentinel (c.password_hash.getD u.password_hash) = false
    cases hc : c.password_hash with
    | none => exact ⟨hne, hv⟩
    | some hash =>
      obtain ⟨new, salt, hnew, rfl⟩ := hhash hash hc
      refine ⟨hb.hash_ne salt new, Bool.eq_false_iff.2 fun hverify => ?_⟩
      exact hnew ((hb.verify_iff _ _ salt).1 hverify).symm

theorem hasLocalPasswordSuperadmin_step (hb : auth.libs.pwd_context.Exact)
    (hoff : s.settings.localOff = true)
    (hhas : s.users.store.hasLocalPasswordSuperadmin auth = true)
    (h : UserStep auth s.users a users) (hguard : KeepsLocalAdmin auth s (.users a)) :
    users.store.hasLocalPasswordSuperadmin auth = true := by
  obtain ⟨u, hu, hlocal⟩ := hasLocalPasswordSuperadmin_iff.1 hhas
  cases h.rowEffect with
  | insert v _ hins =>
    exact hasLocalPasswordSuperadmin_iff.2 ⟨u, (UserTable.mem_insert hins).1.2 (.inl hu), hlocal⟩
  | none hsame => exact hasLocalPasswordSuperadmin_iff.2 ⟨u, hsame ▸ hu, hlocal⟩
  | update user_id c hupd hsuper hdeactivates hsets =>
    by_cases hactive : c.is_active = some false
    · obtain ⟨tenant_id, data, rfl, hdata⟩ := hdeactivates hactive
      have hanother : AnotherLocalAdmin auth s.users.store user_id := hguard hoff hdata
      exact hanother.update hupd
    by_cases hsentinel : ∃ current, a = .changePassword user_id current externalAuthSentinel
    · obtain ⟨current, rfl⟩ := hsentinel
      have hanother : AnotherLocalAdmin auth s.users.store user_id := hguard hoff rfl
      exact hanother.update hupd
    have hkept : auth.isLocalSuperadmin (c.apply u) = true := by
      apply isLocalSuperadmin_apply hb hlocal hsuper hactive
      intro hash he
      obtain ⟨current, new, salt, ha, hhash⟩ := hsets hash he
      refine ⟨new, salt, ?_, hhash⟩
      rintro rfl
      exact hsentinel ⟨current, ha⟩
    refine hasLocalPasswordSuperadmin_iff.2 ⟨if u.id = user_id then c.apply u else u, ?_, ?_⟩
    · rw [hupd]
      exact UserTable.mem_update.2 ⟨u, hu, rfl⟩
    · split
      · exact hkept
      · exact hlocal

structure LockoutInv (auth : AuthService Token) (s : AppState) : Prop where
  distinct : s.settings.Distinct
  notLockedOut : NotLockedOut auth s

theorem SetUp.lockoutInv (h : SetUp auth s) : LockoutInv auth s := by
  obtain ⟨ps, hps, _⟩ := h.providers
  exact ⟨h.distinct, ⟨ps, hps⟩, fun _ => h.admin⟩

theorem lockoutInv_setGlobal (hp : p.Documented) (hi : LockoutInv auth s)
    (hdata : (data.map Prod.fst).Nodup) (h : s.settings.setGlobal p data = .ok settings)
    (hguard : (data.lookup "auth_providers").any (Json.isListWithout "local") = true →
      s.users.store.hasLocalPasswordSuperadmin auth = true) :
    LockoutInv auth { s with settings := settings } := by
  obtain ⟨hdistinct, ps, hps, hgiven⟩ :=
    SettingsTable.authProviders_setGlobal hp hi.distinct hdata h
  refine ⟨hdistinct, ⟨ps, hps⟩, fun hoff => ?_⟩
  unfold SettingsTable.localOff at hoff
  rw [hps, ← hgiven] at hoff
  cases hlookup : data.lookup "auth_providers" with
  | none => rw [hlookup] at hoff; exact hi.notLockedOut.admin hoff
  | some j => rw [hlookup] at hoff hguard; exact hguard hoff

theorem lockoutInv_step (hb : auth.libs.pwd_context.Exact) (hp : p.Documented)
    (hi : LockoutInv auth s) (h : Guarded (AppStep auth p) (KeepsLocalAdmin auth) s a s') :
    LockoutInv auth s' := by
  obtain ⟨hstep, hguard⟩ := h
  cases hstep with
  | patchGlobal hbody hpatch =>
    obtain ⟨hrefuse, hset⟩ := raise_eq_ok.1 hpatch
    exact lockoutInv_setGlobal hp hi hbody hset fun hoff =>
      Decidable.byContradiction fun hnone => hrefuse ⟨hoff, hnone⟩
  | saveAiConfig hbody hsave =>
    refine lockoutInv_setGlobal hp hi ?_ hsave ?_
    · rw [List.map_map]
      exact hbody
    · rw [JsonDict.lookup_map_values stripMaskedKey]
      intro hoff
      apply hguard
      cases hlookup : List.lookup "auth_providers" _ with
      | none => rw [hlookup] at hoff; cases hoff
      | some j =>
        rw [hlookup] at hoff
        exact (isListWithout_stripMaskedKey j "local").symm.trans hoff
  | users hstep =>
    refine ⟨hi.distinct, hi.notLockedOut.providers, fun hoff => ?_⟩
    have hoff' : s.settings.localOff = true := hoff
    exact hasLocalPasswordSuperadmin_step hb hoff' (hi.notLockedOut.admin hoff') hstep hguard

end

/-- From setup on, in every run that keeps a superadmin with a local password while `local` is
off, nobody is locked out. -/
theorem never_locked_out {auth : AuthService Token} {p : Pydantic}
    (hb : auth.libs.pwd_context.Exact) (hp : p.Documented) (h₀ : SetUp auth s₀)
    (hrun : Run (Guarded (AppStep auth p) (KeepsLocalAdmin auth)) s₀ as s) : NotLockedOut auth s :=
  (hrun.invariant h₀.lockoutInv fun hi hstep => lockoutInv_step hb hp hi hstep).notLockedOut

/-- In every run from setup on nobody is locked out. -/
def NeverLockedOut (auth : AuthService Token) (p : Pydantic) : Prop :=
  ∀ s₀ as s, SetUp auth s₀ → Run (AppStep auth p) s₀ as s → NotLockedOut auth s

section

def strsOf : Json → Option (List String)
  | .arr items => items.mapM fun
    | .str s => some s
    | _ => none
  | _ => none

/-- `GlobalSettings` with its types checked for `auth_providers` only. -/
def plainGlobalSettings (d : JsonDict) : Except AppError JsonDict :=
  match strsOf ((d.lookup "auth_providers").getD (.strs ["local"])) with
  | none => .error (.unexpected (.valueError "Input should be a valid list"))
  | some ps => .ok (("auth_providers", .strs ps) ::
      globalDefaults.tail.map fun m => (m.1, (d.lookup m.1).getD m.2))

def Pydantic.plain : Pydantic := ⟨plainGlobalSettings⟩

theorem strsOf_eq_some (h : strsOf j = some ps) : j = .strs ps := by
  cases j with
  | arr items =>
    rw [Json.strs]
    apply congrArg Json.arr
    unfold strsOf at h
    simp only at h
    induction items generalizing ps with
    | nil => cases h; rfl
    | cons item items ih =>
      rw [List.mapM_cons] at h
      cases item with
      | str s =>
        cases hrest : items.mapM fun (x : Json) => match x with
            | .str s => some s
            | _ => none with
        | none => rw [hrest] at h; cases h
        | some rest =>
          rw [hrest] at h
          cases h
          exact congrArg (Json.str s :: ·) (ih hrest)
      | _ => cases h
  | _ => cases h

theorem plainGlobalSettings_ok (h : plainGlobalSettings d = .ok v) :
    ∃ ps, (d.lookup "auth_providers").getD (.strs ["local"]) = .strs ps ∧
      v = ("auth_providers", .strs ps) ::
        globalDefaults.tail.map fun m => (m.1, (d.lookup m.1).getD m.2) := by
  unfold plainGlobalSettings at h
  split at h
  · cases h
  · rename_i ps hps
    exact ⟨ps, strsOf_eq_some hps, (Except.ok.inj h).symm⟩

theorem Pydantic.plain_documented : Pydantic.plain.Documented where
  nodup h := by
    obtain ⟨ps, _, rfl⟩ := plainGlobalSettings_ok h
    rw [List.map_cons, List.map_map]
    exact (by decide : (globalDefaults.map Prod.fst).Nodup)
  auth_providers h := by
    obtain ⟨ps, hps, rfl⟩ := plainGlobalSettings_ok h
    exact ⟨ps, rfl, hps⟩

def rootState (settings : SettingsTable) : AppState := ⟨⟨rootCreated, []⟩, settings⟩

def cloudflareOnly : JsonDict := [("auth_providers", .strs ["cloudflare"])]

def cloudflareSettings : SettingsTable :=
  SettingsTable.storeAll [] (("auth_providers", .strs ["cloudflare"]) :: globalDefaults.tail)

theorem rootState_setUp : SetUp AuthService.sample (rootState []) where
  distinct := List.nodup_nil
  providers := ⟨["local"], rfl, List.mem_singleton_self _⟩
  admin := by decide +kernel

theorem local_removed : AppStep AuthService.sample .plain (rootState [])
    (.patchGlobal cloudflareOnly) (rootState cloudflareSettings) :=
  .patchGlobal (by decide) rfl

theorem root_not_locked_out : NotLockedOut AuthService.sample (rootState cloudflareSettings) :=
  never_locked_out CryptContext.plain_exact Pydantic.plain_documented rootState_setUp
    (.single ⟨local_removed, trivial⟩)

/-- The last superadmin with a local password is deactivated after `local` was turned off. -/
theorem last_admin_deactivated : ¬ NeverLockedOut AuthService.sample .plain := by
  intro h
  have hdeactivate : rootCreated.updateForTenant ⟨0xa⟩ ⟨1⟩ { is_active := some false } =
      .ok (rootCreated.updateUser ⟨1⟩ { is_active := some false, session_version := some 1 }) := rfl
  have hlocked := (h _ _ _ rootState_setUp
    (.snoc (.single local_removed) (.users (.updateForTenant hdeactivate)))).admin
  cases hlocked (by decide +kernel)

end

end ScottyCore
