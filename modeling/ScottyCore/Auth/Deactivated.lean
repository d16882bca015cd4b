import ScottyCore.Auth.ExternalLogin
import ScottyCore.Auth.JwtUser

namespace ScottyCore
open Python TransitionSystem
set_option autoImplicit true

namespace AuthService

variable {auth : AuthService Token} {store : UserStore}

/-! ## Whose context each kind of credential gives -/

theorem user_id_of_resolveJwtUser (h : auth.resolveJwtUser token now store = .ok ctx) :
    ∃ u : User, u ∈ store.users ∧ u.is_active = true ∧ ctx.user_id = u.id := by
  obtain ⟨payload, u, _, hres, rfl⟩ := resolveJwtUser_ok_iff.1 h
  exact ⟨u, hres.mem, hres.active, rfl⟩

theorem user_id_of_resolveApiKeyUser (h : auth.resolveApiKeyUser api_key store = .ok ctx) :
    ctx.user_id = apiKeyUserId := by
  unfold resolveApiKeyUser at h
  split at h
  · cases h
  · cases h
    rfl

theorem resolveExternalUser_of_getByEmail (auth : AuthService Token) (new_id : Uuid) (salt : Nat)
    (hu : store.getByEmail email = some u) :
    ∃ ctx, (auth.resolveExternalUser email new_id salt store).1 = .ok ctx ∧ ctx.user_id = u.id := by
  unfold resolveExternalUser provision
  rw [hu]
  exact ⟨_, rfl, rfl⟩

theorem user_id_of_resolveExternalUser (hu : u ∈ store.users) (hne : email ≠ u.email)
    (h : (auth.resolveExternalUser email new_id salt store).1 = .ok ctx) : ctx.user_id ≠ u.id := by
  cases hfind : store.getByEmail email with
  | some v =>
    obtain ⟨c, hc, hid⟩ := resolveExternalUser_of_getByEmail auth new_id salt hfind
    obtain ⟨hv, he⟩ := UserTable.getByEmail_eq_some.1 hfind
    rw [hc] at h
    cases h
    rw [hid]
    intro hsame
    rw [UserTable.eq_of_id hv hu hsame] at he
    exact hne he.symm
  | none =>
    unfold resolveExternalUser at h
    cases hp : auth.provision email new_id salt store with
    | error e => rw [hp] at h; cases h
    | ok r =>
      obtain ⟨v, store'⟩ := r
      have hins := (inserts_provision hfind hp).users
      rw [hp] at h
      cases h
      -- the provisioned user has a new key
      exact fun hsame => (UserTable.mem_insert (v := v) hins).2 u hu hsame.symm

/-- `get_current_user` never answers with the user's context. -/
def Excludes (auth : AuthService Token) (u : User) (request : Request Token) (now : Int)
    (new_id : Uuid) (salt : Nat) (store : UserStore) : Prop :=
  ∀ ctx, (auth.getCurrentUser request now new_id salt store).1 = .ok (some ctx) →
    ctx.user_id ≠ u.id

theorem excludes_of_not_external (hu : u ∈ store.users) (hoff : u.is_active = false)
    (hkey : u.id ≠ apiKeyUserId) (hdev : u.id ≠ devBypassUserId)
    (hext : auth.externalEmail request = none) : auth.Excludes u request now new_id salt store := by
  intro ctx h
  have hjwt : ∀ token, (auth.resolveJwtUser token now store).map some = .ok (some ctx) →
      ctx.user_id ≠ u.id := by
    intro token hres
    obtain ⟨v, hv, hon, hid⟩ := user_id_of_resolveJwtUser (map_some_eq_ok.1 hres)
    rw [hid]
    intro hsame
    rw [UserTable.eq_of_id hv hu hsame, hoff] at hon
    cases hon
  unfold getCurrentUser at h
  rw [hext] at h
  simp only at h
  split at h
  · exact hjwt _ h
  · exact hjwt _ h
  · rw [user_id_of_resolveApiKeyUser (map_some_eq_ok.1 h)]
    exact hkey.symm
  · split at h
    · cases h
      exact hdev.symm
    · cases h
  · cases h

theorem excludes_iff (hu : u ∈ store.users) (hoff : u.is_active = false)
    (hkey : u.id ≠ apiKeyUserId) (hdev : u.id ≠ devBypassUserId) :
    auth.Excludes u request now new_id salt store ↔ auth.externalEmail request ≠ some u.email := by
  cases hext : auth.externalEmail request with
  | none => exact ⟨nofun, fun _ => excludes_of_not_external hu hoff hkey hdev hext⟩
  | some email =>
    have hget : (auth.getCurrentUser request now new_id salt store).1 =
        (auth.resolveExternalUser email new_id salt store).1.map some := by
      unfold getCurrentUser
      rw [hext]
    constructor
    · rintro h heq
      cases heq
      obtain ⟨ctx, hctx, hid⟩ := resolveExternalUser_of_getByEmail auth new_id salt
        (UserTable.getByEmail_eq_some.2 ⟨hu, rfl⟩)
      refine h ctx ?_ hid
      rw [hget]
      exact congrArg (Except.map some) hctx
    · intro hne ctx hctx
      rw [hget] at hctx
      exact user_id_of_resolveExternalUser hu (fun he => hne (congrArg some he))
        (map_some_eq_ok.1 hctx)

end AuthService

/-! ## Deactivated users -/

/-- In every run a deactivated user is locked out of a request exactly when no trusted provider
vouches for their email. -/
theorem deactivated_excluded_iff {auth : AuthService Token} (h₀ : s₀.Fresh)
    (hrun : Run (UserStep auth) s₀ as s) (hu : u ∈ s.store.users) (hoff : u.is_active = false)
    (request : Request Token) (now : Int) (new_id : Uuid) (salt : Nat) :
    auth.Excludes u request now new_id salt s.store ↔
      auth.externalEmail request ≠ some u.email := by
  have hrandom : u.id.version = 4 := keysAreRandom_run h₀ hrun u hu
  refine AuthService.excludes_iff hu hoff ?_ ?_
  · intro h
    rw [h] at hrandom
    cases hrandom
  · intro h
    rw [h] at hrandom
    exact absurd hrandom (by decide)

/-- In every run no request resolves to a deactivated user. -/
def DeactivatedLockedOut (auth : AuthService Token) : Prop :=
  ∀ s₀ as s u request now new_id salt, s₀.Fresh → Run (UserStep auth) s₀ as s →
    u ∈ s.store.users → u.is_active = false → auth.Excludes u request now new_id salt s.store

section

def acmeId : Uuid := ⟨0x22222222222242228222222222222222⟩

def eveOff : User := { eve with is_active := false, session_version := 1 }

def eveDeactivated : UserState where
  store :=
    { emptyStore.store with
      users := ⟨[eveOff], List.nodup_singleton _, List.nodup_singleton _⟩ }
  external := [eveId]

theorem eve_deactivated_run : Run (UserStep AuthService.sample) emptyStore
    [.provision "eve@example.org", .updateForTenant acmeId eveId { is_active := some false }]
    eveDeactivated :=
  eve_run.append (.single (.updateForTenant rfl))

theorem eve_off_excluded : AuthService.sample.Excludes eveOff
      { session := some ("secret", AuthService.sample.accessClaims eveId false 1 0) } 0 eveId 0
      eveDeactivated.store ↔
    AuthService.sample.externalEmail
      { session := some ("secret", AuthService.sample.accessClaims eveId false 1 0) } ≠
        some eveOff.email :=
  deactivated_excluded_iff ⟨rfl, rfl⟩ eve_deactivated_run List.mem_cons_self rfl _ _ _ _

/-- Cloudflare's header still gets a deactivated user in. -/
theorem deactivated_user_gets_in : ¬ DeactivatedLockedOut AuthService.sample := by
  intro h
  have hout := h _ _ _ eveOff { cf_email := some "eve@example.org" } 0 eveId 0 ⟨rfl, rfl⟩
    eve_deactivated_run List.mem_cons_self rfl
  exact hout (eveDeactivated.store.buildUserContext eveOff) (by decide +kernel) rfl

end

end ScottyCore
