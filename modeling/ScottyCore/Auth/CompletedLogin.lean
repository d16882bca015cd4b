import ScottyCore.Auth.ExternalLogin
import ScottyCore.Auth.JwtUser

namespace ScottyCore
open Python
set_option autoImplicit true

namespace AuthService

variable {auth : AuthService Token} {store store' : UserStore}

/-! ## What the second factor does to the user -/

theorem users_verifyTotp (auth : AuthService Token) (user_id : Uuid) (code : String) (now : Int)
    (store : UserStore) :
    (auth.verifyTotp user_id code now store).2 = store ∨
      ∃ remaining, (auth.verifyTotp user_id code now store).2 =
        store.consumeBackupCode user_id remaining := by
  unfold verifyTotp
  split
  · exact .inl rfl
  · exact .inl rfl
  · exact .inl rfl
  · split
    · exact .inl rfl
    · split
      · exact .inl rfl
      · split
        · exact .inl rfl
        · exact .inr ⟨_, rfl⟩

theorem version_of_mem_verifyTotp (hu : u ∈ store.users)
    (hv : v ∈ (auth.verifyTotp user_id code now store).2.users) (hid : v.id = u.id) :
    v.is_active = u.is_active ∧ v.session_version = u.session_version := by
  have hsame : v ∈ store.users → v.is_active = u.is_active ∧
      v.session_version = u.session_version := by
    intro hv
    rw [UserTable.eq_of_id hv hu hid]
    exact ⟨rfl, rfl⟩
  rcases users_verifyTotp auth user_id code now store with h | ⟨remaining, h⟩
  · rw [h] at hv
    exact hsame hv
  · rw [h] at hv
    rcases users_consumeBackupCode store user_id remaining with hstore | hstore
    · rw [hstore] at hv
      exact hsame hv
    · rw [hstore] at hv
      obtain ⟨w, hw, rfl⟩ := UserTable.mem_update.1 hv
      rw [apply_ite User.id, UserChanges.apply_id, ite_self] at hid
      rw [UserTable.eq_of_id hw hu hid]
      split
      · exact ⟨rfl, rfl⟩
      · exact ⟨rfl, rfl⟩

theorem totpVerify_ok (h : auth.totpVerify (some p) code now store = (.ok r, store')) :
    ∃ payload user_id, auth.decodeToken p now = .ok payload ∧ payload.sub = some user_id ∧
      r.access_token = auth.createAccessToken user_id false 0 now ∧
      store' = (auth.verifyTotp user_id code now store).2 := by
  unfold totpVerify at h
  simp only at h
  split at h
  · cases h
  · rename_i payload hdec
    split at h
    · cases h
    · split at h
      · cases h
      · rename_i user_id hsub
        split at h
        · cases h
        · rename_i hver
          cases h
          exact ⟨payload, user_id, hdec, hsub, rfl, by rw [hver]⟩

/-! ## The login flow -/

/-- A whole login flow of a stored user that succeeds: the access token it returns, when that is
minted, and the user's row afterwards. -/
inductive LoginFlow (auth : AuthService Token) (u : User) : Token → Int → User → Prop where
  -- TOTP is off
  | password : store₀.getByEmail (auth.normalise email) = some u →
      (auth.login email password ip_address now store₀).1 = .ok r → r.access_token = some token →
      LoginFlow auth u token now u
  -- the user's row is the same at both requests, and the second may take a backup code
  | totp : store₀.getByEmail (auth.normalise email) = some u →
      (auth.login email password ip_address now store₀).1 = .ok r → r.partial_token = some p →
      u ∈ store₁.users → auth.totpVerify (some p) code now₁ store₁ = (.ok r₁, store₂) →
      v ∈ store₂.users → v.id = u.id → LoginFlow auth u r₁.access_token now₁ v

/-- Neither the access token's expiry nor the session timeout has passed. -/
def Live (auth : AuthService Token) (minted now : Int) : Prop :=
  seconds now ≤ seconds (minted + auth.settings.jwt_access_token_expire_minutes * 60000000) ∧
    auth.sessionExpired (some (seconds minted)) now = false

theorem LoginFlow.spec (hj : auth.libs.jwt.Lawful) (h : auth.LoginFlow u token minted v) :
    v.id = u.id ∧ v.is_active = true ∧ v.session_version = u.session_version ∧
      token = auth.createAccessToken u.id false
        (if u.totp_enabled then 0 else u.session_version) minted := by
  cases h with
  | password hu hlogin htok =>
    obtain ⟨_, w, hw, hadmits, rfl⟩ := login_ok_iff.1 hlogin
    rw [hu] at hw
    cases hw
    refine ⟨rfl, hadmits.2.2, rfl, ?_⟩
    unfold loginResponse at htok
    split at htok
    · cases htok
    · rename_i hoff
      rw [if_neg hoff]
      exact (Option.some.inj htok).symm
  | totp hu hlogin hp hu₁ hverify hv hid =>
    obtain ⟨_, w, hw, hadmits, rfl⟩ := login_ok_iff.1 hlogin
    rw [hu] at hw
    cases hw
    obtain ⟨payload, user_id, hdec, hsub, htok, rfl⟩ := totpVerify_ok hverify
    unfold loginResponse at hp
    split at hp
    · rename_i hon
      cases hp
      rw [createAccessToken, decodeToken_encode hj] at hdec
      split at hdec
      · cases hdec
      · cases hdec
        cases hsub
        obtain ⟨hact, hsv⟩ := version_of_mem_verifyTotp hu₁ hv hid
        exact ⟨hid, hact.trans hadmits.2.2, hsv, by rw [if_pos hon, htok]⟩
    · cases hp

end AuthService

/-- After a login flow the access token resolves to the user, as long as it lives and the user's
row stays, exactly when TOTP is off or the session version is 0. -/
theorem completed_login_usable_iff {auth : AuthService Token} (hj : auth.libs.jwt.Lawful)
    (hflow : auth.LoginFlow u token minted v) (hv : v ∈ store.users)
    (hlive : auth.Live minted now) :
    (∃ ctx, auth.resolveJwtUser token now store = .ok ctx ∧ ctx.user_id = u.id) ↔
      u.totp_enabled = false ∨ u.session_version ≤ 0 := by
  obtain ⟨hid, hact, hsv, rfl⟩ := hflow.spec hj
  have hdec : auth.decodeToken (auth.createAccessToken u.id false
      (if u.totp_enabled then 0 else u.session_version) minted) now =
        .ok (auth.accessClaims u.id false (if u.totp_enabled then 0 else u.session_version)
          minted) :=
    (AuthService.decodeToken_encode hj _ now).trans (if_neg (Int.not_lt.2 hlive.1))
  have hresolves : ∀ w, auth.Resolves (auth.accessClaims u.id false
      (if u.totp_enabled then 0 else u.session_version) minted) now store w ↔
        w = v ∧ u.session_version ≤ if u.totp_enabled then 0 else u.session_version := by
    intro w
    constructor
    · intro h
      have hwv : w = v := UserTable.eq_of_id h.mem hv
        ((Option.some.inj h.sub).symm.trans hid.symm)
      have hle := h.version
      rw [hwv, hsv] at hle
      exact ⟨hwv, hle⟩
    · rintro ⟨rfl, hle⟩
      exact ⟨rfl, congrArg some hid.symm, hlive.2, hv, hact, hsv ▸ hle⟩
  have hversion : (u.session_version ≤ if u.totp_enabled then 0 else u.session_version) ↔
      u.totp_enabled = false ∨ u.session_version ≤ 0 := by
    cases u.totp_enabled with
    | true => exact ⟨.inr, fun h => h.resolve_left nofun⟩
    | false => exact ⟨fun _ => .inl rfl, fun _ => Int.le_refl _⟩
  rw [← hversion]
  constructor
  · rintro ⟨ctx, hctx, _⟩
    obtain ⟨payload, w, hpay, hres, _⟩ := AuthService.resolveJwtUser_ok_iff.1 hctx
    cases hpay.symm.trans hdec
    exact ((hresolves w).1 hres).2
  · intro hle
    have hres := (hresolves v).2 ⟨rfl, hle⟩
    exact ⟨_, AuthService.resolveJwtUser_ok_iff.2 ⟨_, v, hdec, hres, rfl⟩, hid⟩

/-- Every completed login gives a token that resolves to its user while it lives. -/
def CompletedLoginsUsable (auth : AuthService Token) : Prop :=
  ∀ u token minted v store now, 0 ≤ u.session_version → auth.LoginFlow u token minted v →
    v ∈ store.users → auth.Live minted now →
    ∃ ctx, auth.resolveJwtUser token now store = .ok ctx ∧ ctx.user_id = u.id

section

def carolId : Uuid := ⟨0x33333333333343338333333333333333⟩

def carol : User where
  id := carolId
  email := "carol@example.org"
  password_hash := "hash:correct horse"
  display_name := "Carol"
  session_version := 1

def carolTotp : User :=
  { carol with totp_secret := some "424242", totp_enabled := true, backup_codes := some [] }

def storeOf (u : User) : UserStore :=
  { users := ⟨[u], List.nodup_singleton _, List.nodup_singleton _⟩
    roles := [⟨1, "viewer"⟩]
    user_tenant_roles := []
    tenants := []
    login_attempts := [] }

theorem login_storeOf (u : User) (hpass : u.password_hash = "hash:correct horse")
    (hact : u.is_active = true) (hemail : u.email = "carol@example.org") :
    (storeOf u).getByEmail (AuthService.sample.normalise u.email) = some u ∧
      (AuthService.sample.login u.email "correct horse" "127.0.0.1" 0 (storeOf u)).1 =
        .ok (AuthService.sample.loginResponse u 0) := by
  have hnorm : AuthService.sample.normalise u.email = u.email := by
    rw [hemail]
    decide +kernel
  have hfind : (storeOf u).getByEmail (AuthService.sample.normalise u.email) = some u := by
    rw [hnorm]
    exact UserTable.getByEmail_eq_some.2 ⟨List.mem_cons_self, rfl⟩
  refine ⟨hfind, AuthService.login_ok_iff.2 ⟨?_, u, hfind, ⟨?_, ?_, hact⟩, rfl⟩⟩
  · have hnone : AuthService.sample.recentAttempts (AuthService.sample.normalise u.email) 0
        (storeOf u) = [] := List.mergeSort_nil
    unfold AuthService.checkLockout
    rw [hnone]
    rfl
  · rw [hpass]
    decide
  · rw [hpass]
    decide +kernel

theorem carol_flow : AuthService.sample.LoginFlow carol
    (AuthService.sample.createAccessToken carolId false 1 0) 0 carol :=
  have h := login_storeOf carol rfl rfl rfl
  .password h.1 h.2 rfl

theorem carol_login_usable : (∃ ctx, AuthService.sample.resolveJwtUser
      (AuthService.sample.createAccessToken carolId false 1 0) 60000000 (storeOf carol) = .ok ctx ∧
        ctx.user_id = carol.id) ↔
    carol.totp_enabled = false ∨ carol.session_version ≤ 0 :=
  completed_login_usable_iff Jose.plain_lawful carol_flow List.mem_cons_self ⟨by decide, by decide⟩

theorem carol_totp_flow : AuthService.sample.LoginFlow carolTotp
    (AuthService.sample.createAccessToken carolId false 0 0) 0 carolTotp := by
  have h := login_storeOf carolTotp rfl rfl rfl
  have hverify : AuthService.sample.totpVerify
      (some (AuthService.sample.createAccessToken carolId true 1 0)) " 424242 " 0
        (storeOf carolTotp) =
      (.ok ⟨AuthService.sample.createAccessToken carolId false 0 0, "bearer", 900⟩,
        storeOf carolTotp) := by
    rfl
  exact .totp h.1 h.2 rfl List.mem_cons_self hverify List.mem_cons_self rfl

/-- The token of the second factor carries version 0 and is refused at once. -/
theorem totp_login_unusable : ¬ CompletedLoginsUsable AuthService.sample := by
  intro h
  obtain ⟨ctx, hctx, _⟩ := h carolTotp _ 0 carolTotp (storeOf carolTotp) 60000000 (by decide)
    carol_totp_flow List.mem_cons_self ⟨by decide, by decide⟩
  obtain ⟨payload, w, hdec, hres, _⟩ := AuthService.resolveJwtUser_ok_iff.1 hctx
  cases hdec
  cases List.mem_singleton.1 hres.mem
  exact absurd hres.version (by decide)

end

end ScottyCore
