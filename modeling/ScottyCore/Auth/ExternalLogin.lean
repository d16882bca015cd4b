import ScottyCore.Users.Runs

namespace ScottyCore
open Python TransitionSystem
set_option autoImplicit true

/-! ## What `login` answers -/

namespace AuthService

variable {auth : AuthService Token} {store : UserStore}

/-- The user's stored hash and state let a password in. -/
def Admits (auth : AuthService Token) (u : User) (password : String) : Prop :=
  u.password_hash ≠ "" ∧ auth.verifyPassword password u.password_hash = true ∧ u.is_active = true

instance : Decidable (Admits auth u password) :=
  inferInstanceAs (Decidable (_ ∧ _ ∧ _))

theorem login_eq (auth : AuthService Token) (email password ip_address : String) (now : Int)
    (store : UserStore) :
    (auth.login email password ip_address now store).1 =
      match auth.checkLockout (auth.normalise email) now store with
      | .error e => .error e
      | .ok true => .error invalidCredentials
      | .ok false =>
        match store.getByEmail (auth.normalise email) with
        | none => .error invalidCredentials
        | some u =>
          if auth.Admits u password then .ok (auth.loginResponse u now)
          else .error invalidCredentials := by
  unfold login
  simp only
  cases hlock : auth.checkLockout (auth.normalise email) now store with
  | error e => rfl
  | ok locked =>
    cases locked with
    | true => rfl
    | false =>
      simp only [UserStore.getPasswordHash, UserStore.getByEmail]
      cases hu : store.users.getByEmail (auth.normalise email) with
      | none => rfl
      | some u =>
        simp only [Option.map_some]
        by_cases hpass : u.password_hash = "" ∨
            ¬ auth.verifyPassword password u.password_hash = true
        · rw [if_pos hpass, if_neg]
          rintro ⟨hne, hv, _⟩
          exact hpass.elim hne fun h => h hv
        · obtain ⟨hne, hv⟩ := not_or.1 hpass
          rw [if_neg hpass]
          cases hact : u.is_active with
          | false =>
            rw [if_pos (by rfl), if_neg]
            rintro ⟨_, _, ha⟩
            rw [hact] at ha
            cases ha
          | true =>
            rw [if_neg (by simp), if_pos ⟨hne, not_not.1 hv, hact⟩]

theorem login_ok_iff :
    (auth.login email password ip_address now store).1 = .ok r ↔
      auth.checkLockout (auth.normalise email) now store = .ok false ∧
        ∃ u, store.getByEmail (auth.normalise email) = some u ∧ auth.Admits u password ∧
          r = auth.loginResponse u now := by
  rw [login_eq]
  constructor
  · intro h
    split at h
    · cases h
    · cases h
    · rename_i hlock
      split at h
      · cases h
      · rename_i u hu
        split at h
        · rename_i hadmits
          exact ⟨hlock, u, hu, hadmits, (Except.ok.inj h).symm⟩
        · cases h
  · rintro ⟨hlock, u, hu, hadmits, rfl⟩
    rw [hlock, hu]
    exact if_pos hadmits

theorem checkLockout_error (h : auth.checkLockout email now store = .error e) :
    ∃ err, e = .unexpected err := by
  unfold checkLockout at h
  simp only at h
  split at h
  · cases h
  · split at h
    · cases h
    · split at h
      · cases h
        exact ⟨_, rfl⟩
      · cases h

/-- A token of the response carries the user's key. -/
def IssuedFor (auth : AuthService Token) (r : LoginResponse Token) (user_id : Uuid) : Prop :=
  ∃ claims, claims.sub = some user_id ∧
    (r.access_token = some (auth.libs.jwt.encode auth.settings.jwt_secret_key claims) ∨
      r.partial_token = some (auth.libs.jwt.encode auth.settings.jwt_secret_key claims))

theorem issuedFor_loginResponse (hj : auth.libs.jwt.Lawful) (u : User) (now : Int)
    (user_id : Uuid) : auth.IssuedFor (auth.loginResponse u now) user_id ↔ user_id = u.id := by
  have hinj : ∀ (claims : TokenClaims) pending sv, claims.sub = some user_id →
      some (auth.createAccessToken u.id pending sv now) =
        some (auth.libs.jwt.encode auth.settings.jwt_secret_key claims) → user_id = u.id := by
    intro claims pending sv hsub he
    have hclaims := hj.injective (Option.some.inj he)
    rw [← hclaims] at hsub
    exact (Option.some.inj hsub).symm
  unfold loginResponse
  by_cases htotp : u.totp_enabled = true
  · rw [if_pos htotp]
    constructor
    · rintro ⟨claims, hsub, h | h⟩
      · cases h
      · exact hinj claims _ _ hsub h
    · rintro rfl
      exact ⟨_, rfl, .inr rfl⟩
  · rw [if_neg htotp]
    constructor
    · rintro ⟨claims, hsub, h | h⟩
      · exact hinj claims _ _ hsub h
      · cases h
    · rintro rfl
      exact ⟨_, rfl, .inl rfl⟩

/-- `login` keeps a user out: their email only gets an `AuthenticationError`, and no email gets a
token of theirs. -/
def KeepsOut (auth : AuthService Token) (store : UserStore) (u : User)
    (email password ip_address : String) (now : Int) : Prop :=
  (auth.normalise email = u.email →
    ∃ message, (auth.login email password ip_address now store).1 =
      .error (.authentication message)) ∧
  ∀ r, (auth.login email password ip_address now store).1 = .ok r → ¬ auth.IssuedFor r u.id

theorem keepsOut_iff (hj : auth.libs.jwt.Lawful) (hu : u ∈ store.users) :
    auth.KeepsOut store u email password ip_address now ↔
      (auth.normalise email = u.email → ∃ locked,
        auth.checkLockout u.email now store = .ok locked ∧
          (locked = true ∨ ¬ auth.Admits u password)) := by
  by_cases hemail : auth.normalise email = u.email
  · have hfind : store.getByEmail (auth.normalise email) = some u :=
      UserTable.getByEmail_eq_some.2 ⟨hu, hemail.symm⟩
    rw [KeepsOut, login_eq, hfind, hemail]
    cases hlock : auth.checkLockout u.email now store with
    | error e =>
      obtain ⟨err, rfl⟩ := checkLockout_error hlock
      constructor
      · rintro ⟨h, _⟩
        obtain ⟨message, h⟩ := h rfl
        cases h
      · intro h
        obtain ⟨locked, h, _⟩ := h rfl
        cases h
    | ok locked =>
      cases locked with
      | true => exact ⟨fun _ _ => ⟨true, rfl, .inl rfl⟩, fun _ => ⟨fun _ => ⟨_, rfl⟩, nofun⟩⟩
      | false =>
        by_cases hadmits : auth.Admits u password
        · simp only [if_pos hadmits]
          constructor
          · rintro ⟨_, h⟩
            exact (h _ rfl ((issuedFor_loginResponse hj u now u.id).2 rfl)).elim
          · intro h
            obtain ⟨locked, hl, h⟩ := h trivial
            cases hl
            exact (h.resolve_left (by simp) hadmits).elim
        · simp only [if_neg hadmits]
          exact ⟨fun _ _ => ⟨false, rfl, .inr hadmits⟩, fun _ => ⟨fun _ => ⟨_, rfl⟩, nofun⟩⟩
  · refine ⟨fun _ h => (hemail h).elim, fun _ => ⟨fun h => (hemail h).elim, ?_⟩⟩
    intro r hr hissued
    obtain ⟨_, v, hv, _, rfl⟩ := login_ok_iff.1 hr
    obtain ⟨hv, he⟩ := UserTable.getByEmail_eq_some.1 hv
    have hid : u.id = v.id := (issuedFor_loginResponse hj v now u.id).1 hissued
    rw [UserTable.eq_of_id hu hv hid] at hemail
    exact hemail he.symm

end AuthService

/-! ## Users of an external provider -/

/-- In every run `login` keeps out a user whose hash only external provisioning set exactly when
the email is not theirs, or the lockout check answers and it locks them out, or the password is
not the sentinel, or they are deactivated. -/
theorem external_login_iff {auth : AuthService Token} (hb : auth.libs.pwd_context.Exact)
    (hj : auth.libs.jwt.Lawful) (h₀ : s₀.Fresh) (hrun : Run (UserStep auth) s₀ as s)
    (hu : u ∈ s.store.users) (hext : u.id ∈ s.external) (email password ip_address : String)
    (now : Int) :
    auth.KeepsOut s.store u email password ip_address now ↔
      (auth.normalise email = u.email → ∃ locked,
        auth.checkLockout u.email now s.store = .ok locked ∧
          (locked = true ∨ password ≠ externalAuthSentinel ∨ u.is_active = false)) := by
  obtain ⟨salt, hhash⟩ := (externalInv_run h₀ hrun).sentinel u hu hext
  have hadmits : auth.Admits u password ↔ password = externalAuthSentinel ∧ u.is_active = true := by
    rw [AuthService.Admits, hhash]
    constructor
    · rintro ⟨_, hv, ha⟩
      exact ⟨(hb.verify_iff _ _ salt).1 hv, ha⟩
    · rintro ⟨rfl, ha⟩
      exact ⟨hb.hash_ne _ _, (hb.verify_iff _ _ salt).2 rfl, ha⟩
  rw [AuthService.keepsOut_iff hj hu, hadmits, not_and_or, Bool.not_eq_true]

/-- In every run no external user can log in locally. -/
def ExternalUsersKeptOut (auth : AuthService Token) : Prop :=
  ∀ s₀ as s u email password ip_address now, s₀.Fresh → Run (UserStep auth) s₀ as s →
    u ∈ s.store.users → u.id ∈ s.external → auth.KeepsOut s.store u email password ip_address now

section

def emptyStore : UserState := ⟨⟨.empty, [⟨1, "viewer"⟩], [], [], []⟩, []⟩

def eveId : Uuid := ⟨0x11111111111141118111111111111111⟩

def eve : User where
  id := eveId
  email := "eve@example.org"
  password_hash := "hash:_external_auth_no_password_"
  display_name := "Eve"

def eveProvisioned : UserState where
  store :=
    { emptyStore.store with
      users := ⟨[eve], List.nodup_singleton _, List.nodup_singleton _⟩ }
  external := [eveId]

theorem eve_run : Run (UserStep AuthService.sample) emptyStore [.provision "eve@example.org"]
    eveProvisioned := by
  have hprovision : AuthService.sample.provision "eve@example.org" eveId 0 emptyStore.store =
      .ok (eve, eveProvisioned.store) := rfl
  exact .single (.provision (by decide) rfl hprovision)

theorem eve_kept_out : AuthService.sample.KeepsOut eveProvisioned.store eve "eve@example.org"
      "guess" "127.0.0.1" 0 ↔
    (AuthService.sample.normalise "eve@example.org" = eve.email → ∃ locked,
      AuthService.sample.checkLockout eve.email 0 eveProvisioned.store = .ok locked ∧
        (locked = true ∨ "guess" ≠ externalAuthSentinel ∨ eve.is_active = false)) :=
  external_login_iff CryptContext.plain_exact Jose.plain_lawful ⟨rfl, rfl⟩ eve_run
    List.mem_cons_self List.mem_cons_self _ _ _ _

/-- The sentinel logs a provisioned user in. -/
theorem external_user_logs_in : ¬ ExternalUsersKeptOut AuthService.sample := by
  intro h
  have hout := (h _ _ _ eve " Eve@example.org" externalAuthSentinel "127.0.0.1" 0 ⟨rfl, rfl⟩ eve_run
    List.mem_cons_self List.mem_cons_self).2
  refine hout (AuthService.sample.loginResponse eve 0) ?_ ⟨_, rfl, .inl rfl⟩
  exact AuthService.login_ok_iff.2
    ⟨by decide +kernel, eve, by decide +kernel, by decide +kernel, rfl⟩

end

end ScottyCore
