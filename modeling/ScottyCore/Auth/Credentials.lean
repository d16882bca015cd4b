import ScottyCore.Auth.ExternalLogin
import ScottyCore.Auth.Setup
import ScottyCore.Lib.Raise

namespace ScottyCore
open Python TransitionSystem
set_option autoImplicit true

/-! ## What the request schemas accept -/

def LoginRequest.accepted (body : LoginRequest) : Bool :=
  body.email.length ≤ 254 ∧ 1 ≤ body.password.length ∧ body.password.length ≤ 1000

def UserCreate.accepted (data : UserCreate) : Bool :=
  3 ≤ data.email.length ∧ data.email.length ≤ 254 ∧ 8 ≤ data.password.length ∧
    1 ≤ data.display_name.length ∧ data.display_name.length ≤ 200

/-- `POST /auth/login`: nothing when the body is refused with 422. -/
def postLogin (auth : AuthService Token) (body : LoginRequest) (ip_address : String) (now : Int)
    (store : UserStore) : Option (Except AppError (LoginResponse Token)) :=
  if body.accepted then some (auth.login body.email body.password ip_address now store).1 else none

/-! ## Credentials of created users -/

/-- A password context verifies every password against its own hashes, and no hash is empty. -/
def CryptContext.VerifiesOwn (c : CryptContext) : Prop :=
  ∀ p salt, c.verify p (c.hash salt p) = true ∧ c.hash salt p ≠ ""

theorem CryptContext.Exact.verifiesOwn {c : CryptContext} (h : c.Exact) : c.VerifiesOwn :=
  fun p salt => ⟨(h.verify_iff p p salt).2 rfl, h.hash_ne salt p⟩

/-- A user was created with the credentials, through one of the two schemas. -/
def Created (as : List UserAction) (email password : String) : Prop :=
  (∃ tenant_id data, .createForTenant tenant_id data ∈ as ∧ data.accepted = true ∧
    data.email = email ∧ data.password = password) ∨
  ∃ display_name, .createSuperadmin email password display_name ∈ as ∧
    LoginRequest.accepted ⟨email, password⟩ = true

/-- The credentials that users were created with log these in, while the stored hash is of the
password, the user is active and the lockout check passes. -/
def CredentialsWork (auth : AuthService Token) (as : List UserAction) (store : UserStore) : Prop :=
  ∀ email password u ip_address now, Created as email password → u ∈ store.users →
    u.email = email → (∃ salt, u.password_hash = auth.hashPassword salt password) →
    u.is_active = true → auth.checkLockout (auth.normalise email) now store = .ok false →
    postLogin auth ⟨email, password⟩ ip_address now store = some (.ok (auth.loginResponse u now))

/-- `login` does not take one user's email for another's. -/
def Distinguishable (auth : AuthService Token) (store : UserStore) : Prop :=
  ∀ u v : User, u ∈ store.users → v ∈ store.users →
    auth.normalise u.email = auth.normalise v.email → u = v

/-- Users are created under emails that are stripped and lower case, with passwords that `login`
accepts. -/
def CreatesTypable (auth : AuthService Token) : UserAction → Prop
  | .createForTenant _ data => auth.normalise data.email = data.email ∧ data.password.length ≤ 1000
  | .createSuperadmin email _ _ => auth.normalise email = email
  | .provision email => auth.normalise email = email
  | _ => True

def EmailsNormalised (auth : AuthService Token) (store : UserStore) : Prop :=
  ∀ u : User, u ∈ store.users → auth.normalise u.email = u.email

theorem postLogin_ok {auth : AuthService Token} {store : UserStore}
    (hb : auth.libs.pwd_context.VerifiesOwn) (haccepted : body.accepted = true)
    (hu : u ∈ store.users) (hemail : u.email = auth.normalise body.email)
    (hhash : u.password_hash = auth.hashPassword salt body.password) (hactive : u.is_active = true)
    (hlock : auth.checkLockout (auth.normalise body.email) now store = .ok false) :
    postLogin auth body ip_address now store = some (.ok (auth.loginResponse u now)) := by
  obtain ⟨hverify, hne⟩ := hb body.password salt
  have hadmits : auth.Admits u body.password := by
    unfold AuthService.Admits
    rw [hhash]
    exact ⟨hne, hverify, hactive⟩
  unfold postLogin
  rw [if_pos haccepted]
  exact congrArg some (AuthService.login_ok_iff.2
    ⟨hlock, u, UserTable.getByEmail_eq_some.2 ⟨hu, hemail⟩, hadmits, rfl⟩)

/-! ## The emails of stored users -/

section

variable {auth : AuthService Token} {store store' : UserStore}

theorem EmailsNormalised.insert (hi : EmailsNormalised auth store)
    (hins : store.users.insert u = .ok store'.users) (hu : auth.normalise u.email = u.email) :
    EmailsNormalised auth store' := by
  intro v hv
  rcases (UserTable.mem_insert hins).1.1 hv with hv | rfl
  · exact hi v hv
  · exact hu

theorem EmailsNormalised.update (hi : EmailsNormalised auth store)
    (hupd : store'.users = store.users.update user_id c) : EmailsNormalised auth store' := by
  intro v hv
  rw [hupd] at hv
  obtain ⟨u, hu, rfl⟩ := UserTable.mem_update.1 hv
  split
  · exact hi u hu
  · exact hi u hu

end

theorem CreatesTypable.normalised {auth : AuthService Token} (h : CreatesTypable auth a)
    (he : a.inserts = some email) : auth.normalise email = email := by
  cases a with
  | createForTenant _ data => cases he; exact h.1
  | createSuperadmin => cases he; exact h
  | provision => cases he; exact h
  | _ => cases he

theorem emailsNormalised_step {auth : AuthService Token} (hi : EmailsNormalised auth s.store)
    (h : UserStep auth s a s') (hguard : CreatesTypable auth a) :
    EmailsNormalised auth s'.store := by
  cases h.rowEffect with
  | insert u hemail hins => exact hi.insert hins (hguard.normalised hemail)
  | update user_id c hupd => exact hi.update hupd
  | none hsame =>
    intro v hv
    exact hi v (hsame ▸ hv)

/-- In every run that creates users under stripped lower-case emails, with passwords that `login`
accepts, the credentials of created users work and no two users are taken for each other. -/
theorem created_credentials_work {auth : AuthService Token}
    (hb : auth.libs.pwd_context.VerifiesOwn) (h₀ : s₀.Fresh)
    (hrun : Run (Guarded (UserStep auth) fun _ => CreatesTypable auth) s₀ as s) :
    CredentialsWork auth as s.store ∧ Distinguishable auth s.store := by
  have hnormalised : EmailsNormalised auth s.store := by
    refine hrun.invariant (I := fun s => EmailsNormalised auth s.store) ?_
      fun hi hstep => emailsNormalised_step hi hstep.1 hstep.2
    intro u hu
    rw [h₀.1] at hu
    cases hu
  constructor
  · rintro email password u ip_address now hcreated hu rfl ⟨salt, hhash⟩ hactive hlock
    refine postLogin_ok hb ?_ hu (hnormalised u hu).symm hhash hactive hlock
    rcases hcreated with ⟨tenant_id, data, hmem, hacc, hemail, rfl⟩ | ⟨display_name, hmem, hacc⟩
    · have hguard : _ ∧ data.password.length ≤ 1000 := hrun.label_of_guarded hmem
      obtain ⟨_, hlong, hpass, _, _⟩ := of_decide_eq_true hacc
      have hbounds : u.email.length ≤ 254 ∧ 1 ≤ data.password.length ∧
          data.password.length ≤ 1000 := ⟨hemail ▸ hlong, by omega, hguard.2⟩
      exact decide_eq_true hbounds
    · exact hacc
  · intro u v hu hv hsame
    rw [hnormalised u hu, hnormalised v hv] at hsame
    exact UserTable.eq_of_email hu hv hsame

/-- In every run the credentials of created users work and no two users are taken for each
other. -/
def CreatedCredentialsWork (auth : AuthService Token) : Prop :=
  ∀ s₀ as s, s₀.Fresh → Run (UserStep auth) s₀ as s →
    CredentialsWork auth as s.store ∧ Distinguishable auth s.store

section

def danData (email : String) : UserCreate := ⟨email, "correct horse", "Dan", .viewer⟩

def danId : Uuid := ⟨0x44444444444444448444444444444444⟩

def dan (email : String) : User where
  id := danId
  email := email
  password_hash := "hash:correct horse"
  display_name := "Dan"

def danCreated (email : String) : UserState where
  store :=
    { emptyStore.store with
      users := ⟨[dan email], List.nodup_singleton _, List.nodup_singleton _⟩
      user_tenant_roles := [⟨danId, ⟨0xa⟩, 1⟩] }
  external := []

theorem dan_step (email : String) : UserStep AuthService.sample emptyStore
    (.createForTenant ⟨0xa⟩ (danData email)) (danCreated email) := by
  have hcreate : emptyStore.store.createForTenant AuthService.sample ⟨0xa⟩ (danData email)
      danId 0 = .ok (dan email, (danCreated email).store) := rfl
  have hid : danId.version = 4 := by decide
  exact .createForTenant hid hcreate

theorem dan_credentials_work :
    CredentialsWork AuthService.sample [.createForTenant ⟨0xa⟩ (danData "dan@example.org")]
        (danCreated "dan@example.org").store ∧
      Distinguishable AuthService.sample (danCreated "dan@example.org").store :=
  have hnorm : AuthService.sample.normalise "dan@example.org" = "dan@example.org" := by
    decide +kernel
  created_credentials_work CryptContext.plain_exact.verifiesOwn ⟨rfl, rfl⟩
    (.single ⟨dan_step _, hnorm, by decide⟩)

/-- A user created under an email with a capital letter cannot log in with it. -/
theorem capital_email_cannot_login : ¬ CreatedCredentialsWork AuthService.sample := by
  intro h
  have hwork := (h _ _ _ ⟨rfl, rfl⟩ (.single (dan_step "Dan@example.org"))).1
  have hlogin := hwork "Dan@example.org" "correct horse" (dan "Dan@example.org") "127.0.0.1" 0
    (.inl ⟨_, _, List.mem_cons_self, by decide, rfl, rfl⟩) List.mem_cons_self rfl ⟨0, by decide⟩ rfl
    (by decide +kernel)
  unfold postLogin at hlogin
  rw [if_pos (by decide)] at hlogin
  obtain ⟨_, u, hu, _⟩ := AuthService.login_ok_iff.1 (Option.some.inj hlogin)
  have hnone : (danCreated "Dan@example.org").store.getByEmail
      (AuthService.sample.normalise "Dan@example.org") = none := by decide +kernel
  cases hnone.symm.trans hu

end

end ScottyCore
