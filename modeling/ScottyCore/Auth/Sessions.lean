import ScottyCore.Auth.CompletedLogin

namespace ScottyCore
open Python TransitionSystem
set_option autoImplicit true

/-! ## The two halves of a mutation -/

/-- A call of `change_password` or of `update_for_tenant` that passed its checks. -/
inductive Mutation where
  | changePassword (new_hash : String)
  | updateForTenant (tenant_id : Uuid) (data : UserUpdate)

/-- What the call sets, given the row that it read. -/
def Mutation.changes (row : User) : Mutation → UserChanges
  | changePassword new_hash => UserStore.passwordChanges new_hash row
  | updateForTenant _ data => UserStore.tenantChanges data row

/-- A password change, or a deactivation. -/
def Mutation.revokes : Mutation → Bool
  | changePassword _ => true
  | updateForTenant _ data => data.is_active = some false

def Mutation.passwords : Mutation → Nat
  | changePassword _ => 1
  | updateForTenant _ _ => 0

/-- SQLAlchemy's UPDATE sets the columns whose value is not the one it loaded. -/
def UserChanges.dirty (c : UserChanges) (row : User) : UserChanges where
  password_hash := c.password_hash.filter (· ≠ row.password_hash)
  display_name := c.display_name.filter (· ≠ row.display_name)
  is_active := c.is_active.filter (· ≠ row.is_active)
  is_superadmin := c.is_superadmin.filter (· ≠ row.is_superadmin)
  totp_secret := c.totp_secret.filter (· ≠ row.totp_secret)
  totp_enabled := c.totp_enabled.filter (· ≠ row.totp_enabled)
  backup_codes := c.backup_codes.filter (· ≠ row.backup_codes)
  session_version := c.session_version.filter (· ≠ row.session_version)

theorem getD_filter_ne [DecidableEq α] (o : Option α) (a : α) :
    (o.filter (· ≠ a)).getD a = o.getD a := by
  cases o with
  | none => rfl
  | some b =>
    rw [Option.filter_some]
    by_cases h : b = a
    · simp [h]
    · simp [h]

theorem UserChanges.dirty_apply (c : UserChanges) (row : User) :
    (c.dirty row).apply row = c.apply row := by
  simp only [apply, dirty, getD_filter_ne]

namespace UserStore

/-- The second half of a mutation: the UPDATE from the row that the first half read, then the
role. -/
def write (store : UserStore) (user_id : Uuid) (row : User) (m : Mutation) :
    Except AppError UserStore :=
  let store := store.updateUser user_id ((m.changes row).dirty row)
  match m with
  | .changePassword _ => .ok store
  | .updateForTenant tenant_id data =>
    match data.role with
    | none => .ok store
    | some role => store.setTenantRole tenant_id user_id role

variable {store store' : UserStore}

theorem updateUser_dirty (hu : store.getById user_id = some row) (c : UserChanges) :
    store.updateUser user_id (c.dirty row) = store.updateUser user_id c := by
  obtain ⟨hmem, rfl⟩ := UserTable.getById_eq_some.1 hu
  have hrows : UserTable.updateRows store.users.rows row.id (c.dirty row) =
      UserTable.updateRows store.users.rows row.id c := by
    apply List.map_congr_left
    intro v hv
    split
    · rename_i hid
      rw [UserTable.eq_of_id hv hmem hid]
      exact c.dirty_apply row
    · rfl
  unfold updateUser UserTable.update
  simp only [hrows]

/-- `change_password` in one piece is its check and then its writing half. -/
theorem changePassword_eq (auth : AuthService Token) (store : UserStore) :
    store.changePassword auth user_id current_password new_password salt =
      match store.getById user_id with
      | none => .error (userNotFound user_id)
      | some row =>
        if auth.verifyPassword current_password row.password_hash then
          store.write user_id row (.changePassword (auth.hashPassword salt new_password))
        else .error (.authentication "Current password is incorrect") := by
  unfold changePassword
  cases hu : store.getById user_id with
  | none => rfl
  | some row =>
    simp only [write, Mutation.changes]
    rw [updateUser_dirty hu]

/-- `update_for_tenant` in one piece is its writing half over the row that it reads. -/
theorem updateForTenant_eq (store : UserStore) :
    store.updateForTenant tenant_id user_id data =
      match store.getById user_id with
      | none => .error (userNotFound user_id)
      | some row => store.write user_id row (.updateForTenant tenant_id data) := by
  unfold updateForTenant
  cases hu : store.getById user_id with
  | none => rfl
  | some row =>
    cases hrole : data.role with
    | none =>
      simp only [write, Mutation.changes, hrole]
      rw [updateUser_dirty hu]
    | some role =>
      simp only [write, Mutation.changes, hrole]
      rw [updateUser_dirty hu]

theorem users_write (h : store.write user_id row m = .ok store') :
    store'.users = store.users.update user_id ((m.changes row).dirty row) := by
  unfold write at h
  cases m with
  | changePassword new_hash =>
    cases h
    rfl
  | updateForTenant tenant_id data =>
    simp only at h
    split at h
    · cases h
      rfl
    · exact users_setTenantRole h

theorem getById_write (hu : store.getById user_id = some u)
    (h : store.write user_id row m = .ok store') :
    store'.getById user_id = some (((m.changes row).dirty row).apply u) := by
  unfold getById
  rw [users_write h]
  exact UserTable.getById_update hu

end UserStore

/-- A mutation that revokes writes the successor of the version that it read. -/
theorem Mutation.version_of_revokes {m : Mutation} (h : m.revokes = true) (row u : User) :
    (((m.changes row).dirty row).apply u).session_version = row.session_version + 1 := by
  have hset : (m.changes row).session_version = some (row.session_version + 1) := by
    cases m with
    | changePassword new_hash => rfl
    | updateForTenant tenant_id data => exact if_pos (of_decide_eq_true h)
  have hne : row.session_version + 1 ≠ row.session_version := by omega
  simp [UserChanges.apply, UserChanges.dirty, hset, Option.filter_some, hne]

/-- Over an older version than the stored one it does not raise the version. -/
theorem Mutation.version_of_stale {m : Mutation} (h : m.revokes = true)
    (hstale : row.session_version < u.session_version) :
    (((m.changes row).dirty row).apply u).session_version ≤ u.session_version := by
  rw [version_of_revokes h]
  omega

theorem Mutation.version_of_not_revokes {m : Mutation} (h : m.revokes = false) (row u : User) :
    (((m.changes row).dirty row).apply u).session_version = u.session_version := by
  have hset : (m.changes row).session_version = none := by
    cases m with
    | changePassword new_hash => cases h
    | updateForTenant tenant_id data => exact if_neg (of_decide_eq_false h)
  simp [UserChanges.apply, UserChanges.dirty, hset]

theorem Mutation.passwords_of_not_revokes {m : Mutation} (h : m.revokes = false) :
    m.passwords = 0 := by
  cases m with
  | changePassword new_hash => cases h
  | updateForTenant tenant_id data => rfl

/-! ## The two halves of `login` -/

namespace AuthService

/-- The first half, past the lockout check: the stored hash verifies. -/
def passwordVerified (auth : AuthService Token) (email_lower password : String)
    (store : UserStore) : Bool :=
  match store.getPasswordHash email_lower with
  | none => false
  | some password_hash => password_hash ≠ "" && auth.verifyPassword password password_hash

/-- The second half: the answer for the user that is now read. -/
def answerLogin (auth : AuthService Token) (email_lower : String) (now : Int)
    (store : UserStore) : Except AppError (LoginResponse Token) :=
  match store.getByEmail email_lower with
  | none => .error invalidCredentials
  | some user =>
    if user.is_active then .ok (auth.loginResponse user now) else .error invalidCredentials

variable {auth : AuthService Token} {store : UserStore}

theorem login_eq_halves
    (h : auth.checkLockout (auth.normalise email) now store = .ok false) :
    (auth.login email password ip_address now store).1 =
      if auth.passwordVerified (auth.normalise email) password store then
        auth.answerLogin (auth.normalise email) now store
      else .error invalidCredentials := by
  have hhash : store.getPasswordHash (auth.normalise email) =
      (store.getByEmail (auth.normalise email)).map User.password_hash := rfl
  rw [login_eq, h, passwordVerified, answerLogin, hhash]
  simp only
  cases store.getByEmail (auth.normalise email) with
  | none => rfl
  | some u =>
    have hadmits : auth.Admits u password ↔ (u.password_hash ≠ "" &&
        auth.verifyPassword password u.password_hash) = true ∧ u.is_active = true := by
      simp [Admits, and_assoc]
    simp only [Option.map_some]
    rw [if_congr hadmits rfl rfl, ite_and]

theorem answerLogin_access (h : auth.answerLogin email_lower now store = .ok r)
    (ht : r.access_token = some token) :
    ∃ u, store.getByEmail email_lower = some u ∧ u.is_active = true ∧ u.totp_enabled = false ∧
      token = auth.createAccessToken u.id false u.session_version now := by
  unfold answerLogin at h
  split at h
  · cases h
  · rename_i u hu
    split at h
    · rename_i hactive
      cases h
      unfold loginResponse at ht
      split at ht
      · cases ht
      · rename_i htotp
        exact ⟨u, hu, hactive, Bool.eq_false_of_not_eq_true htotp, (Option.some.inj ht).symm⟩
    · cases h

theorem not_resolves_of_version_lt (hj : auth.libs.jwt.Lawful)
    (hu : store.getById user_id = some u) (hsv : sv < u.session_version) (now : Int)
    (ctx : UserContext) :
    auth.resolveJwtUser (auth.createAccessToken user_id false sv minted) now store ≠ .ok ctx := by
  intro h
  obtain ⟨payload, v, hdec, hres, _⟩ := resolveJwtUser_ok_iff.1 h
  rw [createAccessToken, decodeToken_encode hj] at hdec
  split at hdec
  · cases hdec
  · cases hdec
    obtain ⟨hmem, rfl⟩ := UserTable.getById_eq_some.1 hu
    have hsame : v = u := UserTable.eq_of_id hres.mem hmem (Option.some.inj hres.sub).symm
    have hle : v.session_version ≤ sv := hres.version
    rw [hsame] at hle
    omega

end AuthService

/-! ## Calls in flight on one user -/

/-- A login that verified its password, with the password changes completed when it read the
hash. -/
structure LoginCall where
  passwords : Nat

structure MutationCall where
  mutation : Mutation
  row : User

/-- An access token of a login: the password changes completed when the login read the hash, and
the revoking mutations completed when the token was minted. -/
structure IssuedToken (Token : Type) where
  token : Token
  passwords : Nat
  revocations : Nat

/-- The store and the calls in flight, with the tokens issued so far, the number of completed
password changes, and the stored version before and after each completed mutation that revokes.
Nothing that a call answers or writes depends on the last two. -/
structure SessionState (Token : Type) where
  store : UserStore
  logins : List LoginCall := []
  mutations : List MutationCall := []
  tokens : List (IssuedToken Token) := []
  passwords : Nat := 0
  versions : List (Int × Int) := []

inductive SessionAction where
  | verify
  | answer (call : LoginCall)
  | read
  | write (call : MutationCall)
  | other

/-- A transaction of a call for the user with a key and an email. -/
inductive SessionStep (auth : AuthService Token) (user_id : Uuid) (email : String) :
    SessionState Token → SessionAction → SessionState Token → Prop where
  | verify : auth.passwordVerified email password s.store = true →
      SessionStep auth user_id email s .verify { s with logins := ⟨s.passwords⟩ :: s.logins }
  | issue {rest : List LoginCall} : s.logins.Perm (call :: rest) →
      auth.answerLogin email now s.store = .ok r → r.access_token = some token →
      SessionStep auth user_id email s (.answer call)
        { s with
          logins := rest
          tokens := ⟨token, call.passwords, s.versions.length⟩ :: s.tokens }
  -- an error, or a partial token
  | refuse {rest : List LoginCall} : s.logins.Perm (call :: rest) →
      (∀ r, auth.answerLogin email now s.store = .ok r → r.access_token = none) →
      SessionStep auth user_id email s (.answer call) { s with logins := rest }
  | readPassword : s.store.getById user_id = some row →
      auth.verifyPassword current_password row.password_hash = true →
      SessionStep auth user_id email s .read
        { s with
          mutations := ⟨.changePassword (auth.hashPassword salt new_password), row⟩ :: s.mutations }
  | readUpdate : s.store.getById user_id = some row →
      SessionStep auth user_id email s .read
        { s with mutations := ⟨.updateForTenant tenant_id data, row⟩ :: s.mutations }
  | write {rest : List MutationCall} : s.mutations.Perm (call :: rest) →
      s.store.write user_id call.row call.mutation = .ok store →
      s.store.getById user_id = some u → store.getById user_id = some v →
      SessionStep auth user_id email s (.write call)
        { s with
          store := store
          mutations := rest
          passwords := s.passwords + call.mutation.passwords
          versions :=
            if call.mutation.revokes then (u.session_version, v.session_version) :: s.versions
            else s.versions }
  -- transactions of other calls, which do not touch these columns of the user
  | other : s.store.getById user_id = some u → store.getById user_id = some v →
      v.email = u.email → v.password_hash = u.password_hash → v.is_active = u.is_active →
      v.session_version = u.session_version →
      SessionStep auth user_id email s .other { s with store := store }

/-- The user is stored, and no token was issued or revoked yet. -/
structure SessionState.Start (s : SessionState Token) (user_id : Uuid) (email : String) : Prop where
  user : ∃ u, s.store.getById user_id = some u ∧ u.email = email
  tokens : s.tokens = []
  versions : s.versions = []

/-- The sessions older than a password change or a deactivation are over, and each raised the
stored version. -/
structure SessionState.OlderRevoked (auth : AuthService Token) (s : SessionState Token) : Prop where
  refused : ∀ t ∈ s.tokens, t.passwords < s.passwords ∨ t.revocations < s.versions.length →
    ∀ now ctx, auth.resolveJwtUser t.token now s.store ≠ .ok ctx
  grows : ∀ v ∈ s.versions, v.1 < v.2

/-- No password change completed while a login was between its reads, and a mutation that revokes
writes over the version that it read. -/
def Undisturbed (user_id : Uuid) (email : String) (s : SessionState Token) : SessionAction → Prop
  | .answer call => ∀ u, s.store.getByEmail email = some u → u.is_active = true →
      u.totp_enabled = false → call.passwords = s.passwords
  | .write call => call.mutation.revokes = true → ∀ u, s.store.getById user_id = some u →
      u.session_version = call.row.session_version
  | _ => True

/-- A token of the user is not newer than the stored version, and older when something completed
since. -/
structure IssuedToken.Dated (auth : AuthService Token) (u : User) (passwords revocations : Nat)
    (t : IssuedToken Token) (sv minted : Int) : Prop where
  token : t.token = auth.createAccessToken u.id false sv minted
  le : sv ≤ u.session_version
  lt : t.passwords < passwords ∨ t.revocations < revocations → sv < u.session_version

structure SessionInv (auth : AuthService Token) (user_id : Uuid) (email : String)
    (s : SessionState Token) (u : User) : Prop where
  stored : s.store.getById user_id = some u
  same_email : u.email = email
  tokens : ∀ t ∈ s.tokens, ∃ sv minted, t.Dated auth u s.passwords s.versions.length sv minted
  grows : ∀ v ∈ s.versions, v.1 < v.2

theorem SessionInv.olderRevoked {auth : AuthService Token} (hj : auth.libs.jwt.Lawful)
    (h : SessionInv auth user_id email s u) : s.OlderRevoked auth where
  refused := by
    intro t ht hold now ctx
    obtain ⟨sv, minted, hdated⟩ := h.tokens t ht
    rw [hdated.token]
    refine AuthService.not_resolves_of_version_lt hj ?_ (hdated.lt hold) now ctx
    obtain ⟨hmem, _⟩ := UserTable.getById_eq_some.1 h.stored
    exact UserTable.getById_eq_some.2 ⟨hmem, rfl⟩
  grows := h.grows

variable {auth : AuthService Token}

theorem dated_of_lt {t : IssuedToken Token}
    (h : t.Dated auth u passwords revocations sv minted) (hid : v.id = u.id)
    (hlt : u.session_version < v.session_version) :
    t.Dated auth v passwords' revocations' sv minted := by
  have hle := h.le
  exact ⟨hid ▸ h.token, by omega, fun _ => by omega⟩

theorem dated_of_eq {t : IssuedToken Token}
    (h : t.Dated auth u passwords revocations sv minted) (hid : v.id = u.id)
    (hsame : v.session_version = u.session_version) :
    t.Dated auth v passwords revocations sv minted := by
  refine ⟨hid ▸ h.token, ?_, ?_⟩
  · rw [hsame]
    exact h.le
  · rw [hsame]
    exact h.lt

theorem sessionInv_write {s : SessionState Token} {call : MutationCall}
    (hi : SessionInv auth user_id email s u)
    (hwrite : s.store.write user_id call.row call.mutation = .ok store)
    (hv : store.getById user_id = some v)
    (hguard : Undisturbed user_id email s (.write call)) :
    SessionInv auth user_id email
      { s with
        store := store
        mutations := rest
        passwords := s.passwords + call.mutation.passwords
        versions :=
          if call.mutation.revokes then (u.session_version, v.session_version) :: s.versions
          else s.versions } v := by
  have hrow : v = ((call.mutation.changes call.row).dirty call.row).apply u :=
    Option.some.inj (hv.symm.trans (UserStore.getById_write hi.stored hwrite))
  have hid : v.id = u.id := by rw [hrow, UserChanges.apply_id]
  have hemail : v.email = email := by rw [hrow, UserChanges.apply_email, hi.same_email]
  cases hrevokes : call.mutation.revokes with
  | true =>
    have hread : u.session_version = call.row.session_version := hguard hrevokes u hi.stored
    have hlt : u.session_version < v.session_version := by
      rw [hrow, Mutation.version_of_revokes hrevokes, hread]
      omega
    refine ⟨hv, hemail, ?_, ?_⟩
    · intro t ht
      obtain ⟨sv, minted, hdated⟩ := hi.tokens t ht
      exact ⟨sv, minted, dated_of_lt hdated hid hlt⟩
    · intro p hp
      rcases List.mem_cons.1 hp with rfl | hp
      · exact hlt
      · exact hi.grows p hp
  | false =>
    have hsame : v.session_version = u.session_version := by
      rw [hrow, Mutation.version_of_not_revokes hrevokes]
    refine ⟨hv, hemail, ?_, hi.grows⟩
    intro t ht
    obtain ⟨sv, minted, hdated⟩ := hi.tokens t ht
    rw [Mutation.passwords_of_not_revokes hrevokes]
    exact ⟨sv, minted, dated_of_eq hdated hid hsame⟩

theorem sessionInv_step (hi : ∃ u, SessionInv auth user_id email s u)
    (h : Guarded (SessionStep auth user_id email) (Undisturbed user_id email) s a s') :
    ∃ u, SessionInv auth user_id email s' u := by
  obtain ⟨hstep, hguard⟩ := h
  obtain ⟨u, hi⟩ := hi
  cases hstep with
  | verify => exact ⟨u, hi.stored, hi.same_email, hi.tokens, hi.grows⟩
  | refuse => exact ⟨u, hi.stored, hi.same_email, hi.tokens, hi.grows⟩
  | readPassword => exact ⟨u, hi.stored, hi.same_email, hi.tokens, hi.grows⟩
  | readUpdate => exact ⟨u, hi.stored, hi.same_email, hi.tokens, hi.grows⟩
  | issue hcall hanswer htoken =>
    obtain ⟨v, hv, hactive, htotp, htok⟩ := AuthService.answerLogin_access hanswer htoken
    -- the row that was read is the user's
    obtain ⟨hvmem, hvemail⟩ := UserTable.getByEmail_eq_some.1 hv
    obtain ⟨humem, _⟩ := UserTable.getById_eq_some.1 hi.stored
    obtain rfl : v = u := UserTable.eq_of_email hvmem humem (hvemail.trans hi.same_email.symm)
    have hnone := hguard v hv hactive htotp
    refine ⟨v, hi.stored, hi.same_email, ?_, hi.grows⟩
    intro t ht
    rcases List.mem_cons.1 ht with rfl | ht
    · refine ⟨v.session_version, _, htok, Int.le_refl _, ?_⟩
      rintro (hlt | hlt)
      · exact absurd hlt (Nat.not_lt.2 (Nat.le_of_eq hnone.symm))
      · exact absurd hlt (Nat.lt_irrefl _)
    · exact hi.tokens t ht
  | write hcall hwrite hw hv =>
    cases hi.stored.symm.trans hw
    exact ⟨_, sessionInv_write hi hwrite hv hguard⟩
  | other hw hv hemail _ _ hversion =>
    cases hi.stored.symm.trans hw
    have hid : _ = u.id := (UserTable.getById_eq_some.1 hv).2.trans
      (UserTable.getById_eq_some.1 hi.stored).2.symm
    refine ⟨_, hv, hemail.trans hi.same_email, ?_, hi.grows⟩
    intro t ht
    obtain ⟨sv, minted, hdated⟩ := hi.tokens t ht
    exact ⟨sv, minted, dated_of_eq hdated hid hversion⟩

/-- In every run of calls that are not disturbed between their transactions, a password change or
a deactivation ends every older session and raises the stored version. -/
theorem older_sessions_revoked {auth : AuthService Token} (hj : auth.libs.jwt.Lawful)
    (h₀ : s₀.Start user_id email)
    (hrun : Run (Guarded (SessionStep auth user_id email) (Undisturbed user_id email)) s₀ as s) :
    s.OlderRevoked auth := by
  obtain ⟨u, hu, hemail⟩ := h₀.user
  have hinv : ∃ u, SessionInv auth user_id email s u := by
    refine hrun.invariant ⟨u, hu, hemail, ?_, ?_⟩ sessionInv_step
    · rw [h₀.tokens]
      exact nofun
    · rw [h₀.versions]
      exact nofun
  obtain ⟨v, hv⟩ := hinv
  exact hv.olderRevoked hj

/-- In every run of calls a password change or a deactivation ends every older session. -/
def OlderSessionsRevoked (auth : AuthService Token) : Prop :=
  ∀ user_id email s₀ as s, s₀.Start user_id email →
    Run (SessionStep auth user_id email) s₀ as s → s.OlderRevoked auth

section

def carolChanged : User :=
  { carol with
    password_hash := AuthService.sample.hashPassword 0 "battery staple"
    session_version := 2 }

def carolChanging : MutationCall :=
  ⟨.changePassword (AuthService.sample.hashPassword 0 "battery staple"), carol⟩

def carolToken₁ : String × TokenClaims := AuthService.sample.createAccessToken carolId false 1 0

def CarolStep : SessionState (String × TokenClaims) → SessionAction →
    SessionState (String × TokenClaims) → Prop :=
  SessionStep AuthService.sample carolId "carol@example.org"

theorem carol_verify : CarolStep ⟨storeOf carol, [], [], [], 0, []⟩ .verify
    ⟨storeOf carol, [⟨0⟩], [], [], 0, []⟩ := by
  have hverified : AuthService.sample.passwordVerified "carol@example.org" "correct horse"
      (storeOf carol) = true := by
    decide +kernel
  exact .verify hverified

theorem carol_answer (u : User) (hu : u = carol ∨ u = carolChanged) :
    CarolStep ⟨storeOf u, [⟨0⟩], [], [], passwords, versions⟩ (.answer ⟨0⟩)
      ⟨storeOf u, [], [],
        [⟨AuthService.sample.createAccessToken carolId false u.session_version 0, 0,
          versions.length⟩], passwords, versions⟩ := by
  have hanswer : AuthService.sample.answerLogin "carol@example.org" 0 (storeOf u) =
      .ok (AuthService.sample.loginResponse u 0) := by
    rcases hu with rfl | rfl
    · rfl
    · rfl
  refine .issue (.refl _) hanswer ?_
  rcases hu with rfl | rfl
  · rfl
  · rfl

theorem carol_read : CarolStep ⟨storeOf carol, logins, [], tokens, 0, []⟩ .read
    ⟨storeOf carol, logins, [carolChanging], tokens, 0, []⟩ := by
  have hcurrent : AuthService.sample.verifyPassword "correct horse" carol.password_hash = true := by
    decide +kernel
  exact .readPassword rfl hcurrent

theorem carol_write : CarolStep ⟨storeOf carol, logins, [carolChanging], tokens, 0, []⟩
    (.write carolChanging) ⟨storeOf carolChanged, logins, [], tokens, 1, [(1, 2)]⟩ := by
  have hwrite : (storeOf carol).write carolId carol carolChanging.mutation =
      .ok (storeOf carolChanged) := rfl
  exact .write (u := carol) (v := carolChanged) (.refl _) hwrite rfl rfl

theorem carol_start : SessionState.Start
    (⟨storeOf carol, [], [], [], 0, []⟩ : SessionState (String × TokenClaims)) carolId
      "carol@example.org" :=
  ⟨⟨carol, rfl, rfl⟩, rfl, rfl⟩

theorem carol_session_over : SessionState.OlderRevoked AuthService.sample
    ⟨storeOf carolChanged, [], [], [⟨carolToken₁, 0, 0⟩], 1, [(1, 2)]⟩ := by
  exact older_sessions_revoked Jose.plain_lawful carol_start
    (.snoc (.snoc (.snoc (.single ⟨carol_verify, trivial⟩)
      ⟨carol_answer carol (.inl rfl), fun _ _ _ _ => rfl⟩)
      ⟨carol_read, trivial⟩)
      ⟨carol_write, fun _ u hu => by cases hu; rfl⟩)

/-- A login that verified the old password gets a token of the new version. -/
theorem old_password_session : ¬ OlderSessionsRevoked AuthService.sample := by
  intro h
  have hover := h carolId "carol@example.org" _ _ _ carol_start
    (.snoc (.snoc (.snoc (.single carol_verify) carol_read) carol_write)
      (carol_answer carolChanged (.inr rfl)))
  have hnot := hover.refused _ List.mem_cons_self (.inl (by decide)) 0
    ((storeOf carolChanged).buildUserContext carolChanged)
  exact hnot (by decide +kernel)

end

end ScottyCore
