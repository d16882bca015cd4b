import ScottyCore.Auth.Resolver
import ScottyCore.Lib.Raise
import ScottyCore.Lib.Run

namespace ScottyCore
open Python TransitionSystem
set_option autoImplicit true

/-! ## The user store over time -/

/-- The store, and the users that external provisioning created and whose password nobody
changed since. No step reads the second. -/
structure UserState where
  store : UserStore
  external : List Uuid

inductive UserAction where
  | createForTenant (tenant_id : Uuid) (data : UserCreate)
  | createSuperadmin (email password display_name : String)
  | provision (email : String)
  | updateForTenant (tenant_id user_id : Uuid) (data : UserUpdate)
  | updateProfile (user_id : Uuid) (display_name : String)
  | changePassword (user_id : Uuid) (current_password new_password : String)
  | promoteToSuperadmin (email : String)
  | setTotp (user_id : Uuid)
  | clearTotp (user_id : Uuid)
  | consumeBackupCode (user_id : Uuid)
  | other

/-- One transaction of a service. New keys come from `uuid4`. -/
inductive UserStep (auth : AuthService Token) : UserState → UserAction → UserState → Prop where
  | createForTenant : new_id.version = 4 →
      s.store.createForTenant auth tenant_id data new_id salt = .ok (u, store) →
      UserStep auth s (.createForTenant tenant_id data) { s with store := store }
  -- POST /auth/setup and the start of the app
  | createSuperadmin : new_id.version = 4 →
      s.store.createSuperadmin auth email password display_name new_id salt = .ok (u, store) →
      UserStep auth s (.createSuperadmin email password display_name) { s with store := store }
  -- both branches of `_resolve_external_user` for an unknown email
  | provision : new_id.version = 4 → s.store.getByEmail email = none →
      auth.provision email new_id salt s.store = .ok (u, store) →
      UserStep auth s (.provision email) { store := store, external := new_id :: s.external }
  | updateForTenant : s.store.updateForTenant tenant_id user_id data = .ok store →
      UserStep auth s (.updateForTenant tenant_id user_id data) { s with store := store }
  | updateProfile : s.store.updateProfile user_id display_name = .ok store →
      UserStep auth s (.updateProfile user_id display_name) { s with store := store }
  | changePassword :
      s.store.changePassword auth user_id current_password new_password salt = .ok store →
      UserStep auth s (.changePassword user_id current_password new_password)
        { store := store, external := s.external.filter (· ≠ user_id) }
  | promoteToSuperadmin : UserStep auth s (.promoteToSuperadmin email)
      { s with store := s.store.promoteToSuperadmin email }
  | setTotp : s.store.setTotp user_id secret backup_codes = .ok store →
      UserStep auth s (.setTotp user_id) { s with store := store }
  | clearTotp : s.store.clearTotp user_id = .ok store →
      UserStep auth s (.clearTotp user_id) { s with store := store }
  | consumeBackupCode : UserStep auth s (.consumeBackupCode user_id)
      { s with store := s.store.consumeBackupCode user_id remaining }
  -- tenants, roles, login attempts
  | other : store.users = s.store.users → UserStep auth s .other { s with store := store }

def UserState.Fresh (s : UserState) : Prop := s.store.users = .empty ∧ s.external = []

/-! ## What one transaction does to `users` -/

theorem users_insertUser {store store' : UserStore} (h : store.insertUser u = .ok (u', store')) :
    u' = u ∧ store.users.insert u = .ok store'.users := by
  obtain ⟨users, hins, hr⟩ := map_eq_ok.1 h
  cases hr
  exact ⟨rfl, hins⟩

/-- A row is inserted, under a key, an email and a hash. -/
structure Inserts (store store' : UserStore) (new_id : Uuid) (email password_hash : String)
    (u : User) : Prop where
  id : u.id = new_id
  email : u.email = email
  hash : u.password_hash = password_hash
  users : store.users.insert u = .ok store'.users

theorem setTenantRole_ok {store store' : UserStore}
    (h : store.setTenantRole tenant_id user_id role = .ok store') :
    ∃ roles, store' = { store with user_tenant_roles := roles } := by
  obtain ⟨r, _, h⟩ := bind_eq_ok.1 h
  split at h
  · cases h
    exact ⟨_, rfl⟩
  · cases h
    exact ⟨_, rfl⟩

theorem users_setTenantRole {store store' : UserStore}
    (h : store.setTenantRole tenant_id user_id role = .ok store') :
    store'.users = store.users := by
  obtain ⟨_, rfl⟩ := setTenantRole_ok h
  rfl

section

variable {auth : AuthService Token} {store store' : UserStore}

theorem inserts_createForTenant
    (h : store.createForTenant auth tenant_id data new_id salt = .ok (u, store')) :
    Inserts store store' new_id data.email (auth.hashPassword salt data.password) u := by
  unfold UserStore.createForTenant at h
  split at h
  · cases h
  · obtain ⟨⟨v, inserted⟩, hv, h⟩ := bind_eq_ok.1 h
    obtain ⟨rfl, hins⟩ := users_insertUser hv
    obtain ⟨role, _, h⟩ := bind_eq_ok.1 h
    cases h
    exact ⟨rfl, rfl, rfl, hins⟩

theorem inserts_createSuperadmin
    (h : store.createSuperadmin auth email password display_name new_id salt = .ok (u, store')) :
    Inserts store store' new_id email (auth.hashPassword salt password) u := by
  unfold UserStore.createSuperadmin at h
  split at h
  · cases h
  · obtain ⟨rfl, hins⟩ := users_insertUser h
    exact ⟨rfl, rfl, rfl, hins⟩

theorem inserts_createExternalUser (hnone : store.getByEmail email = none)
    (h : store.createExternalUser auth email display_name new_id salt = .ok (u, store')) :
    Inserts store store' new_id email (auth.hashPassword salt externalAuthSentinel) u := by
  unfold UserStore.createExternalUser at h
  rw [hnone] at h
  obtain ⟨rfl, hins⟩ := users_insertUser h
  exact ⟨rfl, rfl, rfl, hins⟩

theorem inserts_provision (hnone : store.getByEmail email = none)
    (h : auth.provision email new_id salt store = .ok (u, store')) :
    Inserts store store' new_id email (auth.hashPassword salt externalAuthSentinel) u := by
  unfold AuthService.provision at h
  rw [hnone] at h
  simp only at h
  split at h
  · exact inserts_createSuperadmin h
  · exact inserts_createExternalUser hnone h

theorem users_updateForTenant
    (h : store.updateForTenant tenant_id user_id data = .ok store') :
    ∃ u, store.getById user_id = some u ∧
      store'.users = store.users.update user_id (UserStore.tenantChanges data u) := by
  unfold UserStore.updateForTenant at h
  split at h
  · cases h
  · rename_i u hu
    refine ⟨u, hu, ?_⟩
    simp only at h
    split at h
    · cases h; rfl
    · rw [users_setTenantRole h]; rfl

theorem users_changePassword
    (h : store.changePassword auth user_id current new salt = .ok store') :
    ∃ u, store.getById user_id = some u ∧ auth.verifyPassword current u.password_hash = true ∧
      store'.users = store.users.update user_id
        (UserStore.passwordChanges (auth.hashPassword salt new) u) := by
  unfold UserStore.changePassword at h
  split at h
  · cases h
  · rename_i u hu
    split at h
    · rename_i hv
      cases h
      exact ⟨u, hu, hv, rfl⟩
    · cases h

theorem users_updateProfile (h : store.updateProfile user_id display_name = .ok store') :
    store'.users = store.users.update user_id { display_name := some display_name } := by
  unfold UserStore.updateProfile at h
  split at h
  · cases h
  · cases h
    rfl

theorem users_setTotp (h : store.setTotp user_id secret codes = .ok store') :
    store'.users = store.users.update user_id
      { totp_secret := some (some secret), totp_enabled := some true,
        backup_codes := some (some codes) } := by
  unfold UserStore.setTotp at h
  split at h
  · cases h
  · cases h
    rfl

theorem users_clearTotp (h : store.clearTotp user_id = .ok store') :
    store'.users = store.users.update user_id
      { totp_secret := some none, totp_enabled := some false, backup_codes := some none } := by
  unfold UserStore.clearTotp at h
  split at h
  · cases h
  · cases h
    rfl

theorem users_consumeBackupCode (store : UserStore) (user_id : Uuid) (remaining : List String) :
    (store.consumeBackupCode user_id remaining).users = store.users ∨
      (store.consumeBackupCode user_id remaining).users =
        store.users.update user_id { backup_codes := some (some remaining) } := by
  unfold UserStore.consumeBackupCode
  split
  · exact .inl rfl
  · exact .inr rfl

theorem users_promoteToSuperadmin (store : UserStore) (email : String) :
    (store.promoteToSuperadmin email).users = store.users ∨
      ∃ u : User, (store.promoteToSuperadmin email).users =
        store.users.update u.id { is_superadmin := some true } := by
  unfold UserStore.promoteToSuperadmin
  split
  · exact .inl rfl
  · rename_i u _
    split
    · exact .inl rfl
    · exact .inr ⟨u, rfl⟩

end

variable {auth : AuthService Token}

/-- What a step does to the table `users`. -/
inductive UserEffect (auth : AuthService Token) (s s' : UserState) : Prop where
  | insert (u : User) : u.id.version = 4 → s.store.users.insert u = .ok s'.store.users →
      s'.external = s.external → UserEffect auth s s'
  | provision (u : User) (salt : Nat) : u.id.version = 4 →
      s.store.users.insert u = .ok s'.store.users →
      u.password_hash = auth.hashPassword salt externalAuthSentinel →
      s'.external = u.id :: s.external → UserEffect auth s s'
  | update (user_id : Uuid) (c : UserChanges) : s'.store.users = s.store.users.update user_id c →
      c.password_hash = none → s'.external = s.external → UserEffect auth s s'
  | password (user_id : Uuid) (c : UserChanges) : s'.store.users = s.store.users.update user_id c →
      s'.external = s.external.filter (· ≠ user_id) → UserEffect auth s s'
  | none : s'.store.users = s.store.users → s'.external = s.external → UserEffect auth s s'

theorem UserStep.effect (h : UserStep auth s a s') : UserEffect auth s s' := by
  cases h with
  | createForTenant hid h =>
    have hins := inserts_createForTenant h
    exact .insert _ (hins.id ▸ hid) hins.users rfl
  | createSuperadmin hid h =>
    have hins := inserts_createSuperadmin h
    exact .insert _ (hins.id ▸ hid) hins.users rfl
  | provision hid hnone h =>
    have hins := inserts_provision hnone h
    exact .provision _ _ (hins.id ▸ hid) hins.users hins.hash (hins.id ▸ rfl)
  | updateForTenant h =>
    obtain ⟨u, _, hupd⟩ := users_updateForTenant h
    exact .update _ _ hupd rfl rfl
  | updateProfile h => exact .update _ _ (users_updateProfile h) rfl rfl
  | changePassword h =>
    obtain ⟨u, _, _, hupd⟩ := users_changePassword h
    exact .password _ _ hupd rfl
  | promoteToSuperadmin =>
    rcases users_promoteToSuperadmin s.store _ with h | ⟨u, h⟩
    · exact .none h rfl
    · exact .update _ _ h rfl rfl
  | setTotp h => exact .update _ _ (users_setTotp h) rfl rfl
  | clearTotp h => exact .update _ _ (users_clearTotp h) rfl rfl
  | consumeBackupCode =>
    rcases users_consumeBackupCode s.store _ _ with h | h
    · exact .none h rfl
    · exact .update _ _ h rfl rfl
  | other h => exact .none h rfl

/-- The email that a transaction inserts a user under. -/
def UserAction.inserts : UserAction → Option String
  | .createForTenant _ data => some data.email
  | .createSuperadmin email _ _ => some email
  | .provision email => some email
  | _ => none

/-- What a step does to the rows, with who is inserted, deactivated or given a password. -/
inductive RowEffect (auth : AuthService Token) (s : UserState) (a : UserAction) (s' : UserState) :
    Prop where
  | insert (u : User) : a.inserts = some u.email → s.store.users.insert u = .ok s'.store.users →
      RowEffect auth s a s'
  | update (user_id : Uuid) (c : UserChanges) : s'.store.users = s.store.users.update user_id c →
      c.is_superadmin ≠ some false →
      (c.is_active = some false → ∃ tenant_id data,
        a = .updateForTenant tenant_id user_id data ∧ data.is_active = some false) →
      (∀ hash, c.password_hash = some hash → ∃ current new salt,
        a = .changePassword user_id current new ∧ hash = auth.hashPassword salt new) →
      RowEffect auth s a s'
  | none : s'.store.users = s.store.users → RowEffect auth s a s'

theorem UserStep.rowEffect (h : UserStep auth s a s') : RowEffect auth s a s' := by
  cases h with
  | createForTenant _ h =>
    have hins := inserts_createForTenant h
    exact .insert _ (congrArg some hins.email.symm) hins.users
  | createSuperadmin _ h =>
    have hins := inserts_createSuperadmin h
    exact .insert _ (congrArg some hins.email.symm) hins.users
  | provision _ hnone h =>
    have hins := inserts_provision hnone h
    exact .insert _ (congrArg some hins.email.symm) hins.users
  | updateForTenant h =>
    obtain ⟨u, _, hupd⟩ := users_updateForTenant h
    exact .update _ _ hupd nofun (fun hoff => ⟨_, _, rfl, hoff⟩) nofun
  | updateProfile h => exact .update _ _ (users_updateProfile h) nofun nofun nofun
  | changePassword h =>
    obtain ⟨u, _, _, hupd⟩ := users_changePassword h
    exact .update _ _ hupd nofun nofun fun hash he => ⟨_, _, _, rfl, (Option.some.inj he).symm⟩
  | promoteToSuperadmin =>
    rcases users_promoteToSuperadmin s.store _ with h | ⟨u, h⟩
    · exact .none h
    · exact .update _ _ h nofun nofun nofun
  | setTotp h => exact .update _ _ (users_setTotp h) nofun nofun nofun
  | clearTotp h => exact .update _ _ (users_clearTotp h) nofun nofun nofun
  | consumeBackupCode =>
    rcases users_consumeBackupCode s.store _ _ with h | h
    · exact .none h
    · exact .update _ _ h nofun nofun nofun
  | other h => exact .none h

/-! ## Invariants of every run -/

/-- Every user's key is a version 4 UUID. -/
def KeysAreRandom (s : UserState) : Prop := ∀ u : User, u ∈ s.store.users → u.id.version = 4

/-- A user is external only while it exists and holds a hash of the sentinel. -/
structure ExternalInv (auth : AuthService Token) (s : UserState) : Prop where
  exists_user : ∀ user_id ∈ s.external, ∃ u : User, u ∈ s.store.users ∧ u.id = user_id
  sentinel : ∀ u : User, u ∈ s.store.users → u.id ∈ s.external →
    ∃ salt, u.password_hash = auth.hashPassword salt externalAuthSentinel

theorem keysAreRandom_step (hi : KeysAreRandom s) (h : UserStep auth s a s') :
    KeysAreRandom s' := by
  intro v hv
  have hinsert : ∀ u : User, u.id.version = 4 → s.store.users.insert u = .ok s'.store.users →
      v.id.version = 4 := by
    intro u hid hins
    rcases (UserTable.mem_insert hins).1.1 hv with hv | rfl
    · exact hi v hv
    · exact hid
  have hupdate : ∀ user_id c, s'.store.users = s.store.users.update user_id c →
      v.id.version = 4 := by
    intro user_id c hupd
    rw [hupd] at hv
    obtain ⟨u, hu, rfl⟩ := UserTable.mem_update.1 hv
    split
    · exact hi u hu
    · exact hi u hu
  cases h.effect with
  | insert u hid hins => exact hinsert u hid hins
  | provision u salt hid hins => exact hinsert u hid hins
  | update user_id c hupd => exact hupdate user_id c hupd
  | password user_id c hupd => exact hupdate user_id c hupd
  | none hsame => exact hi v (hsame ▸ hv)

theorem ExternalInv.insert (hi : ExternalInv auth s)
    (hins : s.store.users.insert u = .ok s'.store.users) (hext : s'.external = s.external) :
    ExternalInv auth s' := by
  have hmem := fun v => (UserTable.mem_insert (v := v) hins).1
  constructor
  · intro user_id hu
    obtain ⟨v, hv, he⟩ := hi.exists_user user_id (hext ▸ hu)
    exact ⟨v, (hmem v).2 (.inl hv), he⟩
  · intro v hv hin
    rw [hext] at hin
    rcases (hmem v).1 hv with hv | rfl
    · exact hi.sentinel v hv hin
    · -- a new key is nobody's
      obtain ⟨w, hw, he⟩ := hi.exists_user _ hin
      exact ((UserTable.mem_insert (v := v) hins).2 w hw he).elim

theorem ExternalInv.provision (hi : ExternalInv auth s)
    (hins : s.store.users.insert u = .ok s'.store.users)
    (hhash : u.password_hash = auth.hashPassword salt externalAuthSentinel)
    (hext : s'.external = u.id :: s.external) : ExternalInv auth s' := by
  have hmem := fun v => (UserTable.mem_insert (v := v) hins).1
  constructor
  · intro user_id hu
    rw [hext] at hu
    rcases List.mem_cons.1 hu with rfl | hu
    · exact ⟨u, (hmem u).2 (.inr rfl), rfl⟩
    · obtain ⟨v, hv, he⟩ := hi.exists_user user_id hu
      exact ⟨v, (hmem v).2 (.inl hv), he⟩
  · intro v hv hin
    rcases (hmem v).1 hv with hv | rfl
    · rw [hext] at hin
      rcases List.mem_cons.1 hin with he | hin
      · exact ((UserTable.mem_insert (v := v) hins).2 v hv he).elim
      · exact hi.sentinel v hv hin
    · exact ⟨salt, hhash⟩

theorem ExternalInv.update (hi : ExternalInv auth s)
    (hupd : s'.store.users = s.store.users.update user_id c) (hpass : c.password_hash = none)
    (hext : s'.external = s.external) : ExternalInv auth s' := by
  constructor
  · intro i hin
    rw [hupd]
    exact UserTable.exists_id_update (hi.exists_user i (hext ▸ hin)) user_id c
  · intro v hv hin
    rw [hupd] at hv
    obtain ⟨u, hu, rfl⟩ := UserTable.mem_update.1 hv
    rw [hext] at hin
    split at hin
    · rename_i he
      rw [if_pos he]
      obtain ⟨salt, hhash⟩ := hi.sentinel u hu hin
      refine ⟨salt, ?_⟩
      rw [← hhash, UserChanges.apply, hpass]
      rfl
    · rename_i he
      rw [if_neg he]
      exact hi.sentinel u hu hin

theorem ExternalInv.password (hi : ExternalInv auth s)
    (hupd : s'.store.users = s.store.users.update user_id c)
    (hext : s'.external = s.external.filter (· ≠ user_id)) : ExternalInv auth s' := by
  constructor
  · intro i hin
    rw [hext, List.mem_filter] at hin
    rw [hupd]
    exact UserTable.exists_id_update (hi.exists_user i hin.1) user_id c
  · intro v hv hin
    rw [hupd] at hv
    obtain ⟨u, hu, rfl⟩ := UserTable.mem_update.1 hv
    rw [hext, List.mem_filter] at hin
    split at hin
    · rename_i he
      exact ((of_decide_eq_true hin.2) he).elim
    · rename_i he
      rw [if_neg he]
      exact hi.sentinel u hu hin.1

theorem externalInv_step (hi : ExternalInv auth s) (h : UserStep auth s a s') :
    ExternalInv auth s' := by
  cases h.effect with
  | insert u hid hins hext => exact hi.insert hins hext
  | provision u salt hid hins hhash hext => exact hi.provision hins hhash hext
  | update user_id c hupd hpass hext => exact hi.update hupd hpass hext
  | password user_id c hupd hext => exact hi.password hupd hext
  | none hsame hext =>
    constructor
    · intro i hin
      obtain ⟨v, hv, he⟩ := hi.exists_user i (hext ▸ hin)
      exact ⟨v, hsame ▸ hv, he⟩
    · intro v hv hin
      exact hi.sentinel v (hsame ▸ hv) (hext ▸ hin)

theorem keysAreRandom_run (h₀ : s₀.Fresh) (h : Run (UserStep auth) s₀ as s) :
    KeysAreRandom s := by
  refine h.invariant ?_ keysAreRandom_step
  intro u hu
  rw [h₀.1] at hu
  cases hu

theorem externalInv_run (h₀ : s₀.Fresh) (h : Run (UserStep auth) s₀ as s) :
    ExternalInv auth s := by
  refine h.invariant ?_ externalInv_step
  constructor
  · intro i hi
    rw [h₀.2] at hi
    cases hi
  · intro u hu
    rw [h₀.1] at hu
    cases hu

end ScottyCore
