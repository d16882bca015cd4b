import ScottyCore.Auth.Tokens

namespace ScottyCore
open Python
set_option autoImplicit true

/-! ## `services/users/service.py`, one transaction a method -/

structure UserCreate where
  email : String
  password : String
  display_name : String
  role : RoleName

structure UserUpdate where
  display_name : Option String := none
  is_active : Option Bool := none
  role : Option RoleName := none

structure UserContext where
  user_id : Uuid
  email : String
  display_name : String
  is_superadmin : Bool
  totp_enabled : Bool := false
  tenant_roles : List (String × RoleName)
  deriving DecidableEq

/-- `_ROLE_MAP.get(role_id, RoleName.VIEWER)` -/
def roleOfId (role_id : Int) : RoleName :=
  if role_id = 2 then .analyst
  else if role_id = 3 then .admin
  else if role_id = 4 then .superadmin
  else .viewer

def externalAuthSentinel : String := "_external_auth_no_password_"

namespace UserStore

variable (auth : AuthService Token) (store : UserStore)

def userCount : Nat := store.users.rows.length

def getByEmail (email : String) : Option User := store.users.getByEmail email

def getById (user_id : Uuid) : Option User := store.users.getById user_id

def getPasswordHash (email : String) : Option String :=
  (store.users.getByEmail email).map User.password_hash

def emailTaken (email : String) : AppError :=
  .conflict ("User with email '" ++ email ++ "' already exists")

def insertUser (u : User) : Except AppError (User × UserStore) :=
  (store.users.insert u).map fun users => (u, { store with users := users })

def updateUser (user_id : Uuid) (changes : UserChanges) : UserStore :=
  { store with users := store.users.update user_id changes }

def getRoleByName (name : String) : Except AppError Role :=
  match store.roles.find? fun r => r.name = name with
  | some r => .ok r
  | none => .error (.notFound "Role" name)

def assignRole (user_id tenant_id : Uuid) (role_id : Int) : UserStore :=
  { store with user_tenant_roles := store.user_tenant_roles ++ [⟨user_id, tenant_id, role_id⟩] }

/-- `create_for_tenant`. The new key and the salt come from outside. -/
def createForTenant (tenant_id : Uuid) (data : UserCreate) (id : Uuid) (salt : Nat) :
    Except AppError (User × UserStore) :=
  match store.getByEmail data.email with
  | some _ => .error (emailTaken data.email)
  | none => do
    let (u, store) ← store.insertUser
      { id := id, email := data.email, password_hash := auth.hashPassword salt data.password,
        display_name := data.display_name }
    let role ← store.getRoleByName data.role.value
    return (u, store.assignRole id tenant_id role.id)

def createSuperadmin (email password display_name : String) (id : Uuid) (salt : Nat) :
    Except AppError (User × UserStore) :=
  match store.getByEmail email with
  | some _ => .error (emailTaken email)
  | none =>
    store.insertUser
      { id := id, email := email, password_hash := auth.hashPassword salt password,
        display_name := display_name, is_superadmin := true }

/-- `create_external_user`: an existing user is returned as it is. -/
def createExternalUser (email display_name : String) (id : Uuid) (salt : Nat) :
    Except AppError (User × UserStore) :=
  match store.getByEmail email with
  | some existing => .ok (existing, store)
  | none =>
    store.insertUser
      { id := id, email := email, password_hash := auth.hashPassword salt externalAuthSentinel,
        display_name := display_name }

def userNotFound (user_id : Uuid) : AppError := .notFound "User" user_id.str

/-- The changes of `update_for_tenant`: a deactivation bumps the session version. -/
def tenantChanges (data : UserUpdate) (u : User) : UserChanges where
  display_name := data.display_name
  is_active := data.is_active
  session_version := if data.is_active = some false then some (u.session_version + 1) else none

/-- The role part of `update_for_tenant`. -/
def setTenantRole (tenant_id user_id : Uuid) (role : RoleName) : Except AppError UserStore := do
  let r ← store.getRoleByName role.value
  if store.user_tenant_roles.any fun utr => utr.user_id = user_id ∧ utr.tenant_id = tenant_id then
    return { store with
      user_tenant_roles := store.user_tenant_roles.map fun utr =>
        if utr.user_id = user_id ∧ utr.tenant_id = tenant_id then { utr with role_id := r.id }
        else utr }
  else return store.assignRole user_id tenant_id r.id

def updateForTenant (tenant_id user_id : Uuid) (data : UserUpdate) : Except AppError UserStore :=
  match store.getById user_id with
  | none => .error (userNotFound user_id)
  | some u =>
    let store := store.updateUser user_id (tenantChanges data u)
    match data.role with
    | none => .ok store
    | some role => store.setTenantRole tenant_id user_id role

def deactivateForTenant (tenant_id user_id : Uuid) : Except AppError UserStore :=
  store.updateForTenant tenant_id user_id { is_active := some false }

def updateProfile (user_id : Uuid) (display_name : String) : Except AppError UserStore :=
  match store.getById user_id with
  | none => .error (userNotFound user_id)
  | some _ => .ok (store.updateUser user_id { display_name := some display_name })

/-- The changes of `change_password`. -/
def passwordChanges (new_hash : String) (u : User) : UserChanges where
  password_hash := some new_hash
  session_version := some (u.session_version + 1)

def changePassword (user_id : Uuid) (current_password new_password : String) (salt : Nat) :
    Except AppError UserStore :=
  match store.getById user_id with
  | none => .error (userNotFound user_id)
  | some u =>
    if auth.verifyPassword current_password u.password_hash then
      .ok (store.updateUser user_id
        (passwordChanges (auth.hashPassword salt new_password) u))
    else .error (.authentication "Current password is incorrect")

def promoteToSuperadmin (email : String) : UserStore :=
  match store.getByEmail email with
  | none => store
  | some u =>
    if u.is_superadmin then store else store.updateUser u.id { is_superadmin := some true }

def setTotp (user_id : Uuid) (secret : String) (backup_codes : List String) :
    Except AppError UserStore :=
  match store.getById user_id with
  | none => .error (userNotFound user_id)
  | some _ => .ok (store.updateUser user_id
      { totp_secret := some (some secret), totp_enabled := some true,
        backup_codes := some (some backup_codes) })

def clearTotp (user_id : Uuid) : Except AppError UserStore :=
  match store.getById user_id with
  | none => .error (userNotFound user_id)
  | some _ => .ok (store.updateUser user_id
      { totp_secret := some none, totp_enabled := some false, backup_codes := some none })

def getTotpFields (user_id : Uuid) : Option String × Bool × Option (List String) :=
  match store.getById user_id with
  | none => (none, false, none)
  | some u => (u.totp_secret, u.totp_enabled, u.backup_codes)

def consumeBackupCode (user_id : Uuid) (remaining : List String) : UserStore :=
  match store.getById user_id with
  | none => store
  | some _ => store.updateUser user_id { backup_codes := some (some remaining) }

/-- `slug_roles[slug] = role` -/
def setSlug (slug_roles : List (String × RoleName)) (slug : String) (role : RoleName) :
    List (String × RoleName) :=
  if slug_roles.any fun p => p.1 = slug then
    slug_roles.map fun p => if p.1 = slug then (slug, role) else p
  else slug_roles ++ [(slug, role)]

/-- The roles of a user by tenant slug. Roles in deleted tenants are skipped. -/
def slugRoles (user_id : Uuid) : List (String × RoleName) :=
  (store.user_tenant_roles.filter fun utr => utr.user_id = user_id).foldl (fun roles utr =>
    match store.tenants.find? fun t => t.id = utr.tenant_id with
    | none => roles
    | some t => setSlug roles t.slug (roleOfId utr.role_id)) []

def buildUserContext (u : User) : UserContext where
  user_id := u.id
  email := u.email
  display_name := u.display_name
  is_superadmin := u.is_superadmin
  totp_enabled := u.totp_enabled
  tenant_roles := store.slugRoles u.id

end UserStore

end ScottyCore
